/-
This file is the sender of `examples/file_transfer.cpp` while it sends. A thread
opens its file, connects, reads chunk by chunk and hands each to `send` of its
session, and the environment may make any of these calls fail: a read may give
less than there is and nothing from then on, and a `send` that throws may have
put a first part of its bytes on the wire.

The functions of the earlier files say what a sender sends if nothing fails. Here
each part of the live code is shown to send a first part of that, and to return
without an exception only if it has sent all of it.
-/

import HyperLink.Evidence
import HyperLink.LiveTransfer

namespace HyperLink

open Threads

namespace Live

/-! ### The calls of a sender -/

/-- What a sending thread asks of its input stream and of its session. -/
inductive SendCall where
  | openInput (path : Path)
  | seekInput (offset : UInt64)
  | readInput (size : Nat)
  | readSymlink (path : Path)
  | connect
  | send (payload : Bytes)
  | close
  deriving DecidableEq, Repr

/-- Whether the stream is good, what was read, or whether the session threw. -/
abbrev SendReply : SendCall → Type
  | .openInput _ => Bool
  | .seekInput _ => Bool
  | .readInput _ => Bytes
  | .readSymlink _ => Option Bytes
  | .connect => Except Bytes Unit
  | .send _ => Except Bytes Unit
  | .close => Unit

/-- What a sending thread owns: its input, as the content and the position while the stream is
good, its connection, and what it has put on the wire. -/
structure SendStream where
  input : Option (Bytes × Nat) := none
  phase : Phase := .waiting
  wire : Bytes := []
  deriving DecidableEq

/-- What the environment does with a call: let it succeed, or make it fail with a text after so
many bytes. -/
structure SendChoice where
  fails : Bool := false
  count : Nat := 0
  text : Bytes := []
  deriving DecidableEq

/-- One call. A read that gives less than it was asked for leaves the stream bad. -/
def serve (source : Path → Option Node) (choice : SendChoice) :
    (request : SendCall) → SendStream → SendReply request × SendStream
  | .openInput path, stream =>
      match source path with
      | some (.file content _) =>
          if choice.fails then (false, { stream with input := none })
          else (true, { stream with input := some (content, 0) })
      | _ => (false, { stream with input := none })
  | .seekInput offset, stream =>
      if choice.fails ∨ maximumOffset < offset.toNat then (false, { stream with input := none })
      else (true, { stream with
        input := stream.input.map fun input => (input.1, offset.toNat) })
  | .readInput size, stream =>
      match stream.input with
      | none => ([], stream)
      | some (content, position) =>
          let chunk := (content.drop position).take size
          if choice.fails then (chunk.take choice.count, { stream with input := none })
          else (chunk, { stream with
            input := if chunk.length < size then none else some (content, position + size) })
  | .readSymlink path, stream =>
      match source path with
      | some (.symlink target) => (if choice.fails then none else some target, stream)
      | _ => (none, stream)
  | .connect, stream =>
      if stream.phase = .waiting then
        if choice.fails then (.error choice.text, stream)
        else (.ok (), { stream with phase := .connected })
      else (.ok (), stream)
  | .send payload, stream =>
      if stream.phase ≠ .connected then (.error (ascii "Session is not connected"), stream)
      else if choice.fails then
        (.error (ascii "send failed: " ++ choice.text),
          { stream with wire := stream.wire ++ payload.take choice.count })
      else (.ok (), { stream with wire := stream.wire ++ payload })
  | .close, stream => ((), { stream with phase := .closed })

/-! ### The code of one stream -/

/-- Code of a sending thread that returns or throws, with the bytes counted so far. -/
def SendCode (Value : Type) : Type :=
  UInt64 → Program SendCall SendReply (Except Error Value × UInt64)

namespace SendCode

variable {Value Other : Type}

def andThen (continuation : Value → SendCode Other) :
    Except Error Value × UInt64 → Program SendCall SendReply (Except Error Other × UInt64)
  | (.ok value, bytes) => continuation value bytes
  | (.error error, bytes) => .done (.error error, bytes)

instance : Monad SendCode where
  pure value := fun bytes => .done (.ok value, bytes)
  bind code continuation := fun bytes => (code bytes).bind (andThen continuation)

def fail (error : Error) : SendCode Value := fun bytes => .done (.error error, bytes)

def invoke (request : SendCall) : SendCode (SendReply request) := fun bytes =>
  .call request fun reply => .done (.ok reply, bytes)

def count (more : UInt64) : SendCode Unit := fun bytes => .done (.ok (), bytes + more)

@[simp]
theorem pure_apply (value : Value) (bytes : UInt64) :
    (pure value : SendCode Value) bytes = .done (.ok value, bytes) := rfl

@[simp]
theorem bind_apply (code : SendCode Value) (continuation : Value → SendCode Other)
    (bytes : UInt64) :
    (code >>= continuation) bytes = (code bytes).bind (andThen continuation) := rfl

@[simp]
theorem andThen_ok (continuation : Value → SendCode Other) (value : Value) (bytes : UInt64) :
    andThen continuation (.ok value, bytes) = continuation value bytes := rfl

@[simp]
theorem andThen_error (continuation : Value → SendCode Other) (error : Error) (bytes : UInt64) :
    andThen continuation (.error error, bytes) = .done (.error error, bytes) := rfl

@[simp]
theorem fail_apply (error : Error) (bytes : UInt64) :
    (fail error : SendCode Value) bytes = .done (.error error, bytes) := rfl

@[simp]
theorem invoke_apply (request : SendCall) (bytes : UInt64) :
    invoke request bytes = .call request fun reply => .done (.ok reply, bytes) := rfl

@[simp]
theorem count_apply (more bytes : UInt64) :
    count more bytes = .done (.ok (), bytes + more) := rfl

end SendCode

open SendCode

/-- `send` of the session, which lets the exception of the transport through. -/
def sendAll (payload : Bytes) : SendCode Unit := do
  match ← invoke (.send payload) with
  | .ok () => return ()
  | .error error => fail error

/-- The loop that copies a part of a file to the connection. -/
def sendChunks (missing : Nat) : SendCode Unit :=
  if _complete : missing = 0 then return ()
  else do
    let chunk ← invoke (.readInput (min missing kChunkBytes))
    if _ended : chunk.length = 0 then fail inputEnded
    else do
      sendAll chunk
      count (UInt64.ofNat chunk.length)
      sendChunks (missing - chunk.length)
termination_by missing
decreasing_by omega

/-- What is done with a connection. It is closed at the end, or by the destructor of the session
when an exception leaves the block. -/
def withSession (body : SendCode Unit) : SendCode Unit := do
  match ← invoke .connect with
  | .error text => fail text
  | .ok () => fun bytes => (body bytes).bind fun outcome => .call .close fun _ => .done outcome

/-- `send_file_range`. -/
def sendFileRange (options : Options) (filePath : Path) (remoteName : Bytes)
    (totalSize offset payloadSize : UInt64) : SendCode Unit := do
  let opened ← invoke (.openInput filePath)
  if opened = true then
    let found ← invoke (.seekInput offset)
    if found = true then
      withSession do
        let kind := if options.parallel > 1 then TransferKind.filePart else .file
        sendAll (makeHeader kind payloadSize (sizeField remoteName) offset totalSize)
        sendAll remoteName
        sendChunks payloadSize.toNat
    else fail (ascii "failed to seek input file")
  else fail (ascii "failed to open input payload: " ++ filePath.string)

/-- The payload of one item. -/
def sendItemPayload (item : DirectoryItem) : SendCode Unit :=
  match item.kind with
  | .directoryFile => do
      let opened ← invoke (.openInput item.source)
      if opened = true then sendChunks item.payloadSize.toNat
      else fail (ascii "failed to open input file: " ++ item.source.string)
  | .directorySymlink => do
      match ← invoke (.readSymlink item.source) with
      | some target => do
          sendAll target
          count (UInt64.ofNat target.length)
      | none => fail (filesystemError item.source)
  | _ => return ()

/-- The loop of `send_directory_items`. -/
def sendEachItem : List DirectoryItem → SendCode Unit
  | [] => return ()
  | item :: rest => do
      sendAll (makeHeader item.kind item.payloadSize (sizeField item.relativePath) item.mode 0)
      sendAll item.relativePath
      sendItemPayload item
      sendEachItem rest

/-- `send_directory_items`. -/
def sendDirectoryItems (items : List DirectoryItem) : SendCode Unit :=
  withSession (sendEachItem items)

/-- The thread of a stream, with the `catch` around its code. -/
def sending (code : SendCode Unit) : Program SendCall SendReply StreamResult :=
  (code 0).bind fun outcome => .done (result outcome)

/-! ### What a thread puts on the wire -/

section Contract

variable {source : Path → Option Node} {goal : Bytes} {Result Value Other : Type}

/-- On its own stream, whatever the environment does, the program puts no more on the wire than
a first part of `goal`, and ends in `post`. -/
abbrev Sending (source : Path → Option Node) (goal : Bytes)
    (program : Program SendCall SendReply Result) (post : Result → SendStream → Prop)
    (stream : SendStream) : Prop :=
  program.Meets (serve source) (fun _ _ _ => True) (fun stream => stream.wire <+: goal) Eq
    (fun _ _ => True) post stream

/-- What holds of the value of code that does not throw. -/
def Yields (post : Value → UInt64 → SendStream → Prop) (outcome : Except Error Value × UInt64)
    (stream : SendStream) : Prop :=
  ∀ value, outcome.1 = .ok value → post value outcome.2 stream

theorem sending_done {post : Result → SendStream → Prop} {result : Result} {stream : SendStream}
    (holds : post result stream) :
    Sending source goal (.done result : Program SendCall SendReply Result) post stream := by
  refine Program.Meets.done fun later same _ => ?_
  rwa [← same]

theorem sending_call {post : Result → SendStream → Prop} {request : SendCall}
    {next : SendReply request → Program SendCall SendReply Result} {stream : SendStream}
    (each : ∀ choice, (serve source choice request stream).2.wire <+: goal ∧
      Sending source goal (next (serve source choice request stream).1) post
        (serve source choice request stream).2) :
    Sending source goal (.call request next) post stream := by
  rintro later rfl - choice -
  exact ⟨(each choice).1, trivial, (each choice).2⟩

theorem sending_fail {post : Value → UInt64 → SendStream → Prop} (error : Error)
    {stream : SendStream} (bytes : UInt64) :
    Sending source goal ((fail error : SendCode Value) bytes) (Yields post) stream :=
  sending_done fun _ never => by cases never

theorem sending_pure {post : Value → UInt64 → SendStream → Prop} {value : Value}
    {stream : SendStream} {bytes : UInt64} (holds : post value bytes stream) :
    Sending source goal ((pure value : SendCode Value) bytes) (Yields post) stream :=
  sending_done fun _ same => by cases same; exact holds

theorem sending_weaken {middle post : Value → UInt64 → SendStream → Prop}
    {program : Program SendCall SendReply (Except Error Value × UInt64)} {stream : SendStream}
    (sends : Sending source goal program (Yields middle) stream)
    (implies : ∀ value counted later, middle value counted later → post value counted later) :
    Sending source goal program (Yields post) stream :=
  sends.weaken fun _ _ _ yields value returned => implies _ _ _ (yields value returned)

/-- The sequencing rule: what follows an exception does not happen. -/
theorem sending_bind {middle : Value → UInt64 → SendStream → Prop}
    {post : Other → UInt64 → SendStream → Prop} {code : SendCode Value}
    {continuation : Value → SendCode Other} {bytes : UInt64} {stream : SendStream}
    (first : Sending source goal (code bytes) (Yields middle) stream)
    (second : ∀ value counted later, middle value counted later →
      Sending source goal (continuation value counted) (Yields post) later) :
    Sending source goal ((code >>= continuation) bytes) (Yields post) stream := by
  rw [bind_apply]
  refine Program.Meets.bind (fun _ => rfl) (first.weaken fun outcome later _ ended => ?_)
  obtain ⟨reply, counted⟩ := outcome
  cases reply with
  | ok value => exact second value counted later (ended value rfl)
  | error error => exact sending_done fun _ never => by cases never

/-- A call, and what follows its reply. -/
theorem sending_invoke {post : Other → UInt64 → SendStream → Prop} {request : SendCall}
    {continuation : SendReply request → SendCode Other} {bytes : UInt64} {stream : SendStream}
    (each : ∀ choice, (serve source choice request stream).2.wire <+: goal ∧
      Sending source goal (continuation (serve source choice request stream).1 bytes)
        (Yields post) (serve source choice request stream).2) :
    Sending source goal ((invoke request >>= continuation) bytes) (Yields post) stream :=
  sending_call each

/-- `send` returns when all of its bytes are on the wire; else it throws. -/
theorem sendAll_sends {payload : Bytes} {stream : SendStream} (bytes : UInt64)
    (connected : stream.phase = .connected) (fits : stream.wire ++ payload <+: goal) :
    Sending source goal (sendAll payload bytes) (Yields fun _ counted later =>
      counted = bytes ∧ later = { stream with wire := stream.wire ++ payload }) stream := by
  refine sending_invoke fun choice => ?_
  have live : ¬ stream.phase ≠ .connected := not_not.mpr connected
  simp only [serve, if_neg live]
  split
  · refine ⟨?_, sending_fail _ _⟩
    exact ((List.prefix_append_right_inj _).mpr (List.take_prefix _ _)).trans fits
  · exact ⟨fits, sending_pure ⟨rfl, rfl⟩⟩

/-- A first part of some bytes, and those that are left. -/
theorem take_of_piece {bytes chunk : Bytes} {missing : Nat} (piece : chunk <+: bytes.take missing) :
    bytes.take missing = chunk ++ (bytes.drop chunk.length).take (missing - chunk.length) := by
  have short : chunk.length ≤ missing := piece.length_le.trans (List.length_take_le _ _)
  have front := List.prefix_iff_eq_take.mp (piece.trans (List.take_prefix _ _))
  conv_lhs => rw [← Nat.add_sub_cancel' short, List.take_add, ← front]

/-- A stream that has gone bad gives nothing more. -/
theorem sendChunks_bad {missing : Nat} {stream : SendStream} (bytes : UInt64)
    (more : missing ≠ 0) (bad : stream.input = none) (fits : stream.wire <+: goal)
    {post : Unit → UInt64 → SendStream → Prop} :
    Sending source goal (sendChunks missing bytes) (Yields post) stream := by
  rw [sendChunks, dif_neg more]
  refine sending_invoke fun choice => ?_
  simp only [serve, bad]
  exact ⟨fits, sending_fail _ _⟩

/-- The copying loop sends what its file holds, and returns only after all of it. -/
theorem sendChunks_sends {content : Bytes} {position missing : Nat} {stream : SendStream}
    (bytes : UInt64) (connected : stream.phase = .connected)
    (input : stream.input = some (content, position) ∨ stream.input = none)
    (fits : stream.wire ++ (content.drop position).take missing <+: goal) :
    Sending source goal (sendChunks missing bytes) (Yields fun _ counted later =>
      missing ≤ content.length - position ∧
      later.wire = stream.wire ++ (content.drop position).take missing ∧
      later.phase = .connected ∧ counted = bytes + UInt64.ofNat missing) stream := by
  induction missing using Nat.strong_induction_on generalizing position stream bytes with
  | _ missing inductionHypothesis =>
    by_cases complete : missing = 0
    · rw [sendChunks, dif_pos complete, complete]
      exact sending_pure ⟨Nat.zero_le _, (List.append_nil _).symm, connected,
        (UInt64.add_zero _).symm⟩
    have before : stream.wire <+: goal := (List.prefix_append _ _).trans fits
    rcases input with good | bad
    swap
    · exact sendChunks_bad bytes complete bad before
    rw [sendChunks, dif_neg complete]
    -- Whatever is read goes out, and the loop goes on behind it.
    have round : ∀ (chunk : Bytes) (later : SendStream),
        chunk <+: (content.drop position).take (min missing kChunkBytes) →
        later.phase = .connected → later.wire = stream.wire →
        (later.input = some (content, position + chunk.length) ∨ later.input = none) →
        Sending source goal ((if _ended : chunk.length = 0 then fail inputEnded
          else do
            sendAll chunk
            count (UInt64.ofNat chunk.length)
            sendChunks (missing - chunk.length) : SendCode Unit) bytes)
          (Yields fun _ counted later =>
            missing ≤ content.length - position ∧
            later.wire = stream.wire ++ (content.drop position).take missing ∧
            later.phase = .connected ∧ counted = bytes + UInt64.ofNat missing) later := by
      intro chunk later piece ready wire input
      by_cases ended : chunk.length = 0
      · rw [dif_pos ended]
        exact sending_fail _ _
      rw [dif_neg ended]
      have given := piece.length_le
      rw [List.length_take, List.length_drop] at given
      have short : chunk.length ≤ missing := by omega
      have inside : chunk <+: (content.drop position).take missing :=
        piece.trans (List.take_prefix_take_left (Nat.min_le_left _ _))
      rw [take_of_piece inside, List.drop_drop, ← List.append_assoc] at fits ⊢
      refine sending_bind (sendAll_sends bytes ready (wire ▸ (List.prefix_append _ _).trans fits))
        ?_
      rintro ⟨⟩ _ _ ⟨same, rfl⟩
      rw [same]
      show Sending source goal (sendChunks (missing - chunk.length)
        (bytes + UInt64.ofNat chunk.length)) _ _
      have less : missing - chunk.length < missing := by omega
      rw [← wire] at fits ⊢
      have rest := @inductionHypothesis _ less (position + chunk.length)
        { later with wire := later.wire ++ chunk } (bytes + UInt64.ofNat chunk.length) ready input
        fits
      refine sending_weaken rest ?_
      rintro ⟨⟩ counted last ⟨enough, sent, connected, total⟩
      refine ⟨by omega, sent, connected, total.trans ?_⟩
      rw [UInt64.add_assoc, ← UInt64.ofNat_add, Nat.add_sub_cancel' short]
    refine sending_invoke fun choice => ?_
    simp only [serve, good]
    split
    · exact ⟨before, round _ _ (List.take_prefix _ _) connected rfl (.inr rfl)⟩
    · refine ⟨before, round _ _ List.prefix_rfl connected rfl ?_⟩
      split
      · exact .inr rfl
      · rename_i full
        have exact := List.length_take_le (min missing kChunkBytes) (content.drop position)
        exact .inl (by rw [Nat.le_antisymm exact (Nat.le_of_not_lt full)])

/-- A session that is opened for some code is closed after it. -/
theorem withSession_sends {body : SendCode Unit} {post : UInt64 → SendStream → Prop}
    {stream : SendStream} (bytes : UInt64) (waiting : stream.phase = .waiting)
    (begins : stream.wire <+: goal)
    (inner : Sending source goal (body bytes)
      (Yields fun _ counted later => post counted { later with phase := .closed })
      { stream with phase := .connected }) :
    Sending source goal (withSession body bytes)
      (Yields fun _ counted later => post counted later) stream := by
  refine sending_invoke fun choice => ?_
  simp only [serve, if_pos waiting]
  split
  · exact ⟨begins, sending_fail _ _⟩
  · refine ⟨begins, Program.Meets.bind (fun _ => rfl) (Program.Meets.weaken
      inner fun outcome later kept ended => ?_)⟩
    exact sending_call fun _ => ⟨kept, sending_done ended⟩

/-! ### What a sender sends -/

/-- A thread that ends without an error has sent everything, and counted it. -/
def Ended (sent : Sent) (outcome : StreamResult) (stream : SendStream) : Prop :=
  outcome.error = none →
    outcome = sent.result ∧ stream.wire = sent.bytes ∧ stream.phase = .closed

/-- The copying loop, in one piece. -/
theorem sendPayload_slice (content : Bytes) (position missing : Nat) :
    sendPayload content position missing = ((content.drop position).take missing,
      if missing ≤ content.length - position then none else some inputEnded) := by
  induction missing using Nat.strong_induction_on generalizing position with
  | _ missing inductionHypothesis =>
    rw [sendPayload]
    by_cases complete : missing = 0
    · simp [complete]
    have wanted : 0 < min missing kChunkBytes :=
      Nat.lt_min.mpr ⟨Nat.pos_of_ne_zero complete, by decide⟩
    have length := @List.length_take _ (min missing kChunkBytes) (content.drop position)
    rw [List.length_drop] at length
    rw [dif_neg complete]
    by_cases ended : ((content.drop position).take (min missing kChunkBytes)).length = 0
    · have nothing : content.drop position = [] := List.drop_eq_nil_of_le (by omega)
      have short : ¬ missing ≤ content.length - position := by omega
      rw [dif_pos ended, nothing, List.take_nil, if_neg short]
    · rw [dif_neg ended, inductionHypothesis _ (by omega),
        take_of_piece (List.take_prefix_take_left (Nat.min_le_left missing kChunkBytes)),
        List.drop_drop]
      refine congrArg (Prod.mk _) (if_congr ?_ rfl rfl)
      omega

/-- The thread of code that, where it returns, has sent everything. -/
theorem sending_thread {code : SendCode Unit} {sent : Sent} {stream : SendStream}
    (sends : Sending source goal (code 0) (Yields fun _ counted later =>
      sent.result = ⟨counted, none⟩ ∧ later.wire = sent.bytes ∧ later.phase = .closed) stream) :
    Sending source goal (sending code) (Ended sent) stream := by
  refine Program.Meets.map result (sends.weaken fun outcome later _ yields clean => ?_)
  obtain ⟨reply, counted⟩ := outcome
  cases reply with
  | error error => cases clean
  | ok value =>
    obtain ⟨same, wire, closed⟩ := yields value rfl
    exact ⟨same.symm, wire, closed⟩

/-- An input that is opened is that of a file; a link that is read is a link. -/
theorem serve_openInput_cases (choice : SendChoice) (path : Path) (stream : SendStream) :
    serve source choice (.openInput path) stream = (false, { stream with input := none }) ∨
      ∃ content mode, source path = some (.file content mode) ∧
        serve source choice (.openInput path) stream =
          (true, { stream with input := some (content, 0) }) := by
  simp only [serve]
  cases found : source path with
  | none => exact .inl rfl
  | some node =>
    cases node with
    | file content mode =>
      by_cases failed : choice.fails = true
      · exact .inl (if_pos failed)
      · exact .inr ⟨content, mode, rfl, if_neg failed⟩
    | _ => exact .inl rfl

theorem serve_readSymlink_cases (choice : SendChoice) (path : Path) (stream : SendStream) :
    serve source choice (.readSymlink path) stream = (none, stream) ∨
      ∃ target, source path = some (.symlink target) ∧
        serve source choice (.readSymlink path) stream = (some target, stream) := by
  simp only [serve]
  cases found : source path with
  | none => exact .inl rfl
  | some node =>
    cases node with
    | symlink target =>
      by_cases failed : choice.fails = true
      · exact .inl (congrArg (Prod.mk · stream) (if_pos failed))
      · exact .inr ⟨target, rfl, congrArg (Prod.mk · stream) (if_neg failed)⟩
    | _ => exact .inl rfl

/-- The payload of one item goes out as its source stands. -/
theorem sendItemPayload_sends (listing : List (Path × Node)) (item : DirectoryItem)
    {stream : SendStream} (bytes : UInt64) (connected : stream.phase = .connected)
    (fits : stream.wire ++ (itemPayload listing item).1 <+: goal) :
    Sending (fun path => listing.lookup path) goal (sendItemPayload item bytes)
      (Yields fun _ counted later => (itemPayload listing item).2 = none ∧
        later.wire = stream.wire ++ (itemPayload listing item).1 ∧ later.phase = .connected ∧
        counted = bytes + UInt64.ofNat (itemPayload listing item).1.length) stream := by
  have before : stream.wire <+: goal := (List.prefix_append _ _).trans fits
  have nothing : itemPayload listing item = ([], none) →
      Sending (fun path => listing.lookup path) goal ((pure () : SendCode Unit) bytes)
        (Yields fun _ counted later => (itemPayload listing item).2 = none ∧
          later.wire = stream.wire ++ (itemPayload listing item).1 ∧ later.phase = .connected ∧
          counted = bytes + UInt64.ofNat (itemPayload listing item).1.length) stream := by
    intro none
    rw [none]
    exact sending_pure ⟨rfl, (List.append_nil _).symm, connected, (UInt64.add_zero _).symm⟩
  unfold sendItemPayload
  cases kind : item.kind with
  | directoryFile =>
    refine sending_invoke fun choice => ?_
    rcases serve_openInput_cases choice item.source stream with
      refused | ⟨content, mode, found, opened⟩
    · rw [refused]
      exact ⟨before, sending_fail _ _⟩
    · rw [opened]
      simp only [itemPayload, kind, found, sendPayload_slice] at fits ⊢
      refine ⟨before, sending_weaken (sendChunks_sends bytes connected (.inl rfl) fits) ?_⟩
      rintro ⟨⟩ counted later ⟨enough, wire, ready, total⟩
      refine ⟨if_pos enough, wire, ready, ?_⟩
      rw [total, List.length_take, List.length_drop, Nat.min_eq_left enough]
  | directorySymlink =>
    refine sending_invoke fun choice => ?_
    rcases serve_readSymlink_cases choice item.source stream with refused | ⟨target, found, read⟩
    · rw [refused]
      exact ⟨before, sending_fail _ _⟩
    · rw [read]
      simp only [itemPayload, kind, found] at fits ⊢
      refine ⟨before, sending_bind (sendAll_sends bytes connected fits) ?_⟩
      rintro ⟨⟩ counted _ ⟨rfl, rfl⟩
      exact sending_done fun value returned => ⟨trivial, rfl, connected, rfl⟩
  | _ => exact nothing (by simp only [itemPayload, kind])

/-- The items go out one after the other. -/
theorem sendEachItem_sends (listing : List (Path × Node)) (items : List DirectoryItem)
    {stream : SendStream} (bytes : UInt64) (connected : stream.phase = .connected)
    (fits : stream.wire ++ (HyperLink.sendDirectoryItems listing items).bytes <+: goal) :
    Sending (fun path => listing.lookup path) goal (sendEachItem items bytes)
      (Yields fun _ counted later =>
        (HyperLink.sendDirectoryItems listing items).result.error = none ∧
        later.wire = stream.wire ++ (HyperLink.sendDirectoryItems listing items).bytes ∧
        later.phase = .connected ∧
        counted = bytes + (HyperLink.sendDirectoryItems listing items).result.bytes) stream := by
  induction items generalizing stream bytes with
  | nil =>
    exact sending_pure ⟨rfl, (List.append_nil _).symm, connected, (UInt64.add_zero _).symm⟩
  | cons item rest inductionHypothesis =>
    rw [HyperLink.sendDirectoryItems] at fits ⊢
    -- The front of an item goes out whether or not the item fails.
    obtain ⟨behind, front⟩ : ∃ behind, stream.wire ++
        makeHeader item.kind item.payloadSize (sizeField item.relativePath) item.mode 0 ++
        item.relativePath ++ (itemPayload listing item).1 ++ behind <+: goal := by
      cases failed : (itemPayload listing item).2 with
      | some error =>
        simp only [failed] at fits
        exact ⟨[], by simpa using fits⟩
      | none =>
        simp only [failed] at fits
        exact ⟨_, by simpa using fits⟩
    have payload := (List.prefix_append _ _).trans front
    have name := (List.prefix_append _ _).trans payload
    refine sending_bind (sendAll_sends bytes connected ((List.prefix_append _ _).trans name)) ?_
    rintro ⟨⟩ _ _ ⟨rfl, rfl⟩
    refine sending_bind (sendAll_sends _ connected name) ?_
    rintro ⟨⟩ _ _ ⟨rfl, rfl⟩
    refine sending_bind (sendItemPayload_sends listing item _ connected payload) ?_
    rintro ⟨⟩ counted later ⟨clean, wire, ready, total⟩
    simp only [clean] at fits ⊢
    rw [← List.append_assoc, ← List.append_assoc, ← List.append_assoc, ← wire] at fits
    refine sending_weaken (inductionHypothesis counted ready fits) ?_
    rintro ⟨⟩ sum last ⟨fine, sent, connected, counts⟩
    refine ⟨fine, ?_, connected, ?_⟩
    · rw [sent, wire]
      simp only [List.append_assoc]
    · rw [counts, total, UInt64.add_assoc]

/-- The thread of the items of a stream. -/
theorem sendDirectoryItems_sends (listing : List (Path × Node)) (items : List DirectoryItem) :
    let sent := HyperLink.sendDirectoryItems listing items
    Sending (fun path => listing.lookup path) sent.bytes (sending (sendDirectoryItems items))
      (Ended sent) {} := by
  intro sent
  refine sending_thread (withSession_sends 0 rfl List.nil_prefix ?_)
  refine sending_weaken (sendEachItem_sends listing items 0 rfl List.prefix_rfl) ?_
  rintro ⟨⟩ counted later ⟨clean, wire, -, total⟩
  refine ⟨?_, wire, rfl⟩
  rw [total, UInt64.zero_add]
  exact congrArg (StreamResult.mk _) clean

end Contract

end Live

end HyperLink
