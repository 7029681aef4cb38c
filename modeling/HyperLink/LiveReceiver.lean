/-
This file is the receiver of `examples/file_transfer.cpp` on connections that are
still live. A thread waits for its connection and asks it for bytes one
`receive_into` after the other, while the peer is still sending: each of these may
give some bytes, report the end of the stream, or throw, and so may the wait for
the connection. The calls on the file system are the same as before.

The code of the earlier files knows all that a connection will deliver before it
closes. Here each part of the live code is shown to serve the part of that name:
fed from a connection that is known, it makes the same calls and comes to the same
end. Only where `receive_into` throws may the two differ, in the text of the error,
or because the other one takes an end of stream for the end of the transfer.
-/

import HyperLink.Foretelling
import HyperLink.PartialTransfer

namespace HyperLink

open Threads

namespace Live

/-! ### Asking a connection -/

/-- What a thread asks of the session of its stream. -/
inductive SessionCall where
  | connect
  | receiveInto (size : Nat)
  deriving DecidableEq, Repr

/-- `connect` throws or returns; `receive_into` throws or gives what it put into the buffer. -/
abbrev Answer : SessionCall → Type
  | .connect => Except Bytes Unit
  | .receiveInto _ => Except Bytes Bytes

/-- What a session will answer: the bytes that will come in their pieces, how the stream ends
behind them, and whether there will be a connection at all. -/
structure Incoming where
  connection : Connection
  failure : Option Bytes := none
  refused : Option Bytes := none

/-- Nothing will come any more. -/
def Incoming.ended : Incoming where
  connection := ⟨[], []⟩

/-- The next answer. -/
def pull : (ask : SessionCall) → Incoming → Answer ask × Incoming
  | .connect, incoming =>
      match incoming.refused with
      | none => (.ok (), incoming)
      | some text => (.error text, .ended)
  | .receiveInto size, incoming =>
      match incoming.connection.receiveInto size with
      | (byte :: bytes, rest) => (.ok (byte :: bytes), { incoming with connection := rest })
      | ([], rest) =>
          match incoming.failure with
          | none => (.ok [], { incoming with connection := rest })
          | some text => (.error text, .ended)

/-! ### The code of one stream -/

/-- Code of a thread that returns or throws, with the bytes counted so far. -/
def Code (Value : Type) : Type :=
  UInt64 → Program (SessionCall ⊕ Call) (Returns Answer Reply) (Except Error Value × UInt64)

namespace Code

variable {Value Other : Type}

def andThen (continuation : Value → Code Other) :
    Except Error Value × UInt64 →
      Program (SessionCall ⊕ Call) (Returns Answer Reply) (Except Error Other × UInt64)
  | (.ok value, bytes) => continuation value bytes
  | (.error error, bytes) => .done (.error error, bytes)

instance : Monad Code where
  pure value := fun bytes => .done (.ok value, bytes)
  bind code continuation := fun bytes => (code bytes).bind (andThen continuation)

def fail (error : Error) : Code Value := fun bytes => .done (.error error, bytes)

def check (outcome : Except Error Value) : Code Value := fun bytes =>
  .done (outcome, bytes)

/-- Code that does not read from the connection. -/
def lift (code : Receiver Value) : Code Value := fun bytes =>
  (code ⟨⟨[], []⟩, bytes⟩).calling.bind fun outcome => .done (outcome.1, outcome.2.bytes)

end Code

open Code

/-- The connection of the stream, or the exception of `connect_session`. -/
def connectSession : Code Unit := fun bytes =>
  .call (.inl .connect) fun
    | .ok () => .done (.ok (), bytes)
    | .error text => .done (.error text, bytes)

/-- `receive_into` of the session, which lets the exception of the transport through. -/
def receiveInto (size : Nat) : Code Bytes := fun bytes =>
  .call (.inl (.receiveInto size)) fun
    | .ok chunk => .done (.ok chunk, bytes)
    | .error lastSocketError => .done (.error (ascii "receive failed: " ++ lastSocketError), bytes)

/-- The loop of `receive_exact`, with what the buffer holds so far. -/
def receiveExactLoop (missing : Nat) (received : Bytes) : Code Bytes :=
  if _complete : missing = 0 then return received
  else do
    match ← receiveInto missing with
    | [] => fail closedEarly
    | byte :: bytes =>
        receiveExactLoop (missing - (bytes.length + 1)) (received ++ byte :: bytes)
termination_by missing
decreasing_by omega

def receiveExact (size : Nat) : Code Bytes := receiveExactLoop size []

/-- The header loop of `receive_header_optional`. -/
def receiveHeaderBytes (missing : Nat) (received : Bytes) : Code (Option Bytes) :=
  if _complete : missing = 0 then return some received
  else do
    match ← receiveInto missing with
    | [] =>
        if received = [] then return none
        else fail (ascii "connection closed in the middle of a header")
    | byte :: bytes =>
        receiveHeaderBytes (missing - (bytes.length + 1)) (received ++ byte :: bytes)
termination_by missing
decreasing_by omega

def receiveHeaderOptional : Code (Option IncomingHeader) := do
  match ← receiveHeaderBytes kHeaderBytes [] with
  | none => return none
  | some header => do
      let incoming ← check (decodeHeader header)
      let nameBytes ← receiveExact incoming.nameSize.toNat
      return some { incoming with fileName := nameBytes }

def receiveTextPayload (payloadSize : UInt64) : Code Bytes :=
  if maximumVector < payloadSize.toNat then fail vectorTooLarge
  else receiveExact payloadSize.toNat

/-- The payload loop of the file receivers. -/
def receivePayload (closed : Error) (counted : Bool) (output : Handle) (position missing : Nat) :
    Code Unit :=
  if _complete : missing = 0 then return ()
  else do
    let chunk ← receiveInto (min missing kChunkBytes)
    if _ended : chunk.length = 0 then fail closed
    else
      let written ← lift (.invoke (.write output position chunk))
      if written = true then
        lift (.count (if counted then UInt64.ofNat chunk.length else 0))
        receivePayload closed counted output (position + chunk.length) (missing - chunk.length)
      else fail (ascii "failed while writing output file")
termination_by missing
decreasing_by omega

def receiveDirectoryFile (outputPath : Path) (incoming : IncomingHeader) : Code Unit := do
  match ← lift (createDirectories outputPath.parentPath) with
  | .error errno =>
      fail (ascii "failed to create parent directory: " ++ outputPath.parentPath.string ++
        ascii ": " ++ errno.message)
  | .ok () =>
      match ← lift (.invoke (.openTruncate outputPath)) with
      | none => fail (cannotOpen outputPath)
      | some output => do
          receivePayload directoryFileClosed true output 0 incoming.payloadSize.toNat
          let _ ← lift (.invoke (.setPermissions outputPath incoming.offset.toNat))
          let _ ← lift (.invoke (.close output))
          return ()

def receivePart (options : Options) (incoming : IncomingHeader) : Code Unit := do
  let fileName ← check (safeFileName incoming.fileName)
  if rangeExceeds incoming then fail (ascii "incoming file range exceeds total file size")
  else
    let prepared ← lift (.invoke
      (.prepare (options.outputDir / Path.parse fileName) fileName incoming.totalSize))
    let outputPath ← check prepared
    match ← lift (.invoke (.openReadWrite outputPath)) with
    | none => fail (cannotOpen outputPath)
    | some output =>
        if maximumOffset < incoming.offset.toNat then fail (ascii "failed to seek output file")
        else
          receivePayload filePartClosed true output incoming.offset.toNat
            incoming.payloadSize.toNat

def receiveRecord (options : Options) (incoming : IncomingHeader) : Code Unit :=
  match incoming.kind with
  | .directoryEntry => do
      let relative ← check (safeRelativePath incoming.fileName)
      lift (createDirectoriesOrThrow (options.outputDir / relative))
  | .directorySymlink => do
      let relative ← check (safeRelativePath incoming.fileName)
      let outputPath := options.outputDir / relative
      lift (createDirectoriesOrThrow outputPath.parentPath)
      let target ← receiveTextPayload incoming.payloadSize
      lift (createSymlinkOrFallback target outputPath)
      lift (.count incoming.payloadSize)
  | .directoryFile => do
      let relative ← check (safeRelativePath incoming.fileName)
      receiveDirectoryFile (options.outputDir / relative) incoming
  | .file | .filePart => receivePart options incoming
  | .directoryTar => fail (ascii "parallel receive got unsupported transfer kind")

/-- The loop of `receive_file_part`, for so many records at most. -/
def receiveRecords (options : Options) : Nat → Code Unit
  | 0 => return ()
  | rounds + 1 => do
      match ← receiveHeaderOptional with
      | none => return ()
      | some incoming =>
          receiveRecord options incoming
          receiveRecords options rounds

/-- The `catch` of a stream: the error is stored, the counted bytes stay. -/
def result : Except Error Unit × UInt64 → StreamResult
  | (.ok (), bytes) => ⟨bytes, none⟩
  | (.error error, bytes) => ⟨bytes, some error⟩

/-- `receive_file_part`. -/
def receiveFilePart (options : Options) (rounds : Nat) :
    Program (SessionCall ⊕ Call) (Returns Answer Reply) StreamResult :=
  ((connectSession >>= fun _ => receiveRecords options rounds : Code Unit) 0).bind fun outcome =>
    .done (result outcome)

/-! ### Serving -/

section Serving

variable {Value Other : Type}

/-- The live code and the other one come to the same end: the same value, with the connection
where the answers have left it, or errors after the same bytes. Only where the stream fails may
the texts differ, or the live code throw for one of the `excused` values. -/
def Agrees (excused : Value → Prop) (initial : Incoming) (live : Except Error Value × UInt64)
    (rest : Incoming) (plain : Except Error Value × StreamState) : Prop :=
  plain.2.bytes = live.2 ∧
    match live.1, plain.1 with
    | .ok value, .ok other =>
        value = other ∧ plain.2.connection = rest.connection ∧ rest.failure = initial.failure
    | .error error, .error other => error = other ∨ initial.failure ≠ none
    | .error _, .ok other => initial.failure ≠ none ∧ excused other
    | .ok _, .error _ => False

/-- The live code, fed from a session, follows the other one on the connection. -/
def Serves (excused : Value → Prop) (live : Code Value) (plain : Receiver Value) : Prop :=
  ∀ (bytes : UInt64) (incoming : Incoming),
    (live bytes).Follows pull (Agrees excused incoming) incoming
      (plain ⟨incoming.connection, bytes⟩)

/-- No value. -/
abbrev Never : Value → Prop := fun _ => False

theorem serves_pure (excused : Value → Prop) (value : Value) :
    Serves excused (pure value : Code Value) (pure value) :=
  fun _ _ => ⟨_, rfl, rfl, rfl, rfl, rfl⟩

theorem serves_fail (excused : Value → Prop) (error : Error) :
    Serves excused (fail error : Code Value) (Receiver.fail error) :=
  fun _ _ => ⟨_, rfl, rfl, Or.inl rfl⟩

theorem serves_check (excused : Value → Prop) (outcome : Except Error Value) :
    Serves excused (check outcome : Code Value) (Receiver.check outcome) := by
  cases outcome with
  | error error => exact serves_fail excused error
  | ok value => exact serves_pure excused value

/-- The rule for a sequence. Where the first part may be excused, the second one of the other
code is over at once. -/
theorem Serves.bind {excused : Value → Prop} {last : Other → Prop} {live : Code Value}
    {plain : Receiver Value} {further : Value → Code Other} {others : Value → Receiver Other}
    (first : Serves excused live plain)
    (second : ∀ value, Serves last (further value) (others value))
    (atOnce : ∀ value, excused value → ∀ state, ∃ outcome, others value state = .done outcome ∧
      outcome.2.bytes = state.bytes ∧ ∀ other, outcome.1 = .ok other → last other) :
    Serves last (live >>= further) (plain >>= others) := by
  intro bytes incoming
  refine (first bytes incoming).bind fun result rest outcome agrees => ?_
  obtain ⟨live, counted⟩ := result
  obtain ⟨plain, state⟩ := outcome
  obtain ⟨same, agrees⟩ := agrees
  cases live with
  | ok value =>
    cases plain with
    | error error => exact agrees.elim
    | ok other =>
      obtain ⟨rfl, standing, fails⟩ := agrees
      have here : state = ⟨rest.connection, counted⟩ := by
        obtain ⟨connection, bytes⟩ := state
        exact congrArg₂ StreamState.mk standing same
      rw [here]
      refine (second value counted rest).weaken fun _ _ _ ends => ?_
      rwa [Agrees, fails] at ends
  | error error =>
    cases plain with
    | error other => exact ⟨_, rfl, same, agrees⟩
    | ok other =>
      obtain ⟨outcome, ends, still, allowed⟩ := atOnce other agrees.2 state
      rw [show Receiver.andThen others (.ok other, state) = _ from ends]
      refine ⟨_, rfl, still.trans same, ?_⟩
      cases reply : outcome.1 with
      | error error => exact Or.inr agrees.1
      | ok value => exact ⟨agrees.1, allowed value reply⟩

/-- The sequence of code that is never excused. -/
theorem Serves.next {last : Other → Prop} {live : Code Value} {plain : Receiver Value}
    {further : Value → Code Other} {others : Value → Receiver Other}
    (first : Serves Never live plain)
    (second : ∀ value, Serves last (further value) (others value)) :
    Serves last (live >>= further) (plain >>= others) :=
  first.bind second fun _ never => never.elim

/-- Code that does not read from the connection. -/
def Silent (code : Receiver Value) : Prop :=
  ∀ connection other bytes, code ⟨connection, bytes⟩ =
    (code ⟨other, bytes⟩).bind fun outcome => .done (outcome.1, ⟨connection, outcome.2.bytes⟩)

theorem silent_fail (error : Error) : Silent (Receiver.fail error : Receiver Value) :=
  fun _ _ _ => rfl

theorem silent_pure (value : Value) : Silent (pure value : Receiver Value) :=
  fun _ _ _ => rfl

theorem silent_count (bytes : UInt64) : Silent (Receiver.count bytes) :=
  fun _ _ _ => rfl

theorem silent_invoke (request : Call) : Silent (Receiver.invoke request) :=
  fun _ _ _ => rfl

theorem Silent.bind {code : Receiver Value} {others : Value → Receiver Other}
    (first : Silent code) (second : ∀ value, Silent (others value)) :
    Silent (code >>= others) := by
  intro connection other bytes
  rw [Receiver.bind_apply, Receiver.bind_apply, first connection other bytes]
  generalize code ⟨other, bytes⟩ = program
  induction program with
  | done outcome =>
    obtain ⟨reply, state⟩ := outcome
    cases reply with
    | error error => rfl
    | ok value => exact second value connection state.connection state.bytes
  | call request next inductionHypothesis =>
    simp only [Program.bind_call]
    exact congrArg _ (funext inductionHypothesis)

/-- Code that does not read serves itself. -/
theorem serves_lift {code : Receiver Value} (silent : Silent code) :
    Serves Never (lift code : Code Value) code := by
  intro bytes incoming
  rw [silent incoming.connection ⟨[], []⟩ bytes]
  refine (Program.follows_calling (code ⟨⟨[], []⟩, bytes⟩) incoming).bind
    fun result rest other same => ?_
  obtain ⟨rfl, rfl⟩ := same
  refine ⟨_, rfl, rfl, ?_⟩
  cases reply : other.1 with
  | error error => exact Or.inl rfl
  | ok value => exact ⟨rfl, rfl, rfl⟩

/-- One read: a stream that fails may throw where the other code sees the end. -/
theorem serves_receiveInto (size : Nat) :
    Serves (· = []) (receiveInto size)
      (Receiver.read fun connection => .ok (connection.receiveInto size)) := by
  intro bytes incoming
  rw [Receiver.read_receiveInto]
  simp only [receiveInto, Program.Follows, pull]
  obtain ⟨chunk, rest⟩ := incoming.connection.receiveInto size
  cases chunk with
  | cons byte chunk => exact ⟨_, rfl, rfl, rfl, rfl, rfl⟩
  | nil =>
    cases failure : incoming.failure with
    | none => exact ⟨_, rfl, rfl, rfl, rfl, failure.symm⟩
    | some text =>
      refine ⟨_, rfl, rfl, ?_, rfl⟩
      rw [failure]
      exact Option.some_ne_none text

/-- Two reads that come to the same end. After an error the connection does not matter. -/
def Similar (first second : Receiver Value) : Prop :=
  ∀ state, ∃ one other, first state = .done one ∧ second state = .done other ∧
    one.1 = other.1 ∧ one.2.bytes = other.2.bytes ∧ ∀ value, one.1 = .ok value → one.2 = other.2

theorem Serves.similar {excused : Value → Prop} {live : Code Value} {first second : Receiver Value}
    (serves : Serves excused live first)
    (similar : Similar first second) : Serves excused live second := by
  intro bytes incoming
  obtain ⟨one, other, ended, ends, reply, counted, left⟩ := similar ⟨incoming.connection, bytes⟩
  have follows := serves bytes incoming
  rw [ended] at follows
  rw [ends]
  refine follows.ended fun result rest agrees => ?_
  obtain ⟨same, agrees⟩ := agrees
  refine ⟨counted.symm.trans same, ?_⟩
  rw [← reply]
  cases live : result.1 <;> cases plain : one.1 <;> rw [live, plain] at agrees
  · exact agrees
  · exact agrees
  · exact agrees.elim
  · exact ⟨agrees.1, left _ plain ▸ agrees.2.1, agrees.2.2⟩

/-- A read of a known connection ends at once. -/
theorem read_ends (reader : Connection → Except Error (Value × Connection))
    (connection : Connection) (bytes : UInt64) :
    ∃ one, Receiver.read reader ⟨connection, bytes⟩ = .done one ∧ one.2.bytes = bytes ∧
      (∀ error, reader connection = .error error → one.1 = .error error) ∧
      ∀ value rest, reader connection = .ok (value, rest) →
        one.1 = .ok value ∧ one.2.connection = rest := by
  cases outcome : reader connection with
  | error error =>
    rw [Receiver.read_of_error outcome]
    refine ⟨_, rfl, rfl, fun other same => ?_, fun _ _ never => by cases never⟩
    exact congrArg _ (Except.error.inj same)
  | ok pair =>
    rw [Receiver.read_of_ok outcome]
    refine ⟨_, rfl, rfl, fun _ never => (by cases never), fun value rest same => ?_⟩
    cases same
    exact ⟨rfl, rfl⟩

theorem similar_read {reader : Connection → Except Error (Value × Connection)}
    {first : Receiver Value}
    (same : ∀ connection bytes, ∃ one, first ⟨connection, bytes⟩ = .done one ∧
      one.2.bytes = bytes ∧
      (∀ error, reader connection = .error error → one.1 = .error error) ∧
      ∀ value rest, reader connection = .ok (value, rest) →
        one.1 = .ok value ∧ one.2.connection = rest) :
    Similar first (Receiver.read reader) := by
  rintro ⟨connection, bytes⟩
  obtain ⟨one, ended, counted, fails, returns⟩ := same connection bytes
  cases outcome : reader connection with
  | error error =>
    refine ⟨one, _, ended, Receiver.read_of_error outcome, fails error outcome, counted,
      fun value returned => ?_⟩
    rw [fails error outcome] at returned
    cases returned
  | ok pair =>
    obtain ⟨reply, left⟩ := returns pair.1 pair.2 outcome
    refine ⟨one, _, ended, Receiver.read_of_ok outcome, reply, counted, fun _ _ => ?_⟩
    exact congrArg₂ StreamState.mk left counted

theorem serves_receiveExactLoop (missing : Nat) (received : Bytes) :
    Serves Never (receiveExactLoop missing received)
      (Receiver.read fun connection =>
        HyperLink.receiveExactLoop connection missing received) := by
  induction missing using Nat.strong_induction_on generalizing received with
  | _ missing inductionHypothesis =>
    rw [receiveExactLoop]
    by_cases complete : missing = 0
    · rw [dif_pos complete]
      refine (serves_pure Never received).similar (similar_read fun connection bytes => ?_)
      refine ⟨_, rfl, rfl, fun error outcome => ?_, fun value rest outcome => ?_⟩
      all_goals
        rw [HyperLink.receiveExactLoop, if_pos complete] at outcome
        cases outcome
      exact ⟨rfl, rfl⟩
    · rw [dif_neg complete]
      let others : Bytes → Receiver Bytes
        | [] => Receiver.fail closedEarly
        | byte :: bytes => Receiver.read fun connection =>
            HyperLink.receiveExactLoop connection (missing - (bytes.length + 1))
              (received ++ byte :: bytes)
      refine @Serves.similar Bytes Never _ ((Receiver.read fun connection =>
        .ok (connection.receiveInto missing)) >>= others) _ ?_
          (similar_read fun connection bytes => ?_)
      · refine (serves_receiveInto missing).bind (fun chunk => ?_) ?_
        · cases chunk with
          | nil => exact serves_fail Never closedEarly
          | cons byte bytes => exact inductionHypothesis _ (by omega) _
        · rintro chunk rfl state
          exact ⟨_, rfl, rfl, fun _ never => by cases never⟩
      simp only [Receiver.bind_apply, Receiver.read_receiveInto, Program.bind_done,
        Receiver.andThen_ok]
      rw [HyperLink.receiveExactLoop, if_neg complete]
      obtain ⟨chunk, rest⟩ := connection.receiveInto missing
      cases chunk with
      | nil =>
        refine ⟨_, rfl, rfl, fun error outcome => ?_, fun value rest outcome => by cases outcome⟩
        cases outcome
        rfl
      | cons byte chunk =>
        exact read_ends (fun connection => HyperLink.receiveExactLoop connection
          (missing - (chunk.length + 1)) (received ++ byte :: chunk)) rest bytes

theorem serves_receiveExact (size : Nat) :
    Serves Never (receiveExact size)
      (Receiver.read fun connection => HyperLink.receiveExact connection size) :=
  serves_receiveExactLoop size []

theorem serves_receiveTextPayload (payloadSize : UInt64) :
    Serves Never (receiveTextPayload payloadSize)
      (Receiver.read fun connection => HyperLink.receiveTextPayload connection payloadSize) := by
  unfold receiveTextPayload HyperLink.receiveTextPayload
  split
  · exact serves_fail _ vectorTooLarge
  · exact serves_receiveExact payloadSize.toNat

/-- A header that has not begun: a stream that fails may throw where the other code sees the end
of the transfer. -/
theorem serves_receiveHeaderBytes (missing : Nat) (received : Bytes) :
    Serves (· = none) (receiveHeaderBytes missing received)
      (Receiver.read fun connection =>
        HyperLink.receiveHeaderBytes connection missing received) := by
  induction missing using Nat.strong_induction_on generalizing received with
  | _ missing inductionHypothesis =>
    rw [receiveHeaderBytes]
    by_cases complete : missing = 0
    · rw [dif_pos complete]
      refine (serves_pure _ (some received)).similar (similar_read fun connection bytes => ?_)
      refine ⟨_, rfl, rfl, fun error outcome => ?_, fun value rest outcome => ?_⟩
      all_goals
        rw [HyperLink.receiveHeaderBytes, if_pos complete] at outcome
        cases outcome
      exact ⟨rfl, rfl⟩
    · rw [dif_neg complete]
      let others : Bytes → Receiver (Option Bytes)
        | [] =>
            if received = [] then pure none
            else Receiver.fail (ascii "connection closed in the middle of a header")
        | byte :: bytes => Receiver.read fun connection =>
            HyperLink.receiveHeaderBytes connection (missing - (bytes.length + 1))
              (received ++ byte :: bytes)
      refine @Serves.similar (Option Bytes) (· = none) _ ((Receiver.read fun connection =>
        .ok (connection.receiveInto missing)) >>= others) _ ?_
          (similar_read fun connection bytes => ?_)
      · refine (serves_receiveInto missing).bind (fun chunk => ?_) ?_
        · cases chunk with
          | nil =>
            simp only [others]
            split
            · exact serves_pure _ none
            · exact serves_fail _ _
          | cons byte bytes => exact inductionHypothesis _ (by omega) _
        · rintro chunk rfl state
          simp only [others]
          split
          · exact ⟨_, rfl, rfl, fun _ same => (Except.ok.inj same).symm⟩
          · exact ⟨_, rfl, rfl, fun _ never => by cases never⟩
      simp only [Receiver.bind_apply, Receiver.read_receiveInto, Program.bind_done,
        Receiver.andThen_ok]
      rw [HyperLink.receiveHeaderBytes, if_neg complete]
      obtain ⟨chunk, rest⟩ := connection.receiveInto missing
      cases chunk with
      | nil =>
        simp only [others]
        by_cases begun : received = []
        · rw [if_pos begun, if_pos begun]
          refine ⟨_, rfl, rfl, fun error never => (by cases never), fun value rest outcome => ?_⟩
          cases outcome
          exact ⟨rfl, rfl⟩
        · rw [if_neg begun, if_neg begun]
          refine ⟨_, rfl, rfl, fun error outcome => ?_, fun value rest never => by cases never⟩
          cases outcome
          rfl
      | cons byte chunk =>
        exact read_ends (fun connection => HyperLink.receiveHeaderBytes connection
          (missing - (chunk.length + 1)) (received ++ byte :: chunk)) rest bytes

theorem serves_receiveHeaderOptional :
    Serves (· = none) (receiveHeaderOptional)
      (Receiver.read HyperLink.receiveHeaderOptional) := by
  let others : Option Bytes → Receiver (Option IncomingHeader)
    | none => pure none
    | some header => do
        let incoming ← Receiver.check (decodeHeader header)
        let nameBytes ← Receiver.read fun connection =>
          HyperLink.receiveExact connection incoming.nameSize.toNat
        return some { incoming with fileName := nameBytes }
  refine @Serves.similar (Option IncomingHeader) (· = none) _ ((Receiver.read fun
    connection => HyperLink.receiveHeaderBytes connection kHeaderBytes []) >>= others) _ ?_
      (similar_read fun connection bytes => ?_)
  · refine (serves_receiveHeaderBytes kHeaderBytes []).bind (fun header => ?_) ?_
    · cases header with
      | none => exact serves_pure _ none
      | some header =>
        refine (serves_check Never (decodeHeader header)).next fun incoming => ?_
        refine (serves_receiveExact incoming.nameSize.toNat).next fun nameBytes => ?_
        exact serves_pure _ (some { incoming with fileName := nameBytes })
    · rintro header rfl state
      exact ⟨_, rfl, rfl, fun _ same => (Except.ok.inj same).symm⟩
  rw [HyperLink.receiveHeaderOptional, Receiver.bind_apply]
  cases first : HyperLink.receiveHeaderBytes connection kHeaderBytes [] with
  | error error =>
    rw [Receiver.read_of_error first]
    refine ⟨_, rfl, rfl, fun other same => ?_, fun _ _ never => by cases never⟩
    exact congrArg _ (Except.error.inj same)
  | ok pair =>
    obtain ⟨header, rest⟩ := pair
    rw [Receiver.read_of_ok first, Program.bind_done, Receiver.andThen_ok]
    cases header with
    | none =>
      refine ⟨_, rfl, rfl, fun _ never => (by cases never), fun value last same => ?_⟩
      cases same
      exact ⟨rfl, rfl⟩
    | some header =>
      simp only [others, Receiver.bind_apply, Receiver.check_apply, Program.bind_done]
      cases decoded : decodeHeader header with
      | error error =>
        simp only [bind, Except.bind, decoded]
        refine ⟨_, rfl, rfl, fun other same => ?_, fun _ _ never => by cases never⟩
        exact congrArg _ (Except.error.inj same)
      | ok incoming =>
        simp only [Receiver.andThen_ok, Receiver.bind_apply]
        cases name : HyperLink.receiveExact rest incoming.nameSize.toNat with
        | error error =>
          rw [Receiver.read_of_error name]
          simp only [bind, Except.bind, decoded, name]
          refine ⟨_, rfl, rfl, fun other same => ?_, fun _ _ never => by cases never⟩
          exact congrArg _ (Except.error.inj same)
        | ok pair =>
          rw [Receiver.read_of_ok name]
          simp only [bind, Except.bind, decoded, name]
          refine ⟨_, rfl, rfl, fun _ never => (by cases never), fun value last same => ?_⟩
          cases same
          exact ⟨rfl, rfl⟩

/-! ### The parts of the receiver -/

theorem silent_createDirectories (path : Path) : Silent (createDirectories path) := by
  have each : ∀ paths, Silent (createEach paths) := by
    intro paths
    induction paths with
    | nil => exact silent_pure _
    | cons path rest inductionHypothesis =>
      refine (silent_invoke (.createDirectory path)).bind fun made => ?_
      cases made with
      | error errno => exact silent_pure _
      | ok value => exact inductionHypothesis
  unfold createDirectories
  split
  · exact silent_pure _
  · exact each _

theorem silent_createDirectoriesOrThrow (path : Path) :
    Silent (createDirectoriesOrThrow path) := by
  refine (silent_createDirectories path).bind fun made => ?_
  cases made with
  | error errno => exact silent_fail _
  | ok value => exact silent_pure _

theorem silent_createSymlinkOrFallback (target : Bytes) (outputPath : Path) :
    Silent (createSymlinkOrFallback target outputPath) := by
  refine (silent_invoke _).bind fun _ => (silent_invoke _).bind fun created => ?_
  split
  · exact silent_pure _
  · refine (silent_invoke _).bind fun opened => ?_
    cases opened with
    | none => exact silent_fail _
    | some fallback => exact (silent_invoke _).bind fun _ => silent_pure _

theorem serves_receivePayload (closed : Error) (counted : Bool)
    (output : Handle) (position missing : Nat) :
    Serves Never (receivePayload closed counted output position missing)
      (HyperLink.receivePayload closed counted output position missing) := by
  induction missing using Nat.strong_induction_on generalizing position with
  | _ missing inductionHypothesis =>
    rw [receivePayload, HyperLink.receivePayload]
    by_cases complete : missing = 0
    · rw [dif_pos complete, dif_pos complete]
      exact serves_pure _ ()
    · rw [dif_neg complete, dif_neg complete]
      refine (serves_receiveInto (min missing kChunkBytes)).bind (fun chunk => ?_) ?_
      · by_cases ended : chunk.length = 0
        · rw [dif_pos ended, dif_pos ended]
          exact serves_fail _ _
        · rw [dif_neg ended, dif_neg ended]
          refine (serves_lift (silent_invoke _)).next fun written => ?_
          split
          · refine (serves_lift (silent_count _)).next fun _ => ?_
            exact inductionHypothesis (missing - chunk.length) (by omega) _
          · exact serves_fail _ _
      · rintro chunk rfl state
        exact ⟨_, rfl, rfl, fun _ never => by cases never⟩

theorem serves_receiveDirectoryFile (outputPath : Path)
    (incoming : IncomingHeader) :
    Serves Never (receiveDirectoryFile outputPath incoming)
      (HyperLink.receiveDirectoryFile outputPath incoming) := by
  refine (serves_lift (silent_createDirectories _)).next fun made => ?_
  cases made with
  | error errno => exact serves_fail _ _
  | ok value =>
    refine (serves_lift (silent_invoke _)).next fun opened => ?_
    cases opened with
    | none => exact serves_fail _ _
    | some output =>
      refine (serves_receivePayload _ _ output _ _).next fun _ => ?_
      refine (serves_lift (silent_invoke _)).next fun _ => ?_
      exact (serves_lift (silent_invoke _)).next fun _ => serves_pure _ ()

theorem serves_receivePart (options : Options)
    (incoming : IncomingHeader) :
    Serves Never (receivePart options incoming)
      (HyperLink.receivePart options incoming) := by
  refine (serves_check _ _).next fun fileName => ?_
  split
  · exact serves_fail _ _
  · refine (serves_lift (silent_invoke _)).next fun prepared => ?_
    refine (serves_check _ _).next fun outputPath => ?_
    refine (serves_lift (silent_invoke _)).next fun opened => ?_
    cases opened with
    | none => exact serves_fail _ _
    | some output =>
      dsimp only
      split
      · exact serves_fail _ _
      · exact serves_receivePayload _ _ output _ _

theorem serves_receiveRecord (options : Options)
    (incoming : IncomingHeader) :
    Serves Never (receiveRecord options incoming)
      (HyperLink.receiveRecord options incoming) := by
  unfold receiveRecord HyperLink.receiveRecord
  cases incoming.kind with
  | directoryEntry =>
    exact (serves_check _ _).next fun relative =>
      serves_lift (silent_createDirectoriesOrThrow _)
  | directorySymlink =>
    refine (serves_check _ _).next fun relative => ?_
    refine (serves_lift (silent_createDirectoriesOrThrow _)).next fun _ => ?_
    refine (serves_receiveTextPayload incoming.payloadSize).next fun target => ?_
    refine (serves_lift (silent_createSymlinkOrFallback target _)).next fun _ => ?_
    exact serves_lift (silent_count _)
  | directoryFile =>
    exact (serves_check _ _).next fun relative => serves_receiveDirectoryFile _ incoming
  | file => exact serves_receivePart options incoming
  | filePart => exact serves_receivePart options incoming
  | directoryTar => exact serves_fail _ _

theorem serves_receiveRecords (options : Options) (rounds : Nat) :
    Serves (fun _ => True) (receiveRecords options rounds)
      (HyperLink.receiveRecords options rounds) := by
  induction rounds with
  | zero => exact serves_pure _ ()
  | succ rounds inductionHypothesis =>
    refine (serves_receiveHeaderOptional).bind (fun header => ?_) ?_
    · cases header with
      | none => exact serves_pure _ ()
      | some incoming =>
        exact (serves_receiveRecord options incoming).next fun _ => inductionHypothesis
    · rintro header rfl state
      exact ⟨_, rfl, rfl, fun _ _ => trivial⟩

end Serving

end Live

end HyperLink
