/-
This file carries contracts from single records to whole streams. A sender's
stream is a sequence of records, and the receiver's loop takes one after the
other; the rules below say that a contract for each record gives a contract for
the loop, and a contract for each chunk one for a payload. A contract is about
one receiving thread among others, so everything here holds for every
interleaving that respects the thread's `rely`.
-/

import HyperLink.Sender
import HyperLink.Resolution

namespace HyperLink

open Threads Receiver

/-! ### Calls -/

theorem perform_none (request : Call) (world : World) :
    perform .none request world = performCall request world := by
  cases request <;> rfl

/-- Opening a file for reading and writing changes nothing. -/
theorem perform_openReadWrite (fault : Fault) (path : Path) (world : World) :
    (perform fault (.openReadWrite path) world).2 = world ∧
      ∀ handle, (perform fault (.openReadWrite path) world).1 = some handle →
        world.fs.Opens path handle := by
  by_cases smooth : fault = .none
  · have effects : (world.fs.openReadWrite path).fs = world.fs ∧
        (world.fs.openReadWrite path).effects = [] := by
      unfold FileSystem.openReadWrite
      split
      · exact ⟨rfl, rfl⟩
      · split
        · exact ⟨rfl, rfl⟩
        · split <;> exact ⟨rfl, rfl⟩
    simp only [perform, if_pos smooth, performCall, World.onFiles, effects, List.append_nil]
    exact ⟨trivial, fun handle opened => FileSystem.opens_of_openReadWrite opened⟩
  · simp only [perform, if_neg smooth, refusal]
    exact ⟨trivial, fun handle never => by cases never⟩

/-! ### The block under the mutex -/

/-- Everything the block can do: it finds the shared state initialized and compares, or it
initializes it and creates the file, which may fail at either call. -/
theorem prepare_cases (fault : Fault) (path : Path) (name : Bytes) (size : UInt64)
    (world : World) :
    (world.shared.initialized = true ∧
        prepare fault path name size world = (.error notSameFile, world)) ∨
      (world.shared.initialized = true ∧ world.shared.fileName = name ∧
        world.shared.totalSize = size ∧
        prepare fault path name size world = (.ok world.shared.outputPath, world)) ∨
      (world.shared.initialized = false ∧ ∃ error fs effects,
        prepare fault path name size world = (.error error,
          ⟨fs, ⟨true, path, name, size⟩, world.extractor, world.history ++ effects⟩) ∧
        ((fs = world.fs ∧ effects = []) ∨ ∃ handle,
          (world.fs.openTruncate path).reply = some handle ∧
          fs = (world.fs.openTruncate path).fs ∧
          effects = (world.fs.openTruncate path).effects)) ∨
      (world.shared.initialized = false ∧ ∃ handle fs,
        (world.fs.openTruncate path).reply = some handle ∧
        fs = (world.fs.openTruncate path).fs.setFile handle.inode
          ⟨FileSystem.resizeTo ((world.fs.openTruncate path).fs.files handle.inode).content
            size.toNat, ((world.fs.openTruncate path).fs.files handle.inode).mode⟩ ∧
        prepare fault path name size world = (.ok path,
          ⟨fs, ⟨true, path, name, size⟩, world.extractor, world.history ++
            ((world.fs.openTruncate path).effects ++
              [.resized handle.location size.toNat])⟩)) := by
  unfold prepare
  by_cases initialized : world.shared.initialized = true
  · rw [if_pos initialized]
    split
    · exact Or.inl ⟨initialized, rfl⟩
    · rename_i same
      simp only [not_or, not_not] at same
      exact Or.inr (Or.inl ⟨initialized, same.1, same.2, rfl⟩)
  · rw [if_neg initialized]
    have fresh := Bool.eq_false_of_not_eq_true initialized
    refine Or.inr (Or.inr ?_)
    by_cases refused : fault = .first
    · simp only [if_pos refused, World.onFiles, FileSystem.unchanged]
      exact Or.inl ⟨fresh, _, _, _, rfl, Or.inl ⟨rfl, rfl⟩⟩
    simp only [if_neg refused, World.onFiles]
    cases opened : (world.fs.openTruncate path).reply with
    | none =>
      obtain ⟨same, nothing⟩ := FileSystem.openTruncate_none opened
      simp only [same, nothing]
      exact Or.inl ⟨fresh, _, _, _, rfl, Or.inl ⟨rfl, rfl⟩⟩
    | some handle =>
      simp only []
      by_cases unresized : fault = .second
      · simp only [if_pos unresized, FileSystem.unchanged, Bool.false_eq_true, if_false,
          List.append_nil]
        exact Or.inl ⟨fresh, _, _, _, rfl, Or.inr ⟨handle, rfl, rfl, rfl⟩⟩
      simp only [if_neg unresized]
      obtain ⟨opens, -⟩ := FileSystem.opens_of_openTruncate opened
      by_cases small : size.toNat ≤ maximumOffset
      · rw [opens.resizeFile small]
        simp only [if_true, List.append_assoc]
        exact Or.inr ⟨fresh, handle, _, rfl, rfl, rfl⟩
      · rw [FileSystem.resizeFile_large (Nat.lt_of_not_le small)]
        simp only [FileSystem.unchanged, Bool.false_eq_true, if_false, List.append_nil]
        exact Or.inl ⟨fresh, _, _, _, rfl, Or.inr ⟨handle, rfl, rfl, rfl⟩⟩

/-! ### Records -/

/-- A record as a sender writes it. -/
structure Record where
  kind : TransferKind
  payloadSize : UInt64
  offset : UInt64
  totalSize : UInt64
  name : Bytes
  payload : Bytes
  deriving DecidableEq, Repr

namespace Record

/-- The header that the receiver reads from a record. -/
def header (record : Record) : IncomingHeader where
  kind := record.kind
  payloadSize := record.payloadSize
  nameSize := sizeField record.name
  offset := record.offset
  totalSize := record.totalSize
  fileName := record.name

def bytes (record : Record) : Bytes :=
  makeHeader record.kind record.payloadSize (sizeField record.name) record.offset
    record.totalSize ++ record.name ++ record.payload

/-- The name and the payload are as long as the header says. -/
structure Complete (record : Record) : Prop where
  name : NameSize record.name
  payload : record.payload.length = record.payloadSize.toNat

theorem length_bytes (record : Record) :
    record.bytes.length = kHeaderBytes + record.name.length + record.payload.length := by
  rw [bytes, List.length_append, List.length_append, length_makeHeader]

end Record

/-- The header at the front of a stream of records. -/
theorem receiveHeaderOptional_record {record : Record} (complete : record.Complete)
    {connection : Connection} {rest : Bytes}
    (stream : connection.remaining = record.bytes ++ rest) :
    ∃ later : Connection, receiveHeaderOptional connection = .ok (some record.header, later) ∧
      later.remaining = record.payload ++ rest := by
  have whole := forget_receiveHeaderOptional connection
  rw [stream, Record.bytes, List.append_assoc, headerOptionalOf_encoded _ _ _ _ _ _ complete.name]
    at whole
  exact ok_of_forget whole

theorem receiveHeaderOptional_end {connection : Connection} (ended : connection.remaining = []) :
    ∃ later : Connection, receiveHeaderOptional connection = .ok (none, later) ∧
      later.remaining = [] := by
  have whole := forget_receiveHeaderOptional connection
  rw [ended] at whole
  exact ok_of_forget (whole.trans rfl)

/-- The first header of a single stream, whose name is checked at once. -/
theorem receiveHeader_record {record : Record} (complete : record.Complete)
    (safe : SafeName record.name) {connection : Connection} {rest : Bytes}
    (stream : connection.remaining = record.bytes ++ rest) :
    ∃ later : Connection, receiveHeader connection = .ok (record.header, later) ∧
      later.remaining = record.payload ++ rest := by
  have header := forget_receiveExact connection kHeaderBytes
  rw [stream, Record.bytes, List.append_assoc, List.append_assoc,
    if_pos (by rw [List.length_append, length_makeHeader]; omega),
    List.take_left' (length_makeHeader _ _ _ _ _), List.drop_left' (length_makeHeader _ _ _ _ _)]
    at header
  obtain ⟨named, read, behind⟩ := ok_of_forget header
  have name := forget_receiveExact named (sizeField record.name).toNat
  rw [behind, toNat_sizeField complete.name.2,
    if_pos (by rw [List.length_append]; omega), List.take_left' rfl, List.drop_left' rfl] at name
  obtain ⟨later, readName, left⟩ := ok_of_forget name
  refine ⟨later, ?_, left⟩
  have fields := decodeHeader_makeHeader record.kind record.payloadSize (sizeField record.name)
    record.offset record.totalSize (sizeField_accepted complete.name)
  have size := toNat_sizeField complete.name.2
  simp only [receiveHeader, read, fields, size, readName, safeFileName_of_safe safe, bind,
    Except.bind, pure, Except.pure, Record.header]

/-- The headers of a stream, up to its end or to the first bytes that are no header. -/
def headersOf (stream : Bytes) : List IncomingHeader :=
  match _read : headerOptionalOf stream with
  | .ok (some incoming, rest) => incoming :: headersOf (rest.drop incoming.payloadSpan)
  | _ => []
termination_by stream.length
decreasing_by
  have bytes := congrArg List.length (encoded_of_headerOptionalOf _read).1
  simp only [List.length_append, length_makeHeader, kHeaderBytes] at bytes
  rw [List.length_drop]
  omega

theorem headersOf_cons {stream rest : Bytes} {incoming : IncomingHeader}
    (read : headerOptionalOf stream = .ok (some incoming, rest)) :
    headersOf stream = incoming :: headersOf (rest.drop incoming.payloadSpan) := by
  rw [headersOf]
  split
  · rename_i other left found
    rw [read] at found
    cases found
    rfl
  · rename_i never
    exact absurd read (never incoming rest)

/-! ### What a record takes from its stream -/

/-- Whatever the calls reply, code that returns has taken exactly so many bytes from its
stream; it cannot return when there are fewer. -/
def Takes {Value : Type} (size : Nat) (code : Receiver Value) : Prop :=
  ∀ state : StreamState, (code state).EndsOnlyIn fun outcome =>
    ∀ value, outcome.1 = .ok value → size ≤ state.connection.remaining.length ∧
      outcome.2.connection.remaining = state.connection.remaining.drop size

namespace Takes

variable {Value Other : Type}

theorem pure (value : Value) : Takes 0 (Pure.pure value : Receiver Value) :=
  fun _ _ _ => ⟨Nat.zero_le _, rfl⟩

theorem fail (size : Nat) (error : Error) : Takes size (Receiver.fail error : Receiver Value) :=
  fun _ _ returned => by cases returned

theorem invoke (request : Call) : Takes 0 (Receiver.invoke request) :=
  fun _ _ _ _ => ⟨Nat.zero_le _, rfl⟩

theorem check (outcome : Except Error Value) : Takes 0 (Receiver.check outcome) :=
  fun _ _ _ => ⟨Nat.zero_le _, rfl⟩

theorem count (bytes : UInt64) : Takes 0 (Receiver.count bytes) :=
  fun _ _ _ => ⟨Nat.zero_le _, rfl⟩

theorem bind {first second : Nat} {code : Receiver Value} {continuation : Value → Receiver Other}
    (takes : Takes first code) (rest : ∀ value, Takes second (continuation value)) :
    Takes (first + second) (code >>= continuation) := by
  intro state
  refine Program.EndsOnlyIn.bind (takes state) fun outcome ended => ?_
  obtain ⟨reply, last⟩ := outcome
  cases reply with
  | error error => exact fun _ returned => by cases returned
  | ok value =>
    obtain ⟨enough, left⟩ := ended value rfl
    refine (rest value last).weaken fun outcome ended value returned => ?_
    obtain ⟨more, behind⟩ := ended value returned
    rw [show last.connection.remaining = _ from left] at more behind
    rw [List.length_drop] at more
    exact ⟨by omega, by rw [behind, List.drop_drop]⟩

/-- A part of the code that takes nothing, before the rest. -/
theorem after {size : Nat} {code : Receiver Value} {continuation : Value → Receiver Other}
    (takes : Takes 0 code) (rest : ∀ value, Takes size (continuation value)) :
    Takes size (code >>= continuation) := by
  have both := takes.bind rest
  rwa [Nat.zero_add] at both

theorem readText (size : UInt64) :
    Takes size.toNat (Receiver.read fun connection => receiveTextPayload connection size) := by
  intro state
  by_cases large : maximumVector < size.toNat
  · have started : Receiver.read (fun connection => receiveTextPayload connection size) state =
      _ := read_of_error (receiveTextPayload_large large _)
    rw [started]
    exact fun _ returned => by cases returned
  have whole := forget_receiveTextPayload large state.connection
  split at whole
  · rename_i enough
    obtain ⟨later, outcome, left⟩ := ok_of_forget whole
    have started : Receiver.read (fun connection => receiveTextPayload connection size) state =
      _ := read_of_ok outcome
    rw [started]
    exact fun _ _ => ⟨enough, left⟩
  · have started : Receiver.read (fun connection => receiveTextPayload connection size) state =
      _ := read_of_error (error_of_forget whole)
    rw [started]
    exact fun _ returned => by cases returned

theorem receivePayload (closed : Error) (counted : Bool) (output : Handle)
    (position size : Nat) :
    Takes size (HyperLink.receivePayload closed counted output position size) := by
  induction size using Nat.strong_induction_on generalizing position with
  | _ size inductionHypothesis =>
    intro state
    rw [HyperLink.receivePayload]
    by_cases complete : size = 0
    · rw [dif_pos complete, complete]
      exact Takes.pure () state
    · have wanted : 0 < min size kChunkBytes :=
        Nat.lt_min.mpr ⟨Nat.pos_of_ne_zero complete, by decide⟩
      simp only [dif_neg complete, bind_apply, read_receiveInto, Program.bind_done, andThen_ok]
      obtain ⟨-, nothing, -⟩ | ⟨byte, bytes, rest, received, short, split⟩ :=
        receiveInto_cases state.connection wanted
      · rw [nothing]
        exact fun _ returned => by cases returned
      · have nonempty : ¬ (byte :: bytes).length = 0 := by simp
        have fits : (byte :: bytes).length ≤ size := by
          rw [List.length_cons]
          omega
        rw [received]
        simp only [dif_neg nonempty, bind_apply, invoke_apply, Program.bind_call,
          Program.bind_done, andThen_ok]
        intro written
        by_cases success : written = true
        · simp only [if_pos success, bind_apply, count_apply, Program.bind_done, andThen_ok]
          have later := inductionHypothesis (size - (byte :: bytes).length) (by omega)
            (position + (byte :: bytes).length)
            ⟨rest, state.bytes + if counted then UInt64.ofNat (byte :: bytes).length else 0⟩
          refine later.weaken fun outcome ended value returned => ?_
          obtain ⟨enough, left⟩ := ended value returned
          simp only at enough left
          rw [split, List.length_append]
          refine ⟨by omega, left.trans ?_⟩
          conv_rhs => rw [← Nat.add_sub_cancel' fits, ← List.drop_drop, List.drop_left' rfl]
        · simp only [if_neg success]
          exact fun _ returned => by cases returned

end Takes

theorem takes_createEach (paths : List Path) : Takes 0 (createEach paths) := by
  induction paths with
  | nil => exact Takes.pure _
  | cons path rest inductionHypothesis =>
    refine (Takes.invoke _).after fun reply => ?_
    cases reply with
    | ok _ => exact inductionHypothesis
    | error errno => exact Takes.pure _

theorem takes_createDirectories (path : Path) : Takes 0 (createDirectories path) := by
  unfold createDirectories
  split
  · exact Takes.pure _
  · exact takes_createEach _

theorem takes_createDirectoriesOrThrow (path : Path) :
    Takes 0 (createDirectoriesOrThrow path) := by
  refine (takes_createDirectories path).after fun reply => ?_
  cases reply with
  | ok _ => exact Takes.pure _
  | error errno => exact Takes.fail _ _

theorem takes_createSymlinkOrFallback (target : Bytes) (outputPath : Path) :
    Takes 0 (createSymlinkOrFallback target outputPath) := by
  refine (Takes.invoke _).after fun _ => (Takes.invoke _).after fun created => ?_
  split
  · exact Takes.pure _
  · refine (Takes.invoke _).after fun opened => ?_
    cases opened with
    | none => exact Takes.fail _ _
    | some fallback => exact (Takes.invoke _).after fun _ => Takes.pure _

theorem takes_receiveDirectoryFile (outputPath : Path) (incoming : IncomingHeader) :
    Takes incoming.payloadSize.toNat (receiveDirectoryFile outputPath incoming) := by
  refine (takes_createDirectories _).after fun reply => ?_
  cases reply with
  | error errno => exact Takes.fail _ _
  | ok _ =>
    refine (Takes.invoke _).after fun opened => ?_
    cases opened with
    | none => exact Takes.fail _ _
    | some output =>
      have payload := Takes.receivePayload directoryFileClosed true output 0
        incoming.payloadSize.toNat
      exact payload.bind fun _ => (Takes.invoke _).after fun _ =>
        (Takes.invoke _).after fun _ => Takes.pure ()

theorem takes_receivePart (options : Options) (incoming : IncomingHeader) :
    Takes incoming.payloadSize.toNat (receivePart options incoming) := by
  refine (Takes.check _).after fun fileName => ?_
  split
  · exact Takes.fail _ _
  · refine (Takes.invoke _).after fun prepared => (Takes.check _).after fun outputPath =>
      (Takes.invoke _).after fun opened => ?_
    cases opened with
    | none => exact Takes.fail _ _
    | some output =>
      simp only []
      split
      · exact Takes.fail _ _
      · exact Takes.receivePayload _ _ _ _ _

/-- Every record takes its payload from the stream, or throws. -/
theorem takes_receiveRecord (options : Options) (incoming : IncomingHeader) :
    Takes incoming.payloadSpan (receiveRecord options incoming) := by
  obtain ⟨kind, payloadSize, nameSize, offset, totalSize, fileName⟩ := incoming
  cases kind with
  | file | filePart => exact takes_receivePart options _
  | directoryTar => exact Takes.fail _ _
  | directoryEntry => exact (Takes.check _).after fun _ => takes_createDirectoriesOrThrow _
  | directoryFile => exact (Takes.check _).after fun _ => takes_receiveDirectoryFile _ _
  | directorySymlink =>
    refine (Takes.check _).after fun _ => (takes_createDirectoriesOrThrow _).after fun _ => ?_
    exact (Takes.readText payloadSize).bind fun _ =>
      (takes_createSymlinkOrFallback _ _).after fun _ => Takes.count _

/-! ### Contracts of receiving threads -/

/-- How a part of a thread's code may end: if the environment is reliable it returns, and if
it returns then it has read up to `rest`, counted its bytes and established `holds`. -/
def Delivered (reliable : Prop) (state : StreamState) (rest : Bytes) (counted : UInt64)
    (holds : World → Prop) (outcome : Except Error Unit × StreamState) (world : World) : Prop :=
  (reliable → outcome.1 = .ok ()) ∧
    (outcome.1 = .ok () → outcome.2.connection.remaining = rest ∧
      outcome.2.bytes = state.bytes + counted ∧ holds world)

theorem Delivered.imp {reliable : Prop} {state : StreamState} {rest : Bytes} {counted : UInt64}
    {holds other : World → Prop} {outcome : Except Error Unit × StreamState} {world : World}
    (implies : ∀ world, holds world → other world)
    (delivered : Delivered reliable state rest counted holds outcome world) :
    Delivered reliable state rest counted other outcome world :=
  ⟨delivered.1, fun returned => (delivered.2 returned).imp_right (And.imp_right (implies world))⟩

section Contract

variable {allowed : Fault → Call → World → Prop} {invariant : World → Prop}
  {rely guarantee : World → World → Prop} {reliable : Prop}

/-- The rule for one call: what it replies and does, and the contract of what follows. -/
theorem invoke_meets {Value : Type} {request : Call} {code : Reply request → Receiver Value}
    {post : Except Error Value × StreamState → World → Prop} {state : StreamState} {world : World}
    (each : ∀ later, rely world later → invariant later → ∀ fault, allowed fault request later →
      ∃ reply after, perform fault request later = (reply, after) ∧ invariant after ∧
        guarantee later after ∧
        (code reply state).Meets perform allowed invariant rely guarantee post after) :
    ((Receiver.invoke request >>= code) state).Meets perform allowed invariant rely guarantee
      post world := by
  intro later step kept fault permitted
  obtain ⟨reply, after, performed, keeps, respects, rest⟩ := each later step kept fault permitted
  rw [performed]
  exact ⟨keeps, respects, rest⟩

/-- A throw ends an unreliable part. -/
theorem Delivered.fail {state : StreamState} {rest : Bytes} {counted : UInt64}
    {holds : World → Prop} {world : World} (error : Error) (last : StreamState)
    (unreliable : ¬ reliable) :
    (Program.done (.error error, last) :
      Program Call Reply (Except Error Unit × StreamState)).Meets perform allowed invariant rely
        guarantee (Delivered reliable state rest counted holds) world :=
  Program.Meets.done fun _ _ _ =>
    ⟨fun surely => absurd surely unreliable, fun returned => by cases returned⟩

/-- The payload loop: a contract for each chunk gives a contract for the payload, however much
of it the stream holds. `progress` says what holds after a number of payload bytes;
interference must keep it. -/
theorem receivePayload_meets {closed : Error} {counted : Bool} {output : Handle}
    {start size : Nat} {stream : Bytes} {progress : Nat → World → Prop}
    (stable : ∀ done before after, rely before after → progress done before → progress done after)
    (chunk : ∀ (bytes : Bytes) (done : Nat) (world : World) (fault : Fault),
      bytes <+: stream.drop done → done + bytes.length ≤ size → invariant world →
      progress done world → allowed fault (.write output (start + done) bytes) world →
      let next := perform fault (.write output (start + done) bytes) world
      invariant next.2 ∧ guarantee world next.2 ∧ (reliable → next.1 = true) ∧
        (next.1 = true → progress (done + bytes.length) next.2))
    (done : Nat) (within : done ≤ size) (state : StreamState) (world : World)
    (standing : state.connection.remaining = stream.drop done) (begun : progress done world) :
    (receivePayload closed counted output (start + done) (size - done) state).Meets
      perform allowed invariant rely guarantee
      (Delivered (reliable ∧ size ≤ stream.length) state (stream.drop size)
        (if counted then UInt64.ofNat (size - done) else 0) (progress size)) world := by
  generalize left : size - done = missing
  induction missing using Nat.strong_induction_on generalizing done state world with
  | _ missing inductionHypothesis =>
    rw [receivePayload]
    by_cases complete : missing = 0
    · have finished : done = size := by omega
      subst finished
      rw [dif_pos complete]
      refine Program.Meets.done fun later step _ => ⟨fun _ => rfl, fun _ => ⟨standing, ?_, ?_⟩⟩
      · simp [complete]
      · exact stable _ _ _ step begun
    · have wanted : 0 < min missing kChunkBytes :=
        Nat.lt_min.mpr ⟨Nat.pos_of_ne_zero complete, by decide⟩
      simp only [dif_neg complete, bind_apply, read_receiveInto, Program.bind_done, andThen_ok]
      obtain ⟨ended, nothing, -⟩ | ⟨byte, bytes, rest, received, short, split⟩ :=
        receiveInto_cases state.connection wanted
      · -- The stream is too short for the payload.
        rw [nothing]
        refine Delivered.fail _ _ fun enough => ?_
        have length := congrArg List.length (ended.symm.trans standing)
        simp only [List.length_nil, List.length_drop] at length
        omega
      · have piece : byte :: bytes ++ rest.remaining = stream.drop done :=
          split.symm.trans standing
        have behind : rest.remaining = stream.drop (done + (byte :: bytes).length) := by
          rw [← List.drop_drop, ← piece, List.drop_left' rfl]
        have fits : done + (byte :: bytes).length ≤ size := by
          rw [List.length_cons]
          omega
        have nonempty : ¬ (byte :: bytes).length = 0 := by simp
        rw [received]
        simp only [dif_neg nonempty, bind_apply, invoke_apply, Program.bind_call,
          Program.bind_done, andThen_ok]
        intro later step kept fault permitted
        obtain ⟨keeps, respects, surely, further⟩ := chunk (byte :: bytes) done later fault
          ⟨_, piece⟩ fits kept (stable _ _ _ step begun) permitted
        refine ⟨keeps, respects, ?_⟩
        by_cases written :
            (perform fault (.write output (start + done) (byte :: bytes)) later).1 = true
        · rw [written]
          simp only [if_true, bind_apply, count_apply, Program.bind_done, andThen_ok]
          have others := inductionHypothesis (missing - (byte :: bytes).length)
            (by omega) (done + (byte :: bytes).length) fits
            ⟨rest, state.bytes + if counted then UInt64.ofNat (byte :: bytes).length else 0⟩
            _ behind (further written) (by omega)
          rw [← Nat.add_assoc] at others
          refine others.weaken fun outcome last _ ends => ⟨ends.1, fun returned => ?_⟩
          obtain ⟨standing, total, holds⟩ := ends.2 returned
          refine ⟨standing, total.trans ?_, holds⟩
          cases counted with
          | false => simp
          | true =>
            simp only [if_true]
            rw [UInt64.add_assoc, ← UInt64.ofNat_add, Nat.add_sub_cancel' (by omega)]
        · rw [Bool.eq_false_of_not_eq_true written]
          exact Delivered.fail _ _ fun wish => written (surely wish.1)

/-- The record loop: a contract for each item's record gives a contract for the stream of the
items. While it works on a record, the thread does only `own` of its item; what an earlier
record established, and what a later one `needs`, is not disturbed by it. -/
theorem receiveRecords_meets {Item : Type} (reflexive : ∀ world, rely world world)
    {options : Options} {record : Item → Record} {counted : Item → UInt64}
    {needs holds : Item → World → Prop} {own : Item → World → World → Prop}
    (items : List Item) (complete : ∀ item ∈ items, (record item).Complete)
    (each : ∀ item ∈ items, ∀ (state : StreamState) (world : World) (rest : Bytes),
      state.connection.remaining = (record item).payload ++ rest → invariant world →
      needs item world →
      (receiveRecord options (record item).header state).Meets perform allowed invariant rely
        (own item) (Delivered reliable state rest (counted item) (holds item)) world)
    (stable : ∀ item ∈ items, ∀ before after, rely before after →
      (needs item before → needs item after) ∧ (holds item before → holds item after))
    (within : ∀ item ∈ items, ∀ before after, own item before after → guarantee before after)
    (apart : items.Pairwise fun earlier later => ∀ before after,
      (own earlier before after → needs later before → needs later after) ∧
        (own later before after → holds earlier before → holds earlier after))
    (held : World → Prop)
    (undisturbed : ∀ before after, rely before after → held before → held after)
    (respected : ∀ item ∈ items, ∀ before after, own item before after → held before →
      held after)
    (rounds : Nat) (state : StreamState) (world : World)
    (stream : state.connection.remaining = items.flatMap fun item => (record item).bytes)
    (enough : state.connection.remaining.length ≤ rounds)
    (ready : ∀ item ∈ items, needs item world) (begun : held world) :
    (receiveRecords options rounds state).Meets perform allowed invariant rely guarantee
      (Delivered reliable state [] (items.map counted).sum
        fun later => held later ∧ ∀ item ∈ items, holds item later) world := by
  induction items generalizing rounds state world held with
  | nil =>
    have finished : ∀ last : StreamState, last.bytes = state.bytes →
        last.connection.remaining = [] →
        (Program.done (.ok (), last) :
          Program Call Reply (Except Error Unit × StreamState)).Meets perform allowed invariant
            rely guarantee (Delivered reliable state [] 0 fun later => held later ∧
              ∀ item ∈ [], holds item later) world := by
      intro last same ended
      refine Program.Meets.done fun later step _ => ⟨fun _ => rfl, fun _ => ⟨ended, ?_, ?_⟩⟩
      · rw [same, UInt64.add_zero]
      · exact ⟨undisturbed _ _ step begun, by simp⟩
    cases rounds with
    | zero => exact finished state rfl stream
    | succ rounds =>
      obtain ⟨later, outcome, left⟩ := receiveHeaderOptional_end stream
      simp only [receiveRecords, bind_apply, read_of_ok outcome, Program.bind_done, andThen_ok]
      exact finished ⟨later, state.bytes⟩ rfl left
  | cons item others inductionHypothesis =>
    rw [List.flatMap_cons] at stream
    obtain ⟨later, outcome, left⟩ :=
      receiveHeaderOptional_record (complete item List.mem_cons_self) stream
    have longer := (record item).length_bytes
    rw [List.pairwise_cons] at apart
    rw [List.forall_mem_cons] at ready
    cases rounds with
    | zero =>
      rw [stream, List.length_append, longer] at enough
      simp [kHeaderBytes] at enough
    | succ rounds =>
      simp only [receiveRecords, bind_apply, read_of_ok outcome, Program.bind_done, andThen_ok]
      refine Program.Meets.bind reflexive (Program.Meets.of_later reflexive
        fun world step kept => ?_)
      -- While the first record is received, the others stay ready.
      let waiting (world : World) : Prop := held world ∧ ∀ other ∈ others, needs other world
      have kept_by_rely : ∀ before after, rely before after → waiting before → waiting after :=
        fun before after step both => ⟨undisturbed _ _ step both.1, fun other member =>
          (stable other (List.mem_cons_of_mem _ member) _ _ step).1 (both.2 other member)⟩
      have kept_by_own : ∀ before after, own item before after → waiting before →
          waiting after :=
        fun before after mine both => ⟨respected item List.mem_cons_self _ _ mine both.1,
          fun other member => (apart.1 other member _ _).1 mine (both.2 other member)⟩
      have first := (each item List.mem_cons_self ⟨later, state.bytes⟩ world _ left kept
        ((stable item List.mem_cons_self _ _ step).1 ready.1)).frame kept_by_rely kept_by_own
        (within item List.mem_cons_self) (kept_by_rely _ _ step ⟨begun, ready.2⟩)
      refine first.weaken fun ended world _ delivered => ?_
      obtain ⟨reply, last⟩ := ended
      cases reply with
      | error error => exact Delivered.fail _ _ fun surely => by cases delivered.1.1 surely
      | ok _ =>
        obtain ⟨⟨-, returned⟩, remains, ready⟩ := delivered
        obtain ⟨standing, total, established⟩ := returned rfl
        have shorter : last.connection.remaining.length ≤ rounds := by
          rw [stream, List.length_append, longer] at enough
          rw [show last.connection.remaining = _ from standing]
          simp only [kHeaderBytes] at enough
          omega
        have rest := inductionHypothesis
          (fun other member => complete other (List.mem_cons_of_mem _ member))
          (fun other member => each other (List.mem_cons_of_mem _ member))
          (fun other member => stable other (List.mem_cons_of_mem _ member))
          (fun other member => within other (List.mem_cons_of_mem _ member)) apart.2
          (fun world => held world ∧ holds item world)
          (fun before after step both => ⟨undisturbed _ _ step both.1,
            (stable item List.mem_cons_self _ _ step).2 both.2⟩)
          (fun other member before after mine both =>
            ⟨respected other (List.mem_cons_of_mem _ member) _ _ mine both.1,
              (apart.1 other member _ _).2 mine both.2⟩)
          rounds last world standing shorter ready ⟨remains, established⟩
        refine rest.weaken fun ended world _ delivered => ⟨delivered.1, fun returned => ?_⟩
        obtain ⟨done, sum, ⟨remains, own⟩, each⟩ := delivered.2 returned
        refine ⟨done, ?_, remains, List.forall_mem_cons.mpr ⟨own, each⟩⟩
        rw [sum, List.map_cons, List.sum_cons, total, UInt64.add_assoc]

/-- The record loop on any bytes a peer may send: if every record of the stream keeps the
contract of the thread, the loop does. -/
theorem receiveRecords_meets_any (reflexive : ∀ world, rely world world) {options : Options}
    {accepted : IncomingHeader → Prop}
    (each : ∀ incoming, accepted incoming → ∀ (state : StreamState) (world : World),
      invariant world →
      (receiveRecord options incoming state).Meets perform allowed invariant rely guarantee
        (fun _ _ => True) world)
    (rounds : Nat) (state : StreamState) (world : World)
    (stream : ∀ incoming ∈ headersOf state.connection.remaining, accepted incoming) :
    (receiveRecords options rounds state).Meets perform allowed invariant rely guarantee
      (fun _ _ => True) world := by
  induction rounds generalizing state world with
  | zero => exact Program.Meets.done fun _ _ _ => trivial
  | succ rounds inductionHypothesis =>
    have whole := forget_receiveHeaderOptional state.connection
    cases read : receiveHeaderOptional state.connection with
    | error error =>
      simp only [receiveRecords, bind_apply, read_of_error read, Program.bind_done, andThen_error]
      exact Program.Meets.done fun _ _ _ => trivial
    | ok pair =>
      obtain ⟨header, rest⟩ := pair
      simp only [receiveRecords, bind_apply, read_of_ok read, Program.bind_done, andThen_ok]
      cases header with
      | none => exact Program.Meets.done fun _ _ _ => trivial
      | some incoming =>
        rw [read, forget_ok] at whole
        rw [headersOf_cons whole.symm, List.forall_mem_cons] at stream
        refine Program.Meets.bind reflexive (Program.Meets.of_later reflexive
          fun world _ kept => ?_)
        have record := (each incoming stream.1 ⟨rest, state.bytes⟩ world kept).and_endsOnlyIn
          (takes_receiveRecord options incoming ⟨rest, state.bytes⟩)
        refine record.weaken fun ended world _ took => ?_
        obtain ⟨reply, last⟩ := ended
        cases reply with
        | error error => exact Program.Meets.done fun _ _ _ => trivial
        | ok _ =>
          refine inductionHypothesis last world ?_
          rw [show last.connection.remaining = _ from (took.2 () rfl).2]
          exact stream.2

theorem receiveFilePart_meets_any (reflexive : ∀ world, rely world world) {options : Options}
    {accepted : IncomingHeader → Prop}
    (each : ∀ incoming, accepted incoming → ∀ (state : StreamState) (world : World),
      invariant world →
      (receiveRecord options incoming state).Meets perform allowed invariant rely guarantee
        (fun _ _ => True) world)
    (connection : Connection) (world : World)
    (stream : ∀ incoming ∈ headersOf connection.remaining, accepted incoming) :
    (receiveFilePart options connection).Meets perform allowed invariant rely guarantee
      (fun _ _ => True) world :=
  Program.Meets.map StreamResult.ofOutcome
    (receiveRecords_meets_any reflexive each _ ⟨connection, 0⟩ world stream)

/-- The result of one stream of records. -/
theorem receiveFilePart_meets {options : Options} {connection : Connection} {counted : UInt64}
    {holds : World → Prop} {world : World}
    (meets : (receiveRecords options connection.remaining.length ⟨connection, 0⟩).Meets perform
      allowed invariant rely guarantee
      (Delivered reliable ⟨connection, 0⟩ [] counted holds) world) :
    (receiveFilePart options connection).Meets perform allowed invariant rely guarantee
      (fun result later => (reliable → result.error = none) ∧
        (result.error = none → result.bytes = counted ∧ holds later)) world := by
  refine Program.Meets.map StreamResult.ofOutcome (meets.weaken fun ended world _ delivered => ?_)
  obtain ⟨reply, last⟩ := ended
  obtain ⟨surely, returned⟩ := delivered
  cases reply with
  | error error => exact ⟨fun wish => (by cases surely wish), fun clean => (by cases clean)⟩
  | ok _ =>
    obtain ⟨-, total, holds⟩ := returned rfl
    exact ⟨fun _ => rfl, fun _ => ⟨total.trans (UInt64.zero_add _), holds⟩⟩

end Contract

/-! ### The end of a transfer -/

/-- When no stream fails, the transfer reports the bytes of all streams. -/
theorem finishTransfer_clean {count : Nat} {results : Fin count → StreamResult}
    (clean : ∀ stream, (results stream).error = none) :
    finishTransfer (List.ofFn results) = .ok (totalBytes (List.ofFn results)) := by
  have nothing : (List.ofFn results).find? (fun result => result.error.isSome) = none := by
    refine List.find?_eq_none.mpr fun result member => ?_
    obtain ⟨stream, rfl⟩ := List.mem_ofFn.mp member
    simp [clean stream]
  unfold finishTransfer rethrowFirstError
  rw [nothing]
  rfl

/-- A transfer succeeds only when no stream fails. -/
theorem clean_of_finishTransfer {count : Nat} {results : Fin count → StreamResult}
    {total : UInt64} (success : finishTransfer (List.ofFn results) = .ok total)
    (stream : Fin count) : (results stream).error = none := by
  unfold finishTransfer rethrowFirstError at success
  split at success
  · rename_i nothing
    have quiet := List.find?_eq_none.mp nothing _ (List.mem_ofFn.mpr ⟨stream, rfl⟩)
    simpa using quiet
  · cases success

end HyperLink
