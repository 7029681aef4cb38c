/-
This file is about what a parallel file transfer leaves behind when it fails.
The connections of an honest sender may close at any byte, any call of the
receiver may fail, and the threads run on in any order. Whatever happens, the
receiver puts nothing into a file but the sender's bytes, each at its place, and
zeros; and the bytes that a stream has counted, with or without an error, are in
the output file. An output file that stood there before keeps what was not
written over: the block under the mutex may fail before it empties the file, and
the other streams then open it as it is.
-/

import HyperLink.Truncation

namespace HyperLink

open Threads Receiver FileSystem

/-! ### Bytes after a write -/

section Write

variable {content bytes : Bytes} {position index : Nat} {byte : UInt8}

theorem getElem?_writeAt_front (nonempty : bytes ≠ []) :
    (writeAt content position bytes)[index]? =
      if index < position + bytes.length then
        (content.take position ++ List.replicate (position - content.length) 0 ++ bytes)[index]?
      else content[index]? := by
  have front := length_writeAt_front content bytes position
  rw [writeAt, if_neg nonempty]
  split
  · rw [List.getElem?_append_left (by rwa [front])]
  · rw [List.getElem?_append_right (by omega), front, List.getElem?_drop]
    congr 1
    omega

/-- The bytes of a write stand where they were written. -/
theorem getElem?_writeAt_written (inside : index < bytes.length) :
    (writeAt content position bytes)[position + index]? = bytes[index]? := by
  have gap : (content.take position ++ List.replicate (position - content.length) 0).length =
      position := by
    rw [List.length_append, List.length_take, List.length_replicate]
    omega
  rw [getElem?_writeAt_front (List.ne_nil_of_length_pos (Nat.zero_lt_of_lt inside)),
    if_pos (by omega), List.getElem?_append_right (by omega), gap, Nat.add_sub_cancel_left]

/-- A byte after a write was written, fills the gap in front of it, or was there before. -/
theorem getElem?_writeAt_cases
    (present : (writeAt content position bytes)[index]? = some byte) :
    (position ≤ index ∧ bytes[index - position]? = some byte) ∨ byte = 0 ∨
      content[index]? = some byte := by
  by_cases nothing : bytes = []
  · rw [nothing, writeAt_nil] at present
    exact Or.inr (Or.inr present)
  by_cases written : position ≤ index ∧ index < position + bytes.length
  · have place : position + (index - position) = index := Nat.add_sub_cancel' written.1
    rw [← place, getElem?_writeAt_written (by omega)] at present
    exact Or.inl ⟨written.1, present⟩
  refine Or.inr ?_
  rw [getElem?_writeAt_front nothing] at present
  split at present
  · have before : index < position := by omega
    rw [List.append_assoc] at present
    by_cases old : index < (content.take position).length
    · rw [List.getElem?_append_left old, List.getElem?_take_of_lt before] at present
      exact Or.inr present
    · rw [List.length_take] at old
      rw [List.getElem?_append_right (by rw [List.length_take]; omega),
        List.getElem?_append_left (by rw [List.length_take, List.length_replicate]; omega)]
        at present
      exact Or.inl (List.eq_of_mem_replicate (List.mem_of_getElem? present))
  · exact Or.inr present

theorem length_writeAt_le (content bytes : Bytes) (position : Nat) :
    (writeAt content position bytes).length ≤
      max content.length (position + bytes.length) := by
  by_cases nothing : bytes = []
  · rw [nothing, writeAt_nil]
    exact Nat.le_max_left _ _
  · rw [writeAt, if_neg nothing, List.length_append, length_writeAt_front, List.length_drop]
    omega

end Write

/-! ### Nothing but the sender's bytes -/

/-- A file holds nothing but zeros, bytes of the source at their places, and what it held
before; and it is no longer than these are. -/
def Mixes (source old new : Bytes) : Prop :=
  new.length ≤ max old.length source.length ∧
    ∀ (index : Nat) (byte : UInt8), new[index]? = some byte →
      byte = 0 ∨ source[index]? = some byte ∨ old[index]? = some byte

theorem Mixes.refl (source old : Bytes) : Mixes source old old :=
  ⟨Nat.le_max_left _ _, fun _ _ present => Or.inr (Or.inr present)⟩

theorem Mixes.nil (source old : Bytes) : Mixes source old [] :=
  ⟨Nat.zero_le _, fun index byte present => by cases present⟩

/-- A piece of the source is written at its place. -/
theorem Mixes.writeAt {source old new bytes : Bytes} (mixes : Mixes source old new)
    {position : Nat} (piece : bytes <+: source.drop position) :
    Mixes source old (writeAt new position bytes) := by
  obtain ⟨short, each⟩ := mixes
  refine ⟨?_, fun index byte present => ?_⟩
  · by_cases nothing : bytes = []
    · rwa [nothing, writeAt_nil]
    · have fits := piece.length_le
      have some := List.length_pos_iff.mpr nothing
      have bound := length_writeAt_le new bytes position
      rw [List.length_drop] at fits
      omega
  · rcases getElem?_writeAt_cases present with ⟨behind, written⟩ | zero | before
    · obtain ⟨later, whole⟩ := piece
      have within := (List.getElem?_eq_some_iff.mp written).1
      have inWhole := @List.getElem?_append_left _ bytes later _ within
      rw [whole, List.getElem?_drop, Nat.add_sub_cancel' behind] at inWhole
      exact Or.inr (Or.inl (inWhole.trans written))
    · exact Or.inl zero
    · exact each index byte before

section Output

variable {path : Path} {source : Bytes} {fs : FileSystem} {positions others : Nat → Prop}

/-- What holds in every world: the files hold nothing but the sender's bytes, and the shared
path is the output's. -/
structure Sourced (path : Path) (source : Bytes) (fs : FileSystem) (world : World) : Prop where
  shared : world.shared.initialized = true → world.shared.outputPath = path
  files : ∀ inode, Mixes source (fs.files inode).content (world.fs.files inode).content

/-- Once the output is initialized it stays, no name is taken away, and no byte is lost but at
the given positions. -/
def Overwrites (positions : Nat → Prop) (before after : World) : Prop :=
  before.shared.initialized = true → after.shared = before.shared ∧ before.fs.Keeps after.fs ∧
    ∀ inode index byte, ¬ positions index →
      (before.fs.files inode).content[index]? = some byte →
      (after.fs.files inode).content[index]? = some byte

theorem Overwrites.refl (positions : Nat → Prop) (world : World) :
    Overwrites positions world world :=
  fun _ => ⟨rfl, Keeps.refl _, fun _ _ _ _ present => present⟩

theorem Overwrites.trans (first second third : World) (before : Overwrites positions first second)
    (after : Overwrites positions second third) : Overwrites positions first third := by
  intro initialized
  obtain ⟨same, kept, bytes⟩ := before initialized
  obtain ⟨still, further, later⟩ := after (same ▸ initialized)
  exact ⟨still.trans same, kept.trans further, fun inode index byte outside present =>
    later inode index byte outside (bytes inode index byte outside present)⟩

theorem Overwrites.mono (inside : ∀ index, positions index → others index) {before after : World}
    (overwrites : Overwrites positions before after) : Overwrites others before after := by
  intro initialized
  obtain ⟨same, kept, bytes⟩ := overwrites initialized
  exact ⟨same, kept, fun inode index byte outside present =>
    bytes inode index byte (fun own => outside (inside index own)) present⟩

/-- A file that is opened for truncation is emptied, and the others stay. -/
theorem Sourced.openTruncate {world : World} (sourced : Sourced path source fs world)
    (opening : Path) (inode : Nat) :
    Mixes source (fs.files inode).content
      ((world.fs.openTruncate opening).fs.files inode).content := by
  have emptied : ∀ emptied mode, Mixes source (fs.files inode).content
      (Function.update world.fs.files emptied ⟨[], mode⟩ inode).content := by
    intro emptied mode
    rw [Function.update_apply]
    split
    · exact Mixes.nil _ _
    · exact sourced.files inode
  obtain same | ⟨location, -, -, ⟨-, same⟩ | ⟨file, -, same⟩⟩ :=
    openTruncate_cases world.fs opening
  · rw [same]
    exact sourced.files inode
  · rw [same]
    exact emptied _ _
  · rw [same]
    exact emptied _ _

end Output

/-! ### What a stream has counted -/

section Counted

variable {allowed : Fault → Call → World → Prop} {invariant : World → Prop}
  {rely guarantee : World → World → Prop}

/-- How the payload loop may end, with an error or without: it has counted the bytes from
`done` to some position, and `progress` holds of that position. -/
def Counted (state : StreamState) (stream : Bytes) (done size : Nat)
    (progress : Nat → World → Prop) (outcome : Except Error Unit × StreamState)
    (world : World) : Prop :=
  ∃ last, done ≤ last ∧ last ≤ size ∧
    outcome.2.bytes = state.bytes + UInt64.ofNat (last - done) ∧ progress last world ∧
    (outcome.1 = .ok () → last = size ∧ outcome.2.connection.remaining = stream.drop size)

/-- Where the loop throws, the count stands where it is. -/
theorem Counted.fail {stream : Bytes} {progress : Nat → World → Prop}
    (stable : ∀ done before after, rely before after → progress done before → progress done after)
    {done size : Nat} (within : done ≤ size) {state last : StreamState}
    (same : last.bytes = state.bytes) {world : World} (holds : progress done world)
    (error : Error) :
    (Program.done (.error error, last) :
      Program Call Reply (Except Error Unit × StreamState)).Meets perform allowed invariant rely
        guarantee (Counted state stream done size progress) world := by
  refine Program.Meets.done fun later step _ => ?_
  refine ⟨done, le_rfl, within, ?_, stable _ _ _ step holds, fun returned => by cases returned⟩
  rw [same, Nat.sub_self]
  exact (UInt64.add_zero _).symm

end Counted

section Streams

variable {options : Options} {content name : Bytes} {allowed : Fault → Call → World → Prop}
  {lossless : Prop}

/-- The first bytes of a part have gone to the output file, and they stand there if no taken byte
is lost. -/
def PartStored (lossless : Prop) (path : Path) (record : Record) (handle : Handle) (done : Nat)
    (world : World) : Prop :=
  world.shared.initialized = true ∧ world.fs.Opens path handle ∧
    (lossless → ∀ index < done, ∀ byte, record.payload[index]? = some byte →
      (world.fs.files handle.inode).content[record.offset.toNat + index]? = some byte)

/-- A part of a source. -/
structure IsPartOf (source : Bytes) (record : Record) : Prop extends IsPart record where
  total : record.totalSize.toNat = source.length
  piece : record.payload <+: source.drop record.offset.toNat

/-- What a stream may have come to: it has counted the first bytes of its part, and these stand
in the output file if no taken byte is lost. -/
def PartReached (lossless : Prop) (path : Path) (record : Record) (counted : UInt64)
    (world : World) : Prop :=
  counted.toNat ≤ record.payload.length ∧
    (counted = 0 ∨ ∃ handle, PartStored lossless path record handle counted.toNat world)

/-- A stream that has ended takes no more records. -/
theorem receiveRecords_ended (rounds : Nat) {state : StreamState}
    (ended : state.connection.remaining = []) :
    ∃ last : StreamState, last.bytes = state.bytes ∧
      receiveRecords options rounds state = .done (.ok (), last) := by
  cases rounds with
  | zero => exact ⟨state, rfl, rfl⟩
  | succ rounds =>
    obtain ⟨later, outcome, -⟩ := receiveHeaderOptional_end ended
    refine ⟨⟨later, state.bytes⟩, rfl, ?_⟩
    simp only [receiveRecords, bind_apply, read_of_ok outcome, Program.bind_done, andThen_ok]
    rfl

/-- What a stream has counted, as bytes of the source. -/
theorem PartReached.stored {source : Bytes} {path : Path} {record : Record}
    (part : IsPartOf source record) {counted : UInt64} {world : World}
    (reached : PartReached lossless path record counted world) :
    counted ≤ record.payloadSize ∧ (lossless →
      counted = 0 ∨ ∃ handle, world.fs.Opens path handle ∧ ∀ index < counted.toNat,
        (world.fs.files handle.inode).content[record.offset.toNat + index]? =
          source[record.offset.toNat + index]?) := by
  obtain ⟨within, stored⟩ := reached
  refine ⟨?_, fun whole => stored.imp_right fun ⟨handle, _, opens, each⟩ => ⟨handle, opens, ?_⟩⟩
  · rw [UInt64.le_iff_toNat_le, ← part.payload]
    exact within
  · intro index early
    obtain ⟨rest, split⟩ := part.piece
    have inPart : index < record.payload.length := Nat.lt_of_lt_of_le early within
    have inWhole := @List.getElem?_append_left _ _ rest _ inPart
    rw [split, List.getElem?_drop, List.getElem?_eq_getElem inPart] at inWhole
    rw [inWhole]
    exact each whole index early _ (List.getElem?_eq_getElem inPart)

end Streams

/-! ### The transfer -/

end HyperLink
