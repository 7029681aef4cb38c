/-
This file proves that a parallel file transfer is exact under every
interleaving. The threads share one output file. Whoever comes first creates it
with its final size; from then on each thread owns the byte range of its stream,
writes only there, and relies on the others to leave it alone. The ranges tile
the file, so when all threads are done the file is the source.
-/

import HyperLink.Records
import HyperLink.SingleReceiver

namespace HyperLink

open Threads Receiver FileSystem

/-! ### The shared output file -/

section Output

variable (path : Path) (name : Bytes) (size : UInt64)

/-- The output file stands: it is initialized, its path opens as the handle, and it has its
final size. -/
structure Ready (handle : Handle) (world : World) : Prop where
  shared : world.shared = ⟨true, path, name, size⟩
  opens : world.fs.Opens path handle
  length : (world.fs.files handle.inode).content.length = size.toNat

/-- Either nothing has happened yet, or the output file stands. -/
def Prepared (fs : FileSystem) (world : World) : Prop :=
  (world.shared.initialized = false ∧ world.fs = fs) ∨ ∃ handle, Ready path name size handle world

/-- Once the output file stands it stays, and only the bytes at the given positions change. -/
def Touches (positions : Nat → Prop) (before after : World) : Prop :=
  ∀ handle, Ready path name size handle before → Ready path name size handle after ∧
    ∀ index, ¬ positions index →
      (after.fs.files handle.inode).content[index]? =
        (before.fs.files handle.inode).content[index]?

/-- The environment is smooth: no fault, and the file can be created. -/
def Smooth (fault : Fault) (request : Call) (world : World) : Prop :=
  fault = .none ∧ (request = .prepare path name size →
    ∃ ready, (prepare .none path name size world).1 = .ok ready)

variable {path name size} {positions others : Nat → Prop} {fs : FileSystem}

theorem Touches.refl (positions : Nat → Prop) (world : World) :
    Touches path name size positions world world :=
  fun _ ready => ⟨ready, fun _ _ => rfl⟩

theorem Touches.trans (first second third : World)
    (before : Touches path name size positions first second)
    (after : Touches path name size positions second third) :
    Touches path name size positions first third := by
  intro handle ready
  obtain ⟨middle, same⟩ := before handle ready
  obtain ⟨last, still⟩ := after handle middle
  exact ⟨last, fun index outside => (still index outside).trans (same index outside)⟩

theorem Touches.mono (inside : ∀ index, positions index → others index) {before after : World}
    (touches : Touches path name size positions before after) :
    Touches path name size others before after := by
  intro handle ready
  obtain ⟨still, same⟩ := touches handle ready
  exact ⟨still, fun index outside => same index fun own => outside (inside index own)⟩

/-- The block under the mutex leaves the output file ready, whoever enters it first. -/
theorem prepare_ready {world : World} (prepared : Prepared path name size fs world)
    {ready : Path} (succeeds : (prepare .none path name size world).1 = .ok ready) :
    ready = path ∧
      (∃ handle, Ready path name size handle (prepare .none path name size world).2) ∧
      Touches path name size positions world (prepare .none path name size world).2 := by
  have vacuous : world.shared.initialized = false → ∀ after,
      Touches path name size positions world after := by
    intro fresh after handle stands
    rw [stands.shared] at fresh
    cases fresh
  obtain ⟨-, same⟩ | ⟨initialized, -, -, same⟩ | ⟨-, _, _, _, same, -⟩ |
      ⟨fresh, handle, after, opened, files, same⟩ := prepare_cases .none path name size world
  · rw [same] at succeeds
    cases succeeds
  · rcases prepared with ⟨fresh, -⟩ | ⟨handle, stands⟩
    · rw [initialized] at fresh
      cases fresh
    · rw [same] at succeeds ⊢
      injection succeeds with output
      refine ⟨?_, ⟨handle, stands⟩, Touches.refl _ _⟩
      rw [← output, stands.shared]
  · rw [same] at succeeds
    cases succeeds
  · rw [same] at succeeds ⊢
    injection succeeds with output
    obtain ⟨opens, -⟩ := opens_of_openTruncate opened
    refine ⟨output.symm, ⟨handle, rfl, ?_, ?_⟩, vacuous fresh _⟩
    · rw [files]
      exact opens.keeps (Keeps.setFile _ _ _)
    · simp [files, length_resizeTo]

/-- Where the file can be created, a call without a fault succeeds. -/
theorem smooth_of_creatable (creates : (fs.openTruncate path).reply ≠ none)
    (small : size.toNat ≤ maximumOffset) {world : World}
    (prepared : Prepared path name size fs world) :
    ∃ ready, (prepare .none path name size world).1 = .ok ready := by
  obtain ⟨fresh, rfl⟩ | ⟨handle, stands⟩ := prepared
  · obtain ⟨handle, opened⟩ := Option.ne_none_iff_exists'.mp creates
    have resized := (opens_of_openTruncate opened).1.resizeFile small
    refine ⟨path, ?_⟩
    simp [prepare, fresh, World.onFiles, opened, resized]
  · refine ⟨path, ?_⟩
    simp [prepare, stands.shared]

/-- A write inside the output file. -/
theorem write_ready {handle : Handle} {world : World} (ready : Ready path name size handle world)
    {position : Nat} {bytes : Bytes} (inside : position + bytes.length ≤ size.toNat)
    (owned : ∀ index, position ≤ index → index < position + bytes.length → positions index) :
    let after := (performCall (.write handle position bytes) world).2
    Ready path name size handle after ∧ Touches path name size positions world after ∧
      ∀ index, (after.fs.files handle.inode).content[index]? =
        if position ≤ index ∧ index < position + bytes.length then bytes[index - position]?
        else (world.fs.files handle.inode).content[index]? := by
  have fits : position + bytes.length ≤ (world.fs.files handle.inode).content.length := by
    rw [ready.length]
    exact inside
  have content : ∀ index, ((performCall (.write handle position bytes)
      world).2.fs.files handle.inode).content[index]? =
        if position ≤ index ∧ index < position + bytes.length then bytes[index - position]?
        else (world.fs.files handle.inode).content[index]? := by
    intro index
    simp only [performCall, World.onFiles, FileSystem.write, files_setFile, Function.update_self]
    exact getElem?_writeAt fits index
  have still : Ready path name size handle
      (performCall (.write handle position bytes) world).2 := by
    refine ⟨ready.shared, ready.opens.keeps (Keeps.setFile _ _ _), ?_⟩
    simp only [performCall, World.onFiles, FileSystem.write, files_setFile, Function.update_self]
    rw [length_writeAt fits, ready.length]
  refine ⟨still, fun other stands => ?_, content⟩
  have same : other = handle := by
    have first := stands.opens.openReadWrite.symm.trans ready.opens.openReadWrite
    exact Option.some.inj (congrArg Outcome.reply first)
  subst same
  refine ⟨still, fun index outside => ?_⟩
  rw [content index, if_neg fun within => outside (owned index within.1 within.2)]

/-! ### One part -/

/-- The part is in the output file. -/
def Written (path : Path) (record : Record) (world : World) : Prop :=
  ∃ handle, Ready path record.name record.totalSize handle world ∧
    ∀ index, record.offset.toNat ≤ index →
      index < record.offset.toNat + record.payload.length →
      (world.fs.files handle.inode).content[index]? = record.payload[index - record.offset.toNat]?

/-- A part that lies inside the announced file, with nothing left out. -/
structure IsPart (record : Record) : Prop extends record.Complete where
  kind : record.kind = .file ∨ record.kind = .filePart
  safe : SafeName record.name
  inside : record.offset.toNat + record.payload.length ≤ record.totalSize.toNat
  small : record.totalSize.toNat ≤ maximumOffset

theorem IsPart.rangeExceeds {record : Record} (part : IsPart record) :
    rangeExceeds record.header = false := by
  have bound := record.totalSize.toNat_lt
  have inside := part.inside
  rw [part.payload] at inside
  have sum : (record.offset + record.payloadSize).toNat =
      record.offset.toNat + record.payloadSize.toNat := by
    rw [UInt64.toNat_add]
    exact Nat.mod_eq_of_lt (by omega)
  simp only [HyperLink.rangeExceeds, Record.header, decide_eq_false_iff_not, gt_iff_lt,
    UInt64.lt_iff_toNat_lt, sum]
  omega

/-- The positions of a part. -/
def Record.covers (record : Record) (index : Nat) : Prop :=
  record.offset.toNat ≤ index ∧ index < record.offset.toNat + record.payload.length

theorem written_stable (record : Record) (before after : World)
    (others : Touches path record.name record.totalSize (fun index => ¬ record.covers index)
      before after) (written : Written path record before) : Written path record after := by
  obtain ⟨handle, ready, same⟩ := written
  obtain ⟨still, kept⟩ := others handle ready
  refine ⟨handle, still, fun index first last => ?_⟩
  rw [kept index (not_not.mpr ⟨first, last⟩)]
  exact same index first last

/-- The first bytes of a part are in the output file. -/
def PartWritten (path : Path) (record : Record) (handle : Handle) (done : Nat) (world : World) :
    Prop :=
  Ready path record.name record.totalSize handle world ∧
    ∀ index, record.covers index → index < record.offset.toNat + done →
      (world.fs.files handle.inode).content[index]? = record.payload[index - record.offset.toNat]?

theorem partWritten_stable {record : Record} {handle : Handle} (done : Nat) (before after : World)
    (others : Touches path record.name record.totalSize (fun index => ¬ record.covers index)
      before after) (written : PartWritten path record handle done before) :
    PartWritten path record handle done after := by
  obtain ⟨still, kept⟩ := others handle written.1
  refine ⟨still, fun index covered early => ?_⟩
  rw [kept index (not_not.mpr covered)]
  exact written.2 index covered early

/-- One chunk of a part. -/
theorem partWritten_chunk {record : Record} (part : IsPart record) {handle : Handle}
    {bytes : Bytes} {done : Nat} {world : World} (piece : bytes <+: record.payload.drop done)
    (fits : done + bytes.length ≤ record.payload.length)
    (written : PartWritten path record handle done world) :
    let after := (performCall (.write handle (record.offset.toNat + done) bytes) world).2
    Touches path record.name record.totalSize record.covers world after ∧
      PartWritten path record handle (done + bytes.length) after := by
  have inside := part.inside
  have within : record.offset.toNat + done + bytes.length ≤ record.totalSize.toNat := by omega
  have owned : ∀ index, record.offset.toNat + done ≤ index →
      index < record.offset.toNat + done + bytes.length → record.covers index :=
    fun index first last => ⟨by omega, by omega⟩
  obtain ⟨ready, touches, content⟩ := write_ready written.1 within owned
  refine ⟨touches, ready, fun index covered early => ?_⟩
  rw [content index]
  split
  · rename_i chunk
    obtain ⟨later, whole⟩ := piece
    have position : index - record.offset.toNat =
        done + (index - (record.offset.toNat + done)) := by omega
    rw [position, ← List.getElem?_drop, ← whole, List.getElem?_append_left (by omega)]
  · exact written.2 index covered (by omega)

/-- The payload of a part, once the output file is open. -/
theorem receivePartPayload_meets {record : Record} (part : IsPart record) (state : StreamState)
    (world : World) (rest : Bytes) (stream : state.connection.remaining = record.payload ++ rest)
    {handle : Handle} (stands : Ready path record.name record.totalSize handle world) :
    (receivePayload filePartClosed true handle record.offset.toNat record.payloadSize.toNat
      state).Meets perform (Smooth path record.name record.totalSize)
      (Prepared path record.name record.totalSize fs)
      (Touches path record.name record.totalSize fun index => ¬ record.covers index)
      (Touches path record.name record.totalSize record.covers)
      (Delivered True state rest record.payloadSize (Written path record)) world := by
  have begun : PartWritten path record handle 0 world :=
    ⟨stands, fun index covered early => absurd covered.1 (by omega)⟩
  have payload : (receivePayload filePartClosed true handle (record.offset.toNat + 0)
      (record.payload.length - 0) state).Meets perform (Smooth path record.name record.totalSize)
      (Prepared path record.name record.totalSize fs)
      (Touches path record.name record.totalSize fun index => ¬ record.covers index)
      (Touches path record.name record.totalSize record.covers)
      (Delivered (True ∧ record.payload.length ≤ (record.payload ++ rest).length) state _ _ _)
      world :=
    receivePayload_meets partWritten_stable
      (fun bytes done world fault piece fits _ written permitted => by
        obtain ⟨smooth, -⟩ := permitted
        subst smooth
        rw [List.drop_append_of_le_length (by omega)] at piece
        have inPart := List.prefix_of_prefix_length_le piece (List.prefix_append _ _)
          (by rw [List.length_drop]; omega)
        obtain ⟨touches, further⟩ := partWritten_chunk part inPart fits written
        exact ⟨Or.inr ⟨handle, further.1⟩, touches, fun _ => rfl, fun _ => further⟩)
      0 (Nat.zero_le _) state world stream begun
  rw [Nat.sub_zero, Nat.add_zero, List.drop_left' rfl] at payload
  rw [← part.payload]
  refine payload.weaken fun ended world _ delivered =>
    ⟨fun _ => delivered.1 ⟨trivial, by simp⟩, fun returned => ?_⟩
  obtain ⟨left, total, ready, same⟩ := delivered.2 returned
  refine ⟨left, ?_, handle, ready, fun index first last => same index ⟨first, last⟩ last⟩
  rw [total, if_pos rfl, part.payload, UInt64.ofNat_toNat]

theorem receiveRecord_part {options : Options} {record : Record}
    (kind : record.kind = .file ∨ record.kind = .filePart) :
    receiveRecord options record.header = receivePart options record.header := by
  unfold receiveRecord
  rw [show record.header.kind = record.kind from rfl]
  rcases kind with same | same <;> rw [same]

theorem receivePart_meets {options : Options} {record : Record} (part : IsPart record)
    {path : Path} (output : path = options.outputDir / Path.parse record.name)
    (state : StreamState) (world : World) (rest : Bytes)
    (stream : state.connection.remaining = record.payload ++ rest) :
    (receivePart options record.header state).Meets perform
      (Smooth path record.name record.totalSize) (Prepared path record.name record.totalSize fs)
      (Touches path record.name record.totalSize fun index => ¬ record.covers index)
      (Touches path record.name record.totalSize record.covers)
      (Delivered True state rest record.payloadSize (Written path record)) world := by
  have within := part.rangeExceeds
  have seekable : ¬ maximumOffset < record.header.offset.toNat := by
    have small := part.small
    have inside := part.inside
    rw [show record.header.offset = record.offset from rfl]
    omega
  subst output
  unfold receivePart
  rw [show record.header.fileName = record.name from rfl, safeFileName_of_safe part.safe]
  simp only [within, Bool.false_eq_true, if_false, if_neg seekable]
  show Program.Meets _ _ _ _ _ _ ((Receiver.invoke _ >>= _ : Receiver Unit) state) _
  -- The block under the mutex.
  refine invoke_meets fun first _ prepared fault ⟨smooth, creates⟩ => ?_
  subst smooth
  obtain ⟨ready, created⟩ := creates rfl
  obtain ⟨rfl, ⟨handle, stands⟩, touches⟩ := prepare_ready prepared created
  refine ⟨_, _, Prod.ext created rfl, Or.inr ⟨handle, stands⟩, touches, ?_⟩
  show Program.Meets _ _ _ _ _ _ ((Receiver.invoke _ >>= _ : Receiver Unit) state) _
  -- The open.
  refine invoke_meets fun second step _ fault ⟨smooth, _⟩ => ?_
  subst smooth
  obtain ⟨stands, -⟩ := step handle stands
  refine ⟨some handle, { second with history := second.history ++ [] }, ?_, ?_⟩
  · simp only [perform, performCall, World.onFiles, stands.opens.openReadWrite, if_true, unchanged]
  have same : ({ second with history := second.history ++ [] } : World) = second := by
    rw [List.append_nil]
  rw [same]
  exact ⟨Or.inr ⟨handle, stands⟩, Touches.refl _ _,
    receivePartPayload_meets part state second rest stream stands⟩

end Output

/-! ### The streams of one file -/

section Streams

variable {options : Options} {content name : Bytes}

/-- The record of one stream of a file. -/
def partRecord (options : Options) (content name : Bytes)
    (stream : Fin options.parallel.toNat) : Record :=
  let range := byteRangeForStream (UInt64.ofNat content.length) (UInt32.ofNat stream)
    options.parallel
  { kind := if options.parallel > 1 then .filePart else .file
    payloadSize := range.2
    offset := range.1
    totalSize := UInt64.ofNat content.length
    name := name
    payload := (content.drop range.1.toNat).take range.2.toNat }

theorem toNat_contentSize (small : content.length < 2 ^ 63) :
    (UInt64.ofNat content.length).toNat = content.length := by
  rw [UInt64.toNat_ofNat']
  omega

theorem toNat_stream (stream : Fin options.parallel.toNat) :
    (UInt32.ofNat stream).toNat = stream := by
  have bound := options.parallel.toNat_lt
  have inside := stream.isLt
  rw [UInt32.toNat_ofNat']
  omega

/-- The range of a stream's record is its share of the file. -/
theorem partRecord_range (name : Bytes) (small : content.length < 2 ^ 63)
    (stream : Fin options.parallel.toNat) :
    (partRecord options content name stream).offset.toNat =
        rangeStart content.length options.parallel.toNat stream ∧
      (partRecord options content name stream).offset.toNat +
          (partRecord options content name stream).payloadSize.toNat =
        rangeStart content.length options.parallel.toNat (stream + 1) := by
  have inside : UInt32.ofNat stream < options.parallel := by
    rw [UInt32.lt_iff_toNat_lt, toNat_stream]
    exact stream.isLt
  have range := toNat_byteRangeForStream (UInt64.ofNat content.length) inside
  rwa [toNat_contentSize small, toNat_stream] at range

theorem partRecord_inside (name : Bytes) (small : content.length < 2 ^ 63)
    (stream : Fin options.parallel.toNat) :
    (partRecord options content name stream).offset.toNat +
      (partRecord options content name stream).payloadSize.toNat ≤ content.length := by
  rw [(partRecord_range name small stream).2]
  exact rangeStart_le _ (Nat.succ_le_of_lt stream.isLt) (Nat.zero_lt_of_lt stream.isLt)

theorem partRecord_isPart (small : content.length < 2 ^ 63) (safe : SafeName name)
    (short : name.length ≤ 4096) (stream : Fin options.parallel.toNat) :
    IsPart (partRecord options content name stream) := by
  have inside := partRecord_inside name small stream
  have length : (partRecord options content name stream).payload.length =
      (partRecord options content name stream).payloadSize.toNat := by
    show ((content.drop (partRecord options content name stream).offset.toNat).take
      (partRecord options content name stream).payloadSize.toNat).length = _
    rw [List.length_take, List.length_drop]
    exact Nat.min_eq_left (by omega)
  refine ⟨⟨⟨List.length_pos_iff.mpr safe.1, short⟩, length⟩, ?_, safe, ?_, ?_⟩
  · unfold partRecord
    simp only []
    split
    · exact Or.inr rfl
    · exact Or.inl rfl
  · rw [length]
    exact inside.trans (toNat_contentSize small).ge
  · show (UInt64.ofNat content.length).toNat ≤ maximumOffset
    rw [toNat_contentSize small, maximumOffset]
    omega

/-- No position belongs to two streams. -/
theorem partRecord_apart (small : content.length < 2 ^ 63) (safe : SafeName name)
    (short : name.length ≤ 4096) {stream other : Fin options.parallel.toNat}
    (different : stream ≠ other) (index : Nat)
    (covered : (partRecord options content name other).covers index) :
    ¬ (partRecord options content name stream).covers index := by
  have first := partRecord_range name small stream
  have second := partRecord_range name small other
  have sizes (which : Fin options.parallel.toNat) :=
    (partRecord_isPart small safe short which).payload
  rintro ⟨low, high⟩
  obtain ⟨otherLow, otherHigh⟩ := covered
  rw [sizes] at high otherHigh
  rcases Nat.lt_or_gt_of_ne (fun same => different (Fin.ext same)) with before | after
  · have next : (stream : Nat) + 1 ≤ other := before
    have order := rangeStart_mono content.length options.parallel.toNat next
    omega
  · have next : (other : Nat) + 1 ≤ stream := after
    have order := rangeStart_mono content.length options.parallel.toNat next
    omega

/-- The sender of a stream sends its record. -/
theorem sendFile_eq (small : content.length < 2 ^ 63) (stream : Fin options.parallel.toNat) :
    sendFile options content name stream =
      ⟨(partRecord options content name stream).bytes,
        ⟨(partRecord options content name stream).payloadSize, none⟩⟩ := by
  refine sendFileRange_eq options options.file name _ (partRecord_inside name small stream) ?_
  rw [maximumOffset]
  omega

/-- Where the receiver puts the file. -/
abbrev outputPath (options : Options) (name : Bytes) : Path := options.outputDir / Path.parse name

/-- What the thread of a stream does to the output file. -/
abbrev WritesPart (options : Options) (content name : Bytes)
    (stream : Fin options.parallel.toNat) : World → World → Prop :=
  Touches (outputPath options name) name (UInt64.ofNat content.length)
    (partRecord options content name stream).covers

/-- What the thread of a stream expects of the others. -/
abbrev SparesPart (options : Options) (content name : Bytes)
    (stream : Fin options.parallel.toNat) : World → World → Prop :=
  Touches (outputPath options name) name (UInt64.ofNat content.length)
    fun index => ¬ (partRecord options content name stream).covers index

/-- The thread of a stream that carries its record of the file, or nothing. -/
theorem fileStream_meets (small : content.length < 2 ^ 63) (safe : SafeName name)
    (short : name.length ≤ 4096) (stream : Fin options.parallel.toNat) {records : List Record}
    (front : records <+: [partRecord options content name stream]) {connection : Connection}
    (carries : connection.remaining = records.flatMap Record.bytes) (fs : FileSystem)
    (world : World) :
    (receiveFilePart options connection).Meets perform
      (Smooth (outputPath options name) name (UInt64.ofNat content.length))
      (Prepared (outputPath options name) name (UInt64.ofNat content.length) fs)
      (SparesPart options content name stream) (WritesPart options content name stream)
      (fun result world => result.error = none ∧
        result.bytes = (records.map Record.payloadSize).sum ∧
        ∀ record ∈ records, Written (outputPath options name) record world) world := by
  have part := partRecord_isPart small safe short stream
  have only : ∀ record ∈ records, record = partRecord options content name stream :=
    fun record member => List.mem_singleton.mp (front.subset member)
  have stable : ∀ record ∈ records, ∀ before after,
      SparesPart options content name stream before after → (True → True) ∧
      (Written (outputPath options name) record before →
        Written (outputPath options name) record after) := by
    intro record member before after others
    rw [only record member]
    exact ⟨id, written_stable (partRecord options content name stream) before after others⟩
  have each : ∀ record ∈ records, ∀ (state : StreamState) (world : World) (rest : Bytes),
      state.connection.remaining = record.payload ++ rest →
      Prepared (outputPath options name) name (UInt64.ofNat content.length) fs world → True →
      (receiveRecord options record.header state).Meets perform
        (Smooth (outputPath options name) name (UInt64.ofNat content.length))
        (Prepared (outputPath options name) name (UInt64.ofNat content.length) fs)
        (SparesPart options content name stream) (WritesPart options content name stream)
        (Delivered True state rest record.payloadSize
          (Written (outputPath options name) record)) world := by
    intro record member state world rest payload _ _
    rw [only record member] at payload ⊢
    rw [receiveRecord_part part.kind]
    exact receivePart_meets part rfl state world rest payload
  have loop := receiveRecords_meets (Touches.refl _) records
    (fun record member => only record member ▸ part.toComplete) each stable
    (fun _ _ _ _ writes => writes) (List.Pairwise.sublist front.sublist (List.pairwise_singleton _ _))
    (fun _ => True) (fun _ _ _ _ => trivial) (fun _ _ _ _ _ _ => trivial) _ ⟨connection, 0⟩ world
    carries le_rfl (fun _ _ => trivial) trivial
  refine (receiveFilePart_meets loop).weaken fun result world _ ended => ?_
  obtain ⟨total, -, written⟩ := ended.2 (ended.1 trivial)
  exact ⟨ended.1 trivial, total, written⟩

/-- Streams that carry their record of the file, or nothing, end without an error, and what
they carry is in the output file. -/
theorem fileStreams_endsIn (small : content.length < 2 ^ 63) (safe : SafeName name)
    (short : name.length ≤ 4096) (records : Fin options.parallel.toNat → List Record)
    (front : ∀ stream, records stream <+: [partRecord options content name stream])
    (connections : Fin options.parallel.toNat → Connection)
    (streams : ∀ stream, (connections stream).remaining =
      (records stream).flatMap Record.bytes) (fs : FileSystem)
    {allowed : Fault → Call → World → Prop}
    (smooth : ∀ fault request world,
      Prepared (outputPath options name) name (UInt64.ofNat content.length) fs world →
      allowed fault request world →
      Smooth (outputPath options name) name (UInt64.ofNat content.length) fault request world) :
    (startReceive options fs connections).EndsIn perform allowed
      fun results world =>
        Prepared (outputPath options name) name (UInt64.ofNat content.length) fs world ∧
        ∀ stream, (results stream).error = none ∧
          (results stream).bytes = ((records stream).map Record.payloadSize).sum ∧
          ∀ record ∈ records stream, Written (outputPath options name) record world := by
  have meet : (startReceive options fs connections).AllMeet perform allowed _ _ _ _ :=
    ⟨Or.inl ⟨rfl, rfl⟩, fun stream => (fileStream_meets small safe short stream (front stream)
      (streams stream) fs _).restrict smooth⟩
  exact meet.endsIn (fun _ => Touches.refl _) (fun _ => Touches.trans)
    fun stream other different before after =>
      Touches.mono (partRecord_apart small safe short different)

/-! ### The whole transfer -/

/-- The byte counts of consecutive ranges add up to where the last one ends. -/
theorem totalBytes_ranges {start : Nat → Nat} (first : start 0 = 0) (mono : Monotone start)
    {count : Nat} (results : Fin count → StreamResult)
    (each : ∀ stream : Fin count,
      (results stream).bytes = UInt64.ofNat (start (stream + 1) - start stream)) :
    totalBytes (List.ofFn results) = UInt64.ofNat (start count) := by
  induction count with
  | zero => simp [totalBytes, first]
  | succ count inductionHypothesis =>
    have front := inductionHypothesis (fun stream => results stream.castSucc) fun stream =>
      each stream.castSucc
    have order := mono (Nat.le_succ count)
    unfold totalBytes at front ⊢
    rw [List.ofFn_succ', List.concat_eq_append, List.foldl_append, front, List.foldl_cons,
      List.foldl_nil, each (Fin.last count), ← UInt64.ofNat_add]
    congr 1
    show start count + (start (count + 1) - start count) = _
    exact Nat.add_sub_cancel' order

theorem partRecord_payloadSize (name : Bytes) (small : content.length < 2 ^ 63)
    (stream : Fin options.parallel.toNat) :
    (partRecord options content name stream).payloadSize =
      UInt64.ofNat (rangeStart content.length options.parallel.toNat (stream + 1) -
        rangeStart content.length options.parallel.toNat stream) := by
  obtain ⟨low, high⟩ := partRecord_range name small stream
  rw [← high, ← low, Nat.add_sub_cancel_left, UInt64.ofNat_toNat]

/-- When every part is in the output file, the file is the source. -/
theorem readFile_of_written (small : content.length < 2 ^ 63) (safe : SafeName name)
    (short : name.length ≤ 4096) (streams : 0 < options.parallel.toNat) {world : World}
    (written : ∀ stream, Written (outputPath options name)
      (partRecord options content name stream) world) :
    world.fs.readFile (outputPath options name) = some content := by
  obtain ⟨handle, ready, -⟩ := written ⟨0, streams⟩
  have length : (world.fs.files handle.inode).content.length = content.length :=
    ready.length.trans (toNat_contentSize small)
  rw [ready.opens.readFile]
  refine congrArg some (List.ext_getElem? fun index => ?_)
  by_cases inside : index < content.length
  · obtain ⟨stream, low, high⟩ := exists_range content.length streams inside
    obtain ⟨start, stop⟩ := partRecord_range name small stream
    have size := (partRecord_isPart small safe short stream).payload
    obtain ⟨other, stands, same⟩ := written stream
    have unique : other = handle := Option.some.inj
      (congrArg Outcome.reply (stands.opens.openReadWrite.symm.trans ready.opens.openReadWrite))
    subst unique
    rw [same index (by omega) (by omega)]
    show ((content.drop (partRecord options content name stream).offset.toNat).take
      (partRecord options content name stream).payloadSize.toNat)[_]? = _
    rw [List.getElem?_take_of_lt (by omega), List.getElem?_drop]
    congr 1
    omega
  · rw [List.getElem?_eq_none (by omega), List.getElem?_eq_none (by omega)]

/-- A single stream carries the whole file. -/
theorem partRecord_single (name : Bytes) (small : content.length < 2 ^ 63)
    (single : options.parallel = 1) (stream : Fin options.parallel.toNat) :
    (partRecord options content name stream).kind = .file ∧
      (partRecord options content name stream).payloadSize = UInt64.ofNat content.length ∧
      (partRecord options content name stream).payload = content := by
  have one : options.parallel.toNat = 1 := by rw [single]; rfl
  have index : (stream : Nat) = 0 := by omega
  obtain ⟨start, stop⟩ := partRecord_range name small stream
  rw [index, rangeStart_zero] at start
  rw [index, start, Nat.zero_add, one, rangeStart_last _ Nat.one_pos] at stop
  refine ⟨?_, ?_, ?_⟩
  · simp [partRecord, single]
  · rw [← stop, UInt64.ofNat_toNat]
  · show (content.drop (partRecord options content name stream).offset.toNat).take
      (partRecord options content name stream).payloadSize.toNat = content
    rw [start, stop, List.drop_zero, List.take_length]

/-- The single-stream receiver of a `File` record. -/
theorem run_runReceiveSingle {record : Record} (complete : record.Complete)
    (safe : SafeName record.name) (kind : record.kind = .file) (connection : Connection)
    (stream : connection.remaining = record.bytes) {fs : FileSystem} {handle : Handle}
    (opened : (fs.openTruncate (outputPath options record.name)).reply = some handle) :
    let run := (runReceiveSingle options ⟨connection, 0⟩).run performCall ⟨fs, {}, none, []⟩
    run.1.1 = .ok record.payloadSize ∧
      run.2.fs.readFile (outputPath options record.name) = some record.payload := by
  obtain ⟨later, header, left⟩ := receiveHeader_record complete safe
    (stream.trans (List.append_nil _).symm)
  rw [List.append_nil] at left
  have fileKind : record.header.kind = .file := kind
  have started : Receiver.read receiveHeader ⟨connection, 0⟩ = _ := read_of_ok header
  have arrives : record.payloadSize.toNat ≤ later.remaining.length := by
    rw [left, complete.payload]
  have stored : let run := (receivePayloadToFile
      (options.outputDir / Path.parse record.header.fileName) record.header.payloadSize
      ⟨later, 0⟩).run performCall ⟨fs, {}, none, []⟩
      run.1.1 = .ok () ∧ run.2.fs.readFile (outputPath options record.name) =
        some (later.remaining.take record.payloadSize.toNat) := by
    obtain ⟨outcome, -, content⟩ := @run_receivePayloadToFile (outputPath options record.name)
      record.payloadSize ⟨later, 0⟩ ⟨fs, {}, none, []⟩ handle opened
    rw [if_neg (by rw [List.length_take]; simp only []; omega)] at outcome
    exact ⟨outcome, content⟩
  rw [left, ← complete.payload, List.take_length] at stored
  simp only [runReceiveSingle, bind_apply, started, Program.bind_done, andThen_ok, fileKind,
    reduceCtorEq, if_false, if_true]
  rw [Program.run_bind]
  generalize (receivePayloadToFile (options.outputDir / Path.parse record.header.fileName)
    record.header.payloadSize ⟨later, 0⟩).run performCall ⟨fs, {}, none, []⟩ = run at stored
  obtain ⟨⟨reply, last⟩, changed⟩ := run
  obtain ⟨rfl, content⟩ := stored
  exact ⟨rfl, content⟩

/-- A parallel file transfer is exact. Every stream is sent as one record with its range of
the file, the ranges add up to the file's size on both sides, and under every interleaving,
every cut of the streams into pieces and every earlier state of the file system in which the
output file can be created, if the environment makes no call fail then no stream fails and the
output file is the source. A receiver with one stream gives the same result. -/
theorem parallelTransfer_exact (options : Options) (content raw name : Bytes)
    (streams : 1 ≤ options.parallel) (small : content.length < 2 ^ 63)
    (named : safeFileName raw = .ok name) (short : name.length ≤ 4096) :
    (∀ stream : Fin options.parallel.toNat,
      let range := byteRangeForStream (UInt64.ofNat content.length) (UInt32.ofNat stream)
        options.parallel
      let kind := if options.parallel > 1 then TransferKind.filePart else .file
      (sendFile options content name stream).bytes =
        makeHeader kind range.2 (sizeField name) range.1 (UInt64.ofNat content.length) ++ name ++
          (content.drop range.1.toNat).take range.2.toNat) ∧
    finishTransfer (List.ofFn fun stream => (sendFile options content name stream).result) =
      .ok (UInt64.ofNat content.length) ∧
    (∀ (fs : FileSystem) (fragments : Fin options.parallel.toNat → List Nat),
      (fs.openTruncate (options.outputDir / Path.parse name)).reply ≠ none →
      (startReceive options fs fun stream =>
          ⟨(sendFile options content name stream).bytes, fragments stream⟩).EndsIn perform
        NoFault fun results world =>
          (∀ stream, (results stream).error = none) ∧
            finishTransfer (List.ofFn results) = .ok (UInt64.ofNat content.length) ∧
            world.fs.readFile (options.outputDir / Path.parse name) = some content) ∧
    (options.parallel = 1 → ∀ (stream : Fin options.parallel.toNat) (fs : FileSystem)
      (fragments : List Nat),
      (fs.openTruncate (options.outputDir / Path.parse name)).reply ≠ none →
      let connection : Connection := ⟨(sendFile options content name stream).bytes, fragments⟩
      let run := (runReceiveSingle options ⟨connection, 0⟩).run performCall ⟨fs, {}, none, []⟩
      run.1.1 = .ok (UInt64.ofNat content.length) ∧
        run.2.fs.readFile (options.outputDir / Path.parse name) = some content) := by
  have safe := safeFileName_safe named
  have positive : 0 < options.parallel.toNat := UInt32.le_iff_toNat_le.mp streams
  have ranges : ∀ results : Fin options.parallel.toNat → StreamResult,
      (∀ stream, (results stream).bytes = (partRecord options content name stream).payloadSize) →
      totalBytes (List.ofFn results) = UInt64.ofNat content.length := by
    intro results each
    rw [totalBytes_ranges (rangeStart_zero content.length options.parallel.toNat)
      (rangeStart_mono _ _) results fun stream =>
        (each stream).trans (partRecord_payloadSize name small stream),
      rangeStart_last _ positive]
  have finish : ∀ results : Fin options.parallel.toNat → StreamResult,
      (∀ stream, (results stream).error = none) →
      (∀ stream, (results stream).bytes = (partRecord options content name stream).payloadSize) →
      finishTransfer (List.ofFn results) = .ok (UInt64.ofNat content.length) := by
    intro results clean each
    rw [finishTransfer_clean clean, ranges results each]
  refine ⟨fun stream => ?_, ?_, fun fs fragments creates => ?_, fun single stream fs fragments
    creates => ?_⟩
  · rw [sendFile_eq small stream]
    rfl
  · exact finish _ (fun stream => by rw [sendFile_eq small stream])
      fun stream => by rw [sendFile_eq small stream]
  · have bound : (UInt64.ofNat content.length).toNat ≤ maximumOffset := by
      rw [toNat_contentSize small]
      simp only [maximumOffset]
      omega
    have ends := fileStreams_endsIn small safe short
      (fun stream => [partRecord options content name stream]) (fun _ => List.prefix_rfl)
      (fun stream => ⟨(sendFile options content name stream).bytes, fragments stream⟩)
      (fun stream => by rw [sendFile_eq small stream]; simp) fs
      (fun _ _ _ prepared quiet => ⟨quiet, fun _ => smooth_of_creatable creates bound prepared⟩)
    refine ends.weaken (fun _ _ _ => id) fun results world both => ?_
    have clean : ∀ stream, (results stream).error = none := fun stream => (both.2 stream).1
    refine ⟨clean, finish results clean fun stream => ?_, ?_⟩
    · rw [(both.2 stream).2.1]
      simp
    · exact readFile_of_written small safe short positive fun stream =>
        (both.2 stream).2.2 _ List.mem_cons_self
  · obtain ⟨handle, opened⟩ := Option.ne_none_iff_exists'.mp creates
    obtain ⟨kind, size, payload⟩ := partRecord_single name small single stream
    rw [sendFile_eq small stream]
    have run := run_runReceiveSingle (partRecord_isPart small safe short stream).toComplete safe
      kind ⟨(partRecord options content name stream).bytes, fragments⟩ rfl opened
    rw [size, payload] at run
    exact run

/-- Three bytes over two streams, the first of which arrives byte by byte. -/
theorem parallelTransfer_exact_twoStreams :
    (startReceive { parallel := 2, outputDir := Path.parse (ascii "/") } rootOnly fun stream =>
        ⟨(sendFile { parallel := 2, outputDir := Path.parse (ascii "/") } (ascii "abc") (ascii "f")
          stream).bytes, if stream.val = 0 then List.replicate 64 1 else []⟩).EndsIn perform
      NoFault fun results world =>
        (∀ stream, (results stream).error = none) ∧ finishTransfer (List.ofFn results) = .ok 3 ∧
          world.fs.readFile (Path.parse (ascii "/") / Path.parse (ascii "f")) =
            some (ascii "abc") :=
  (parallelTransfer_exact { parallel := 2, outputDir := Path.parse (ascii "/") } (ascii "abc")
    (ascii "dir/f") (ascii "f") (by decide) (by decide) (by decide) (by decide)).2.2.1 rootOnly
      (fun stream => if stream.val = 0 then List.replicate 64 1 else []) (by decide)

end Streams

end HyperLink
