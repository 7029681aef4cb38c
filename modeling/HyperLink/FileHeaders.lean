/-
This file is about what a sender of a file announces: the range of each stream,
and the header with the name. The ranges are computed in 64 bits and tile the
file without a gap. The receiver checks every header again, with its own code:
it takes the sender's ranges as they are, and the sender's name as long as it
is not too long, which the sender does not look at.
-/

import HyperLink.ArgumentOrder
import HyperLink.Sender
import HyperLink.TarSender

namespace HyperLink

/-! ### The ranges of a file -/

/-- What `byte_range_for_stream` computes on its way stays within 64 bits, and so does the sum
that the receiver checks. -/
structure RangeFits (totalSize : UInt64) (stream parallel : UInt32) : Prop where
  product : (totalSize / parallel.toUInt64).toNat * stream.toUInt64.toNat < 2 ^ 64
  offset : (totalSize / parallel.toUInt64 * stream.toUInt64).toNat +
    (min stream.toUInt64 (totalSize % parallel.toUInt64)).toNat < 2 ^ 64
  size : (totalSize / parallel.toUInt64).toNat +
    (if stream.toUInt64 < totalSize % parallel.toUInt64 then (1 : UInt64) else 0).toNat < 2 ^ 64
  stop : (byteRangeForStream totalSize stream parallel).1.toNat +
    (byteRangeForStream totalSize stream parallel).2.toNat < 2 ^ 64

section Ranges

variable {totalSize : UInt64} {stream parallel : UInt32}

/-- A range ends inside the file. -/
theorem range_stop_le (inside : stream < parallel) :
    (byteRangeForStream totalSize stream parallel).1.toNat +
      (byteRangeForStream totalSize stream parallel).2.toNat ≤ totalSize.toNat := by
  have order : stream.toNat < parallel.toNat := UInt32.lt_iff_toNat_lt.mp inside
  rw [(toNat_byteRangeForStream totalSize inside).2]
  exact rangeStart_le _ order (Nat.zero_lt_of_lt order)

/-- The size of a range is the quotient, or one more. -/
theorem toNat_rangeSize (inside : stream < parallel) :
    (byteRangeForStream totalSize stream parallel).2.toNat =
      totalSize.toNat / parallel.toNat +
        if stream.toNat < totalSize.toNat % parallel.toNat then 1 else 0 := by
  obtain ⟨start, stop⟩ := toNat_byteRangeForStream totalSize inside
  rw [start, rangeStart_succ] at stop
  exact Nat.add_left_cancel stop

theorem rangeFits (inside : stream < parallel) : RangeFits totalSize stream parallel := by
  have stop := @range_stop_le totalSize _ _ inside
  obtain ⟨start, -⟩ := toNat_byteRangeForStream totalSize inside
  have size := @toNat_rangeSize totalSize _ _ inside
  have fits := lt_of_le_of_lt stop totalSize.toNat_lt
  rw [start, size] at fits
  have offset := lt_of_le_of_lt (Nat.le_add_right _ _) fits
  have product : (totalSize / parallel.toUInt64).toNat * stream.toUInt64.toNat < 2 ^ 64 := by
    rw [toNat_quotient, UInt32.toNat_toUInt64]
    exact lt_of_le_of_lt (Nat.le_add_right _ _) offset
  refine ⟨product, ?_, ?_, lt_of_le_of_lt stop totalSize.toNat_lt⟩
  · rw [UInt64.toNat_mul, Nat.mod_eq_of_lt product, toNat_quotient, toNat_min_extra,
      UInt32.toNat_toUInt64]
    exact offset
  · rw [toNat_quotient, apply_ite UInt64.toNat, if_congr (lt_extra_iff _ _ _) rfl rfl]
    exact lt_of_le_of_lt (Nat.le_add_left _ _) fits

/-- The receiver's check lets a range of the sender pass. -/
theorem rangeExceeds_range (inside : stream < parallel) {incoming : IncomingHeader}
    (offset : incoming.offset = (byteRangeForStream totalSize stream parallel).1)
    (size : incoming.payloadSize = (byteRangeForStream totalSize stream parallel).2)
    (total : incoming.totalSize = totalSize) : rangeExceeds incoming = false := by
  rw [rangeExceeds, offset, size, total]
  refine decide_eq_false (UInt64.not_lt.mpr (UInt64.le_iff_toNat_le.mpr ?_))
  rw [UInt64.toNat_add, Nat.mod_eq_of_lt (rangeFits inside).stop]
  exact range_stop_le inside

/-- A range ends where the next one starts. -/
theorem range_stop_eq {stream : UInt32} (more : stream.toNat + 1 < parallel.toNat) :
    (byteRangeForStream totalSize stream parallel).1.toNat +
        (byteRangeForStream totalSize stream parallel).2.toNat =
      (byteRangeForStream totalSize (stream + 1) parallel).1.toNat := by
  have next : (stream + 1).toNat = stream.toNat + 1 := by
    rw [UInt32.toNat_add]
    exact Nat.mod_eq_of_lt (more.trans parallel.toNat_lt)
  have inside : stream < parallel := UInt32.lt_iff_toNat_lt.mpr (Nat.lt_of_succ_lt more)
  have nextInside : stream + 1 < parallel := UInt32.lt_iff_toNat_lt.mpr (next ▸ more)
  rw [(toNat_byteRangeForStream totalSize inside).2,
    (toNat_byteRangeForStream totalSize nextInside).1, next]

/-- Every byte lies in the range of one stream. -/
theorem existsUnique_stream (streams : 0 < parallel.toNat) {position : Nat}
    (within : position < totalSize.toNat) :
    ∃! stream : UInt32, stream < parallel ∧
      (byteRangeForStream totalSize stream parallel).1.toNat ≤ position ∧
      position < (byteRangeForStream totalSize stream parallel).1.toNat +
        (byteRangeForStream totalSize stream parallel).2.toNat := by
  have range {stream : UInt32} (inside : stream < parallel) :=
    toNat_byteRangeForStream totalSize inside
  obtain ⟨index, low, high⟩ := exists_range totalSize.toNat streams within
  have small : (index : Nat) < 2 ^ 32 := index.isLt.trans parallel.toNat_lt
  have same : (UInt32.ofNat index).toNat = index := UInt32.toNat_ofNat_of_lt' small
  have inside : UInt32.ofNat index < parallel :=
    UInt32.lt_iff_toNat_lt.mpr (lt_of_eq_of_lt same index.isLt)
  refine ⟨UInt32.ofNat index, ⟨inside, ?_, ?_⟩, ?_⟩
  · rwa [(range inside).1, same]
  · rwa [(range inside).2, same]
  · -- Another range lies before this one or behind it.
    rintro other ⟨otherInside, otherLow, otherHigh⟩
    rw [(range otherInside).1] at otherLow
    rw [(range otherInside).2] at otherHigh
    apply UInt32.toNat_inj.mp
    rw [same]
    have mono := rangeStart_mono totalSize.toNat parallel.toNat
    refine le_antisymm (Nat.le_of_not_lt fun behind => ?_) (Nat.le_of_not_lt fun before => ?_)
    · exact absurd (mono behind) (Nat.not_le.mpr (lt_of_le_of_lt otherLow high))
    · exact absurd (mono before) (Nat.not_le.mpr (lt_of_le_of_lt low otherHigh))

end Ranges

/-- The ranges of a file are exact. Nothing wraps on the way; the first range starts at the front
of the file, each ends where the next one starts, and the last one ends with the file, so every
byte lies in the range of one stream; no two sizes differ by more than a byte; and the receiver's
check passes on each. -/
theorem byteRangeForStream_exact (totalSize : UInt64) (parallel : UInt32) (some : 1 ≤ parallel) :
    (∀ stream < parallel, RangeFits totalSize stream parallel) ∧
    (byteRangeForStream totalSize 0 parallel).1 = 0 ∧
    (∀ stream : UInt32, stream.toNat + 1 < parallel.toNat →
      (byteRangeForStream totalSize stream parallel).1.toNat +
          (byteRangeForStream totalSize stream parallel).2.toNat =
        (byteRangeForStream totalSize (stream + 1) parallel).1.toNat) ∧
    (byteRangeForStream totalSize (parallel - 1) parallel).1.toNat +
        (byteRangeForStream totalSize (parallel - 1) parallel).2.toNat = totalSize.toNat ∧
    (∀ position < totalSize.toNat, ∃! stream : UInt32, stream < parallel ∧
      (byteRangeForStream totalSize stream parallel).1.toNat ≤ position ∧
      position < (byteRangeForStream totalSize stream parallel).1.toNat +
        (byteRangeForStream totalSize stream parallel).2.toNat) ∧
    (∀ first < parallel, ∀ second < parallel,
      (byteRangeForStream totalSize first parallel).2.toNat ≤
        (byteRangeForStream totalSize second parallel).2.toNat + 1) ∧
    ∀ stream < parallel, ∀ incoming : IncomingHeader,
      incoming.offset = (byteRangeForStream totalSize stream parallel).1 →
      incoming.payloadSize = (byteRangeForStream totalSize stream parallel).2 →
      incoming.totalSize = totalSize → rangeExceeds incoming = false := by
  have streams : 0 < parallel.toNat := UInt32.le_iff_toNat_le.mp some
  have range {stream : UInt32} (inside : stream < parallel) :=
    toNat_byteRangeForStream totalSize inside
  refine ⟨fun stream inside => rangeFits inside, ?_, ?_, ?_, ?_, ?_, ?_⟩
  · apply UInt64.toNat_inj.mp
    have first : (0 : UInt32) < parallel := UInt32.lt_iff_toNat_lt.mpr streams
    rw [(range first).1]
    exact rangeStart_zero _ _
  · exact fun stream more => range_stop_eq more
  · have last : (parallel - 1).toNat = parallel.toNat - 1 :=
      UInt32.toNat_sub_of_le _ _ some
    rw [(range (UInt32.lt_iff_toNat_lt.mpr (last ▸ Nat.sub_lt streams Nat.one_pos))).2, last,
      Nat.sub_add_cancel streams]
    exact rangeStart_last _ streams
  · exact fun position within => existsUnique_stream streams within
  · intro first inFirst second inSecond
    rw [toNat_rangeSize inFirst, toNat_rangeSize inSecond, add_assoc]
    refine Nat.add_le_add_left ?_ _
    split <;> simp
  · exact fun stream inside incoming offset size total =>
      rangeExceeds_range inside offset size total

/-- A total at the upper end, over the most streams that there are. -/
theorem byteRangeForStream_exact_largest :
    (byteRangeForStream 0xFFFFFFFFFFFFFFFF (0xFFFFFFFF - 1) 0xFFFFFFFF).1.toNat +
        (byteRangeForStream 0xFFFFFFFFFFFFFFFF (0xFFFFFFFF - 1) 0xFFFFFFFF).2.toNat =
      (0xFFFFFFFFFFFFFFFF : UInt64).toNat :=
  (byteRangeForStream_exact 0xFFFFFFFFFFFFFFFF 0xFFFFFFFF (by decide)).2.2.2.1

/-! ### Headers -/

theorem length_le_of_mem_splitOn {text part : Bytes} (piece : part ∈ text.splitOn slash) :
    part.length ≤ text.length := by
  have inside : ∀ parts : List Bytes, part ∈ parts →
      part.length ≤ ([slash].intercalate parts).length := by
    intro parts isPart
    induction parts with
    | nil => cases isPart
    | cons first rest inductionHypothesis =>
      cases rest with
      | nil =>
        rw [List.intercalate_singleton, List.mem_singleton.mp isPart]
      | cons next rest =>
        rw [List.intercalate_cons_cons, List.length_append]
        rcases List.mem_cons.mp isPart with rfl | later
        · rw [List.length_append, add_assoc]
          exact Nat.le_add_right _ _
        · exact (inductionHypothesis later).trans (Nat.le_add_left _ _)
  have whole : [slash].intercalate (text.splitOn slash) = text := List.intercalate_splitOn slash
  have within := inside _ piece
  rwa [whole] at within

/-- The check returns the last component of the name. -/
theorem filename_of_safeFileName {raw name : Bytes} (accepted : safeFileName raw = .ok name) :
    name = (Path.parse raw).filename := by
  simp only [safeFileName] at accepted
  split at accepted
  · cases accepted
  · cases accepted
    rfl

theorem safeFileName_length {raw name : Bytes} (accepted : safeFileName raw = .ok name) :
    name.length ≤ raw.length := by
  rw [filename_of_safeFileName accepted]
  rcases (Path.parse raw).filename_eq_nil_or_mem with empty | member
  · rw [empty]
    exact Nat.zero_le _
  · exact length_le_of_mem_splitOn (List.mem_filter.mp member).1

/-- A header that is read has a name of at most 4096 bytes. -/
theorem length_of_headerOptionalOf {stream rest : Bytes} {incoming : IncomingHeader}
    (read : headerOptionalOf stream = .ok (some incoming, rest)) :
    incoming.fileName.length ≤ 4096 := by
  obtain ⟨-, length, accepted⟩ := encoded_of_headerOptionalOf read
  rw [length]
  exact UInt64.le_iff_toNat_le.mp (UInt64.not_lt.mp (not_or.mp accepted).2)

/-- The options in effect. With `--auto` a peer is searched, and its endpoint taken. -/
def effectiveOptions {Rate : Type} (options : Options)
    (selected : Except Error (DiscoveredPeer Rate)) : Except Error Options :=
  if options.autoDiscover then do adoptPeer options (← selected) else .ok options

/-- `run_send` for an existing regular file, up to its threads: the options in effect and the
name under which the file goes out. -/
def prepareFile {Rate : Type} (options : Options) (selected : Except Error (DiscoveredPeer Rate))
    (content : Bytes) : Except Error (Options × Bytes) := do
  let effective ← effectiveOptions options selected
  let plan ← planSend effective (.regular (UInt64.ofNat content.length))
  .ok (effective, plan.remoteName)

/-- The last component of the name that is given with `--name`, or else of the file's own. -/
def announcedName (options : Options) : Bytes :=
  (Path.parse
    (if options.remoteName = [] then options.file.filename else options.remoteName)).filename

/-- A receiver with one stream reads the header, and saves the file under this name. -/
def AcceptedSingle (stream name : Bytes) : Prop :=
  ∀ fragments, ∃ incoming left,
    receiveHeader ⟨stream, fragments⟩ = .ok (incoming, left) ∧ incoming.fileName = name

/-- A parallel receiver reads the header, takes it for a file or a part of one, and saves the
file under this name. -/
def AcceptedParallel (stream name : Bytes) : Prop :=
  ∀ fragments, ∃ incoming left,
    receiveHeaderOptional ⟨stream, fragments⟩ = .ok (some incoming, left) ∧
      (incoming.kind = .filePart ∨ incoming.kind = .file) ∧
      safeFileName incoming.fileName = .ok name ∧ rangeExceeds incoming = false

/-- A peer that is adopted changes neither the file nor its name. -/
theorem announcedName_effective {Rate : Type} {options effective : Options}
    {selected : Except Error (DiscoveredPeer Rate)}
    (chosen : effectiveOptions options selected = .ok effective) :
    announcedName effective = announcedName options := by
  unfold effectiveOptions at chosen
  split at chosen
  · obtain ⟨peer, -, adopted⟩ := CommandLine.bind_ok chosen
    unfold adoptPeer at adopted
    split at adopted
    · cases adopted
    · cases adopted
      rfl
  · cases chosen
    rfl

/-- The name that goes out is safe, and known from the options. -/
theorem safe_of_prepareFile {Rate : Type} {options effective : Options}
    {selected : Except Error (DiscoveredPeer Rate)} {content name : Bytes}
    (prepared : prepareFile options selected content = .ok (effective, name)) :
    SafeName name ∧ name = announcedName options := by
  unfold prepareFile at prepared
  obtain ⟨options, chosen, planned⟩ := CommandLine.bind_ok prepared
  obtain ⟨plan, checked, done⟩ := CommandLine.bind_ok planned
  obtain ⟨kind, -, named⟩ := CommandLine.bind_ok checked
  obtain ⟨accepted, safe, whole⟩ := CommandLine.bind_ok named
  cases done
  cases whole
  rw [← announcedName_effective chosen]
  exact ⟨safeFileName_safe safe, filename_of_safeFileName safe⟩

/-- A name that is given takes the place of the file's own. -/
theorem prepareFile_of_name {Rate : Type} {options : Options}
    {selected : Except Error (DiscoveredPeer Rate)} {content name : Bytes}
    (direct : options.autoDiscover = false) (isGiven : options.remoteName ≠ [])
    (safe : safeFileName options.remoteName = .ok name) :
    prepareFile options selected content = .ok (options, name) := by
  have effective : effectiveOptions options selected = .ok options := by
    simp [effectiveOptions, direct]
  have plan : planSend options (.regular (UInt64.ofNat content.length)) =
      .ok ⟨.file, UInt64.ofNat content.length, name⟩ := by
    unfold planSend
    rw [if_neg isGiven, safe]
    rfl
  unfold prepareFile
  rw [effective]
  show (planSend options _ >>= fun plan => Except.ok (options, plan.remoteName)) = _
  rw [plan]
  rfl

section Headers

variable {options : Options} {content name : Bytes} {stream : Fin options.parallel.toNat}

/-- A stream that begins at all begins with its header and the name. -/
theorem sendFile_front (started : (sendFile options content name stream).bytes ≠ []) :
    ∃ rest, (sendFile options content name stream).bytes =
      makeHeader (if options.parallel > 1 then .filePart else .file)
        (byteRangeForStream (UInt64.ofNat content.length) (UInt32.ofNat stream)
          options.parallel).2 (sizeField name)
        (byteRangeForStream (UInt64.ofNat content.length) (UInt32.ofNat stream)
          options.parallel).1 (UInt64.ofNat content.length) ++ name ++ rest := by
  unfold sendFile sendFileRange at started ⊢
  simp only [] at started ⊢
  split at started
  · exact absurd rfl started
  · rename_i seeks
    rw [if_neg seeks]
    exact ⟨_, rfl⟩

/-- Where the stream can seek to its range, it begins. -/
theorem sendFile_started (seeks : ¬ maximumOffset <
    (byteRangeForStream (UInt64.ofNat content.length) (UInt32.ofNat stream)
      options.parallel).1.toNat) : (sendFile options content name stream).bytes ≠ [] := by
  unfold sendFile sendFileRange
  simp only []
  rw [if_neg seeks]
  refine List.ne_nil_of_length_pos ?_
  rw [List.length_append, List.length_append, length_makeHeader]
  exact Nat.lt_of_lt_of_le (Nat.succ_pos _) (le_add_right (le_add_right le_rfl))

theorem accepted_of_short (safe : SafeName name) (short : name.length ≤ 4096)
    (started : (sendFile options content name stream).bytes ≠ []) :
    AcceptedSingle (sendFile options content name stream).bytes name ∧
      AcceptedParallel (sendFile options content name stream).bytes name := by
  obtain ⟨rest, bytes⟩ := sendFile_front started
  have size : NameSize name := ⟨List.length_pos_of_ne_nil safe.1, short⟩
  have index : (UInt32.ofNat stream).toNat = stream :=
    UInt32.toNat_ofNat_of_lt' (stream.isLt.trans options.parallel.toNat_lt)
  have inside : UInt32.ofNat stream < options.parallel :=
    UInt32.lt_iff_toNat_lt.mpr (lt_of_eq_of_lt index stream.isLt)
  have whole := headerOptionalOf_encoded (if options.parallel > 1 then .filePart else .file)
    (byteRangeForStream (UInt64.ofNat content.length) (UInt32.ofNat stream) options.parallel).2
    (byteRangeForStream (UInt64.ofNat content.length) (UInt32.ofNat stream) options.parallel).1
    (UInt64.ofNat content.length) name rest size
  have same := safeFileName_of_safe safe
  refine ⟨fun fragments => ?_, fun fragments => ?_⟩
  · have read := forget_receiveHeader ⟨(sendFile options content name stream).bytes, fragments⟩
    rw [bytes, (headerOf_eq_ok_iff _ _ _).mpr ⟨_, _, whole, same, rfl⟩] at read
    obtain ⟨left, returned, -⟩ := ok_of_forget read
    rw [bytes]
    exact ⟨_, left, returned, rfl⟩
  · have read := forget_receiveHeaderOptional
      ⟨(sendFile options content name stream).bytes, fragments⟩
    rw [bytes, whole] at read
    obtain ⟨left, returned, -⟩ := ok_of_forget read
    rw [bytes]
    refine ⟨_, left, returned, ?_, same, rangeExceeds_range inside rfl rfl rfl⟩
    show (if options.parallel > 1 then TransferKind.filePart else .file) = _ ∨ _ = _
    split
    · exact Or.inl rfl
    · exact Or.inr rfl

/-- What a receiver with one stream saves has a short name. -/
theorem AcceptedSingle.short {bytes : Bytes} (accepted : AcceptedSingle bytes name) :
    name.length ≤ 4096 := by
  obtain ⟨incoming, left, returned, rfl⟩ := accepted []
  have read := forget_receiveHeader ⟨bytes, []⟩
  rw [returned, forget_ok] at read
  obtain ⟨announced, fileName, optional, safe, rfl⟩ := (headerOf_eq_ok_iff _ _ _).mp read.symm
  exact (safeFileName_length safe).trans (length_of_headerOptionalOf optional)

theorem AcceptedParallel.short {bytes : Bytes} (accepted : AcceptedParallel bytes name) :
    name.length ≤ 4096 := by
  obtain ⟨incoming, left, returned, -, safe, -⟩ := accepted []
  have read := forget_receiveHeaderOptional ⟨bytes, []⟩
  rw [returned, forget_ok] at read
  exact (safeFileName_length safe).trans (length_of_headerOptionalOf read.symm)

end Headers

/-- What a sender of a regular file announces on a stream is accepted by either receiver, under
the sender's name, exactly if that name has at most 4096 bytes. -/
theorem prepareFile_accepted_iff {Rate : Type} (options : Options)
    (selected : Except Error (DiscoveredPeer Rate)) (content : Bytes) (effective : Options)
    (name : Bytes) (prepared : prepareFile options selected content = .ok (effective, name))
    (stream : Fin effective.parallel.toNat)
    (started : (sendFile effective content name stream).bytes ≠ []) :
    (AcceptedSingle (sendFile effective content name stream).bytes name ∧
        AcceptedParallel (sendFile effective content name stream).bytes name) ↔
      (announcedName options).length ≤ 4096 := by
  obtain ⟨safe, same⟩ := safe_of_prepareFile prepared
  rw [← same]
  exact ⟨fun accepted => accepted.1.short, fun short => accepted_of_short safe short started⟩

/-- A name of one byte more than the receiver takes. -/
def longName : Bytes := List.replicate 4097 0x61

def longNamed : List Setting := [.send, .file (ascii "f"), .name longName]

def longOptions : Options where
  send := true
  host := ascii "127.0.0.1"
  file := Path.parse (ascii "f")
  remoteName := longName

/-- The sender accepts a name that no receiver takes. -/
theorem longName_refused :
    ∃ options, parseArgs (longNamed.flatMap Setting.words) = .ok options ∧ options.send = true ∧
      ∃ effective,
        prepareFile options (.error [] : Except Error (DiscoveredPeer Nat)) (ascii "x") =
          .ok (effective, longName) ∧
        ∃ stream, (sendFile effective (ascii "x") longName stream).bytes ≠ [] ∧
          ¬ AcceptedSingle (sendFile effective (ascii "x") longName stream).bytes longName ∧
          ¬ AcceptedParallel (sendFile effective (ascii "x") longName stream).bytes longName := by
  have length : longName.length = 4097 := List.length_replicate
  have safe : SafeName longName := by
    refine ⟨List.ne_nil_of_length_pos (length ▸ Nat.succ_pos _), fun member => ?_, ?_, ?_⟩
    · exact absurd (List.eq_of_mem_replicate member) (by decide)
    · exact fun same => absurd (length ▸ congrArg List.length same) (by decide)
    · exact fun same => absurd (length ▸ congrArg List.length same) (by decide)
  have tooLong : ¬ longName.length ≤ 4096 := length ▸ by decide
  refine ⟨longOptions, ?_, rfl, longOptions, ?_, ⟨0, by decide⟩, ?_, ?_, ?_⟩
  · refine (parseArgs_words_iff _ _).mpr ⟨by simp [longNamed, Setting.Fine], rfl, ?_⟩
    exact (checkArguments_iff _).mpr ⟨by decide, by decide +kernel, by decide, by decide⟩
  · exact prepareFile_of_name rfl safe.1 (safeFileName_of_safe safe)
  · exact sendFile_started (by decide)
  · exact fun accepted => tooLong accepted.short
  · exact fun accepted => tooLong accepted.short

/-- A file that goes out under another name than its own, over two streams. -/
def renamed : Options where
  send := true
  parallel := 2
  file := Path.parse (ascii "f")
  remoteName := ascii "a/b"

theorem prepareFile_accepted_iff_renamed :
    (AcceptedSingle (sendFile renamed (ascii "xyz") (ascii "b") ⟨1, by decide⟩).bytes
          (ascii "b") ∧
        AcceptedParallel (sendFile renamed (ascii "xyz") (ascii "b") ⟨1, by decide⟩).bytes
          (ascii "b")) ↔
      (announcedName renamed).length ≤ 4096 :=
  prepareFile_accepted_iff renamed (.error [] : Except Error (DiscoveredPeer Nat)) (ascii "xyz")
    renamed (ascii "b") (by decide +kernel) ⟨1, by decide⟩ (by decide +kernel)

end HyperLink
