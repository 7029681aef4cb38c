/-
This file is the sending side of `examples/file_transfer.cpp`. A sender thread
writes to its own connection only, so it is the function from what it reads to
the bytes it sends and its `StreamResult`; an exception keeps what was already
sent and counted.

A file is cut into consecutive ranges, one for each stream, and each range goes
out as one record. A directory is collected as a list of items in the order in
which the library's iterator visits it, the items are partitioned over the
streams, and each item goes out as one record. `std::sort` is a parameter, since
the order it gives to equal elements is not specified.
-/

import HyperLink.Receiver

namespace HyperLink

/-- What a sender thread wrote to its connection, and its result. -/
structure Sent where
  bytes : Bytes
  result : StreamResult
  deriving DecidableEq, Repr

/-! ### Files -/

/-- The offset and the size of a stream's part of a file. -/
def byteRangeForStream (totalSize : UInt64) (stream parallel : UInt32) : UInt64 × UInt64 :=
  let base := totalSize / parallel.toUInt64
  let extra := totalSize % parallel.toUInt64
  let offset := base * stream.toUInt64 + min stream.toUInt64 extra
  let size := base + if stream.toUInt64 < extra then 1 else 0
  (offset, size)

def inputEnded : Error := ascii "input file ended unexpectedly"

/-- The loop that copies a part of a file to the connection, chunk by chunk. -/
def sendPayload (content : Bytes) (position missing : Nat) : Bytes × Option Error :=
  if _complete : missing = 0 then ([], none)
  else
    let chunk := (content.drop position).take (min missing kChunkBytes)
    if _ended : chunk.length = 0 then ([], some inputEnded)
    else
      let later := sendPayload content (position + chunk.length) (missing - chunk.length)
      (chunk ++ later.1, later.2)
termination_by missing
decreasing_by exact Nat.sub_lt (Nat.pos_of_ne_zero _complete) (Nat.pos_of_ne_zero _ended)

/-- `send_file_range`, once its connection stands. `input` is the content of the file, if it
can be opened. -/
def sendFileRange (options : Options) (filePath : Path) (input : Option Bytes)
    (remoteName : Bytes) (totalSize offset payloadSize : UInt64) : Sent :=
  match input with
  | none => ⟨[], ⟨0, some (ascii "failed to open input payload: " ++ filePath.string)⟩⟩
  | some content =>
      if maximumOffset < offset.toNat then ⟨[], ⟨0, some (ascii "failed to seek input file")⟩⟩
      else
        let kind := if options.parallel > 1 then TransferKind.filePart else .file
        let header := makeHeader kind payloadSize (sizeField remoteName) offset totalSize
        let payload := sendPayload content offset.toNat payloadSize.toNat
        ⟨header ++ remoteName ++ payload.1, ⟨UInt64.ofNat payload.1.length, payload.2⟩⟩

/-- The threads of `run_send` for a regular file. -/
def sendFile (options : Options) (content : Bytes) (remoteName : Bytes)
    (stream : Fin options.parallel.toNat) : Sent :=
  let payloadSize := UInt64.ofNat content.length
  let range := byteRangeForStream payloadSize (UInt32.ofNat stream) options.parallel
  sendFileRange options options.file (some content) remoteName payloadSize range.1 range.2

/-! ### Directories -/

/-- What the sender finds at a path. -/
inductive Node where
  | directory (mode : Nat)
  | file (content : Bytes) (mode : Nat)
  | symlink (target : Bytes)
  | special
  deriving DecidableEq, Repr

structure DirectoryItem where
  kind : TransferKind
  source : Path
  relativePath : Bytes
  payloadSize : UInt64
  mode : UInt64
  deriving DecidableEq, Repr

structure DirectoryPartition where
  items : List DirectoryItem := []
  bytes : UInt64 := 0
  deriving DecidableEq, Repr

def permissionsValue (mode : Nat) : UInt64 := UInt64.ofNat mode &&& 0o7777

/-- The item of one path. Sockets, devices and pipes give none. -/
def addItem (rootParent path : Path) : Node → Option DirectoryItem
  | .symlink target => some {
      kind := .directorySymlink
      source := path
      relativePath := wirePath (path.lexicallyRelative rootParent)
      payloadSize := UInt64.ofNat target.length
      mode := 0 }
  | .directory mode => some {
      kind := .directoryEntry
      source := path
      relativePath := wirePath (path.lexicallyRelative rootParent)
      payloadSize := 0
      mode := permissionsValue mode }
  | .file content mode => some {
      kind := .directoryFile
      source := path
      relativePath := wirePath (path.lexicallyRelative rootParent)
      payloadSize := UInt64.ofNat content.length
      mode := permissionsValue mode }
  | .special => none

/-- `collect_directory_items` on what the directory and the recursive iterator over it show,
in the order of the iteration. -/
def collectDirectoryItems (directory : Path) (listing : List (Path × Node)) :
    List DirectoryItem :=
  let rootParent := if directory.parentPath.isEmpty then Path.parse dot else directory.parentPath
  listing.filterMap fun entry => addItem rootParent entry.1 entry.2

/-- `std::min_element`: the first of the partitions with the fewest bytes. -/
def minElement (partitions : List DirectoryPartition) : Nat :=
  (partitions.map DirectoryPartition.bytes).idxOf
    ((partitions.map DirectoryPartition.bytes).min?.getD 0)

/-- Give one item to the lightest partition. -/
def placeItem (partitions : List DirectoryPartition) (item : DirectoryItem) :
    List DirectoryPartition :=
  partitions.modify (minElement partitions) fun target =>
    ⟨target.items ++ [item], target.bytes + item.payloadSize⟩

/-- The items with a payload, which are spread over the streams. -/
def carriesPayload (item : DirectoryItem) : Bool :=
  item.kind = .directoryFile ∨ item.kind = .directorySymlink

def partitionDirectoryItems (sort : List DirectoryItem → List DirectoryItem)
    (items : List DirectoryItem) (parallel : Nat) : List DirectoryPartition :=
  let partitions := List.replicate parallel ({} : DirectoryPartition)
  let payload := items.filter carriesPayload
  let metadata := items.filter fun item => !carriesPayload item
  let partitions := partitions.modifyHead fun front => ⟨front.items ++ metadata, front.bytes⟩
  (sort payload).foldl placeItem partitions

/-- What `std::sort` promises for the comparison by size: the same items, larger ones first. -/
def SortsBySize (sort : List DirectoryItem → List DirectoryItem) : Prop :=
  ∀ items, (sort items).Perm items ∧
    (sort items).Pairwise fun first second => ¬ second.payloadSize > first.payloadSize

/-- One such sort. -/
def sortBySize (items : List DirectoryItem) : List DirectoryItem :=
  items.mergeSort fun first second => second.payloadSize ≤ first.payloadSize

theorem sortBySize_sorts : SortsBySize sortBySize := by
  intro items
  refine ⟨List.mergeSort_perm _ _, (List.pairwise_mergeSort ?_ ?_ items).imp ?_⟩
  · intro first second third before after
    simp only [decide_eq_true_eq] at before after ⊢
    exact UInt64.le_trans after before
  · intro first second
    simpa using UInt64.le_total _ _
  · intro first second ordered
    simpa using ordered

/-- The payload of one item, read from its source. -/
def itemPayload (listing : List (Path × Node)) (item : DirectoryItem) : Bytes × Option Error :=
  match item.kind with
  | .directoryFile =>
      match listing.lookup item.source with
      | some (.file content _) => sendPayload content 0 item.payloadSize.toNat
      | _ => ([], some (ascii "failed to open input file: " ++ item.source.string))
  | .directorySymlink =>
      match listing.lookup item.source with
      | some (.symlink target) => (target, none)
      | _ => ([], some (filesystemError item.source))
  | _ => ([], none)

/-- `send_directory_items`, once its connection stands. -/
def sendDirectoryItems (listing : List (Path × Node)) : List DirectoryItem → Sent
  | [] => ⟨[], ⟨0, none⟩⟩
  | item :: rest =>
      let header := makeHeader item.kind item.payloadSize (sizeField item.relativePath) item.mode 0
      let payload := itemPayload listing item
      let front := header ++ item.relativePath ++ payload.1
      match payload.2 with
      | some error => ⟨front, ⟨UInt64.ofNat payload.1.length, some error⟩⟩
      | none =>
          let later := sendDirectoryItems listing rest
          ⟨front ++ later.bytes,
            ⟨UInt64.ofNat payload.1.length + later.result.bytes, later.result.error⟩⟩

/-- The threads of `run_send` for a directory. -/
def sendDirectory (options : Options) (sort : List DirectoryItem → List DirectoryItem)
    (listing : List (Path × Node)) (stream : Fin options.parallel.toNat) : Sent :=
  let items := collectDirectoryItems options.file listing
  let partitions := partitionDirectoryItems sort items options.parallel.toNat
  sendDirectoryItems listing (partitions.getD stream {}).items

/-! ### The ranges of a file tile it -/

/-- The copying loop sends exactly the range, if the file holds it. -/
theorem sendPayload_eq (content : Bytes) (position missing : Nat)
    (holds : position + missing ≤ content.length) :
    sendPayload content position missing = ((content.drop position).take missing, none) := by
  induction missing using Nat.strong_induction_on generalizing position with
  | _ missing inductionHypothesis =>
    rw [sendPayload]
    by_cases complete : missing = 0
    · simp [complete]
    · have length : ((content.drop position).take (min missing kChunkBytes)).length =
          min missing kChunkBytes := by
        rw [List.length_take, List.length_drop]
        omega
      have chunk : 0 < min missing kChunkBytes :=
        Nat.lt_min.mpr ⟨Nat.pos_of_ne_zero complete, by decide⟩
      simp only [dif_neg complete, length]
      rw [dif_neg (by omega), inductionHypothesis _ (by omega) _ (by omega)]
      simp only [Prod.mk.injEq, and_true]
      rw [← List.drop_drop, ← List.take_add]
      congr 1
      omega

/-- A stream sends the header, the name and its range of the file. -/
theorem sendFileRange_eq (options : Options) (filePath : Path) {content : Bytes}
    (remoteName : Bytes) (totalSize : UInt64) {offset payloadSize : UInt64}
    (holds : offset.toNat + payloadSize.toNat ≤ content.length)
    (small : content.length ≤ maximumOffset) :
    sendFileRange options filePath (some content) remoteName totalSize offset payloadSize =
      ⟨makeHeader (if options.parallel > 1 then .filePart else .file) payloadSize
          (sizeField remoteName) offset totalSize ++ remoteName ++
          (content.drop offset.toNat).take payloadSize.toNat,
        ⟨payloadSize, none⟩⟩ := by
  have length : ((content.drop offset.toNat).take payloadSize.toNat).length =
      payloadSize.toNat := by
    rw [List.length_take, List.length_drop]
    omega
  unfold sendFileRange
  simp only [if_neg (by omega : ¬ maximumOffset < offset.toNat), sendPayload_eq _ _ _ holds, length,
    UInt64.ofNat_toNat]

/-- Where a stream's range starts, over the natural numbers. -/
def rangeStart (size parallel stream : Nat) : Nat :=
  size / parallel * stream + min stream (size % parallel)

theorem rangeStart_zero (size parallel : Nat) : rangeStart size parallel 0 = 0 := by
  simp [rangeStart]

theorem rangeStart_succ (size parallel stream : Nat) :
    rangeStart size parallel (stream + 1) = rangeStart size parallel stream +
      (size / parallel + if stream < size % parallel then 1 else 0) := by
  unfold rangeStart
  rw [Nat.mul_add_one]
  split <;> omega

theorem rangeStart_mono (size parallel : Nat) : Monotone (rangeStart size parallel) :=
  monotone_nat_of_le_succ fun stream => by
    rw [rangeStart_succ]
    exact Nat.le_add_right _ _

theorem rangeStart_last (size : Nat) {parallel : Nat} (some : 0 < parallel) :
    rangeStart size parallel parallel = size := by
  have bound := Nat.mod_lt size some
  have whole := Nat.div_add_mod' size parallel
  unfold rangeStart
  omega

theorem rangeStart_le (size : Nat) {parallel stream : Nat} (inside : stream ≤ parallel)
    (some : 0 < parallel) : rangeStart size parallel stream ≤ size := by
  have order := rangeStart_mono size parallel inside
  rwa [rangeStart_last size some] at order

/-- Every position of the file lies in the range of some stream. -/
theorem exists_range (size : Nat) {parallel position : Nat} (some : 0 < parallel)
    (inside : position < size) :
    ∃ stream : Fin parallel, rangeStart size parallel stream ≤ position ∧
      position < rangeStart size parallel (stream + 1) := by
  have beyond : ∃ stream, position < rangeStart size parallel (stream + 1) := by
    refine ⟨parallel - 1, ?_⟩
    rwa [Nat.sub_add_cancel some, rangeStart_last size some]
  have first := Nat.find_spec beyond
  refine ⟨⟨Nat.find beyond, ?_⟩, ?_, first⟩
  · refine Nat.lt_of_le_of_lt (Nat.find_min' beyond ?_) (Nat.sub_lt some Nat.one_pos)
    rwa [Nat.sub_add_cancel some, rangeStart_last size some]
  · show rangeStart size parallel (Nat.find beyond) ≤ position
    cases index : Nat.find beyond with
    | zero => simp [rangeStart_zero]
    | succ before =>
      have before_first : before < Nat.find beyond := by omega
      exact Nat.le_of_not_lt (Nat.find_min beyond before_first)

theorem toNat_quotient (totalSize : UInt64) (parallel : UInt32) :
    (totalSize / parallel.toUInt64).toNat = totalSize.toNat / parallel.toNat := by
  rw [UInt64.toNat_div, UInt32.toNat_toUInt64]

theorem toNat_extra (totalSize : UInt64) (parallel : UInt32) :
    (totalSize % parallel.toUInt64).toNat = totalSize.toNat % parallel.toNat := by
  rw [UInt64.toNat_mod, UInt32.toNat_toUInt64]

/-- The first streams get one extra byte each. -/
theorem lt_extra_iff (totalSize : UInt64) (stream parallel : UInt32) :
    stream.toUInt64 < totalSize % parallel.toUInt64 ↔
      stream.toNat < totalSize.toNat % parallel.toNat := by
  rw [UInt64.lt_iff_toNat_lt, toNat_extra, UInt32.toNat_toUInt64]

theorem toNat_min_extra (totalSize : UInt64) (stream parallel : UInt32) :
    (min stream.toUInt64 (totalSize % parallel.toUInt64)).toNat =
      min stream.toNat (totalSize.toNat % parallel.toNat) := by
  show (if stream.toUInt64 ≤ totalSize % parallel.toUInt64 then _ else _ : UInt64).toNat = _
  split
  · rename_i small
    rw [UInt64.le_iff_toNat_le, toNat_extra, UInt32.toNat_toUInt64] at small
    rw [UInt32.toNat_toUInt64, min_eq_left small]
  · rename_i large
    rw [UInt64.le_iff_toNat_le, toNat_extra, UInt32.toNat_toUInt64] at large
    rw [toNat_extra, min_eq_right (Nat.le_of_not_le large)]

/-- The 64-bit range is the range over the natural numbers. -/
theorem toNat_byteRangeForStream (totalSize : UInt64) {stream parallel : UInt32}
    (inside : stream < parallel) :
    (byteRangeForStream totalSize stream parallel).1.toNat =
        rangeStart totalSize.toNat parallel.toNat stream.toNat ∧
      (byteRangeForStream totalSize stream parallel).1.toNat +
          (byteRangeForStream totalSize stream parallel).2.toNat =
        rangeStart totalSize.toNat parallel.toNat (stream.toNat + 1) := by
  have order : stream.toNat < parallel.toNat := UInt32.lt_iff_toNat_lt.mp inside
  have some : 0 < parallel.toNat := Nat.zero_lt_of_lt order
  have bound := totalSize.toNat_lt
  have first := rangeStart_le totalSize.toNat order.le some
  have second := rangeStart_le totalSize.toNat (Nat.succ_le_of_lt order) some
  rw [rangeStart_succ] at second ⊢
  have offset : (byteRangeForStream totalSize stream parallel).1.toNat =
      rangeStart totalSize.toNat parallel.toNat stream.toNat := by
    unfold rangeStart at first ⊢
    simp only [byteRangeForStream]
    rw [UInt64.toNat_add, UInt64.toNat_mul, toNat_quotient, toNat_min_extra,
      UInt32.toNat_toUInt64,
      Nat.mod_eq_of_lt (by omega : totalSize.toNat / parallel.toNat * stream.toNat < 2 ^ 64),
      Nat.mod_eq_of_lt (by omega)]
  have size : (byteRangeForStream totalSize stream parallel).2.toNat =
      totalSize.toNat / parallel.toNat +
        if stream.toNat < totalSize.toNat % parallel.toNat then 1 else 0 := by
    simp only [byteRangeForStream, lt_extra_iff]
    rw [UInt64.toNat_add, toNat_quotient]
    split
    · rw [if_pos (by assumption)] at second
      exact Nat.mod_eq_of_lt (by simp; omega)
    · rw [if_neg (by assumption)] at second
      exact Nat.mod_eq_of_lt (by simp; omega)
  exact ⟨offset, by rw [offset, size]⟩

end HyperLink
