/-
This file is about the sender of a directory. A source tree is a root directory
with everything below it, and its entries are sent as records, one for each,
whose names are the paths from the root's parent. However the items are sorted
and spread over the streams, every entry goes out exactly once, on one stream,
and no stream fails.
-/

import HyperLink.Records
import HyperLink.Partition

namespace HyperLink

/-! ### Source trees -/

/-- What the sender can transfer. A link's target is a C string, and it is not empty. -/
def Node.Sendable : Node → Prop
  | .directory _ => True
  | .file content mode => content.length < 2 ^ 63 ∧ mode < 0o10000
  | .symlink target => target ≠ [] ∧ (0 : UInt8) ∉ target ∧ target.length < 2 ^ 63
  | .special => False

instance : (node : Node) → Decidable node.Sendable
  | .directory _ => isTrue trivial
  | .file _ _ => inferInstanceAs (Decidable (_ ∧ _))
  | .symlink _ => inferInstanceAs (Decidable (_ ∧ _ ∧ _))
  | .special => isFalse id

/-- The names of an entry as they are sent. -/
def wireName (names : List Bytes) : Bytes := [slash].intercalate names

/-- A directory with all that lies below it: the names of each entry from the root down, and
what it is. -/
structure SourceTree where
  root : Bytes
  mode : Nat
  entries : List (List Bytes × Node)
  rootName : EntryName root
  names : ∀ entry ∈ entries, entry.1 ≠ [] ∧ ∀ name ∈ entry.1, EntryName name
  distinct : (entries.map Prod.fst).Nodup
  parents : ∀ entry ∈ entries, entry.1.dropLast ≠ [] →
    ∃ mode, (entry.1.dropLast, Node.directory mode) ∈ entries
  sendable : ∀ entry ∈ entries, entry.2.Sendable
  rootShort : root.length ≤ 4096
  short : ∀ entry ∈ entries, (wireName (root :: entry.1)).length ≤ 4096

/-! ### Entries below a root -/

/-- The entries with the root, named from the root's parent. -/
def rootedNodes (root : Bytes) (self : Node) (entries : List (List Bytes × Node)) :
    List (List Bytes × Node) :=
  ([root], self) :: entries.map fun entry => (root :: entry.1, entry.2)

theorem mem_rootedNodes {root : Bytes} {self : Node} {entries : List (List Bytes × Node)}
    {entry : List Bytes × Node} :
    entry ∈ rootedNodes root self entries ↔ entry = ([root], self) ∨
      ∃ below ∈ entries, entry = (root :: below.1, below.2) := by
  simp [rootedNodes, eq_comm]

theorem nodup_rootedNodes (root : Bytes) (self : Node) {entries : List (List Bytes × Node)}
    (named : ∀ entry ∈ entries, entry.1 ≠ []) (distinct : (entries.map Prod.fst).Nodup) :
    ((rootedNodes root self entries).map Prod.fst).Nodup := by
  have below : (rootedNodes root self entries).map Prod.fst =
      [root] :: (entries.map Prod.fst).map (root :: ·) := by
    simp [rootedNodes]
  rw [below, List.nodup_cons]
  refine ⟨fun member => ?_, distinct.map (List.cons_injective)⟩
  obtain ⟨names, inEntries, same⟩ := List.mem_map.mp member
  obtain ⟨entry, inTree, rfl⟩ := List.mem_map.mp inEntries
  exact named entry inTree (List.cons_eq_cons.mp same).2

/-- Below a root directory every entry lies in a directory. -/
theorem parent_rootedNodes {root : Bytes} {mode : Nat} {entries : List (List Bytes × Node)}
    (named : ∀ entry ∈ entries, entry.1 ≠ [])
    (parents : ∀ entry ∈ entries, entry.1.dropLast ≠ [] →
      ∃ mode, (entry.1.dropLast, Node.directory mode) ∈ entries)
    {entry : List Bytes × Node} (member : entry ∈ rootedNodes root (.directory mode) entries)
    (inner : entry.1.dropLast ≠ []) :
    ∃ mode', (entry.1.dropLast, Node.directory mode') ∈
      rootedNodes root (.directory mode) entries := by
  rcases mem_rootedNodes.mp member with rfl | ⟨below, inEntries, rfl⟩
  · exact absurd rfl inner
  · simp only [List.dropLast_cons_of_ne_nil (named below inEntries)]
    by_cases top : below.1.dropLast = []
    · exact ⟨mode, mem_rootedNodes.mpr (Or.inl (by rw [top]))⟩
    · obtain ⟨mode', parent⟩ := parents below inEntries top
      exact ⟨mode', mem_rootedNodes.mpr (Or.inr ⟨_, parent, rfl⟩)⟩

/-- If every entry lies in a directory, then all that stands above an entry is one. -/
theorem directory_above_of_parents {nodes : List (List Bytes × Node)}
    (parents : ∀ entry ∈ nodes, entry.1.dropLast ≠ [] →
      ∃ mode, (entry.1.dropLast, Node.directory mode) ∈ nodes)
    {entry : List Bytes × Node} (member : entry ∈ nodes) {front back : List Bytes}
    (split : entry.1 = front ++ back) (above : back ≠ []) (some : front ≠ []) :
    ∃ mode, (front, Node.directory mode) ∈ nodes := by
  induction back using List.reverseRecOn generalizing entry with
  | nil => exact absurd rfl above
  | append_singleton others last inductionHypothesis =>
    have parent : entry.1.dropLast = front ++ others := by
      rw [split, ← List.append_assoc, List.dropLast_concat]
    obtain ⟨mode, inTree⟩ := parents entry member (by rw [parent]; simp [some])
    rw [parent] at inTree
    by_cases direct : others = []
    · rw [direct, List.append_nil] at inTree
      exact ⟨mode, inTree⟩
    · exact inductionHypothesis inTree rfl direct

namespace SourceTree

variable (tree : SourceTree)

/-- The entries with the root, named from the root's parent. -/
def nodes : List (List Bytes × Node) :=
  ([tree.root], .directory tree.mode) ::
    tree.entries.map fun entry => (tree.root :: entry.1, entry.2)

/-- What the sender finds at its path and below it. -/
def listing (path : Path) : List (Path × Node) :=
  tree.nodes.map fun entry => (⟨path.rooted, path.parts.dropLast ++ entry.1, false⟩, entry.2)

variable {tree}

theorem mem_nodes {entry : List Bytes × Node} :
    entry ∈ tree.nodes ↔ entry = ([tree.root], .directory tree.mode) ∨
      ∃ below ∈ tree.entries, entry = (tree.root :: below.1, below.2) :=
  mem_rootedNodes

/-- Every entry has a name, and its names are names of directory entries. -/
theorem names_of_mem {entry : List Bytes × Node} (member : entry ∈ tree.nodes) :
    entry.1 ≠ [] ∧ ∀ name ∈ entry.1, EntryName name := by
  rcases mem_nodes.mp member with rfl | ⟨below, inEntries, rfl⟩
  · exact ⟨List.cons_ne_nil _ _, by simpa using tree.rootName⟩
  · refine ⟨List.cons_ne_nil _ _, List.forall_mem_cons.mpr ⟨tree.rootName, ?_⟩⟩
    exact (tree.names below inEntries).2

theorem sendable_of_mem {entry : List Bytes × Node} (member : entry ∈ tree.nodes) :
    entry.2.Sendable := by
  rcases mem_nodes.mp member with rfl | ⟨below, inEntries, rfl⟩
  · trivial
  · exact tree.sendable below inEntries

theorem short_of_mem {entry : List Bytes × Node} (member : entry ∈ tree.nodes) :
    (wireName entry.1).length ≤ 4096 := by
  rcases mem_nodes.mp member with rfl | ⟨below, inEntries, rfl⟩
  · simpa [wireName] using tree.rootShort
  · exact tree.short below inEntries

theorem nodup_names : (tree.nodes.map Prod.fst).Nodup :=
  nodup_rootedNodes _ _ (fun entry member => (tree.names entry member).1) tree.distinct

/-- No name stands for two entries. -/
theorem eq_of_names {first second : List Bytes × Node} (inFirst : first ∈ tree.nodes)
    (inSecond : second ∈ tree.nodes) (same : first.1 = second.1) : first = second :=
  List.inj_on_of_nodup_map nodup_names inFirst inSecond same

theorem parent_of_mem {entry : List Bytes × Node} (member : entry ∈ tree.nodes)
    (inner : entry.1.dropLast ≠ []) :
    ∃ mode, (entry.1.dropLast, Node.directory mode) ∈ tree.nodes :=
  parent_rootedNodes (fun entry member => (tree.names entry member).1) tree.parents member inner

/-- What stands above an entry is a directory. -/
theorem directory_above {entry : List Bytes × Node} (member : entry ∈ tree.nodes)
    {front back : List Bytes} (split : entry.1 = front ++ back) (above : back ≠ [])
    (some : front ≠ []) : ∃ mode, (front, Node.directory mode) ∈ tree.nodes :=
  directory_above_of_parents (fun _ member inner => parent_of_mem member inner) member split above
    some

/-! ### Relative paths -/

theorem mismatch_append (front rest : List Bytes) :
    Path.mismatch (front ++ rest) front = (rest, []) := by
  induction front with
  | nil => cases rest <;> rfl
  | cons name others inductionHypothesis =>
    rw [List.cons_append, Path.mismatch, if_pos rfl, inductionHypothesis]

theorem foldl_append_names {names : List Bytes} (safe : ∀ name ∈ names, SafeName name)
    (parts : List Bytes) :
    names.foldl (fun result part => result / Path.parse part) (⟨false, parts, false⟩ : Path) =
      ⟨false, parts ++ names, false⟩ := by
  induction names generalizing parts with
  | nil => simp
  | cons name others inductionHypothesis =>
    rw [List.forall_mem_cons] at safe
    rw [List.foldl_cons, Path.parse_name safe.1, Path.append_names _ (by simp),
      inductionHypothesis safe.2, List.append_assoc, List.singleton_append]

/-- Once the common elements are gone, the names that are left are the relative path. -/
theorem lexicallyRelative_of_mismatch {path base : Path} {names left : List Bytes}
    (same : path.rooted = base.rooted)
    (rest : Path.mismatch path.elements base.elements = (names, left))
    (still : left = [] ∨ left = [dot]) (some : names ≠ [])
    (safe : ∀ name ∈ names, SafeName name) :
    path.lexicallyRelative base = ⟨false, names, false⟩ := by
  obtain ⟨name, others, rfl⟩ := List.exists_cons_of_ne_nil some
  have named : name ≠ [] := (safe name List.mem_cons_self).1
  have start : Path.parse [] = ⟨false, [], false⟩ := by decide
  unfold Path.lexicallyRelative
  rw [if_neg (by simp [same]), rest, start]
  have fold := foldl_append_names safe []
  rcases still with rfl | rfl
  · simpa [named] using fold
  · simpa [named, dot, dotDot, ascii] using fold

/-- The path of an entry, relative to the parent of the root as the sender takes it. -/
theorem lexicallyRelative_names (rooted : Bool) (front : List Bytes) {names : List Bytes}
    (some : names ≠ []) (safe : ∀ name ∈ names, SafeName name) :
    Path.lexicallyRelative ⟨rooted, front ++ names, false⟩
        (if Path.isEmpty ⟨rooted, front, false⟩ then Path.parse dot else ⟨rooted, front, false⟩) =
      ⟨false, names, false⟩ := by
  split
  · rename_i top
    have current : Path.parse dot = ⟨false, [dot], false⟩ := by decide
    obtain ⟨rfl, rfl⟩ : rooted = false ∧ front = [] := by simpa [Path.isEmpty] using top
    obtain ⟨name, others, rfl⟩ := List.exists_cons_of_ne_nil some
    have other : name ≠ dot := (safe name List.mem_cons_self).2.2.1
    rw [current]
    refine lexicallyRelative_of_mismatch rfl ?_ (Or.inr rfl) some safe
    simp [Path.elements, Path.mismatch, other]
  · refine lexicallyRelative_of_mismatch rfl ?_ (Or.inl rfl) some safe
    simp only [Path.elements, Bool.false_eq_true, if_false, List.append_nil]
    rw [← List.append_assoc, mismatch_append]

end SourceTree

/-! ### Items and records -/

/-- The record that carries an entry. -/
def entryRecord (entry : List Bytes × Node) : Record :=
  match entry.2 with
  | .directory mode => ⟨.directoryEntry, 0, permissionsValue mode, 0, wireName entry.1, []⟩
  | .file content mode =>
      ⟨.directoryFile, UInt64.ofNat content.length, permissionsValue mode, 0, wireName entry.1,
        content⟩
  | .symlink target =>
      ⟨.directorySymlink, UInt64.ofNat target.length, 0, 0, wireName entry.1, target⟩
  | .special => ⟨.directoryEntry, 0, 0, 0, wireName entry.1, []⟩

/-- The item that the sender makes of an entry below its path. -/
def entryItem (path : Path) (entry : List Bytes × Node) : DirectoryItem where
  kind := (entryRecord entry).kind
  source := ⟨path.rooted, path.parts.dropLast ++ entry.1, false⟩
  relativePath := (entryRecord entry).name
  payloadSize := (entryRecord entry).payloadSize
  mode := (entryRecord entry).offset

theorem entryRecord_name (entry : List Bytes × Node) :
    (entryRecord entry).name = wireName entry.1 ∧ (entryRecord entry).totalSize = 0 := by
  unfold entryRecord
  cases entry.2 <;> exact ⟨rfl, rfl⟩

/-- What has a name and can be sent gives its item. -/
theorem addItem_names {path : Path} (plain : path.trailing = false) {entry : List Bytes × Node}
    (named : entry.1 ≠ []) (safe : ∀ name ∈ entry.1, SafeName name)
    (visible : entry.2 ≠ .special) :
    addItem (if path.parentPath.isEmpty then Path.parse dot else path.parentPath)
      ⟨path.rooted, path.parts.dropLast ++ entry.1, false⟩ entry.2 =
        some (entryItem path entry) := by
  have parent : path.parentPath = ⟨path.rooted, path.parts.dropLast, false⟩ := by
    simp [Path.parentPath, plain]
  have relative := SourceTree.lexicallyRelative_names path.rooted path.parts.dropLast named safe
  rw [parent]
  obtain ⟨names, node⟩ := entry
  have wire : wirePath ⟨false, names, false⟩ = wireName names := by
    simp [wirePath, Path.string, wireName]
  cases node with
  | special => exact absurd rfl visible
  | directory mode => simp only [addItem, relative, wire, entryItem, entryRecord]
  | file content mode => simp only [addItem, relative, wire, entryItem, entryRecord]
  | symlink target => simp only [addItem, relative, wire, entryItem, entryRecord]

namespace SourceTree

variable {tree : SourceTree} {path : Path}

theorem entryRecord_complete {entry : List Bytes × Node} (member : entry ∈ tree.nodes) :
    (entryRecord entry).Complete := by
  obtain ⟨some, names⟩ := names_of_mem member
  have sendable := sendable_of_mem member
  refine ⟨?_, ?_⟩
  · rw [(entryRecord_name entry).1]
    refine ⟨?_, short_of_mem member⟩
    refine List.length_pos_of_ne_nil (Path.intercalate_ne_nil (fun name inNames => ?_) some)
    exact ⟨(names name inNames).1.1, (names name inNames).1.2.1⟩
  · obtain ⟨names, node⟩ := entry
    cases node with
    | directory mode => rfl
    | special => exact sendable.elim
    | file content mode =>
      exact (UInt64.toNat_ofNat_of_lt' (Nat.lt_trans sendable.1 (by decide))).symm
    | symlink target =>
      exact (UInt64.toNat_ofNat_of_lt' (Nat.lt_trans sendable.2.2 (by decide))).symm

/-- The receiver takes exactly the payload from the stream. -/
theorem entryRecord_payloadSpan {entry : List Bytes × Node} (member : entry ∈ tree.nodes) :
    (entryRecord entry).header.payloadSpan = (entryRecord entry).payload.length := by
  have size := (entryRecord_complete member).payload
  have sendable := sendable_of_mem member
  rw [size]
  obtain ⟨names, node⟩ := entry
  cases node with
  | special => exact sendable.elim
  | directory mode => rfl
  | file content mode => rfl
  | symlink target => rfl

/-- Every entry gives its item. -/
theorem addItem_eq (plain : path.trailing = false) {entry : List Bytes × Node}
    (member : entry ∈ tree.nodes) :
    addItem (if path.parentPath.isEmpty then Path.parse dot else path.parentPath)
      ⟨path.rooted, path.parts.dropLast ++ entry.1, false⟩ entry.2 =
        some (entryItem path entry) := by
  obtain ⟨some, valid⟩ := names_of_mem member
  refine addItem_names plain some (fun name inNames => (valid name inNames).1) ?_
  intro special
  have sendable := sendable_of_mem member
  rw [special] at sendable
  exact sendable

theorem collectDirectoryItems_eq (plain : path.trailing = false) (tree : SourceTree) :
    collectDirectoryItems path (tree.listing path) = tree.nodes.map (entryItem path) := by
  unfold collectDirectoryItems listing
  simp only [List.filterMap_map]
  rw [← List.filterMap_eq_map]
  exact List.filterMap_congr fun entry member => addItem_eq plain member

theorem lookup_listing {entry : List Bytes × Node} (member : entry ∈ tree.nodes) :
    (tree.listing path).lookup ⟨path.rooted, path.parts.dropLast ++ entry.1, false⟩ =
      some entry.2 := by
  have unique := @nodup_names tree
  unfold listing
  generalize tree.nodes = nodes at member unique
  induction nodes with
  | nil => cases member
  | cons first others inductionHypothesis =>
    rw [List.map_cons, List.nodup_cons] at unique
    rw [List.map_cons, List.lookup_cons]
    rcases List.mem_cons.mp member with rfl | later
    · simp
    · have different : (⟨path.rooted, path.parts.dropLast ++ entry.1, false⟩ : Path) ≠
          ⟨path.rooted, path.parts.dropLast ++ first.1, false⟩ := by
        intro same
        have names : entry.1 = first.1 := by simpa using same
        exact unique.1 (names ▸ List.mem_map_of_mem later)
      rw [beq_false_of_ne different]
      exact inductionHypothesis later unique.2

theorem itemPayload_eq {entry : List Bytes × Node} (member : entry ∈ tree.nodes) :
    itemPayload (tree.listing path) (entryItem path entry) =
      ((entryRecord entry).payload, none) := by
  have found : (tree.listing path).lookup _ = _ := lookup_listing member
  have size := (entryRecord_complete member).payload
  have sendable := sendable_of_mem member
  obtain ⟨names, node⟩ := entry
  cases node with
  | special => exact sendable.elim
  | directory mode => rfl
  | symlink target => simp only [itemPayload, entryItem, entryRecord, found]
  | file content mode =>
    simp only [entryRecord] at size
    simp only [itemPayload, entryItem, entryRecord, found]
    rw [← size, sendPayload_eq _ _ _ (by omega), List.drop_zero, List.take_length]

/-- A stream sends the records of its entries and does not fail. -/
theorem sendDirectoryItems_eq {entries : List (List Bytes × Node)}
    (members : ∀ entry ∈ entries, entry ∈ tree.nodes) :
    sendDirectoryItems (tree.listing path) (entries.map (entryItem path)) =
      ⟨(entries.map entryRecord).flatMap Record.bytes,
        ⟨((entries.map entryRecord).map Record.payloadSize).sum, none⟩⟩ := by
  induction entries with
  | nil => rfl
  | cons entry others inductionHypothesis =>
    rw [List.forall_mem_cons] at members
    have complete := entryRecord_complete members.1
    rw [List.map_cons, sendDirectoryItems, itemPayload_eq members.1]
    simp only [inductionHypothesis members.2, List.map_cons, List.flatMap_cons, List.sum_cons,
      complete.payload, UInt64.ofNat_toNat, entryItem, Record.bytes]
    rw [(entryRecord_name entry).2]

/-! ### Partitions -/

/-- The entry of an item. -/
def entryOf (tree : SourceTree) (path : Path) (item : DirectoryItem) : List Bytes × Node :=
  (tree.nodes.find? fun entry => entryItem path entry = item).getD ([], .special)

theorem entryOf_entryItem {entry : List Bytes × Node} (member : entry ∈ tree.nodes) :
    tree.entryOf path (entryItem path entry) = entry := by
  have present :
      (tree.nodes.find? fun other => entryItem path other = entryItem path entry).isSome :=
    List.find?_isSome.mpr ⟨entry, member, by simp⟩
  obtain ⟨other, found⟩ := Option.isSome_iff_exists.mp present
  have same : entryItem path other = entryItem path entry := by
    simpa using List.find?_some found
  have names : other.1 = entry.1 := by
    have sources := congrArg DirectoryItem.source same
    simpa [entryItem] using sources
  rw [entryOf, found, Option.getD_some]
  exact eq_of_names (List.mem_of_find?_eq_some found) member names

/-- A path whose last element is a safe name does not end in a separator. -/
theorem plain_of_filename {path : Path} (safe : SafeName path.filename) :
    path.trailing = false := by
  by_contra trailing
  rw [Path.filename, if_pos (by simpa using trailing)] at safe
  exact safe.1 rfl

/-- The streams of a directory transfer: every entry goes out once, as its record, and no
stream fails. -/
theorem sendDirectory_eq (tree : SourceTree) (options : Options)
    (plain : options.file.trailing = false) (streams : 0 < options.parallel.toNat)
    {sort : List DirectoryItem → List DirectoryItem} (sorts : SortsBySize sort) :
    ∃ parts : Fin options.parallel.toNat → List (List Bytes × Node),
      (List.ofFn parts).flatten.Perm tree.nodes ∧
      ∀ stream, sendDirectory options sort (tree.listing options.file) stream =
        ⟨((parts stream).map entryRecord).flatMap Record.bytes,
          ⟨(((parts stream).map entryRecord).map Record.payloadSize).sum, none⟩⟩ := by
  obtain ⟨length, placed⟩ := partitionDirectoryItems_perm sorts
    (tree.nodes.map (entryItem options.file)) streams
  generalize made : partitionDirectoryItems sort (tree.nodes.map (entryItem options.file))
    options.parallel.toNat = partitions at length placed
  have known : ∀ partition ∈ partitions, ∀ item ∈ partition.items,
      ∃ entry ∈ tree.nodes, entryItem options.file entry = item := by
    intro partition inPartitions item inItems
    exact List.mem_map.mp (placed.subset (List.mem_flatMap.mpr ⟨partition, inPartitions, inItems⟩))
  have entries : List.ofFn (fun stream : Fin options.parallel.toNat =>
      (partitions.getD stream {}).items.map (tree.entryOf options.file)) =
      partitions.map fun partition => partition.items.map (tree.entryOf options.file) := by
    refine List.ext_getElem (by simp [length]) fun index _ inside => ?_
    rw [List.length_map] at inside
    rw [List.getElem_ofFn, List.getElem_map, List.getD_eq_getElem _ _ inside]
  refine ⟨fun stream => (partitions.getD stream {}).items.map (tree.entryOf options.file),
    ?_, fun stream => ?_⟩
  · rw [entries, ← List.flatMap_def, ← List.map_flatMap]
    have same : (tree.nodes.map (entryItem options.file)).map (tree.entryOf options.file) =
        tree.nodes := by
      rw [List.map_map]
      exact (List.map_congr_left fun entry member => entryOf_entryItem member).trans
        (List.map_id _)
    have all := placed.map (tree.entryOf options.file)
    rwa [same] at all
  · have inside : (stream : Nat) < partitions.length := by omega
    have member : partitions.getD stream {} ∈ partitions := by
      rw [List.getD_eq_getElem _ _ inside]
      exact List.getElem_mem inside
    have back : ((partitions.getD stream {}).items.map (tree.entryOf options.file)).map
        (entryItem options.file) = (partitions.getD stream {}).items := by
      rw [List.map_map]
      refine (List.map_congr_left fun item inItems => ?_).trans (List.map_id _)
      obtain ⟨entry, inTree, rfl⟩ := known _ member item inItems
      exact congrArg (entryItem options.file) (entryOf_entryItem inTree)
    have members : ∀ entry ∈ (partitions.getD stream {}).items.map (tree.entryOf options.file),
        entry ∈ tree.nodes := by
      intro entry inEntries
      obtain ⟨item, inItems, rfl⟩ := List.mem_map.mp inEntries
      obtain ⟨entry, inTree, rfl⟩ := known _ member item inItems
      rwa [entryOf_entryItem inTree]
    unfold sendDirectory
    simp only [collectDirectoryItems_eq plain tree, made]
    rw [← sendDirectoryItems_eq members, back]

end SourceTree

end HyperLink
