/-
This file is about `collect_directory_items` on every path that `run_send` takes
for a directory. The test in `run_send` and the iterator's start follow a link,
the look at each item does not. For a real directory the items describe a tree.
A link to a directory is listed as a link, and what lies behind it is listed
below it.
-/

import HyperLink.SourceTree

namespace HyperLink

/-- What the sender is shown at a path that leads to a directory: what stands at the path
itself, a directory or a link to one, and what the iterator visits below it. The iterator
follows no link below its start, so an entry of an entry lies in a directory. -/
structure ShownDirectory where
  self : Node
  entries : List (List Bytes × Node)
  enters : (∃ mode, self = .directory mode) ∨ ∃ target, self = .symlink target
  names : ∀ entry ∈ entries, entry.1 ≠ [] ∧ ∀ name ∈ entry.1, EntryName name
  distinct : (entries.map Prod.fst).Nodup
  parents : ∀ entry ∈ entries, entry.1.dropLast ≠ [] →
    ∃ mode, (entry.1.dropLast, Node.directory mode) ∈ entries

/-- The path and what lies below it, in the order of `collect_directory_items`. -/
def ShownDirectory.listing (shown : ShownDirectory) (path : Path) : List (Path × Node) :=
  (path, shown.self) :: shown.entries.map fun entry =>
    (⟨path.rooted, path.parts ++ entry.1, false⟩, entry.2)

/-- The items describe a tree: no path occurs twice, the first is the root, what stands above
an item is listed as a directory, and nothing lies below an item of another kind. -/
structure DescribesTree (path : Path) (items : List DirectoryItem) : Prop where
  distinct : (items.map DirectoryItem.relativePath).Nodup
  root : ∃ first, items.head? = some first ∧ first.source = path ∧
    first.relativePath = path.filename
  prefixes : ∀ item ∈ items, ∀ front back, (Path.parse item.relativePath).parts = front ++ back →
    front ≠ [] → back ≠ [] →
    ∃ above ∈ items, above.kind = .directoryEntry ∧ above.relativePath = wireName front
  leaves : ∀ item ∈ items, item.kind ≠ .directoryEntry → ∀ other ∈ items, ∀ back,
    (Path.parse other.relativePath).parts = (Path.parse item.relativePath).parts ++ back →
      back = []

namespace ShownDirectory

variable {path : Path} {shown : ShownDirectory}

/-- The names of everything shown, from the root's parent. -/
def nodes (shown : ShownDirectory) (path : Path) : List (List Bytes × Node) :=
  rootedNodes path.filename shown.self shown.entries

theorem parts_of_filename (safe : SafeName path.filename) :
    path.trailing = false ∧ path.parts = path.parts.dropLast ++ [path.filename] := by
  have plain := SourceTree.plain_of_filename safe
  have name : path.filename = path.parts.getLastD [] := by
    rw [Path.filename, plain]
    rfl
  have some : path.parts ≠ [] := by
    intro none
    rw [name, none] at safe
    exact safe.1 rfl
  refine ⟨plain, ?_⟩
  rw [name, List.getLastD_eq_getLast?, List.getLast?_eq_some_getLast some, Option.getD_some]
  exact (List.dropLast_append_getLast some).symm

/-- What `run_send` accepts as the name of its argument. -/
theorem safe_of_accepted {text : Bytes}
    (accepted : ∃ name, safeFileName (Path.parse text).filename = .ok name) :
    SafeName (Path.parse text).filename := by
  obtain ⟨name, checked⟩ := accepted
  have valid := Path.parse_wellFormed text
  generalize Path.parse text = path at checked valid
  rcases path.filename_eq_nil_or_mem with empty | member
  · rw [empty] at checked
    cases checked
  · obtain ⟨some, free⟩ := valid.part _ member
    have same : (Path.parse path.filename).filename = path.filename := by
      rw [Path.parse_part some free]
      rfl
    simp only [safeFileName, same] at checked
    split at checked
    · cases checked
    · rename_i allowed
      rw [not_or, not_or] at allowed
      exact ⟨allowed.1, free, allowed.2⟩

theorem names_of_node (safe : SafeName path.filename) {entry : List Bytes × Node}
    (member : entry ∈ shown.nodes path) :
    entry.1 ≠ [] ∧ ∀ name ∈ entry.1, SafeName name := by
  rcases mem_rootedNodes.mp member with rfl | ⟨below, inEntries, rfl⟩
  · exact ⟨List.cons_ne_nil _ _, by simpa using safe⟩
  · refine ⟨List.cons_ne_nil _ _, List.forall_mem_cons.mpr ⟨safe, fun name inNames => ?_⟩⟩
    exact ((shown.names below inEntries).2 name inNames).1

/-- Everything that can be sent gives one item. -/
theorem collectDirectoryItems_shown (safe : SafeName path.filename) (shown : ShownDirectory) :
    collectDirectoryItems path (shown.listing path) =
      ((shown.nodes path).filter fun entry => entry.2 ≠ .special).map (entryItem path) := by
  obtain ⟨plain, parts⟩ := parts_of_filename safe
  have listed : shown.listing path = (shown.nodes path).map fun entry =>
      (⟨path.rooted, path.parts.dropLast ++ entry.1, false⟩, entry.2) := by
    have self : path = ⟨path.rooted, path.parts.dropLast ++ [path.filename], false⟩ := by
      rw [← parts, ← plain]
    have below : ∀ names, path.parts ++ names = path.parts.dropLast ++ path.filename :: names := by
      intro names
      conv_lhs => rw [parts]
      rw [List.append_assoc, List.singleton_append]
    simp only [listing, nodes, rootedNodes, List.map_cons, List.map_map, below]
    rw [← self]
    rfl
  unfold collectDirectoryItems
  rw [listed]
  simp only [List.filterMap_map]
  rw [← List.filterMap_eq_map, List.filterMap_filter]
  refine List.filterMap_congr fun entry member => ?_
  obtain ⟨named, valid⟩ := names_of_node safe member
  by_cases special : entry.2 = .special
  · simp [special, addItem]
  · simpa [special] using addItem_names plain named valid special

theorem mem_items (safe : SafeName path.filename) {item : DirectoryItem} :
    item ∈ collectDirectoryItems path (shown.listing path) ↔
      ∃ entry ∈ shown.nodes path, entry.2 ≠ .special ∧ entryItem path entry = item := by
  rw [collectDirectoryItems_shown safe]
  simp [and_assoc]

theorem relativePath_entryItem (entry : List Bytes × Node) :
    (entryItem path entry).relativePath = wireName entry.1 :=
  (entryRecord_name entry).1

/-- The names of an entry are read back from its item. -/
theorem parts_entryItem (safe : SafeName path.filename) {entry : List Bytes × Node}
    (member : entry ∈ shown.nodes path) :
    (Path.parse (entryItem path entry).relativePath).parts = entry.1 := by
  rw [relativePath_entryItem, wireName, Path.parse_names (names_of_node safe member).2]

theorem kind_entryItem {entry : List Bytes × Node} (visible : entry.2 ≠ .special) :
    (entryItem path entry).kind = .directoryEntry ↔ ∃ mode, entry.2 = .directory mode := by
  obtain ⟨names, node⟩ := entry
  cases node with
  | special => exact absurd rfl visible
  | directory mode => exact ⟨fun _ => ⟨mode, rfl⟩, fun _ => rfl⟩
  | file content mode => exact ⟨fun kind => (by cases kind), fun ⟨_, other⟩ => (by cases other)⟩
  | symlink target => exact ⟨fun kind => (by cases kind), fun ⟨_, other⟩ => (by cases other)⟩

theorem nodup_nodes (shown : ShownDirectory) (path : Path) :
    ((shown.nodes path).map Prod.fst).Nodup :=
  nodup_rootedNodes _ _ (fun entry member => (shown.names entry member).1) shown.distinct

theorem wireName_injOn (safe : SafeName path.filename) {first second : List Bytes × Node}
    (inFirst : first ∈ shown.nodes path) (inSecond : second ∈ shown.nodes path)
    (same : wireName first.1 = wireName second.1) : first = second := by
  have names : first.1 = second.1 := by
    rw [← parts_entryItem safe inFirst, ← parts_entryItem safe inSecond, relativePath_entryItem,
      relativePath_entryItem, same]
  exact List.inj_on_of_nodup_map (shown.nodup_nodes path) inFirst inSecond names

/-- The paths of the items are distinct, whatever stands at the root. -/
theorem distinct_items (safe : SafeName path.filename) (shown : ShownDirectory) :
    ((collectDirectoryItems path (shown.listing path)).map DirectoryItem.relativePath).Nodup := by
  rw [collectDirectoryItems_shown safe, List.map_map]
  refine List.Nodup.map_on ?_ ?_
  · intro first inFirst second inSecond same
    simp only [Function.comp_apply, relativePath_entryItem] at same
    exact wireName_injOn safe (List.mem_filter.mp inFirst).1 (List.mem_filter.mp inSecond).1 same
  · exact (List.Nodup.of_map _ (shown.nodup_nodes path)).filter _

/-- The first item is the root. -/
theorem root_item (safe : SafeName path.filename) (shown : ShownDirectory) :
    ∃ first, (collectDirectoryItems path (shown.listing path)).head? = some first ∧
      first.source = path ∧ first.relativePath = path.filename := by
  obtain ⟨plain, parts⟩ := parts_of_filename safe
  have visible : shown.self ≠ .special := by
    rcases shown.enters with ⟨mode, self⟩ | ⟨target, self⟩
    · rw [self]
      simp
    · rw [self]
      simp
  refine ⟨entryItem path ([path.filename], shown.self), ?_, ?_, ?_⟩
  · rw [collectDirectoryItems_shown safe]
    simp [nodes, rootedNodes, visible]
  · simp only [entryItem]
    rw [← parts, ← plain]
  · rw [relativePath_entryItem]
    exact List.intercalate_singleton

/-- Nothing lies below an item that is no directory, if what stands above an item is one. -/
theorem leaves_of_prefixes (safe : SafeName path.filename)
    (prefixes : ∀ item ∈ collectDirectoryItems path (shown.listing path), ∀ front back,
      (Path.parse item.relativePath).parts = front ++ back → front ≠ [] → back ≠ [] →
      ∃ above ∈ collectDirectoryItems path (shown.listing path),
        above.kind = .directoryEntry ∧ above.relativePath = wireName front) :
    ∀ item ∈ collectDirectoryItems path (shown.listing path), item.kind ≠ .directoryEntry →
      ∀ other ∈ collectDirectoryItems path (shown.listing path), ∀ back,
        (Path.parse other.relativePath).parts = (Path.parse item.relativePath).parts ++ back →
          back = [] := by
  intro item member leaf other otherMember back below
  by_contra more
  obtain ⟨entry, inNodes, -, rfl⟩ := (mem_items safe).mp member
  rw [parts_entryItem safe inNodes] at below
  obtain ⟨above, aboveMember, kind, named⟩ := prefixes other otherMember entry.1 back below
    (names_of_node safe inNodes).1 more
  obtain ⟨second, inSecond, -, rfl⟩ := (mem_items safe).mp aboveMember
  rw [relativePath_entryItem] at named
  rw [wireName_injOn safe inSecond inNodes named] at kind
  exact leaf kind

/-- Below a real directory, what stands above an item is listed as a directory. -/
theorem prefixes_of_directory (safe : SafeName path.filename) {mode : Nat}
    (real : shown.self = .directory mode) :
    ∀ item ∈ collectDirectoryItems path (shown.listing path), ∀ front back,
      (Path.parse item.relativePath).parts = front ++ back → front ≠ [] → back ≠ [] →
      ∃ above ∈ collectDirectoryItems path (shown.listing path),
        above.kind = .directoryEntry ∧ above.relativePath = wireName front := by
  intro item member front back split some more
  obtain ⟨entry, inNodes, -, rfl⟩ := (mem_items safe).mp member
  rw [parts_entryItem safe inNodes] at split
  have parents : ∀ entry ∈ shown.nodes path, entry.1.dropLast ≠ [] →
      ∃ mode, (entry.1.dropLast, Node.directory mode) ∈ shown.nodes path := by
    unfold nodes
    rw [real]
    exact fun entry member inner => parent_rootedNodes
      (fun below inEntries => (shown.names below inEntries).1) shown.parents member inner
  obtain ⟨mode, inTree⟩ := directory_above_of_parents parents inNodes split more some
  refine ⟨entryItem path (front, .directory mode), ?_, rfl, relativePath_entryItem _⟩
  exact (mem_items safe).mpr ⟨_, inTree, by simp, rfl⟩

/-- The items of a listing describe a tree exactly if the path is a real directory, or nothing
below it can be sent. -/
theorem describesTree_iff (text : Bytes) (shown : ShownDirectory)
    (accepted : ∃ name, safeFileName (Path.parse text).filename = .ok name) :
    DescribesTree (Path.parse text)
        (collectDirectoryItems (Path.parse text) (shown.listing (Path.parse text))) ↔
      (∃ mode, shown.self = .directory mode) ∨ ∀ entry ∈ shown.entries, entry.2 = .special := by
  have safe := safe_of_accepted accepted
  generalize Path.parse text = path at safe
  constructor
  · intro tree
    by_contra neither
    rw [not_or, not_forall] at neither
    obtain ⟨link, entry, visible⟩ := neither
    rw [Classical.not_imp] at visible
    obtain ⟨inEntries, visible⟩ := visible
    obtain ⟨target, self⟩ := shown.enters.resolve_left link
    have below : (path.filename :: entry.1, entry.2) ∈ shown.nodes path :=
      mem_rootedNodes.mpr (.inr ⟨entry, inEntries, rfl⟩)
    have root : ([path.filename], shown.self) ∈ shown.nodes path :=
      mem_rootedNodes.mpr (.inl rfl)
    obtain ⟨above, member, kind, named⟩ := tree.prefixes _
      ((mem_items safe).mpr ⟨_, below, visible, rfl⟩) [path.filename] entry.1
      (parts_entryItem safe below) (List.cons_ne_nil _ _) (shown.names entry inEntries).1
    obtain ⟨second, inSecond, seen, rfl⟩ := (mem_items safe).mp member
    rw [relativePath_entryItem] at named
    obtain ⟨mode, directory⟩ := (kind_entryItem seen).mp kind
    rw [wireName_injOn safe inSecond root named, self] at directory
    cases directory
  · intro condition
    have prefixes : ∀ item ∈ collectDirectoryItems path (shown.listing path), ∀ front back,
        (Path.parse item.relativePath).parts = front ++ back → front ≠ [] → back ≠ [] →
        ∃ above ∈ collectDirectoryItems path (shown.listing path),
          above.kind = .directoryEntry ∧ above.relativePath = wireName front := by
      rcases condition with ⟨mode, real⟩ | nothing
      · exact prefixes_of_directory safe real
      · intro item member front back split some more
        obtain ⟨entry, inNodes, visible, rfl⟩ := (mem_items safe).mp member
        rw [parts_entryItem safe inNodes] at split
        rcases mem_rootedNodes.mp inNodes with rfl | ⟨below, inEntries, rfl⟩
        · rcases List.append_eq_singleton_iff.mp split.symm with ⟨empty, -⟩ | ⟨-, empty⟩
          · exact absurd empty some
          · exact absurd empty more
        · exact absurd (nothing below inEntries) visible
    exact ⟨distinct_items safe shown, root_item safe shown, prefixes,
      leaves_of_prefixes safe prefixes⟩

end ShownDirectory

/-- A link to a directory that holds one file. -/
def linkedDirectory : ShownDirectory where
  self := .symlink (ascii "target")
  entries := [([ascii "f"], .file (ascii "x") 0o644)]
  enters := .inr ⟨_, rfl⟩
  names := by decide
  distinct := by decide
  parents := by
    intro entry member inner
    rw [List.mem_singleton.mp member] at inner
    exact absurd rfl inner

/-- The link is listed as a link, and the file below it. -/
theorem linkedDirectory_misdescribed :
    (collectDirectoryItems (Path.parse (ascii "link"))
        (linkedDirectory.listing (Path.parse (ascii "link")))).map
        (fun item => (item.kind, item.relativePath)) =
          [(.directorySymlink, ascii "link"), (.directoryFile, ascii "link/f")] ∧
      ¬ DescribesTree (Path.parse (ascii "link"))
        (collectDirectoryItems (Path.parse (ascii "link"))
          (linkedDirectory.listing (Path.parse (ascii "link")))) := by
  refine ⟨by decide +kernel, fun tree => ?_⟩
  have items : collectDirectoryItems (Path.parse (ascii "link"))
      (linkedDirectory.listing (Path.parse (ascii "link"))) =
        [⟨.directorySymlink, Path.parse (ascii "link"), ascii "link", 6, 0⟩,
          ⟨.directoryFile, Path.parse (ascii "link/f"), ascii "link/f", 1, 0o644⟩] := by
    decide +kernel
  rw [items] at tree
  have below := tree.leaves _ List.mem_cons_self (by decide) _
    (List.mem_cons_of_mem _ List.mem_cons_self) [ascii "f"] (by decide +kernel)
  cases below

/-- A directory that holds one file. -/
def plainDirectory : ShownDirectory where
  self := .directory 0o755
  entries := [([ascii "f"], .file (ascii "x") 0o644)]
  enters := .inl ⟨_, rfl⟩
  names := by decide
  distinct := by decide
  parents := by
    intro entry member inner
    rw [List.mem_singleton.mp member] at inner
    exact absurd rfl inner

theorem plainDirectory_described :
    DescribesTree (Path.parse (ascii "d"))
      (collectDirectoryItems (Path.parse (ascii "d"))
        (plainDirectory.listing (Path.parse (ascii "d")))) :=
  (ShownDirectory.describesTree_iff (ascii "d") plainDirectory ⟨ascii "d", by decide⟩).mpr
    (.inl ⟨0o755, rfl⟩)

end HyperLink
