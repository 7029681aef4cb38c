/-
This file is about a receiver that can create no symbolic links. The function
`create_symlink_or_fallback` of `examples/file_transfer.cpp` writes a link's target
into a file next to the link's name instead, under that name with a suffix. But a
tree can hold an entry of the longer name itself. If it is a file, then the two
overwrite each other; if it is a link, then it removes the file that was written
for the other, because it makes room for itself first.

In every other tree the files and the fallback files have different names, and
what a finished transfer has saved in them is exact, whatever the partition and
the interleaving. A directory may have such a name: it keeps the fallback file
from being opened, or the file keeps the directory from being created, and the
transfer fails. What stands under a link's own name plays no part: the proof looks
at the file system without it, where the removal changes nothing.
-/

import HyperLink.DirectoryTransfer

namespace HyperLink

open Threads Receiver FileSystem

/-! ### Where bytes are saved -/

/-- The names of the file that stands in for a link. -/
def fallbackNames (names : List Bytes) : List Bytes :=
  names.dropLast ++ [names.getLast?.getD [] ++ fallbackSuffix]

@[simp]
theorem fallbackNames_concat (front : List Bytes) (last : Bytes) :
    fallbackNames (front ++ [last]) = front ++ [last ++ fallbackSuffix] := by
  simp [fallbackNames]

theorem fallbackNames_injective {first second : List Bytes} (some : first ≠ [])
    (more : second ≠ []) (same : fallbackNames first = fallbackNames second) : first = second := by
  obtain ⟨front, last, rfl⟩ := (List.eq_nil_or_concat first).resolve_left some
  obtain ⟨before, name, rfl⟩ := (List.eq_nil_or_concat second).resolve_left more
  rw [List.concat_eq_append, List.concat_eq_append] at same ⊢
  rw [fallbackNames_concat, fallbackNames_concat] at same
  obtain ⟨fronts, lasts⟩ := List.append_inj' same rfl
  rw [fronts, List.append_cancel_right (List.singleton_inj.mp lasts)]

/-- Where the receiver saves bytes of an entry, and which: a file's content under its own name, a
link's target in the file that stands in for it. -/
def savedBytes : List Bytes × Node → Option (List Bytes × Bytes)
  | (names, .file content _) => some (names, content)
  | (names, .symlink target) => some (fallbackNames names, target)
  | (_, .directory _) => none
  | (_, .special) => none

/-- Bytes of the tree are saved under these names. -/
def SourceTree.Saves (tree : SourceTree) (place : List Bytes) : Prop :=
  ∃ entry ∈ tree.nodes, ∃ bytes, savedBytes entry = some (place, bytes)

/-- No file and no link of the tree has the name of a file that stands in for a link. -/
def SourceTree.FallbacksFree (tree : SourceTree) : Prop :=
  ∀ names target node, (names, Node.symlink target) ∈ tree.nodes →
    (fallbackNames names, node) ∈ tree.nodes → ∃ mode, node = .directory mode

/-- The content of the regular file at a location. -/
def FileSystem.contentAt (fs : FileSystem) (location : Location) : Option Bytes :=
  match fs.lookup location with
  | some (.file inode) => some (fs.files inode).content
  | _ => none

/-- Every file of a tree is there with its content, and every link's target in a file of its
own. -/
structure FileSystem.Records (fs : FileSystem) (home : Location) (tree : SourceTree) : Prop where
  files : ∀ names content mode, (names, Node.file content mode) ∈ tree.nodes →
    fs.contentAt (home ++ names) = some content
  links : ∀ names target, (names, Node.symlink target) ∈ tree.nodes →
    fs.contentAt (home ++ fallbackNames names) = some target

theorem FileSystem.contentAt_of_entry {fs : FileSystem} {location : Location} {inode : Nat}
    (found : fs.lookup location = some (.file inode)) :
    fs.contentAt location = some (fs.files inode).content := by
  unfold contentAt
  rw [found]

theorem FileSystem.entry_of_contentAt {fs : FileSystem} {location : Location} {bytes : Bytes}
    (holds : fs.contentAt location = some bytes) :
    ∃ inode, fs.lookup location = some (.file inode) ∧ (fs.files inode).content = bytes := by
  unfold contentAt at holds
  split at holds
  · rename_i inode found
    exact ⟨inode, found, Option.some.inj holds⟩
  · cases holds

section Places

variable {tree : SourceTree}

/-- No two entries are saved in one place. -/
theorem SourceTree.eq_of_place (free : tree.FallbacksFree) {first second : List Bytes × Node}
    (inFirst : first ∈ tree.nodes) (inSecond : second ∈ tree.nodes) {place : List Bytes}
    {bytes other : Bytes} (one : savedBytes first = some (place, bytes))
    (two : savedBytes second = some (place, other)) : first = second := by
  obtain ⟨names, node⟩ := first
  obtain ⟨elsewhere, found⟩ := second
  cases node with
  | directory mode => cases one
  | special => cases one
  | file content mode =>
    cases one
    cases found with
    | directory mode => cases two
    | special => cases two
    | file content mode =>
      cases two
      exact eq_of_names inFirst inSecond rfl
    | symlink target =>
      cases two
      obtain ⟨mode, never⟩ := free _ _ _ inSecond inFirst
      cases never
  | symlink target =>
    cases one
    cases found with
    | directory mode => cases two
    | special => cases two
    | file content mode =>
      cases two
      obtain ⟨mode, never⟩ := free _ _ _ inFirst inSecond
      cases never
    | symlink target =>
      have same := congrArg Prod.fst (Option.some.inj two)
      exact eq_of_names inFirst inSecond (fallbackNames_injective (names_of_mem inFirst).1
        (names_of_mem inSecond).1 same.symm)

/-- Nothing is saved under the name of a link. -/
theorem SourceTree.not_saves_link (free : tree.FallbacksFree) {names : List Bytes}
    {target : Bytes} (member : (names, Node.symlink target) ∈ tree.nodes) :
    ¬ tree.Saves names := by
  rintro ⟨⟨elsewhere, node⟩, inTree, bytes, saved⟩
  cases node with
  | directory mode => cases saved
  | special => cases saved
  | file content mode =>
    cases saved
    have same := eq_of_names inTree member rfl
    cases same
  | symlink other =>
    cases saved
    obtain ⟨mode, never⟩ := free _ _ _ inTree member
    cases never

/-- Every place lies below the root. -/
theorem SourceTree.Saves.below {place : List Bytes} (saves : tree.Saves place) :
    ∃ names, place = tree.root :: names := by
  obtain ⟨⟨names, node⟩, member, bytes, saved⟩ := saves
  rcases mem_nodes.mp member with root | ⟨below, inEntries, same⟩
  · cases root
    cases saved
  · cases same
    cases node : below.2 with
    | directory mode => rw [node] at saved; cases saved
    | special => rw [node] at saved; cases saved
    | file content mode =>
      rw [node] at saved
      cases saved
      exact ⟨below.1, rfl⟩
    | symlink target =>
      rw [node] at saved
      cases saved
      refine ⟨fallbackNames below.1, ?_⟩
      unfold fallbackNames
      rw [List.dropLast_cons_of_ne_nil (tree.names below inEntries).1, List.cons_append,
        List.getLast?_cons_of_ne_nil (tree.names below inEntries).1]

/-- The locations that matter: those of the entries, and those where bytes are saved. -/
def SourceTree.Concerns (tree : SourceTree) (home location : Location) : Prop :=
  ∃ names, location = home ++ names ∧ (names ∈ tree.nodes.map Prod.fst ∨ tree.Saves names)

theorem SourceTree.concerns_node {home : Location} {entry : List Bytes × Node}
    (member : entry ∈ tree.nodes) : tree.Concerns home (home ++ entry.1) :=
  ⟨entry.1, rfl, Or.inl (List.mem_map_of_mem member)⟩

theorem SourceTree.Saves.concerns {home : Location} {place : List Bytes}
    (saves : tree.Saves place) : tree.Concerns home (home ++ place) :=
  ⟨place, rfl, Or.inr saves⟩

/-- What may stand there: directories of the tree, and files where bytes of it are saved. -/
def SourceTree.MayHold (tree : SourceTree) (home location : Location) (entry : Entry) : Prop :=
  ∃ names, location = home ++ names ∧
    ((entry = .directory ∧ ∃ mode, (names, Node.directory mode) ∈ tree.nodes) ∨
      ((∃ inode, entry = .file inode) ∧ tree.Saves names))

/-- What holds while the tree arrives: nothing is lost, and where it matters stands only what may
stand there, no two names for one file. -/
abbrev SourceTree.Arriving (tree : SourceTree) (home : Location) (before fs : FileSystem) : Prop :=
  before.Grows (tree.Concerns home) (tree.MayHold home) fs

end Places

/-! ### What stands under the links' names -/

namespace FileSystem

/-- A file system without what stands at some locations. -/
def without (fs : FileSystem) (gone : List Location) : FileSystem :=
  { fs with entries := fs.entries.filter fun pair => pair.1 ∉ gone }

variable {fs : FileSystem} {gone : List Location} {location : Location}

theorem lookup_without (fs : FileSystem) (gone : List Location) (location : Location) :
    (fs.without gone).lookup location = if location ∈ gone then none else fs.lookup location := by
  unfold lookup without
  simp only []
  induction fs.entries with
  | nil => simp
  | cons pair rest inductionHypothesis =>
    rw [List.filter_cons, List.lookup_cons]
    by_cases here : location = pair.1
    · by_cases absent : pair.1 ∈ gone
      · rw [if_neg (by simpa using absent), inductionHypothesis, if_pos (here ▸ absent),
          if_pos (here ▸ absent)]
      · rw [if_pos (by simpa using absent), List.lookup_cons, if_neg (here ▸ absent)]
        simp [here]
    · rw [beq_false_of_ne here]
      by_cases absent : pair.1 ∈ gone
      · rw [if_neg (by simpa using absent), inductionHypothesis]
      · rw [if_pos (by simpa using absent), List.lookup_cons, beq_false_of_ne here,
          inductionHypothesis]

theorem lookup_without_of_not_mem (stays : location ∉ gone) :
    (fs.without gone).lookup location = fs.lookup location := by
  rw [lookup_without, if_neg stays]

theorem without_keeps (fs : FileSystem) (gone : List Location) : (fs.without gone).Keeps fs := by
  refine ⟨rfl, fun location entry found => ?_⟩
  rw [lookup_without] at found
  split at found
  · cases found
  · exact found

theorem insert_without (fs : FileSystem) (stays : location ∉ gone) (entry : Entry) :
    (fs.insert location entry).without gone = (fs.without gone).insert location entry := by
  unfold insert without
  simp [stays]

theorem erase_without (fs : FileSystem) (inside : location ∈ gone) :
    (fs.erase location).without gone = fs.without gone := by
  have same : (fs.entries.filter fun pair => pair.1 ≠ location).filter (fun pair => pair.1 ∉ gone) =
      fs.entries.filter fun pair => pair.1 ∉ gone := by
    rw [List.filter_filter]
    refine List.filter_congr fun pair _ => ?_
    by_cases here : pair.1 = location
    · simp [here, inside]
    · simp [here]
  unfold erase without
  rw [same]

theorem contentAt_of_without {bytes : Bytes}
    (holds : (fs.without gone).contentAt location = some bytes) :
    fs.contentAt location = some bytes := by
  obtain ⟨inode, found, content⟩ := entry_of_contentAt holds
  rw [contentAt_of_entry ((fs.without_keeps gone).2 _ _ found)]
  exact congrArg some content

/-- Where a path lands with and without these entries, opening it does the same. -/
theorem openTruncate_without {path : Path} (lands : fs.resolve true path = some location)
    (landsToo : (fs.without gone).resolve true path = some location) (stays : location ∉ gone) :
    (fs.openTruncate path).reply = ((fs.without gone).openTruncate path).reply ∧
      (fs.openTruncate path).fs.without gone = ((fs.without gone).openTruncate path).fs := by
  unfold FileSystem.openTruncate
  rw [lands, landsToo]
  split
  · exact ⟨rfl, rfl⟩
  · simp only [lookup_without_of_not_mem stays]
    cases fs.lookup location with
    | none =>
      exact ⟨rfl, congrArg (setFile · _ _)
        (insert_without { fs with nextInode := fs.nextInode + 1 } stays _)⟩
    | some entry => cases entry <;> exact ⟨rfl, rfl⟩

theorem createDirectory_without {path : Path}
    (lands : ∀ follow, fs.resolve follow path = some location)
    (landsToo : ∀ follow, (fs.without gone).resolve follow path = some location)
    (stays : location ∉ gone) :
    (fs.createDirectory path).reply = ((fs.without gone).createDirectory path).reply ∧
      (fs.createDirectory path).fs.without gone = ((fs.without gone).createDirectory path).fs := by
  unfold FileSystem.createDirectory isDirectory occupied
  simp only [lands, landsToo, Option.any_some, lookup_without_of_not_mem stays]
  split
  · exact ⟨rfl, rfl⟩
  · cases fs.lookup location with
    | none => exact ⟨rfl, insert_without fs stays _⟩
    | some entry => exact ⟨rfl, rfl⟩

/-- What makes room at one of these locations is not seen. -/
theorem remove_without {path : Path} (lands : fs.resolve false path = some location)
    (inside : location ∈ gone) : (fs.remove path).fs.without gone = fs.without gone := by
  unfold FileSystem.remove
  rw [lands]
  simp only []
  split
  · rfl
  · split
    · exact erase_without fs inside
    · rfl
  · split
    · rfl
    · exact erase_without fs inside

end FileSystem

/-- The locations of the links. -/
def SourceTree.links (tree : SourceTree) (home : Location) : List Location :=
  tree.nodes.filterMap fun entry =>
    match entry.2 with
    | .symlink _ => some (home ++ entry.1)
    | _ => none

/-- The world without what stands under the links' names. The receiver removes it if it can, and
makes no use of it. -/
def SourceTree.aside (tree : SourceTree) (home : Location) (world : World) : World :=
  { world with fs := world.fs.without (tree.links home) }

section Links

variable {tree : SourceTree} {home : Location}

theorem SourceTree.mem_links {location : Location} : location ∈ tree.links home ↔
    ∃ names target, (names, Node.symlink target) ∈ tree.nodes ∧ location = home ++ names := by
  unfold links
  rw [List.mem_filterMap]
  constructor
  · rintro ⟨⟨names, node⟩, member, same⟩
    cases node with
    | symlink target => exact ⟨names, target, member, (Option.some.inj same).symm⟩
    | directory mode => cases same
    | file content mode => cases same
    | special => cases same
  · rintro ⟨names, target, member, rfl⟩
    exact ⟨_, member, rfl⟩

theorem SourceTree.not_mem_links_directory {names : List Bytes} {mode : Nat}
    (member : (names, Node.directory mode) ∈ tree.nodes) : home ++ names ∉ tree.links home := by
  intro inside
  obtain ⟨others, target, link, same⟩ := mem_links.mp inside
  cases congrArg Prod.snd (eq_of_names member link (List.append_cancel_left same))

theorem SourceTree.Saves.not_mem_links (free : tree.FallbacksFree) {place : List Bytes}
    (saves : tree.Saves place) : home ++ place ∉ tree.links home := by
  intro inside
  obtain ⟨names, target, link, same⟩ := mem_links.mp inside
  rw [List.append_cancel_left same] at saves
  exact not_saves_link free link saves

end Links

/-! ### What the others leave alone -/

section Respects

variable {home : Location} {spared : List Bytes → Prop} {fs later : FileSystem}

/-- What a spared file holds stays. -/
theorem FileSystem.Respects.contentAt (respects : Respects home spared fs later)
    {names : List Bytes} (own : spared names) {bytes : Bytes}
    (holds : fs.contentAt (home ++ names) = some bytes) :
    later.contentAt (home ++ names) = some bytes := by
  obtain ⟨inode, found, content⟩ := entry_of_contentAt holds
  rw [contentAt_of_entry (respects.keeps.2 _ _ found), respects.data names inode own found,
    content]

end Respects

/-- What a thread does to the file system, or expects of the others, but for the links' names. -/
abbrev Respecting (tree : SourceTree) (home : Location) (spared : List Bytes → Prop)
    (world later : World) : Prop :=
  Respects home spared (tree.aside home world).fs (tree.aside home later).fs

theorem respecting_refl {tree : SourceTree} {home : Location} (spared : List Bytes → Prop)
    (world : World) : Respecting tree home spared world world :=
  Respects.refl spared (tree.aside home world).fs

/-- The environment lets no link be created and every write succeed. The other calls may fail
too. -/
def NoSymlinks (fault : Fault) : Call → World → Prop
  | .createSymlink _ _, _ => fault ≠ .none
  | .write _ _ _, _ => fault = .none
  | _, _ => True

instance decidableNoSymlinks (fault : Fault) :
    (request : Call) → (world : World) → Decidable (NoSymlinks fault request world)
  | .createSymlink _ _, _ => inferInstanceAs (Decidable (fault ≠ .none))
  | .write _ _ _, _ => inferInstanceAs (Decidable (fault = .none))
  | .createDirectory _, _ => isTrue trivial
  | .openTruncate _, _ => isTrue trivial
  | .openReadWrite _, _ => isTrue trivial
  | .close _, _ => isTrue trivial
  | .setPermissions _ _, _ => isTrue trivial
  | .remove _, _ => isTrue trivial
  | .prepare _ _ _, _ => isTrue trivial
  | .openPipe _, _ => isTrue trivial
  | .writePipe _, _ => isTrue trivial
  | .closePipe, _ => isTrue trivial

/-! ### Directories on the way -/

section Records

variable {options : Options} {tree : SourceTree} {home : Location} {before : FileSystem}
  {mine own : List Bytes → Prop}

/-- The contract of a part of a thread's code. -/
abbrev Fallback (tree : SourceTree) (home : Location) (before : FileSystem)
    (mine own : List Bytes → Prop) {Result : Type} (post : Result → World → Prop)
    (program : Program Call Reply Result) (world : World) : Prop :=
  program.Meets perform NoSymlinks
    (fun world => tree.Arriving home before (tree.aside home world).fs)
    (Respecting tree home mine) (Respecting tree home own) post world

/-- Where it matters there is no link. -/
theorem no_link {fs : FileSystem} (grows : tree.Arriving home before fs)
    {location : Location} (concerns : tree.Concerns home location) (target : Bytes) :
    fs.lookup location ≠ some (.symlink target) := by
  intro found
  obtain ⟨names, -, ⟨never, -⟩ | ⟨⟨inode, never⟩, -⟩⟩ := grows.known _ _ concerns found
  · cases never
  · cases never

/-- The path of a name of the tree lands there, whatever stands under the links' names. -/
theorem lands_aside (named : before.Names options.outputDir home) {names : List Bytes}
    (more : names ≠ []) (entries : ∀ name ∈ names, EntryName name) {world : World}
    (grows : tree.Arriving home before (tree.aside home world).fs)
    (concerns : tree.Concerns home (home ++ names)) (stays : home ++ names ∉ tree.links home)
    (leads : (tree.aside home world).fs.Leads home names) (follow : Bool) :
    world.fs.resolve follow (options.outputDir.below names) = some (home ++ names) ∧
      (tree.aside home world).fs.resolve follow (options.outputDir.below names) =
        some (home ++ names) := by
  have within := world.fs.without_keeps (tree.links home)
  refine ⟨((named.keeps grows.keeps).keeps within).resolve_below more entries
    (leads.keeps within) fun target linked => ?_,
    (named.keeps grows.keeps).resolve_below more entries leads fun target linked =>
      absurd linked (no_link grows concerns target)⟩
  rw [← lookup_without_of_not_mem stays] at linked
  exact absurd linked (no_link grows concerns target)

/-- `create_directory` for a directory of the tree, under any fault: if it returns, the directory
stands. -/
theorem createDirectory_tries (named : before.Names options.outputDir home)
    {names : List Bytes} {mode : Nat} (member : (names, Node.directory mode) ∈ tree.nodes)
    {world : World} (grows : tree.Arriving home before (tree.aside home world).fs)
    (leads : (tree.aside home world).fs.Leads home names) (fault : Fault) :
    let next := perform fault (.createDirectory (options.outputDir.below names)) world
    tree.Arriving home before (tree.aside home next.2).fs ∧ Respecting tree home own world next.2 ∧
      (next.1 = .ok () → (tree.aside home next.2).fs.lookup (home ++ names) = some .directory) := by
  obtain ⟨more, entries⟩ := SourceTree.names_of_mem member
  have concerns := @SourceTree.concerns_node tree home _ member
  have stays := @SourceTree.not_mem_links_directory tree home _ _ member
  by_cases smooth : fault = .none
  · have lands := lands_aside named more entries grows concerns stays leads
    obtain ⟨reply, same⟩ := createDirectory_without (fun follow => (lands follow).1)
      (fun follow => (lands follow).2) stays
    rw [smooth]
    simp only [perform_none, performCall, World.onFiles, SourceTree.aside, Respecting, reply, same]
    simp only [FileSystem.createDirectory, isDirectory, show ∀ follow, (world.fs.without
      (tree.links home)).resolve follow (options.outputDir.below names) = some (home ++ names) from
      fun follow => (lands follow).2]
    cases found : (world.fs.without (tree.links home)).lookup (home ++ names) with
    | none =>
      simp only []
      exact ⟨Grows.insert grows found ⟨names, rfl, Or.inl ⟨rfl, mode, member⟩⟩
        (fun _ never => by cases never), respects_insert found _, fun _ => by simp⟩
    | some entry =>
      by_cases directory : entry = .directory
      · simp only [directory, beq_self_eq_true, if_true, unchanged]
        exact ⟨grows, Respects.refl _ _, fun _ => by rw [found, directory]⟩
      · have different : (some entry == some Entry.directory) = false := by simpa using directory
        simp only [different, Bool.false_eq_true, if_false, unchanged]
        exact ⟨grows, Respects.refl _ _, fun never => by cases never⟩
  · have refused : perform fault (.createDirectory (options.outputDir.below names)) world =
        (.error .inputOutput, world) := if_neg smooth
    rw [refused]
    exact ⟨grows, Respects.refl _ _, fun never => by cases never⟩

/-- Nothing is lost that the others need, and what returns has made its directory. -/
theorem makes_noSymlinks (named : before.Names options.outputDir home) :
    Makes tree home before options.outputDir (tree.aside home) NoSymlinks
      (fun world => tree.Arriving home before (tree.aside home world).fs)
      (Respecting tree home mine) (Respecting tree home own) False := by
  refine ⟨respecting_refl mine, respecting_refl own, fun world => world.fs.without_keeps _,
    fun _ grows => grows.keeps, fun _ _ respects => respects.keeps, False.elim, ?_⟩
  intro names mode member world fault grows leads _
  obtain ⟨grew, respects, made⟩ := createDirectory_tries named member grows leads fault
  exact ⟨grew, respects, respects.keeps, False.elim, made⟩

/-- Code that throws if a directory cannot be created, and goes on once they stand. -/
theorem createDirectories_tries_then (named : before.Names options.outputDir home)
    {names : List Bytes} (more : names ≠ [])
    (directories : ∀ front, front <+: names → front ≠ [] →
      ∃ mode, (front, Node.directory mode) ∈ tree.nodes)
    {code : Except Errno Unit → Receiver Unit}
    (throws : ∀ errno, ∃ error, code (.error errno) = Receiver.fail error)
    {state : StreamState} {left : Bytes} {counted : UInt64} {holds : World → Prop}
    (rest : ∀ later, tree.Arriving home before (tree.aside home later).fs →
      (tree.aside home later).fs.Reaches home names →
      Fallback tree home before mine own (Delivered False state left counted holds)
        (code (.ok ()) state) later)
    (world : World) :
    Fallback tree home before mine own (Delivered False state left counted holds)
      ((createDirectories (options.outputDir.below names) >>= code) state) world := by
  refine Program.Meets.bind (respecting_refl mine)
    (((makes_noSymlinks named).createDirectories named more directories state world).weaken
      fun outcome later grows made => ?_)
  obtain ⟨reply, last⟩ := outcome
  cases reply with
  | error error => exact Delivered.fail _ _ not_false
  | ok created =>
    cases created with
    | error errno =>
      obtain ⟨error, same⟩ := throws errno
      rw [andThen_ok, same]
      exact Delivered.fail _ _ not_false
    | ok _ =>
      obtain ⟨rfl, reaches⟩ := made.2 rfl
      exact rest later grows reaches

/-! ### One entry -/

/-- The places of the tree other than one. -/
def SourceTree.SavesElse (tree : SourceTree) (place other : List Bytes) : Prop :=
  tree.Saves other ∧ other ≠ place

/-- Every place has names that a directory can hold. -/
theorem SourceTree.Saves.names {place : List Bytes} (saves : tree.Saves place) :
    place ≠ [] ∧ ∀ name ∈ place, EntryName name := by
  obtain ⟨⟨names, node⟩, member, bytes, saved⟩ := saves
  obtain ⟨more, entries⟩ := names_of_mem member
  cases node with
  | directory mode => cases saved
  | special => cases saved
  | file content mode =>
    cases saved
    exact ⟨more, entries⟩
  | symlink target =>
    cases saved
    obtain ⟨front, last, rfl⟩ := (List.eq_nil_or_concat names).resolve_left more
    rw [List.concat_eq_append] at entries ⊢
    rw [fallbackNames_concat]
    obtain ⟨safe, plain⟩ := entries last (by simp)
    refine ⟨by simp, fun name inside => ?_⟩
    rcases List.mem_append.mp inside with early | final
    · exact entries name (List.mem_append_left _ early)
    · have noNul : (0 : UInt8) ∉ fallbackSuffix := by decide
      rw [List.mem_singleton.mp final]
      exact ⟨safe.append (by decide) (by decide), by simp [plain, noNul]⟩

/-- What is changed of the file at one place leaves the other places alone. -/
theorem SourceTree.Saves.respects_setFile {place : List Bytes} (saves : tree.Saves place)
    {fs : FileSystem} (grows : tree.Arriving home before fs)
    {inode : Nat} (found : fs.lookup (home ++ place) = some (.file inode)) (data : FileData) :
    Respects home (tree.SavesElse place) fs (fs.setFile inode data) :=
  (grows.spares_setFile found saves.concerns
    (fun _ elsewhere => ⟨elsewhere.2, elsewhere.1.concerns⟩) data).respects

/-- Opening the file of a place, under any fault. -/
theorem openTruncate_tries (named : before.Names options.outputDir home)
    (free : tree.FallbacksFree) {place : List Bytes} (saves : tree.Saves place) (content : Bytes)
    {world : World} (grows : tree.Arriving home before (tree.aside home world).fs)
    (leads : (tree.aside home world).fs.Leads home place) (fault : Fault) :
    let next := perform fault (.openTruncate (options.outputDir.below place)) world
    tree.Arriving home before (tree.aside home next.2).fs ∧
      Respecting tree home (tree.SavesElse place) world next.2 ∧
      ∀ handle, next.1 = some handle →
        Receiving home options.outputDir place content handle 0 (tree.aside home next.2) := by
  obtain ⟨more, entries⟩ := saves.names
  by_cases smooth : fault = .none
  · have stays := @SourceTree.Saves.not_mem_links tree home free place saves
    obtain ⟨lands, landsToo⟩ := lands_aside named more entries grows saves.concerns stays leads true
    obtain ⟨reply, same⟩ := openTruncate_without lands landsToo stays
    obtain ⟨grew, spares, located⟩ := grows.openTruncate (tree.SavesElse place) landsToo
      saves.concerns (fun inode => ⟨place, rfl, Or.inr ⟨⟨inode, rfl⟩, saves⟩⟩)
      fun other elsewhere => ⟨elsewhere.2, elsewhere.1.concerns⟩
    rw [smooth]
    simp only [perform_none, performCall, World.onFiles, SourceTree.aside, Respecting, reply, same]
    refine ⟨grew, spares.respects, fun handle opened => ⟨located handle opened, ?_, ?_⟩⟩
    · exact (opens_of_openTruncate opened).1
    · exact content_of_openTruncate opened
  · have refused : perform fault (.openTruncate (options.outputDir.below place)) world =
        (none, world) := if_neg smooth
    rw [refused]
    exact ⟨grows, Respects.refl _ _, fun handle never => by cases never⟩

/-- Code that throws if the file of a place cannot be opened, and goes on once it is empty. -/
theorem openTruncate_then (named : before.Names options.outputDir home)
    (free : tree.FallbacksFree) {place : List Bytes} (saves : tree.Saves place) (content : Bytes)
    {code : Option Handle → Receiver Unit} (throws : ∃ error, code none = Receiver.fail error)
    {state : StreamState} {left : Bytes} {counted : UInt64} {holds : World → Prop} (world : World)
    (leads : ∀ later, Respecting tree home mine world later →
      (tree.aside home later).fs.Leads home place)
    (rest : ∀ handle later,
      Receiving home options.outputDir place content handle 0 (tree.aside home later) →
      Fallback tree home before mine (tree.SavesElse place)
        (Delivered False state left counted holds) (code (some handle) state) later) :
    Fallback tree home before mine (tree.SavesElse place)
      (Delivered False state left counted holds)
      ((Receiver.invoke (.openTruncate (options.outputDir.below place)) >>= code) state) world := by
  refine invoke_meets fun later step grows fault _ => ?_
  have tried := openTruncate_tries named free saves content grows (leads later step) fault
  rcases performed : perform fault (.openTruncate (options.outputDir.below place)) later
    with ⟨reply, after⟩
  rw [performed] at tried
  obtain ⟨grew, respects, opened⟩ := tried
  refine ⟨reply, after, rfl, grew, respects, ?_⟩
  cases reply with
  | none =>
    obtain ⟨error, same⟩ := throws
    rw [same]
    exact Delivered.fail _ _ not_false
  | some handle => exact rest handle after (opened handle rfl)

/-- More of a file's bytes are written, and the files of the other places stay. -/
theorem write_tries {place : List Bytes} (saves : tree.Saves place) {content bytes : Bytes}
    {handle : Handle} {done : Nat} (piece : bytes <+: content.drop done)
    (fits : done + bytes.length ≤ content.length) {world : World}
    (grows : tree.Arriving home before (tree.aside home world).fs)
    (receiving : Receiving home options.outputDir place content handle done
      (tree.aside home world)) :
    let after := (performCall (.write handle done bytes) world).2
    tree.Arriving home before (tree.aside home after).fs ∧
      Respecting tree home (tree.SavesElse place) world after ∧
      Receiving home options.outputDir place content handle (done + bytes.length)
        (tree.aside home after) :=
  ⟨grows.setFile _ _, saves.respects_setFile grows receiving.entry _,
    receiving.write piece fits⟩

/-- A new mode leaves the bytes as they are. -/
theorem mode_tries {place : List Bytes} (saves : tree.Saves place) {content : Bytes}
    {handle : Handle} {done : Nat} {world after : World}
    (grows : tree.Arriving home before (tree.aside home world).fs)
    (receiving : Receiving home options.outputDir place content handle done
      (tree.aside home world)) {mode : Nat}
    (changed : after.fs =
      world.fs.setFile handle.inode ⟨(world.fs.files handle.inode).content, mode⟩) :
    tree.Arriving home before (tree.aside home after).fs ∧
      Respecting tree home (tree.SavesElse place) world after ∧
      Receiving home options.outputDir place content handle done (tree.aside home after) := by
  have same : (tree.aside home after).fs = (tree.aside home world).fs.setFile handle.inode
      ⟨((tree.aside home world).fs.files handle.inode).content, mode⟩ :=
    congrArg (·.without (tree.links home)) changed
  refine ⟨?_, ?_, receiving.location, ?_, ?_⟩
  · rw [same]
    exact grows.setFile _ _
  · rw [Respecting, same]
    exact saves.respects_setFile grows receiving.entry _
  · rw [same]
    exact receiving.opens.keeps (Keeps.setFile _ _ _)
  · rw [same]
    simp only [files_setFile, Function.update_self, receiving.content]

theorem setPermissions_tries {place : List Bytes} (saves : tree.Saves place) {content : Bytes}
    {handle : Handle} {done : Nat} {world : World}
    (grows : tree.Arriving home before (tree.aside home world).fs)
    (receiving : Receiving home options.outputDir place content handle done
      (tree.aside home world)) (mode : Nat) (fault : Fault) :
    let after := (perform fault (.setPermissions (options.outputDir.below place) mode) world).2
    tree.Arriving home before (tree.aside home after).fs ∧
      Respecting tree home (tree.SavesElse place) world after ∧
      Receiving home options.outputDir place content handle done (tree.aside home after) := by
  by_cases smooth : fault = .none
  · have opens := receiving.opens.keeps (world.fs.without_keeps (tree.links home))
    have changed :
        (perform fault (.setPermissions (options.outputDir.below place) mode) world).2.fs =
          world.fs.setFile handle.inode
          ⟨(world.fs.files handle.inode).content, mode % 0o10000⟩ := by
      simp only [smooth, perform_none, performCall, World.onFiles, opens.setPermissions]
    exact mode_tries saves grows receiving changed
  · have refused : perform fault (.setPermissions (options.outputDir.below place) mode) world =
        (false, world) := if_neg smooth
    rw [refused]
    exact ⟨grows, Respects.refl _ _, receiving⟩

theorem close_tries {place : List Bytes} (saves : tree.Saves place) {content : Bytes}
    {handle : Handle} {done : Nat} {world : World}
    (grows : tree.Arriving home before (tree.aside home world).fs)
    (receiving : Receiving home options.outputDir place content handle done
      (tree.aside home world)) (fault : Fault) :
    let after := (perform fault (.close handle) world).2
    tree.Arriving home before (tree.aside home after).fs ∧
      Respecting tree home (tree.SavesElse place) world after ∧
      Receiving home options.outputDir place content handle done (tree.aside home after) := by
  obtain same | same := perform_close fault handle world
  · simp only [same]
    exact ⟨grows, Respects.refl _ _, receiving⟩
  · exact mode_tries saves grows receiving (congrArg World.fs same)

/-- A file that has arrived is there. -/
theorem Receiving.contentAt {place : List Bytes} {content : Bytes} {handle : Handle}
    {world : World}
    (received : Receiving home options.outputDir place content handle content.length world) :
    world.fs.contentAt (home ++ place) = some content := by
  rw [contentAt_of_entry received.entry, received.content, List.take_length]

/-- The throwing form of `create_directories`. -/
theorem createDirectoriesOrThrow_tries (named : before.Names options.outputDir home)
    {names : List Bytes} (more : names ≠ [])
    (directories : ∀ front, front <+: names → front ≠ [] →
      ∃ mode, (front, Node.directory mode) ∈ tree.nodes)
    (state : StreamState) (world : World) :
    Fallback tree home before mine own
      (Delivered False state state.connection.remaining 0 fun later =>
        (tree.aside home later).fs.Reaches home names)
      (createDirectoriesOrThrow (options.outputDir.below names) state) world := by
  refine createDirectories_tries_then named more directories (fun errno => ⟨_, rfl⟩)
    (fun later _ reaches => ?_) world
  exact Program.Meets.done fun final step _ => ⟨fun _ => rfl, fun _ =>
    ⟨rfl, (UInt64.add_zero _).symm, reaches.keeps step.keeps⟩⟩

/-- The record of a directory. -/
theorem receiveEntry_tries (named : before.Names options.outputDir home)
    {names : List Bytes} {mode : Nat} (member : (names, Node.directory mode) ∈ tree.nodes)
    (state : StreamState) (world : World) :
    Fallback tree home before mine own
      (Delivered False state state.connection.remaining 0 fun _ => True)
      (receiveRecord options (entryRecord (names, .directory mode)).header state) world := by
  obtain ⟨accepted, place, -⟩ := checkedPath options member
  obtain ⟨more, -⟩ := SourceTree.names_of_mem member
  have kind : (entryRecord (names, .directory mode)).header.kind = .directoryEntry := rfl
  simp only [receiveRecord, kind, accepted, bind_apply, check_apply, Program.bind_done,
    andThen_ok, place]
  exact (createDirectoriesOrThrow_tries named more (directories_upto member) state world).weaken
    fun outcome later _ made => made.imp fun _ _ => trivial

/-- The record of a file. -/
theorem receiveFile_saves (named : before.Names options.outputDir home)
    (free : tree.FallbacksFree) {names : List Bytes} {content : Bytes} {mode : Nat}
    (member : (names, Node.file content mode) ∈ tree.nodes) (spared : mine names)
    (state : StreamState) (world : World) (rest : Bytes)
    (stream : state.connection.remaining = content ++ rest) :
    Fallback tree home before mine (tree.SavesElse names)
      (Delivered False state rest (entryRecord (names, .file content mode)).payloadSize
        fun later => (tree.aside home later).fs.contentAt (home ++ names) = some content)
      (receiveRecord options (entryRecord (names, .file content mode)).header state) world := by
  obtain ⟨-, -, parent⟩ := checkedPath options member
  have saves : tree.Saves names := ⟨_, member, content, rfl⟩
  have size : content.length = (entryRecord (names, .file content mode)).header.payloadSize.toNat :=
    (SourceTree.entryRecord_complete member).payload
  obtain ⟨above, leads, directories⟩ := @directories_above tree home _ _ member
    fun _ never => by cases never
  rw [receiveRecord_file member, receiveDirectoryFile, parent]
  refine createDirectories_tries_then named above directories (fun errno => ⟨_, rfl⟩)
    (fun first _ reaches => ?_) world
  refine openTruncate_then named free saves content ⟨_, rfl⟩ first
    (fun later step => leads _ (reaches.keeps step.keeps)) fun handle second begun => ?_
  rw [← size]
  refine Program.Meets.bind (respecting_refl mine)
    ((receiveFilePayload_meets
      (fun done world => Receiving home options.outputDir names content handle done
        (tree.aside home world))
      (fun _ _ _ step => Receiving.respected spared step)
      (fun bytes done world fault piece fits grows receiving smooth => by
        cases smooth
        obtain ⟨grew, respects, further⟩ := write_tries saves piece fits grows receiving
        exact ⟨grew, respects, fun never : False => never.elim, fun _ => further⟩)
      state second rest stream begun).weaken fun outcome third _ delivered => ?_)
  obtain ⟨reply, last⟩ := outcome
  cases reply with
  | error error => exact Delivered.fail _ _ not_false
  | ok _ =>
    obtain ⟨left, total, received⟩ := delivered.2 rfl
    -- The mode may be refused or not: the bytes stay.
    refine invoke_meets fun fourth step grows fault _ => ?_
    obtain ⟨grew, respects, kept⟩ := setPermissions_tries saves grows
      (received.respected spared step)
      (entryRecord (names, .file content mode)).header.offset.toNat fault
    refine ⟨_, _, rfl, grew, respects, ?_⟩
    refine invoke_meets fun fifth step grows fault _ => ?_
    obtain ⟨grew, respects, kept⟩ := close_tries saves grows (kept.respected spared step) fault
    refine ⟨(), (perform fault (.close handle) fifth).2, rfl, grew, respects,
      Program.Meets.done fun final step _ => ⟨fun _ => rfl, fun _ => ⟨left, total, ?_⟩⟩⟩
    exact (kept.respected spared step).contentAt

/-- The path of the file that stands in for a link. -/
theorem fallbackPath (wellFormed : options.outputDir.WellFormed) {names : List Bytes}
    {target : Bytes} (member : (names, Node.symlink target) ∈ tree.nodes) :
    Path.parse ((options.outputDir.below names).string ++ fallbackSuffix) =
      options.outputDir.below (fallbackNames names) := by
  have saves : tree.Saves (fallbackNames names) := ⟨_, member, target, rfl⟩
  have entries := saves.names.2
  obtain ⟨front, last, rfl⟩ :=
    (List.eq_nil_or_concat names).resolve_left (SourceTree.names_of_mem member).1
  rw [List.concat_eq_append, fallbackNames_concat] at entries ⊢
  exact Path.parse_string_append wellFormed fun name inside => (entries name inside).1

/-- `create_symlink_or_fallback` where no link can be created. -/
theorem createSymlinkOrFallback_saves (named : before.Names options.outputDir home)
    (wellFormed : options.outputDir.WellFormed) (free : tree.FallbacksFree)
    {names : List Bytes} {target : Bytes} (member : (names, Node.symlink target) ∈ tree.nodes)
    (spared : mine (fallbackNames names)) (state : StreamState) (world : World)
    (reaches : (tree.aside home world).fs.Reaches home names.dropLast) :
    Fallback tree home before mine (tree.SavesElse (fallbackNames names))
      (Delivered False state state.connection.remaining 0 fun later =>
        (tree.aside home later).fs.contentAt (home ++ fallbackNames names) = some target)
      (createSymlinkOrFallback target (options.outputDir.below names) state) world := by
  obtain ⟨more, entries⟩ := SourceTree.names_of_mem member
  have saves : tree.Saves (fallbackNames names) := ⟨_, member, target, rfl⟩
  -- What is removed stands under the link's name.
  refine invoke_meets fun first step grows fault _ => ?_
  have reached := reaches.keeps step.keeps
  have same :
      (tree.aside home (perform fault (.remove (options.outputDir.below names)) first).2).fs =
        (tree.aside home first).fs := by
    by_cases smooth : fault = .none
    · have within := first.fs.without_keeps (tree.links home)
      have leads := (reached.keeps within).leads (names.getLast more)
      rw [List.dropLast_append_getLast] at leads
      have lands := ((named.keeps grows.keeps).keeps within).resolve_below more entries leads
        (fun _ _ => rfl : ∀ target, _ → false = false)
      rw [smooth]
      exact remove_without lands (SourceTree.mem_links.mpr ⟨names, target, member, rfl⟩)
    · rw [show perform fault (.remove (options.outputDir.below names)) first = (false, first) from
        if_neg smooth]
  rcases performed : perform fault (.remove (options.outputDir.below names)) first
    with ⟨reply, after⟩
  rw [performed] at same
  refine ⟨reply, after, rfl, ?_, ?_, ?_⟩
  · rw [same]
    exact grows
  · rw [Respecting, same]
    exact Respects.refl _ _
  -- The link cannot be created.
  refine invoke_meets fun second step grows fault refused => ?_
  have reached : (tree.aside home second).fs.Reaches home names.dropLast := by
    rw [← same] at reached
    exact reached.keeps step.keeps
  refine ⟨false, second, if_neg refused, grows, Respects.refl _ _, ?_⟩
  rw [if_neg Bool.false_ne_true, fallbackPath wellFormed member]
  refine openTruncate_then named free saves target ⟨_, rfl⟩ second
    (fun later step => (reached.keeps step.keeps).leads _) fun handle third begun => ?_
  refine invoke_meets fun fourth step grows fault smooth => ?_
  cases smooth
  obtain ⟨grew, respects, further⟩ := write_tries saves List.prefix_rfl (by simp) grows
    (begun.respected spared step)
  refine ⟨_, _, rfl, grew, respects, Program.Meets.done fun final step _ =>
    ⟨fun _ => rfl, fun _ => ⟨rfl, (UInt64.add_zero _).symm, ?_⟩⟩⟩
  rw [List.drop_zero, Nat.zero_add] at further
  exact (further.respected spared step).contentAt

/-- The record of a link. -/
theorem receiveSymlink_saves (named : before.Names options.outputDir home)
    (wellFormed : options.outputDir.WellFormed) (free : tree.FallbacksFree)
    {names : List Bytes} {target : Bytes} (member : (names, Node.symlink target) ∈ tree.nodes)
    (spared : mine (fallbackNames names)) (state : StreamState) (world : World) (rest : Bytes)
    (stream : state.connection.remaining = target ++ rest) :
    Fallback tree home before mine (tree.SavesElse (fallbackNames names))
      (Delivered False state rest (entryRecord (names, .symlink target)).payloadSize
        fun later => (tree.aside home later).fs.contentAt (home ++ fallbackNames names) =
          some target)
      (receiveRecord options (entryRecord (names, .symlink target)).header state) world := by
  obtain ⟨accepted, place, parent⟩ := checkedPath options member
  obtain ⟨above, -, directories⟩ := @directories_above tree home _ _ member
    fun _ never => by cases never
  have kind : (entryRecord (names, .symlink target)).header.kind = .directorySymlink := rfl
  simp only [receiveRecord, kind, accepted, bind_apply, check_apply, Program.bind_done,
    andThen_ok, place, parent]
  refine Program.Meets.bind (respecting_refl mine)
    ((createDirectoriesOrThrow_tries named above directories state world).weaken
      fun outcome first _ made => ?_)
  obtain ⟨reply, last⟩ := outcome
  cases reply with
  | error error => exact Delivered.fail _ _ not_false
  | ok _ =>
    obtain ⟨left, total, reaches⟩ := made.2 rfl
    obtain ⟨later, left, started⟩ := read_target member (left.trans stream)
    simp only [andThen_ok, bind_apply, started, Program.bind_done]
    refine Program.Meets.bind (respecting_refl mine)
      ((createSymlinkOrFallback_saves named wellFormed free member spared _ first
        reaches).weaken fun outcome second _ saved => ?_)
    obtain ⟨reply, final⟩ := outcome
    cases reply with
    | error error => exact Delivered.fail _ _ not_false
    | ok _ =>
      obtain ⟨standing, bytes, present⟩ := saved.2 rfl
      refine Program.Meets.done fun ended step _ => ⟨fun _ => rfl, fun _ => ⟨?_, ?_, ?_⟩⟩
      · exact standing.trans left
      · rw [bytes, total, UInt64.add_zero, UInt64.add_zero]
        rfl
      · exact step.contentAt spared present

/-! ### The streams of one tree -/

/-- The bytes of an entry are where the receiver saves them. -/
def Recorded (tree : SourceTree) (home : Location) (entry : List Bytes × Node) (world : World) :
    Prop :=
  ∀ place bytes, savedBytes entry = some (place, bytes) →
    (tree.aside home world).fs.contentAt (home ++ place) = some bytes

/-- What an entry's thread leaves alone while it receives that entry: all but where its bytes are
saved. -/
def SourceTree.Beside (tree : SourceTree) (entry : List Bytes × Node) (other : List Bytes) :
    Prop :=
  tree.Saves other ∧ ∀ bytes, savedBytes entry ≠ some (other, bytes)

theorem SourceTree.beside_of_saved {entry : List Bytes × Node} {place bytes : _}
    (saved : savedBytes entry = some (place, bytes)) :
    tree.Beside entry = tree.SavesElse place := by
  funext other
  simp [SourceTree.Beside, SourceTree.SavesElse, saved, eq_comm]

theorem recorded_of_saved {entry : List Bytes × Node} {place : List Bytes} {bytes : Bytes}
    (saved : savedBytes entry = some (place, bytes)) {world : World}
    (present : (tree.aside home world).fs.contentAt (home ++ place) = some bytes) :
    Recorded tree home entry world := by
  intro elsewhere others same
  cases saved.symm.trans same
  exact present

/-- The record of any entry of the tree. -/
theorem receiveTreeRecord_saves (named : before.Names options.outputDir home)
    (wellFormed : options.outputDir.WellFormed) (free : tree.FallbacksFree)
    {entry : List Bytes × Node} (member : entry ∈ tree.nodes)
    (spared : ∀ place bytes, savedBytes entry = some (place, bytes) → mine place)
    (state : StreamState) (world : World) (rest : Bytes)
    (stream : state.connection.remaining = (entryRecord entry).payload ++ rest) :
    Fallback tree home before mine (tree.Beside entry)
      (Delivered False state rest (entryRecord entry).payloadSize (Recorded tree home entry))
      (receiveRecord options (entryRecord entry).header state) world := by
  obtain ⟨names, node⟩ := entry
  cases node with
  | special => exact (SourceTree.sendable_of_mem member).elim
  | directory mode =>
    have received := @receiveEntry_tries options tree home before mine
      (tree.Beside (names, .directory mode)) named names mode member state world
    rw [stream] at received
    exact received.weaken fun outcome later _ made =>
      made.imp fun _ _ place bytes never => by cases never
  | file content mode =>
    have saved : savedBytes (names, .file content mode) = some (names, content) := rfl
    rw [SourceTree.beside_of_saved saved]
    exact (receiveFile_saves named free member (spared _ _ saved) state world rest stream).weaken
      fun outcome later _ made => made.imp fun _ => recorded_of_saved saved
  | symlink target =>
    have saved : savedBytes (names, .symlink target) = some (fallbackNames names, target) := rfl
    rw [SourceTree.beside_of_saved saved]
    exact (receiveSymlink_saves named wellFormed free member (spared _ _ saved) state world
      rest stream).weaken fun outcome later _ made => made.imp fun _ => recorded_of_saved saved

/-- Where the bytes of some entries are saved. -/
def SourceTree.SavesOf (tree : SourceTree) (entries : List (List Bytes × Node))
    (place : List Bytes) : Prop :=
  tree.Saves place ∧ ∃ entry ∈ entries, ∃ bytes, savedBytes entry = some (place, bytes)

/-- Where the bytes of the other entries are saved. -/
def SourceTree.SavesBut (tree : SourceTree) (entries : List (List Bytes × Node))
    (place : List Bytes) : Prop :=
  tree.Saves place ∧ ∀ entry ∈ entries, ∀ bytes, savedBytes entry ≠ some (place, bytes)

/-- What is recorded stays while its place is spared. -/
theorem Recorded.respected {spared : List Bytes → Prop} {entry : List Bytes × Node}
    {world later : World}
    (own : ∀ place bytes, savedBytes entry = some (place, bytes) → spared place)
    (respects : Respecting tree home spared world later)
    (recorded : Recorded tree home entry world) : Recorded tree home entry later :=
  fun place bytes saved => respects.contentAt (own place bytes saved) (recorded place bytes saved)

/-- The thread of a stream that carries some entries of the tree. -/
theorem treeStream_saves (named : before.Names options.outputDir home)
    (wellFormed : options.outputDir.WellFormed) (free : tree.FallbacksFree)
    {entries : List (List Bytes × Node)} (members : ∀ entry ∈ entries, entry ∈ tree.nodes)
    (distinct : (entries.map Prod.fst).Nodup) {connection : Connection}
    (carries : connection.remaining = entries.flatMap fun entry => (entryRecord entry).bytes)
    (world : World) :
    Fallback tree home before (tree.SavesOf entries) (tree.SavesBut entries)
      (fun result later => result.error = none → ∀ entry ∈ entries,
        Recorded tree home entry later)
      (receiveFilePart options connection) world := by
  have own : ∀ entry ∈ entries, ∀ place bytes, savedBytes entry = some (place, bytes) →
      tree.SavesOf entries place := fun entry member place bytes saved =>
    ⟨⟨entry, members entry member, bytes, saved⟩, entry, member, bytes, saved⟩
  have within : ∀ entry ∈ entries, ∀ world later,
      Respecting tree home (tree.Beside entry) world later →
      Respecting tree home (tree.SavesBut entries) world later := by
    intro entry member world later respects
    exact Respects.mono (fun place outside => ⟨outside.1, outside.2 entry member⟩) respects
  have apart : entries.Pairwise fun earlier later => ∀ world after,
      (Respecting tree home (tree.Beside earlier) world after → True → True) ∧
      (Respecting tree home (tree.Beside later) world after → Recorded tree home earlier world →
        Recorded tree home earlier after) := by
    refine List.Pairwise.imp_of_mem ?_ (List.pairwise_map.mp distinct)
    intro earlier later inFirst inSecond different world after
    refine ⟨fun _ => id, Recorded.respected fun place bytes saved => ?_⟩
    refine ⟨⟨earlier, members _ inFirst, bytes, saved⟩, fun other same => ?_⟩
    exact different (congrArg Prod.fst (SourceTree.eq_of_place free (members _ inFirst)
      (members _ inSecond) saved same))
  have loop := receiveRecords_meets (respecting_refl (tree.SavesOf entries)) entries
    (fun entry member => SourceTree.entryRecord_complete (members entry member))
    (fun entry member state world rest payload _ _ =>
      receiveTreeRecord_saves named wellFormed free (members entry member)
        (own entry member) state world rest payload)
    (fun entry member _ _ respects => ⟨id, Recorded.respected (own entry member) respects⟩)
    within apart (fun _ => True) (fun _ _ _ _ => trivial) (fun _ _ _ _ _ _ => trivial) _
    ⟨connection, 0⟩ world carries le_rfl (fun _ _ => trivial) trivial
  exact (receiveFilePart_meets loop).weaken fun result later _ ended clean => (ended.2 clean).2.2

/-- Streams that carry different entries of the tree: what is on a stream without an error has
been saved. -/
theorem treeStreams_save {fs : FileSystem}
    (named : (fs.without (tree.links home)).Names options.outputDir home)
    (wellFormed : options.outputDir.WellFormed) (free : tree.FallbacksFree)
    (fits : (fs.without (tree.links home)).Holds (tree.Concerns home) (tree.MayHold home))
    {streams : Nat}
    (parts : Fin streams → List (List Bytes × Node))
    (members : ∀ stream, ∀ entry ∈ parts stream, entry ∈ tree.nodes)
    (distinct : ∀ stream, ((parts stream).map Prod.fst).Nodup)
    (disjoint : ∀ stream other, stream ≠ other →
      ((parts stream).map Prod.fst).Disjoint ((parts other).map Prod.fst))
    (connections : Fin streams → Connection)
    (carries : ∀ stream, (connections stream).remaining =
      (parts stream).flatMap fun entry => (entryRecord entry).bytes) :
    (startReceive options fs connections).EndsIn perform NoSymlinks fun results world =>
      ∀ stream, (results stream).error = none →
        ∀ entry ∈ parts stream, Recorded tree home entry world := by
  have meet : (startReceive options fs connections).AllMeet perform _ _ _ _ _ :=
    ⟨Grows.refl fits, fun stream => treeStream_saves named wellFormed free (members stream)
      (distinct stream) (carries stream) _⟩
  refine (meet.endsIn (fun stream => respecting_refl _) (fun stream _ _ _ => Respects.trans)
    ?_).weaken (fun _ _ _ => id) fun results world ended => ended.2
  intro stream other different world later
  refine Respects.mono fun place own => ⟨own.1, fun entry inOther bytes saved => ?_⟩
  obtain ⟨-, owner, inStream, others, same⟩ := own
  have one := SourceTree.eq_of_place free (members _ _ inStream) (members _ _ inOther) same saved
  exact disjoint stream other different (List.mem_map_of_mem inStream)
    (one ▸ List.mem_map_of_mem inOther)

end Records

/-! ### The whole transfer -/

/-- Where no link can be created, a transfer that ends without an error has saved every file and
every link's target, each in a file of its own, if no file and no link of the tree has the name
of a file that stands in for a link. What is already there under the other names of the tree must
be of the right kind, and no two of these names one file. Under the links' own names anything may
stand, as long as the path of the output directory does not lead over it. -/
theorem symlinkFallback_records (tree : SourceTree) (free : tree.FallbacksFree)
    (options : Options) (wellFormed : options.outputDir.WellFormed) (fs : FileSystem)
    (home : Location) (named : (fs.without (tree.links home)).Names options.outputDir home)
    (fits : (fs.without (tree.links home)).Holds (tree.Concerns home) (tree.MayHold home))
    {streams : Nat}
    (parts : Fin streams → List (List Bytes × Node))
    (all : (List.ofFn parts).flatten.Perm tree.nodes) (fragments : Fin streams → List Nat) :
    (startReceive options fs fun stream =>
        ⟨(parts stream).flatMap fun entry => (entryRecord entry).bytes,
          fragments stream⟩).EndsIn perform NoSymlinks fun results world =>
      ∀ total, finishTransfer (List.ofFn results) = .ok total → world.fs.Records home tree := by
  obtain ⟨members, distinct, disjoint⟩ := parts_distinct all
  have ends := treeStreams_save named wellFormed free fits parts members distinct disjoint
    (fun stream => ⟨_, fragments stream⟩) fun stream => rfl
  refine ends.weaken (fun _ _ _ => id) fun results world each total finished => ?_
  have recorded : ∀ entry ∈ tree.nodes, Recorded tree home entry world := by
    intro entry member
    obtain ⟨part, inParts, inPart⟩ := List.mem_flatten.mp (all.symm.subset member)
    obtain ⟨stream, rfl⟩ := List.mem_ofFn.mp inParts
    exact each stream (clean_of_finishTransfer finished stream) entry inPart
  exact ⟨fun names content mode member => contentAt_of_without (recorded _ member _ _ rfl),
    fun names target member => contentAt_of_without (recorded _ member _ _ rfl)⟩

/-- An output directory that has no entry of the root's name can take the tree. -/
theorem SourceTree.holds_of_absent (tree : SourceTree) {fs : FileSystem} (isTree : fs.IsTree)
    {home : Location} (absent : fs.lookup (home ++ [tree.root]) = none) :
    fs.Holds (tree.Concerns home) (tree.MayHold home) := by
  have nothing : ∀ location, tree.Concerns home location → fs.lookup location = none := by
    rintro location ⟨names, rfl, inTree | saves⟩
    · obtain ⟨entry, member, rfl⟩ := List.mem_map.mp inTree
      exact tree.free_nodes isTree absent entry member
    · obtain ⟨below, rfl⟩ := saves.below
      exact isTree.none_below_root absent below
  refine ⟨fun location entry concerns found => ?_, fun location inode concerns found => ?_,
    fun first second inode concerns _ found => ?_⟩
  all_goals
    rw [nothing _ concerns] at found
    cases found

/-- The directories and the file of the small tree on one stream, its link on the other. -/
def smallParts : Fin 2 → List (List Bytes × Node) :=
  ![smallTree.nodes.take 3, smallTree.nodes.drop 3]

theorem smallTree_fallbacksFree : smallTree.FallbacksFree := by
  intro names target node link clash
  have only : names = [ascii "d", ascii "l"] := by
    simp only [smallTree, SourceTree.nodes, List.map_cons, List.map_nil, List.mem_cons,
      Prod.mk.injEq, reduceCtorEq, and_false, false_or, List.not_mem_nil, or_false] at link
    exact link.1
  have elsewhere : fallbackNames [ascii "d", ascii "l"] ∉ smallTree.nodes.map Prod.fst := by decide
  exact absurd (List.mem_map_of_mem (only ▸ clash)) elsewhere

/-- The small tree over two streams into an empty root directory. -/
theorem symlinkFallback_records_smallTree :
    (startReceive smallTransfer rootOnly fun stream =>
        ⟨(smallParts stream).flatMap fun entry => (entryRecord entry).bytes,
          [1, 2, 3]⟩).EndsIn perform NoSymlinks fun results world =>
      ∀ total, finishTransfer (List.ofFn results) = .ok total →
        world.fs.Records [] smallTree :=
  symlinkFallback_records smallTree smallTree_fallbacksFree smallTransfer
    (Path.parse_wellFormed _) rootOnly [] ⟨by decide, by decide, by decide⟩
    (smallTree.holds_of_absent (isTree_of_entries (by decide) (by decide)) (by decide))
    smallParts (by decide) fun _ => [1, 2, 3]

/-- If a file has the name and other bytes, no file system holds both. -/
theorem not_records_of_clash {tree : SourceTree} {names : List Bytes} {target content : Bytes}
    {mode : Nat} (link : (names, Node.symlink target) ∈ tree.nodes)
    (clash : (fallbackNames names, Node.file content mode) ∈ tree.nodes)
    (different : content ≠ target) (fs : FileSystem) (home : Location) :
    ¬ fs.Records home tree := fun records =>
  different (Option.some.inj ((records.files _ _ _ clash).symm.trans (records.links _ _ link)))

/-- A link, and a file under the name of the file that stands in for it. -/
def clashTree : SourceTree where
  root := ascii "docs"
  mode := 0o755
  entries := [([ascii "l"], .symlink (ascii "t")),
    ([ascii "l.hyperlink-symlink.txt"], .file (ascii "x") 0o644)]
  rootName := by decide
  names := by decide
  distinct := by decide
  parents := by
    simp only [List.mem_cons, List.not_mem_nil, or_false, forall_eq_or_imp, forall_eq]
    exact ⟨fun top => absurd rfl top, fun top => absurd rfl top⟩
  sendable := by decide
  rootShort := by decide
  short := by decide

/-- The link on one stream, and the file on the other. -/
def clashParts : Fin 2 → List (List Bytes × Node) :=
  ![clashTree.nodes.take 2, clashTree.nodes.drop 2]

/-- The file arrives, and then the other stream writes the link's target over it. Both streams
end without an error. -/
theorem clashTree_overwritten :
    (List.ofFn clashParts).flatten.Perm clashTree.nodes ∧
    ¬ (startReceive smallTransfer rootOnly fun stream =>
        ⟨(clashParts stream).flatMap fun entry => (entryRecord entry).bytes, []⟩).EndsIn perform
      NoSymlinks fun results world =>
        ∀ total, finishTransfer (List.ofFn results) = .ok total →
          world.fs.Records [] clashTree := by
  refine ⟨by decide, fun ends => ?_⟩
  have records := ends.2
    [(1, .none), (1, .none), (1, .none), (1, .none), (1, .none), (0, .none), (0, .none),
      (0, .none), (0, .first), (0, .none), (0, .none)]
    (by decide +kernel) (fun _ => ⟨1, none⟩) (by decide +kernel) 2 (by decide)
  have link : ([ascii "docs", ascii "l"], Node.symlink (ascii "t")) ∈ clashTree.nodes := by decide
  have file : (fallbackNames [ascii "docs", ascii "l"], Node.file (ascii "x") 0o644) ∈
      clashTree.nodes := by decide
  exact not_records_of_clash link file (by decide) _ _ records

end HyperLink
