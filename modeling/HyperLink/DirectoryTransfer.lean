/-
This file proves that a parallel directory transfer reproduces the tree under
every interleaving. A thread may need a directory that another thread was sent,
so each creates whatever is missing on its way; whoever comes first makes no
difference, because a directory that exists is no error. The files and links of
a stream belong to its thread alone. The invariant says that only entries of the
tree appear, each of its own kind, so no thread ever finds something else in its
way.
-/

import HyperLink.SourceTree
import HyperLink.Resolution

namespace HyperLink

open Threads Receiver FileSystem

/-! ### Received entries -/

/-- The entry that the receiver makes of what the sender found. -/
def Node.Becomes : Node → Entry → Prop
  | .directory _, entry => entry = .directory
  | .file _ _, entry => ∃ inode, entry = .file inode
  | .symlink target, entry => entry = .symlink target
  | .special, _ => False

/-- What the sender found stands at a location: a directory, a file with its bytes and its
mode bits, or a link with its target. -/
def FileSystem.Shows (fs : FileSystem) (location : Location) : Node → Prop
  | .directory _ => fs.lookup location = some .directory
  | .file content mode =>
      ∃ inode, fs.lookup location = some (.file inode) ∧ fs.files inode = ⟨content, mode⟩
  | .symlink target => fs.lookup location = some (.symlink target)
  | .special => False

/-- The mode that is left of a file when its stream is closed. If the stream still holds bytes
then, they are written by an unprivileged process. -/
def closedMode (fault : Fault) (content : Bytes) (mode : Nat) : Nat :=
  if fault = .first ∧ content ≠ [] then withoutSetId mode else mode

/-- What is left of a node when its stream is closed. -/
def Node.closed (fault : Fault) : Node → Node
  | .file content mode => .file content (closedMode fault content mode)
  | node => node

/-- A node stands at a location, as some close left it. -/
def FileSystem.ShowsClosed (fs : FileSystem) (closes : Fault → Prop) (location : Location)
    (node : Node) : Prop :=
  ∃ fault, closes fault ∧ fs.Shows location (node.closed fault)

/-- The environment makes no call fail. What becomes of a stream that is closed is left to
`closes`. -/
def Closing (closes : Fault → Prop) (fault : Fault) : Call → World → Prop
  | .close _, _ => closes fault
  | _, _ => fault = .none

instance decidableClosing {closes : Fault → Prop} [DecidablePred closes] (fault : Fault) :
    (request : Call) → (world : World) → Decidable (Closing closes fault request world)
  | .close _, _ => inferInstanceAs (Decidable (closes fault))
  | .createDirectory _, _ => inferInstanceAs (Decidable (fault = .none))
  | .openTruncate _, _ => inferInstanceAs (Decidable (fault = .none))
  | .openReadWrite _, _ => inferInstanceAs (Decidable (fault = .none))
  | .write _ _ _, _ => inferInstanceAs (Decidable (fault = .none))
  | .setPermissions _ _, _ => inferInstanceAs (Decidable (fault = .none))
  | .remove _, _ => inferInstanceAs (Decidable (fault = .none))
  | .createSymlink _ _, _ => inferInstanceAs (Decidable (fault = .none))
  | .prepare _ _ _, _ => inferInstanceAs (Decidable (fault = .none))
  | .openPipe _, _ => inferInstanceAs (Decidable (fault = .none))
  | .writePipe _, _ => inferInstanceAs (Decidable (fault = .none))
  | .closePipe, _ => inferInstanceAs (Decidable (fault = .none))

theorem closing_of_noFault {closes : Fault → Prop} (quietly : closes .none) (fault : Fault)
    (request : Call) (world : World) (quiet : NoFault fault request world) :
    Closing closes fault request world := by
  cases (show fault = .none from quiet)
  cases request with
  | close output => exact quietly
  | _ => rfl

/-- A node that is no directory. It is received by one thread only. -/
def SourceTree.IsLeaf (tree : SourceTree) (names : List Bytes) : Prop :=
  ∃ node, (names, node) ∈ tree.nodes ∧ ∀ mode, node ≠ .directory mode

theorem SourceTree.not_isLeaf_directory (tree : SourceTree) {names : List Bytes} {mode : Nat}
    (member : (names, Node.directory mode) ∈ tree.nodes) : ¬ tree.IsLeaf names := by
  rintro ⟨node, inTree, leaf⟩
  exact leaf mode (congrArg Prod.snd (eq_of_names inTree member rfl))

/-- Under the watched names stands only what may stand there, and no two of them stand for the
same file. -/
structure FileSystem.Holds (watched : Location → Prop) (may : Location → Entry → Prop)
    (fs : FileSystem) : Prop where
  known : ∀ location entry, watched location → fs.lookup location = some entry →
    may location entry
  inodes : ∀ location inode, watched location → fs.lookup location = some (.file inode) →
    inode < fs.nextInode
  apart : ∀ first second inode, watched first → watched second →
    fs.lookup first = some (.file inode) → fs.lookup second = some (.file inode) → first = second

/-- Nothing is lost besides. -/
structure FileSystem.Grows (before : FileSystem) (watched : Location → Prop)
    (may : Location → Entry → Prop) (fs : FileSystem) : Prop extends fs.Holds watched may where
  keeps : before.Keeps fs

section Grows

variable {before fs : FileSystem} {watched : Location → Prop} {may : Location → Entry → Prop}
  {location : Location}

theorem FileSystem.Grows.refl (holds : before.Holds watched may) :
    before.Grows watched may before :=
  ⟨holds, Keeps.refl _⟩

theorem FileSystem.Grows.setFile (grows : before.Grows watched may fs) (inode : Nat)
    (data : FileData) : before.Grows watched may (fs.setFile inode data) :=
  ⟨⟨grows.known, grows.inodes, grows.apart⟩, grows.keeps.trans (Keeps.setFile _ _ _)⟩

/-- Only that entry is new when an entry appears. -/
theorem FileSystem.Grows.known_insert (grows : before.Grows watched may fs) {present : Entry}
    (permitted : may location present) {place : Location} {entry : Entry}
    (watches : watched place) (found : (fs.insert location present).lookup place = some entry) :
    may place entry := by
  rw [lookup_insert] at found
  split at found
  · rename_i here
    cases found
    exact here ▸ permitted
  · exact grows.known place entry watches found

/-- A directory or a link appears. -/
theorem FileSystem.Grows.insert (grows : before.Grows watched may fs)
    (missing : fs.lookup location = none) {present : Entry} (permitted : may location present)
    (noFile : ∀ inode, present ≠ .file inode) :
    before.Grows watched may (fs.insert location present) := by
  have file : ∀ {place inode},
      (fs.insert location present).lookup place = some (.file inode) →
      fs.lookup place = some (.file inode) := by
    intro place inode found
    rw [lookup_insert] at found
    split at found
    · exact absurd (Option.some.inj found) (noFile inode)
    · exact found
  refine ⟨⟨fun place value watches found => grows.known_insert permitted watches found, ?_, ?_⟩,
    grows.keeps.trans (Keeps.insert missing _)⟩
  · exact fun place inode watches found => grows.inodes place inode watches (file found)
  · exact fun first second inode one two inFirst inSecond =>
      grows.apart first second inode one two (file inFirst) (file inSecond)

/-- A file appears, with a number that no file had. -/
theorem FileSystem.Grows.create (grows : before.Grows watched may fs)
    (missing : fs.lookup location = none) (permitted : may location (.file fs.nextInode))
    (data : FileData) :
    before.Grows watched may (({ fs with nextInode := fs.nextInode + 1 }.insert location
      (.file fs.nextInode)).setFile fs.nextInode data) := by
  have file : ∀ {place inode}, watched place →
      ({ fs with nextInode := fs.nextInode + 1 }.insert location
        (.file fs.nextInode)).lookup place = some (.file inode) →
      (place = location ∧ inode = fs.nextInode) ∨
        (fs.lookup place = some (.file inode) ∧ inode < fs.nextInode) := by
    intro place inode watches found
    rw [lookup_insert] at found
    split at found
    · rename_i here
      cases found
      exact Or.inl ⟨here, rfl⟩
    · exact Or.inr ⟨found, grows.inodes place inode watches found⟩
  refine Grows.setFile ⟨⟨?_, ?_, ?_⟩, ?_⟩ _ _
  · exact fun place value watches found => grows.known_insert permitted watches found
  · intro place inode watches found
    rcases file watches found with ⟨-, rfl⟩ | ⟨-, smaller⟩
    · exact Nat.lt_succ_self _
    · exact Nat.lt_succ_of_lt smaller
  · intro first second inode one two inFirst inSecond
    rcases file one inFirst with ⟨here, same⟩ | ⟨old, smaller⟩ <;>
      rcases file two inSecond with ⟨there, other⟩ | ⟨also, less⟩
    · rw [here, there]
    · omega
    · omega
    · exact grows.apart first second inode one two old also
  · have next : FileSystem.Keeps { fs with nextInode := fs.nextInode + 1 } _ :=
      Keeps.insert missing (.file fs.nextInode)
    exact grows.keeps.trans next

end Grows

/-- What holds throughout a transfer: nothing is lost, what is new is an entry of the tree, and
no two new names stand for the same file. -/
structure Grown (tree : SourceTree) (home : Location) (before fs : FileSystem) : Prop where
  keeps : before.Keeps fs
  known : ∀ location entry, fs.lookup location = some entry →
    before.lookup location = some entry ∨
      ∃ node ∈ tree.nodes, location = home ++ node.1 ∧ node.2.Becomes entry
  inodes : ∀ location inode, before.lookup location = none →
    fs.lookup location = some (.file inode) → inode < fs.nextInode
  apart : ∀ first second inode, before.lookup first = none → before.lookup second = none →
    fs.lookup first = some (.file inode) → fs.lookup second = some (.file inode) → first = second

/-- Entries stay, and nothing changes at the names that are spared. -/
structure FileSystem.Spares (home : Location) (spared : List Bytes → Prop)
    (fs later : FileSystem) : Prop where
  keeps : fs.Keeps later
  lookup : ∀ names, spared names → later.lookup (home ++ names) = fs.lookup (home ++ names)
  data : ∀ names inode, spared names → fs.lookup (home ++ names) = some (.file inode) →
    later.files inode = fs.files inode

section Spares

variable {home : Location} {spared fewer : List Bytes → Prop}

theorem FileSystem.Spares.refl (spared : List Bytes → Prop) (fs : FileSystem) :
    Spares home spared fs fs :=
  ⟨Keeps.refl _, fun _ _ => rfl, fun _ _ _ _ => rfl⟩

theorem FileSystem.Spares.trans {first second third : FileSystem}
    (before : Spares home spared first second) (after : Spares home spared second third) :
    Spares home spared first third where
  keeps := before.keeps.trans after.keeps
  lookup names own := (after.lookup names own).trans (before.lookup names own)
  data names inode own present :=
    (after.data names inode own ((before.lookup names own).trans present)).trans
      (before.data names inode own present)

theorem FileSystem.Spares.mono (inside : ∀ names, fewer names → spared names)
    {fs later : FileSystem} (spares : Spares home spared fs later) :
    Spares home fewer fs later where
  keeps := spares.keeps
  lookup names own := spares.lookup names (inside names own)
  data names inode own := spares.data names inode (inside names own)

/-- A directory stays, and so does what stands at a spared name. -/
theorem FileSystem.Spares.shows {fs later : FileSystem} (spares : Spares home spared fs later)
    {names : List Bytes} {node : Node} (own : (∀ mode, node ≠ .directory mode) → spared names)
    (shown : fs.Shows (home ++ names) node) : later.Shows (home ++ names) node := by
  cases node with
  | special => exact shown.elim
  | directory mode => exact spares.keeps.2 _ _ shown
  | symlink target => exact spares.keeps.2 _ _ shown
  | file content mode =>
    obtain ⟨inode, present, data⟩ := shown
    exact ⟨inode, spares.keeps.2 _ _ present,
      (spares.data names inode (own fun _ never => by cases never) present).trans data⟩

theorem FileSystem.Spares.showsClosed {fs later : FileSystem} {closes : Fault → Prop}
    (spares : Spares home spared fs later) {names : List Bytes} {node : Node}
    (own : (∀ mode, node ≠ .directory mode) → spared names)
    (shown : fs.ShowsClosed closes (home ++ names) node) :
    later.ShowsClosed closes (home ++ names) node := by
  obtain ⟨fault, allows, shown⟩ := shown
  refine ⟨fault, allows, spares.shows (fun leaf => own ?_) shown⟩
  rintro mode rfl
  exact leaf mode rfl

theorem FileSystem.spares_insert {fs : FileSystem} {names : List Bytes}
    (missing : fs.lookup (home ++ names) = none) (other : ¬ spared names) (entry : Entry) :
    Spares home spared fs (fs.insert (home ++ names) entry) where
  keeps := Keeps.insert missing entry
  lookup elsewhere own := by
    have apart : ¬ home ++ elsewhere = home ++ names := by
      intro same
      rw [List.append_cancel_left same] at own
      exact other own
    rw [lookup_insert, if_neg apart]
  data _ _ _ _ := rfl

theorem FileSystem.spares_setFile {fs : FileSystem} {inode : Nat}
    (other : ∀ names, spared names → fs.lookup (home ++ names) ≠ some (.file inode))
    (data : FileData) : Spares home spared fs (fs.setFile inode data) where
  keeps := Keeps.setFile _ _ _
  lookup _ _ := rfl
  data names found own present := by
    have different : found ≠ inode := by
      rintro rfl
      exact other names own present
    rw [files_setFile, Function.update_of_ne different]

end Spares

/-- Entries stay, and so does what the files under the spared names hold. -/
structure FileSystem.Respects (home : Location) (spared : List Bytes → Prop)
    (fs later : FileSystem) : Prop where
  keeps : fs.Keeps later
  data : ∀ names inode, spared names → fs.lookup (home ++ names) = some (.file inode) →
    later.files inode = fs.files inode

section Respects

variable {home : Location} {spared fewer : List Bytes → Prop} {fs later : FileSystem}

theorem FileSystem.Respects.refl (spared : List Bytes → Prop) (fs : FileSystem) :
    Respects home spared fs fs :=
  ⟨Keeps.refl _, fun _ _ _ _ => rfl⟩

theorem FileSystem.Respects.trans {first second third : FileSystem}
    (before : Respects home spared first second) (after : Respects home spared second third) :
    Respects home spared first third where
  keeps := before.keeps.trans after.keeps
  data names inode own present :=
    (after.data names inode own (before.keeps.2 _ _ present)).trans
      (before.data names inode own present)

theorem FileSystem.Respects.mono (inside : ∀ names, fewer names → spared names)
    (respects : Respects home spared fs later) : Respects home fewer fs later :=
  ⟨respects.keeps, fun names inode own => respects.data names inode (inside names own)⟩

theorem FileSystem.Spares.respects (spares : Spares home spared fs later) :
    Respects home spared fs later :=
  ⟨spares.keeps, spares.data⟩

/-- A new directory is in nobody's way but a file's that is not there yet. -/
theorem FileSystem.respects_insert {location : Location} (missing : fs.lookup location = none)
    (entry : Entry) : Respects home spared fs (fs.insert location entry) :=
  ⟨Keeps.insert missing entry, fun _ _ _ _ => rfl⟩

end Respects

/-! ### The output directory while the tree grows -/

section Growth

variable {tree : SourceTree} {home : Location} {before fs : FileSystem}
  {entry : List Bytes × Node}

/-- Where an entry of the tree belongs there is nothing, or that entry. -/
theorem Grown.becomes (free : ∀ entry ∈ tree.nodes, before.lookup (home ++ entry.1) = none)
    (grown : Grown tree home before fs) (member : entry ∈ tree.nodes) {present : Entry}
    (found : fs.lookup (home ++ entry.1) = some present) : entry.2.Becomes present := by
  rcases grown.known _ _ found with old | ⟨other, inTree, same, becomes⟩
  · rw [free entry member] at old
    cases old
  · have names := List.append_cancel_left same
    rwa [SourceTree.eq_of_names member inTree names]

/-- Where nothing was, only entries of the tree stand. -/
theorem grown_iff : Grown tree home before fs ↔
    before.Grows (fun location => before.lookup location = none)
      (fun location entry => ∃ node ∈ tree.nodes, location = home ++ node.1 ∧
        node.2.Becomes entry) fs := by
  refine ⟨fun grown => ⟨⟨fun location entry new found => ?_, grown.inodes, grown.apart⟩,
    grown.keeps⟩, fun grows => ⟨grows.keeps, fun location entry found => ?_, grows.inodes,
    grows.apart⟩⟩
  · rcases grown.known location entry found with old | known
    · rw [new] at old
      cases old
    · exact known
  · cases old : before.lookup location with
    | none => exact Or.inr (grows.known location entry old found)
    | some value => exact Or.inl ((grows.keeps.2 _ _ old).symm.trans found)

theorem Grown.refl : Grown tree home before before := by
  refine grown_iff.mpr (Grows.refl ⟨?_, ?_, ?_⟩)
  · intro location entry new found
    rw [new] at found
    cases found
  · intro location inode new found
    rw [new] at found
    cases found
  · intro first second inode new _ found
    rw [new] at found
    cases found

theorem Grown.setFile (grown : Grown tree home before fs) (inode : Nat) (data : FileData) :
    Grown tree home before (fs.setFile inode data) :=
  grown_iff.mpr ((grown_iff.mp grown).setFile inode data)

/-- A directory or a link of the tree appears. -/
theorem Grown.insert (grown : Grown tree home before fs) (member : entry ∈ tree.nodes)
    (missing : fs.lookup (home ++ entry.1) = none) {present : Entry}
    (becomes : entry.2.Becomes present) (noFile : ∀ inode, present ≠ .file inode) :
    Grown tree home before (fs.insert (home ++ entry.1) present) :=
  grown_iff.mpr ((grown_iff.mp grown).insert missing ⟨entry, member, rfl, becomes⟩ noFile)

/-- A file of the tree appears, with a number that no file had. -/
theorem Grown.create (grown : Grown tree home before fs) (member : entry ∈ tree.nodes)
    (missing : fs.lookup (home ++ entry.1) = none)
    (becomes : entry.2.Becomes (.file fs.nextInode)) (data : FileData) :
    Grown tree home before (({ fs with nextInode := fs.nextInode + 1 }.insert
      (home ++ entry.1) (.file fs.nextInode)).setFile fs.nextInode data) :=
  grown_iff.mpr ((grown_iff.mp grown).create missing ⟨entry, member, rfl, becomes⟩ data)

end Growth

/-! ### Calls below the output directory -/

/-- The path of names below another path. -/
abbrev Path.below (path : Path) (names : List Bytes) : Path :=
  ⟨path.rooted, path.parts ++ names, false⟩

/-- A directory stands below another, with all directories on the way. -/
def FileSystem.Reaches (fs : FileSystem) (home : Location) (names : List Bytes) : Prop :=
  ∀ front, front <+: names → fs.lookup (home ++ front) = some .directory

section Calls

variable {home : Location} {fs later : FileSystem} {outputDir : Path} {names : List Bytes}

theorem FileSystem.Reaches.keeps (reaches : fs.Reaches home names) (kept : fs.Keeps later) :
    later.Reaches home names :=
  fun front inside => kept.2 _ _ (reaches front inside)

theorem FileSystem.Reaches.leads (reaches : fs.Reaches home names) (last : Bytes) :
    fs.Leads home (names ++ [last]) := by
  intro front back split more
  refine reaches front ?_
  rcases List.prefix_concat_iff.mp ⟨back, split.symm⟩ with whole | inside
  · have nothing : back = [] := by
      rw [whole] at split
      exact List.self_eq_append_right.mp split
    exact absurd nothing more
  · exact inside

theorem FileSystem.Reaches.extend (reaches : fs.Reaches home names) {last : Bytes}
    (stands : fs.lookup (home ++ (names ++ [last])) = some .directory) :
    fs.Reaches home (names ++ [last]) := by
  intro front inside
  rcases List.prefix_concat_iff.mp inside with rfl | inside
  · exact stands
  · exact reaches front inside

/-- Names that are valid below an output directory. -/
theorem FileSystem.Names.native_below (named : fs.Names outputDir home)
    (entries : ∀ name ∈ names, EntryName name) :
    (outputDir.below names).native = outputDir.below names := by
  refine Path.native_of_nulFree fun part member => ?_
  rcases List.mem_append.mp member with outer | inner
  · exact named.1 part outer
  · exact (entries part inner).2

/-- `create_directory` finds the directory or makes it. -/
theorem FileSystem.Names.createDirectory (named : fs.Names outputDir home) (more : names ≠ [])
    (entries : ∀ name ∈ names, EntryName name) (leads : fs.Leads home names)
    (kind : ∀ entry, fs.lookup (home ++ names) = some entry → entry = .directory) :
    (fs.createDirectory (outputDir.below names)).reply = .ok () ∧
      (((fs.createDirectory (outputDir.below names)).fs = fs ∧
          fs.lookup (home ++ names) = some .directory) ∨
        ((fs.createDirectory (outputDir.below names)).fs = fs.insert (home ++ names) .directory ∧
          fs.lookup (home ++ names) = none)) := by
  have lands (follow : Bool) :
      fs.resolve follow (outputDir.below names) = some (home ++ names) :=
    named.resolve_below more entries leads fun target linked => by cases kind _ linked
  unfold FileSystem.createDirectory isDirectory
  rw [lands true, lands false]
  cases found : fs.lookup (home ++ names) with
  | none => simp [found]
  | some entry => simp [found, kind entry found, unchanged]

/-- `create_symlink` makes the link where nothing is. -/
theorem FileSystem.Names.createSymlink (named : fs.Names outputDir home) (more : names ≠ [])
    (entries : ∀ name ∈ names, EntryName name) (leads : fs.Leads home names)
    (missing : fs.lookup (home ++ names) = none) {target : Bytes} (something : target ≠ [])
    (plain : (0 : UInt8) ∉ target) :
    fs.remove (outputDir.below names) = fs.unchanged false ∧
      fs.createSymlink target (outputDir.below names) =
        ⟨true, fs.insert (home ++ names) (.symlink target),
          [.createdSymlink (home ++ names) target]⟩ := by
  have lands : fs.resolve false (outputDir.below names) = some (home ++ names) :=
    named.resolve_below more entries leads fun _ _ => rfl
  have whole : target.takeWhile (· ≠ 0) = target := by
    refine List.takeWhile_eq_self_iff.mpr fun byte member => ?_
    simp only [ne_eq, decide_not, Bool.not_eq_true', decide_eq_false_iff_not]
    rintro rfl
    exact plain member
  unfold FileSystem.remove FileSystem.createSymlink
  rw [named.native_below entries, lands, whole]
  simp [missing, something]

end Calls

section Files

variable {tree : SourceTree} {home : Location} {before fs : FileSystem} {outputDir : Path}
  {names : List Bytes} {content : Bytes} {mode : Nat}

/-- The leaves of a tree other than one. -/
def SourceTree.Others (tree : SourceTree) (names other : List Bytes) : Prop :=
  tree.IsLeaf other ∧ other ≠ names

/-- No other name of the tree stands for a received file. -/
theorem Grown.others_apart
    (free : ∀ entry ∈ tree.nodes, before.lookup (home ++ entry.1) = none)
    (grown : Grown tree home before fs) {node : Node} (member : (names, node) ∈ tree.nodes)
    {inode : Nat} (found : fs.lookup (home ++ names) = some (.file inode))
    (other : List Bytes) (others : tree.Others names other) :
    fs.lookup (home ++ other) ≠ some (.file inode) := by
  obtain ⟨⟨node, inTree, -⟩, different⟩ := others
  intro present
  exact different (List.append_cancel_left
    (grown.apart _ _ inode (free _ inTree) (free _ member) present found))

/-- What is changed of a watched file is not changed of the files at other watched names. -/
theorem FileSystem.Grows.spares_setFile {watched : Location → Prop}
    {may : Location → Entry → Prop} (grows : before.Grows watched may fs)
    {spared : List Bytes → Prop} {inode : Nat}
    (found : fs.lookup (home ++ names) = some (.file inode)) (watches : watched (home ++ names))
    (others : ∀ other, spared other → other ≠ names ∧ watched (home ++ other))
    (data : FileData) : Spares home spared fs (fs.setFile inode data) := by
  refine FileSystem.spares_setFile (fun other own present => ?_) data
  obtain ⟨different, too⟩ := others other own
  exact different (List.append_cancel_left (grows.apart _ _ inode too watches present found))

/-- Opening creates a file that may stand there, or empties it, and spares the other watched
names. -/
theorem FileSystem.Grows.openTruncate {watched : Location → Prop}
    {may : Location → Entry → Prop} (grows : before.Grows watched may fs)
    (spared : List Bytes → Prop) {path : Path}
    (lands : fs.resolve true path = some (home ++ names)) (watches : watched (home ++ names))
    (permitted : ∀ inode, may (home ++ names) (.file inode))
    (others : ∀ other, spared other → other ≠ names ∧ watched (home ++ other)) :
    before.Grows watched may (fs.openTruncate path).fs ∧
      Spares home spared fs (fs.openTruncate path).fs ∧
      ∀ handle, (fs.openTruncate path).reply = some handle → handle.location = home ++ names := by
  obtain same | ⟨location, -, resolved, ⟨missing, same⟩ | ⟨inode, found, same⟩⟩ :=
    openTruncate_cases fs path
  · rw [same]
    exact ⟨grows, Spares.refl _ _, fun handle never => by cases never⟩
  · obtain rfl := Option.some.inj (lands.symm.trans resolved)
    rw [same]
    refine ⟨grows.create missing (permitted _) _, ?_, fun handle opened => by cases opened; rfl⟩
    have next : Spares home spared { fs with nextInode := fs.nextInode + 1 } _ :=
      @spares_insert home spared { fs with nextInode := fs.nextInode + 1 } names
        missing (fun own => (others names own).1 rfl) (.file fs.nextInode)
    have fresh : ∀ other, spared other →
        ({ fs with nextInode := fs.nextInode + 1 }.insert (home ++ names)
          (.file fs.nextInode)).lookup (home ++ other) ≠ some (.file fs.nextInode) := by
      intro other own present
      obtain ⟨different, too⟩ := others other own
      rw [lookup_insert, if_neg fun same => different (List.append_cancel_left same)] at present
      exact Nat.lt_irrefl _ (grows.inodes _ _ too present)
    have both := next.trans (FileSystem.spares_setFile fresh ⟨[], fs.newFileMode⟩)
    exact ⟨both.keeps, both.lookup, both.data⟩
  · obtain rfl := Option.some.inj (lands.symm.trans resolved)
    rw [same]
    exact ⟨grows.setFile _ _, grows.spares_setFile found watches others _,
      fun handle opened => by cases opened; rfl⟩

/-- Opening a file of the tree creates or empties it, and no other. -/
theorem Grown.openTruncate
    (free : ∀ entry ∈ tree.nodes, before.lookup (home ++ entry.1) = none)
    (grown : Grown tree home before fs) (named : fs.Names outputDir home)
    (member : (names, Node.file content mode) ∈ tree.nodes) (leads : fs.Leads home names) :
    ∃ handle, (fs.openTruncate (outputDir.below names)).reply = some handle ∧
      handle.location = home ++ names ∧
      Grown tree home before (fs.openTruncate (outputDir.below names)).fs ∧
      Spares home (tree.Others names) fs (fs.openTruncate (outputDir.below names)).fs := by
  obtain ⟨more, entries⟩ := SourceTree.names_of_mem member
  have kind : ∀ {entry}, fs.lookup (home ++ names) = some entry → ∃ inode, entry = .file inode :=
    fun found => grown.becomes free member found
  have lands : fs.resolve true (outputDir.below names) = some (home ++ names) :=
    named.resolve_below more entries leads fun target linked => by
      obtain ⟨_, never⟩ := kind linked
      cases never
  have opened : ∃ handle, (fs.openTruncate (outputDir.below names)).reply = some handle := by
    unfold FileSystem.openTruncate
    rw [named.native_below entries, lands]
    cases found : fs.lookup (home ++ names) with
    | none => simp [found]
    | some entry =>
      obtain ⟨inode, rfl⟩ := kind found
      simp [found]
  obtain ⟨handle, opened⟩ := opened
  obtain ⟨grows, spares, located⟩ := (grown_iff.mp grown).openTruncate (tree.Others names) lands
    (free _ member) (fun inode => ⟨_, member, rfl, inode, rfl⟩)
    fun other others => ⟨others.2, by
      obtain ⟨⟨node, inTree, -⟩, -⟩ := others
      exact free _ inTree⟩
  exact ⟨handle, opened, located handle opened, grown_iff.mpr grows, spares⟩

end Files

/-! ### Directories on the way -/

theorem tail_inits_cons (name : Bytes) (names : List Bytes) :
    (name :: names).inits.tail = [name] :: names.inits.tail.map (name :: ·) := by
  cases names <;> simp

theorem mem_tail_inits {front names : List Bytes} (member : front ∈ names.inits.tail) :
    front <+: names ∧ front ≠ [] := by
  cases names with
  | nil => simp at member
  | cons name names =>
    refine ⟨(List.mem_inits _ _).mp (List.mem_of_mem_tail member), ?_⟩
    rintro rfl
    rw [tail_inits_cons] at member
    rcases List.mem_cons.mp member with never | later
    · cases never
    · obtain ⟨_, _, never⟩ := List.mem_map.mp later
      cases never

/-- The directories on the way to a path: those to the output directory, then those below. -/
theorem ancestry_below (outputDir : Path) (names : List Bytes) :
    (outputDir.below names).ancestry =
      (outputDir.parts.inits.tail.map fun parts => (⟨outputDir.rooted, parts, false⟩ : Path)) ++
        names.inits.tail.map fun names => outputDir.below ([] ++ names) := by
  have split := List.inits_append outputDir.parts names
  have some : outputDir.parts.inits ≠ [] :=
    List.ne_nil_of_mem ((List.mem_inits [] _).mpr List.nil_prefix)
  simp only [Path.ancestry, split, List.tail_append_of_ne_nil some, List.map_append,
    List.map_map, List.nil_append]
  rfl

/-- What a thread that creates directories of a tree can count on, in its view of the world: nothing
that exists there is lost, and where a call returns, the directory stands. If the environment is
reliable, it returns. -/
structure Makes (tree : SourceTree) (home : Location) (before : FileSystem) (outputDir : Path)
    (view : World → World) (allowed : Fault → Call → World → Prop) (invariant : World → Prop)
    (rely guarantee : World → World → Prop) (reliable : Prop) : Prop where
  reflexive : ∀ world, rely world world
  idle : ∀ world, guarantee world world
  within : ∀ world, (view world).fs.Keeps world.fs
  kept : ∀ world, invariant world → before.Keeps (view world).fs
  stays : ∀ world later, rely world later → (view world).fs.Keeps (view later).fs
  smooth : reliable → ∀ fault path world, allowed fault (.createDirectory path) world →
    fault = .none
  made : ∀ names mode, (names, Node.directory mode) ∈ tree.nodes → ∀ world fault,
    invariant world → (view world).fs.Leads home names →
    allowed fault (.createDirectory (outputDir.below names)) world →
    let next := perform fault (.createDirectory (outputDir.below names)) world
    invariant next.2 ∧ guarantee world next.2 ∧ (view world).fs.Keeps (view next.2).fs ∧
      (reliable → next.1 = .ok ()) ∧
      (next.1 = .ok () → (view next.2).fs.lookup (home ++ names) = some .directory)

section Makes

variable {outputDir : Path} {tree : SourceTree} {home : Location} {before : FileSystem}
  {view : World → World} {allowed : Fault → Call → World → Prop} {invariant : World → Prop}
  {rely guarantee : World → World → Prop} {reliable : Prop}

/-- Directories that exist are no obstacle. -/
theorem Makes.existing
    (makes : Makes tree home before outputDir view allowed invariant rely guarantee reliable)
    {paths others : List Path}
    (exist : ∀ path ∈ paths, ∀ fs, before.Keeps fs → fs.isDirectory path = true)
    {post : Except Error (Except Errno Unit) × StreamState → World → Prop} {state : StreamState}
    (failed : ¬ reliable → ∀ errno world, post (.ok (.error errno), state) world)
    (rest : ∀ world, (createEach others state).Meets perform allowed invariant rely guarantee
      post world) (world : World) :
    (createEach (paths ++ others) state).Meets perform allowed invariant rely guarantee post
      world := by
  induction paths generalizing world with
  | nil => exact rest world
  | cons path paths inductionHypothesis =>
    rw [List.forall_mem_cons] at exist
    refine invoke_meets fun later _ keeps fault permitted => ?_
    by_cases smooth : fault = .none
    · have found : perform fault (.createDirectory path) later = (.ok (), later) := by
        simp only [smooth, perform_none, performCall, FileSystem.createDirectory,
          exist.1 _ ((makes.kept _ keeps).trans (makes.within _)), if_true, World.onFiles, unchanged,
          List.append_nil]
      exact ⟨_, _, found, keeps, makes.idle _, inductionHypothesis exist.2 later⟩
    · have unreliable : ¬ reliable := fun surely => smooth (makes.smooth surely _ _ _ permitted)
      exact ⟨.error .inputOutput, later, if_neg smooth, keeps, makes.idle _,
        Program.Meets.done fun _ _ _ => failed unreliable _ _⟩

/-- The missing directories of the tree are made, one below the other. -/
theorem Makes.createEach
    (makes : Makes tree home before outputDir view allowed invariant rely guarantee reliable)
    {front back : List Bytes}
    (directories : ∀ names, names <+: front ++ back → names ≠ [] →
      ∃ mode, (names, Node.directory mode) ∈ tree.nodes)
    (state : StreamState) (world : World) (reaches : (view world).fs.Reaches home front) :
    (createEach (back.inits.tail.map fun names => outputDir.below (front ++ names)) state).Meets
      perform allowed invariant rely guarantee
      (fun outcome later => (reliable → outcome.1 = .ok (.ok ())) ∧
        (outcome.1 = .ok (.ok ()) → outcome.2 = state ∧
          (view later).fs.Reaches home (front ++ back)))
      world := by
  induction back generalizing front world with
  | nil =>
    rw [List.append_nil]
    exact Program.Meets.done fun later step _ =>
      ⟨fun _ => rfl, fun _ => ⟨rfl, reaches.keeps (makes.stays _ _ step)⟩⟩
  | cons name back inductionHypothesis =>
    have whole : front ++ name :: back = front ++ [name] ++ back := by simp
    obtain ⟨mode, member⟩ := directories (front ++ [name]) ⟨back, whole.symm⟩ (by simp)
    rw [tail_inits_cons, List.map_cons, List.map_map]
    refine invoke_meets fun later step keeps fault permitted => ?_
    have reached := reaches.keeps (makes.stays _ _ step)
    have call := makes.made _ _ member later fault keeps (reached.leads name) permitted
    rcases performed : perform fault (.createDirectory (outputDir.below (front ++ [name]))) later
      with ⟨reply, after⟩
    rw [performed] at call
    obtain ⟨kept, respects, further, surely, made⟩ := call
    refine ⟨reply, after, rfl, kept, respects, ?_⟩
    cases reply with
    | error errno =>
      exact Program.Meets.done fun _ _ _ =>
        ⟨fun wish => (by cases surely wish), fun never => (by cases never)⟩
    | ok _ =>
      have rest := @inductionHypothesis (front ++ [name]) (by rwa [← whole]) after
        ((reached.keeps further).extend (made rfl))
      rw [← whole] at rest
      simpa only [Function.comp_def, List.append_assoc, List.singleton_append] using rest

/-- `create_directories` for a directory of the tree. -/
theorem Makes.createDirectories
    (makes : Makes tree home before outputDir view allowed invariant rely guarantee reliable)
    (named : before.Names outputDir home) {names : List Bytes} (more : names ≠ [])
    (directories : ∀ front, front <+: names → front ≠ [] →
      ∃ mode, (front, Node.directory mode) ∈ tree.nodes)
    (state : StreamState) (world : World) :
    (createDirectories (outputDir.below names) state).Meets perform allowed invariant rely
      guarantee (fun outcome later => (reliable → outcome.1 = .ok (.ok ())) ∧
        (outcome.1 = .ok (.ok ()) → outcome.2 = state ∧ (view later).fs.Reaches home names))
      world := by
  unfold HyperLink.createDirectories
  rw [if_neg (by simp [Path.isEmpty, more]), ancestry_below]
  refine makes.existing (fun path member fs kept => ?_)
    (fun unreliable errno _ =>
      ⟨fun surely => absurd surely unreliable, fun never => by cases never⟩)
    (fun world => ?_) world
  · obtain ⟨front, inParts, rfl⟩ := List.mem_map.mp member
    obtain ⟨⟨back, whole⟩, something⟩ := mem_tail_inits inParts
    exact (named.keeps kept).isDirectory_front whole.symm something
  · refine Program.Meets.of_later makes.reflexive fun later _ keeps => ?_
    have from_home : ∀ front, front <+: [] ++ names → front ≠ [] →
        ∃ mode, (front, Node.directory mode) ∈ tree.nodes := directories
    refine makes.createEach from_home state later ?_
    intro front inside
    rw [List.prefix_nil.mp inside, List.append_nil]
    exact (named.keeps (makes.kept _ keeps)).2.2

end Makes

/-- What a thread does to the file system, or expects of the others. -/
abbrev Sparing (home : Location) (spared : List Bytes → Prop) (world later : World) : Prop :=
  Spares home spared world.fs later.fs

theorem sparing_refl {home : Location} (spared : List Bytes → Prop) (world : World) :
    Sparing home spared world world :=
  Spares.refl spared world.fs

section Records

variable {options : Options} {tree : SourceTree} {home : Location} {before : FileSystem}
  {mine : List Bytes → Prop} {closes : Fault → Prop}

/-- A directory of the tree is made or found, and the leaves are spared. -/
theorem makes_closing (named : before.Names options.outputDir home)
    (free : ∀ entry ∈ tree.nodes, before.lookup (home ++ entry.1) = none) :
    Makes tree home before options.outputDir id (Closing closes)
      (fun world => Grown tree home before world.fs) (Sparing home mine)
      (Sparing home tree.IsLeaf) True := by
  refine ⟨sparing_refl mine, sparing_refl tree.IsLeaf, fun _ => Keeps.refl _,
    fun _ grown => grown.keeps, fun _ _ spares => spares.keeps, fun _ _ _ _ smooth => smooth, ?_⟩
  intro names mode member world fault grown leads smooth
  cases smooth
  obtain ⟨more, entries⟩ := SourceTree.names_of_mem member
  obtain ⟨reply, changed⟩ := (named.keeps grown.keeps).createDirectory more entries leads
    fun entry found => grown.becomes free member found
  simp only [perform_none, performCall, World.onFiles, reply, true_and, true_implies, id]
  rcases changed with ⟨same, present⟩ | ⟨new, missing⟩
  · rw [same]
    exact ⟨grown, Spares.refl _ _, Keeps.refl _, present⟩
  · rw [new, lookup_insert, if_pos rfl]
    exact ⟨grown.insert member missing rfl (fun _ never => by cases never),
      spares_insert missing (tree.not_isLeaf_directory member) _, Keeps.insert missing _, rfl⟩

/-- Code that goes on once its directories stand. `held` is what it finds as it was. -/
theorem createDirectories_then (named : before.Names options.outputDir home)
    (free : ∀ entry ∈ tree.nodes, before.lookup (home ++ entry.1) = none)
    {names : List Bytes} (more : names ≠ [])
    (directories : ∀ front, front <+: names → front ≠ [] →
      ∃ mode, (front, Node.directory mode) ∈ tree.nodes)
    {Value : Type} {code : Except Errno Unit → Receiver Value}
    {post : Except Error Value × StreamState → World → Prop} {state : StreamState}
    {own : List Bytes → Prop} (leaves : ∀ names, own names → tree.IsLeaf names)
    (held : World → Prop)
    (undisturbed : ∀ before after, Sparing home mine before after → held before → held after)
    (respected : ∀ before after, Sparing home tree.IsLeaf before after → held before → held after)
    (rest : ∀ later, Grown tree home before later.fs → later.fs.Reaches home names → held later →
      (code (.ok ()) state).Meets perform (Closing closes)
        (fun world => Grown tree home before world.fs) (Sparing home mine) (Sparing home own) post
        later)
    (world : World) (begun : held world) :
    ((createDirectories (options.outputDir.below names) >>= code) state).Meets perform
      (Closing closes) (fun world => Grown tree home before world.fs) (Sparing home mine)
      (Sparing home own) post world := by
  have makes := @makes_closing options tree home before mine closes named free
  have made := (makes.createDirectories named more directories state world).frame undisturbed
    respected (fun _ _ spares => Spares.mono leaves spares) begun
  refine Program.Meets.bind (sparing_refl mine) (made.weaken fun outcome later grown ended => ?_)
  obtain ⟨reply, last⟩ := outcome
  obtain ⟨⟨surely, stands⟩, still⟩ := ended
  obtain rfl : reply = _ := surely trivial
  obtain ⟨rfl, reaches⟩ := stands rfl
  exact rest later grown reaches still

/-! ### One entry -/

/-- What the receiver makes of the name of an entry. -/
theorem checkedPath (options : Options) {names : List Bytes} {node : Node}
    (member : (names, node) ∈ tree.nodes) :
    safeRelativePath (entryRecord (names, node)).header.fileName = .ok ⟨false, names, false⟩ ∧
      options.outputDir / (⟨false, names, false⟩ : Path) = options.outputDir.below names ∧
      (options.outputDir.below names).parentPath = options.outputDir.below names.dropLast := by
  obtain ⟨more, entries⟩ := SourceTree.names_of_mem member
  refine ⟨?_, Path.append_names _ more, ?_⟩
  · rw [show (entryRecord (names, node)).header.fileName = _ from (entryRecord_name _).1]
    exact safeRelativePath_of_safe more fun name inNames => (entries name inNames).1
  · simp [Path.parentPath, Path.below, List.dropLast_append_of_ne_nil more]

/-- A directory and what lies above it are directories of the tree. -/
theorem directories_upto {names : List Bytes} {mode : Nat}
    (member : (names, Node.directory mode) ∈ tree.nodes) (front : List Bytes)
    (inside : front <+: names) (something : front ≠ []) :
    ∃ mode, (front, Node.directory mode) ∈ tree.nodes := by
  obtain ⟨back, whole⟩ := inside
  by_cases last : back = []
  · rw [last, List.append_nil] at whole
    exact ⟨mode, whole ▸ member⟩
  · exact SourceTree.directory_above member whole.symm last something

theorem receiveEntry_meets (named : before.Names options.outputDir home)
    (free : ∀ entry ∈ tree.nodes, before.lookup (home ++ entry.1) = none)
    {names : List Bytes} {mode : Nat} (member : (names, Node.directory mode) ∈ tree.nodes)
    (state : StreamState) (world : World) :
    (receiveRecord options (entryRecord (names, .directory mode)).header state).Meets perform
      (Closing closes) (fun world => Grown tree home before world.fs) (Sparing home mine)
      (Sparing home (tree.Others names))
      (Delivered True state state.connection.remaining 0 fun later =>
        later.fs.Shows (home ++ names) (.directory mode)) world := by
  obtain ⟨accepted, place, -⟩ := checkedPath options member
  obtain ⟨more, -⟩ := SourceTree.names_of_mem member
  have kind : (entryRecord (names, .directory mode)).header.kind = .directoryEntry := rfl
  simp only [receiveRecord, kind, accepted, bind_apply, check_apply, Program.bind_done,
    andThen_ok, place]
  refine createDirectories_then named free more (directories_upto member) (fun _ others => others.1)
    (fun _ => True) (fun _ _ _ _ => trivial) (fun _ _ _ _ => trivial)
    (fun later _ reaches _ => ?_) world trivial
  refine Program.Meets.done fun last step _ => ⟨fun _ => rfl, fun _ => ⟨rfl, ?_, ?_⟩⟩
  · exact (UInt64.add_zero _).symm
  · exact step.keeps.2 _ _ (reaches names List.prefix_rfl)

/-- A leaf lies in a directory of the tree. -/
theorem directories_above {names : List Bytes} {node : Node}
    (member : (names, node) ∈ tree.nodes) (leaf : ∀ mode, node ≠ .directory mode) :
    names.dropLast ≠ [] ∧
      (∀ fs : FileSystem, fs.Reaches home names.dropLast → fs.Leads home names) ∧
      ∀ front, front <+: names.dropLast → front ≠ [] →
        ∃ mode, (front, Node.directory mode) ∈ tree.nodes := by
  obtain ⟨more, -⟩ := SourceTree.names_of_mem member
  have split := List.dropLast_append_getLast more
  refine ⟨?_, fun fs reaches => ?_, ?_⟩
  · rcases SourceTree.mem_nodes.mp member with root | ⟨below, inEntries, same⟩
    · exact absurd (congrArg Prod.snd root) (leaf tree.mode)
    · rw [show names = tree.root :: below.1 from congrArg Prod.fst same,
        List.dropLast_cons_of_ne_nil (tree.names below inEntries).1]
      exact List.cons_ne_nil _ _
  · have leads := reaches.leads (names.getLast more)
    rwa [split] at leads
  · rintro front ⟨back, whole⟩ something
    have further : names = front ++ (back ++ [names.getLast more]) := by
      rw [← List.append_assoc, whole, split]
    exact SourceTree.directory_above member further (by simp) something

/-- The target of a link is read, whatever the pieces it comes in. -/
theorem read_target {names : List Bytes} {target : Bytes}
    (member : (names, Node.symlink target) ∈ tree.nodes) {state : StreamState} {rest : Bytes}
    (stream : state.connection.remaining = target ++ rest) :
    ∃ later : Connection, later.remaining = rest ∧
      Receiver.read (fun connection => receiveTextPayload connection
        (entryRecord (names, .symlink target)).header.payloadSize) state =
          .done (.ok target, { state with connection := later }) := by
  have size : target.length = (entryRecord (names, .symlink target)).header.payloadSize.toNat :=
    (SourceTree.entryRecord_complete member).payload
  have short : ¬ maximumVector <
      (entryRecord (names, .symlink target)).header.payloadSize.toNat := by
    have bound := (SourceTree.sendable_of_mem member).2.2
    rw [← size, maximumVector]
    omega
  have text := forget_receiveTextPayload short state.connection
  rw [← size, stream, if_pos (by simp), List.take_left' rfl,
    List.drop_left' rfl] at text
  obtain ⟨later, outcome, left⟩ := ok_of_forget text
  exact ⟨later, left, read_of_ok outcome⟩

theorem receiveSymlink_meets (named : before.Names options.outputDir home)
    (free : ∀ entry ∈ tree.nodes, before.lookup (home ++ entry.1) = none)
    {names : List Bytes} {target : Bytes} (member : (names, Node.symlink target) ∈ tree.nodes)
    (own : mine names) (state : StreamState) (world : World) (rest : Bytes)
    (stream : state.connection.remaining = target ++ rest)
    (missing : world.fs.lookup (home ++ names) = none) :
    (receiveRecord options (entryRecord (names, .symlink target)).header state).Meets perform
      (Closing closes) (fun world => Grown tree home before world.fs) (Sparing home mine)
      (Sparing home (tree.Others names))
      (Delivered True state rest (entryRecord (names, .symlink target)).payloadSize fun later =>
        later.fs.Shows (home ++ names) (.symlink target)) world := by
  obtain ⟨accepted, place, parent⟩ := checkedPath options member
  obtain ⟨more, entries⟩ := SourceTree.names_of_mem member
  obtain ⟨something, plain, -⟩ := SourceTree.sendable_of_mem member
  obtain ⟨above, leads, directories⟩ := @directories_above tree home _ _ member
    fun _ never => by cases never
  have kind : (entryRecord (names, .symlink target)).header.kind = .directorySymlink := rfl
  have isLeaf : tree.IsLeaf names := ⟨_, member, fun _ never => by cases never⟩
  obtain ⟨later, left, started⟩ := read_target member stream
  simp only [receiveRecord, kind, accepted, bind_apply, check_apply, Program.bind_done,
    andThen_ok, place, parent]
  refine Program.Meets.bind (sparing_refl mine) ?_
  refine createDirectories_then named free above directories (fun _ others => others.1)
    (fun world => world.fs.lookup (home ++ names) = none)
    (fun _ _ spares missing => (spares.lookup names own).trans missing)
    (fun _ _ spares missing => (spares.lookup names isLeaf).trans missing)
    (fun first grown reaches missing => ?_) world missing
  refine Program.Meets.done fun second step grown => ?_
  have reached := reaches.keeps step.keeps
  have missing := (step.lookup names own).trans missing
  simp only [andThen_ok, bind_apply, started, Program.bind_done]
  -- There is nothing to remove.
  refine Program.Meets.bind (sparing_refl mine)
    (invoke_meets fun third step grown fault smooth => ?_)
  cases smooth
  have reached := reached.keeps step.keeps
  have missing := (step.lookup names own).trans missing
  have nothing := ((named.keeps grown.keeps).createSymlink more entries (leads _ reached) missing
    something plain).1
  have same : performCall (.remove (options.outputDir.below names)) third = (false, third) := by
    simp only [performCall, World.onFiles, nothing, unchanged, List.append_nil]
  refine ⟨_, _, (perform_none _ _).trans same, grown, Spares.refl _ _, ?_⟩
  refine invoke_meets fun fourth step grown fault smooth => ?_
  cases smooth
  have reached := reached.keeps step.keeps
  have missing := (step.lookup names own).trans missing
  have created := ((named.keeps grown.keeps).createSymlink more entries (leads _ reached) missing
    something plain).2
  have made : performCall (.createSymlink target (options.outputDir.below names)) fourth =
      (true, ⟨fourth.fs.insert (home ++ names) (.symlink target), fourth.shared,
        fourth.extractor, fourth.history ++ [.createdSymlink (home ++ names) target]⟩) := by
    simp only [performCall, World.onFiles, created]
  refine ⟨_, _, (perform_none _ _).trans made,
    grown.insert member missing rfl (fun _ never => by cases never),
    spares_insert missing (fun others => others.2 rfl) _, ?_⟩
  refine Program.Meets.done fun last step _ => ?_
  refine Program.Meets.done fun final further _ => ⟨fun _ => rfl, fun _ => ⟨left, rfl, ?_⟩⟩
  refine further.keeps.2 _ _ (step.keeps.2 _ _ ?_)
  rw [lookup_insert, if_pos rfl]

/-- The first bytes of a file have been received. -/
structure Receiving (home : Location) (outputDir : Path) (names : List Bytes) (content : Bytes)
    (handle : Handle) (done : Nat) (world : World) : Prop where
  location : handle.location = home ++ names
  opens : world.fs.Opens (outputDir.below names) handle
  content : (world.fs.files handle.inode).content = content.take done

theorem Receiving.entry {names : List Bytes} {content : Bytes} {handle : Handle} {done : Nat}
    {world : World} (receiving : Receiving home options.outputDir names content handle done world) :
    world.fs.lookup (home ++ names) = some (.file handle.inode) := by
  rw [← receiving.location]
  exact receiving.opens.entry

/-- What has been received of a file stays while its name is spared. -/
theorem Receiving.respected {spared : List Bytes → Prop} {names : List Bytes} {content : Bytes}
    {handle : Handle} {done : Nat} {world later : World} (own : spared names)
    (respects : Respects home spared world.fs later.fs)
    (receiving : Receiving home options.outputDir names content handle done world) :
    Receiving home options.outputDir names content handle done later where
  location := receiving.location
  opens := receiving.opens.keeps respects.keeps
  content := by rw [respects.data names _ own receiving.entry, receiving.content]

/-- The next bytes are written behind the first. -/
theorem Receiving.write {names : List Bytes} {content bytes : Bytes} {handle : Handle} {done : Nat}
    {world : World} (piece : bytes <+: content.drop done)
    (fits : done + bytes.length ≤ content.length)
    (receiving : Receiving home options.outputDir names content handle done world) :
    Receiving home options.outputDir names content handle (done + bytes.length)
      (performCall (.write handle done bytes) world).2 := by
  refine ⟨receiving.location, receiving.opens.keeps (Keeps.setFile _ _ _), ?_⟩
  have length : (content.take done).length = done := List.length_take_of_le (by omega)
  simp only [performCall, World.onFiles, FileSystem.write, files_setFile, Function.update_self]
  rw [receiving.content, List.take_add, ← List.prefix_iff_eq_take.mp piece]
  have written := writeAt_length (content.take done) bytes
  rwa [length] at written

/-- One chunk of a file. -/
theorem receiving_chunk (free : ∀ entry ∈ tree.nodes, before.lookup (home ++ entry.1) = none)
    {names : List Bytes} {content : Bytes} {mode : Nat}
    (member : (names, Node.file content mode) ∈ tree.nodes) {handle : Handle} {bytes : Bytes}
    {done : Nat} {world : World} (piece : bytes <+: content.drop done)
    (fits : done + bytes.length ≤ content.length) (grown : Grown tree home before world.fs)
    (receiving : Receiving home options.outputDir names content handle done world) :
    let after := (performCall (.write handle done bytes) world).2
    Grown tree home before after.fs ∧ Sparing home (tree.Others names) world after ∧
      Receiving home options.outputDir names content handle (done + bytes.length) after :=
  ⟨grown.setFile _ _, spares_setFile (grown.others_apart free member receiving.entry) _,
    receiving.write piece fits⟩

/-- The mode bits of a file arrive. -/
theorem toNat_permissionsValue {mode : Nat} (bits : mode < 0o10000) :
    (permissionsValue mode).toNat % 0o10000 = mode := by
  have mask : (permissionsValue mode).toNat = mode &&& (2 ^ 12 - 1) := by
    unfold permissionsValue
    rw [UInt64.toNat_and, UInt64.toNat_ofNat_of_lt' (Nat.lt_trans bits (by decide))]
    rfl
  rw [mask, Nat.and_two_pow_sub_one_eq_mod]
  omega

/-- The payload of a file: a contract for the writes gives a contract for the whole. -/
theorem receiveFilePayload_meets {allowed : Fault → Call → World → Prop}
    {invariant : World → Prop} {rely guarantee : World → World → Prop} {reliable : Prop}
    {content : Bytes} {handle : Handle} (receiving : Nat → World → Prop)
    (stable : ∀ done world later, rely world later → receiving done world → receiving done later)
    (chunk : ∀ (bytes : Bytes) (done : Nat) (world : World) (fault : Fault),
      bytes <+: content.drop done → done + bytes.length ≤ content.length → invariant world →
      receiving done world → allowed fault (.write handle done bytes) world →
      let next := perform fault (.write handle done bytes) world
      invariant next.2 ∧ guarantee world next.2 ∧ (reliable → next.1 = true) ∧
        (next.1 = true → receiving (done + bytes.length) next.2))
    (state : StreamState) (world : World) (rest : Bytes)
    (stream : state.connection.remaining = content ++ rest) (begun : receiving 0 world) :
    (receivePayload directoryFileClosed true handle 0 content.length state).Meets perform
      allowed invariant rely guarantee
      (Delivered reliable state rest (UInt64.ofNat content.length) (receiving content.length))
      world := by
  have payload := @receivePayload_meets allowed invariant rely guarantee reliable
    directoryFileClosed true handle 0 content.length (content ++ rest) receiving stable
    (fun bytes done world fault piece fits keeps before permitted => by
      rw [List.drop_append_of_le_length (by omega)] at piece
      have inFile := List.prefix_of_prefix_length_le piece (List.prefix_append _ _)
        (by rw [List.length_drop]; omega)
      rw [Nat.zero_add] at permitted ⊢
      exact chunk bytes done world fault inFile fits keeps before permitted)
    0 (Nat.zero_le _) state world stream begun
  refine payload.weaken fun outcome later _ delivered => ⟨fun surely => ?_, fun returned => ?_⟩
  · exact delivered.1 ⟨surely, by rw [List.length_append]; exact Nat.le_add_right _ _⟩
  · obtain ⟨left, total, received⟩ := delivered.2 returned
    rw [List.drop_left' rfl] at left
    exact ⟨left, total, received⟩

/-- A file that has been received gets its mode. -/
theorem performCall_setMode {names : List Bytes} {content : Bytes} {mode : Nat}
    (bits : mode < 0o10000) {handle : Handle} {world : World}
    (received : Receiving home options.outputDir names content handle content.length world) :
    performCall (.setPermissions (options.outputDir.below names) (permissionsValue mode).toNat)
      world = (true, ⟨world.fs.setFile handle.inode ⟨content, mode⟩, world.shared,
        world.extractor, world.history ++ [.changedMode handle.location mode]⟩) := by
  have data := received.opens.setPermissions (permissionsValue mode).toNat
  rw [toNat_permissionsValue bits, received.content, List.take_length] at data
  simp only [performCall, World.onFiles, data]

/-- The stream of a file that has got its mode is closed. -/
theorem perform_closeFile {content : Bytes} {mode : Nat} {handle : Handle} {world : World}
    (data : world.fs.files handle.inode = ⟨content, mode⟩) (fault : Fault) :
    (perform fault (.close handle) world).2.fs =
      world.fs.setFile handle.inode ⟨content, closedMode fault content mode⟩ := by
  have same : world.fs.setFile handle.inode ⟨content, mode⟩ = world.fs := by
    rw [← data, FileSystem.setFile, Function.update_eq_self]
  by_cases held : fault = .first
  · by_cases nothing : content = []
    · simp [perform, writeHeldBack, World.onFiles, closedMode, data, held, nothing, unchanged,
        nothing ▸ same]
    · simp [perform, writeHeldBack, World.onFiles, closedMode, data, held, nothing]
  · simp [perform, closedMode, held, same]

/-- The record of a file is received by `receive_directory_file`. -/
theorem receiveRecord_file {names : List Bytes} {content : Bytes} {mode : Nat}
    (member : (names, Node.file content mode) ∈ tree.nodes) (state : StreamState) :
    receiveRecord options (entryRecord (names, .file content mode)).header state =
      receiveDirectoryFile (options.outputDir.below names)
        (entryRecord (names, .file content mode)).header state := by
  obtain ⟨accepted, place, -⟩ := checkedPath options member
  have kind : (entryRecord (names, .file content mode)).header.kind = .directoryFile := rfl
  simp only [receiveRecord, kind, accepted, bind_apply, check_apply, Program.bind_done,
    andThen_ok, place]

theorem receiveFile_meets (named : before.Names options.outputDir home)
    (free : ∀ entry ∈ tree.nodes, before.lookup (home ++ entry.1) = none)
    {names : List Bytes} {content : Bytes} {mode : Nat}
    (member : (names, Node.file content mode) ∈ tree.nodes) (own : mine names)
    (state : StreamState) (world : World) (rest : Bytes)
    (stream : state.connection.remaining = content ++ rest) :
    (receiveRecord options (entryRecord (names, .file content mode)).header state).Meets perform
      (Closing closes) (fun world => Grown tree home before world.fs) (Sparing home mine)
      (Sparing home (tree.Others names))
      (Delivered True state rest (entryRecord (names, .file content mode)).payloadSize
        fun later => later.fs.ShowsClosed closes (home ++ names) (.file content mode)) world := by
  obtain ⟨-, -, parent⟩ := checkedPath options member
  have sendable := SourceTree.sendable_of_mem member
  have size : content.length = (entryRecord (names, .file content mode)).header.payloadSize.toNat :=
    (SourceTree.entryRecord_complete member).payload
  obtain ⟨above, leads, directories⟩ := @directories_above tree home _ _ member
    fun _ never => by cases never
  rw [receiveRecord_file member, receiveDirectoryFile, parent]
  refine createDirectories_then named free above directories (fun _ others => others.1)
    (fun _ => True) (fun _ _ _ _ => trivial) (fun _ _ _ _ => trivial)
    (fun first _ reaches _ => ?_) world trivial
  -- The open.
  refine invoke_meets fun second step grown fault smooth => ?_
  cases smooth
  obtain ⟨handle, opened, location, grows, spares⟩ := grown.openTruncate free
    (named.keeps grown.keeps) member (leads _ (reaches.keeps step.keeps))
  refine ⟨some handle, _, (perform_none _ _).trans (Prod.ext opened rfl), grows, spares, ?_⟩
  have begun : Receiving home options.outputDir names content handle 0
      (performCall (.openTruncate (options.outputDir.below names)) second).2 :=
    ⟨location, (opens_of_openTruncate opened).1, content_of_openTruncate opened⟩
  rw [← size]
  refine Program.Meets.bind (sparing_refl mine)
    ((receiveFilePayload_meets (Receiving home options.outputDir names content handle)
      (fun _ _ _ step => Receiving.respected own step.respects)
      (fun bytes done world fault piece fits grown receiving smooth => by
        cases smooth
        obtain ⟨grows, spares, further⟩ := receiving_chunk free member piece fits grown receiving
        exact ⟨grows, spares, fun _ : True => rfl, fun _ => further⟩)
      state _ rest stream begun).weaken fun outcome third _ delivered => ?_)
  obtain ⟨reply, last⟩ := outcome
  obtain ⟨surely, returned⟩ := delivered
  obtain rfl : reply = _ := surely trivial
  obtain ⟨left, total, received⟩ := returned rfl
  refine invoke_meets fun fourth step grown fault smooth => ?_
  cases smooth
  have received := received.respected own step.respects
  refine ⟨_, _, (perform_none _ _).trans (performCall_setMode sendable.2 received),
    grown.setFile _ _, spares_setFile (grown.others_apart free member received.entry) _, ?_⟩
  -- The close, after the mode is set.
  refine invoke_meets fun fifth step grown fault allows => ?_
  have stands : fifth.fs.lookup (home ++ names) = some (.file handle.inode) :=
    step.keeps.2 _ _ received.entry
  have data : fifth.fs.files handle.inode = ⟨content, mode⟩ :=
    (step.data names _ own received.entry).trans (by simp)
  have changed := perform_closeFile data fault
  rcases performed : perform fault (.close handle) fifth with ⟨reply, after⟩
  rw [performed] at changed
  refine ⟨reply, after, rfl, ?_, ?_, ?_⟩
  · rw [show after.fs = _ from changed]
    exact grown.setFile _ _
  · rw [Sparing, show after.fs = _ from changed]
    exact spares_setFile (grown.others_apart free member stands) _
  refine Program.Meets.done fun final step _ => ⟨fun _ => rfl, fun _ => ⟨left, total, ?_⟩⟩
  refine step.showsClosed (fun _ => own) ⟨fault, allows, handle.inode, ?_, ?_⟩
  · rw [show after.fs = _ from changed]
    exact stands
  · rw [show after.fs = _ from changed]
    simp

/-- A link has not been received yet. -/
def Awaits (home : Location) (entry : List Bytes × Node) (world : World) : Prop :=
  ∀ target, entry.2 = .symlink target → world.fs.lookup (home ++ entry.1) = none

/-- The record of any entry of the tree. -/
theorem receiveTreeRecord_meets (named : before.Names options.outputDir home)
    (free : ∀ entry ∈ tree.nodes, before.lookup (home ++ entry.1) = none)
    {entry : List Bytes × Node} (member : entry ∈ tree.nodes)
    (own : tree.IsLeaf entry.1 → mine entry.1) (possible : ∃ fault, closes fault)
    (state : StreamState) (world : World) (rest : Bytes)
    (stream : state.connection.remaining = (entryRecord entry).payload ++ rest)
    (awaits : Awaits home entry world) :
    (receiveRecord options (entryRecord entry).header state).Meets perform (Closing closes)
      (fun world => Grown tree home before world.fs) (Sparing home mine)
      (Sparing home (tree.Others entry.1))
      (Delivered True state rest (entryRecord entry).payloadSize fun later =>
        later.fs.ShowsClosed closes (home ++ entry.1) entry.2) world := by
  obtain ⟨names, node⟩ := entry
  obtain ⟨fault, allows⟩ := possible
  cases node with
  | special => exact (SourceTree.sendable_of_mem member).elim
  | directory mode =>
    have received := @receiveEntry_meets options tree home before mine closes named free names mode
      member state world
    rw [stream] at received
    exact received.weaken fun _ _ _ => Delivered.imp fun _ shown => ⟨fault, allows, shown⟩
  | file content mode =>
    exact receiveFile_meets named free member
      (own ⟨_, member, fun _ never => by cases never⟩) state world rest stream
  | symlink target =>
    have received := @receiveSymlink_meets options tree home before mine closes named free names
      target member (own ⟨_, member, fun _ never => by cases never⟩) state world rest stream
      (awaits target rfl)
    exact received.weaken fun _ _ _ => Delivered.imp fun _ shown => ⟨fault, allows, shown⟩

/-! ### The streams of one tree -/

/-- The leaves among some entries. -/
def SourceTree.Mine (tree : SourceTree) (entries : List (List Bytes × Node))
    (names : List Bytes) : Prop :=
  tree.IsLeaf names ∧ names ∈ entries.map Prod.fst

/-- The leaves that are not among some entries. -/
def SourceTree.NotMine (tree : SourceTree) (entries : List (List Bytes × Node))
    (names : List Bytes) : Prop :=
  tree.IsLeaf names ∧ names ∉ entries.map Prod.fst

/-- The thread of a stream that carries some entries of the tree. -/
theorem treeStream_meets (named : before.Names options.outputDir home)
    (free : ∀ entry ∈ tree.nodes, before.lookup (home ++ entry.1) = none)
    {entries : List (List Bytes × Node)} (members : ∀ entry ∈ entries, entry ∈ tree.nodes)
    (distinct : (entries.map Prod.fst).Nodup) (possible : ∃ fault, closes fault)
    {connection : Connection}
    (carries : connection.remaining = entries.flatMap fun entry => (entryRecord entry).bytes)
    (world : World) (awaits : ∀ entry ∈ entries, Awaits home entry world) :
    (receiveFilePart options connection).Meets perform (Closing closes)
      (fun world => Grown tree home before world.fs) (Sparing home (tree.Mine entries))
      (Sparing home (tree.NotMine entries))
      (fun result later => result.error = none ∧
        result.bytes = (entries.map fun entry => (entryRecord entry).payloadSize).sum ∧
        ∀ entry ∈ entries, later.fs.ShowsClosed closes (home ++ entry.1) entry.2) world := by
  have isLeaf : ∀ {entry : List Bytes × Node}, entry ∈ entries →
      (∀ mode, entry.2 ≠ .directory mode) → tree.IsLeaf entry.1 :=
    fun member leaf => ⟨_, members _ member, leaf⟩
  -- Sparing a leaf keeps it missing if it was.
  have waits : ∀ {spared : List Bytes → Prop} {entry : List Bytes × Node} {world later : World},
      ((∀ mode, entry.2 ≠ .directory mode) → spared entry.1) → Sparing home spared world later →
      Awaits home entry world → Awaits home entry later := by
    intro spared entry world later own spares missing target link
    rw [spares.lookup _ (own fun _ never => by rw [link] at never; cases never)]
    exact missing target link
  have stable : ∀ entry ∈ entries, ∀ world later, Sparing home (tree.Mine entries) world later →
      (Awaits home entry world → Awaits home entry later) ∧
        (world.fs.ShowsClosed closes (home ++ entry.1) entry.2 →
          later.fs.ShowsClosed closes (home ++ entry.1) entry.2) := by
    intro entry member world later spares
    have own : (∀ mode, entry.2 ≠ .directory mode) → tree.Mine entries entry.1 :=
      fun leaf => ⟨isLeaf member leaf, List.mem_map_of_mem member⟩
    exact ⟨waits own spares, spares.showsClosed own⟩
  have within : ∀ entry ∈ entries, ∀ world later,
      Sparing home (tree.Others entry.1) world later →
      Sparing home (tree.NotMine entries) world later := by
    intro entry member world later spares
    refine Spares.mono (fun names outside => ⟨outside.1, ?_⟩) spares
    rintro rfl
    exact outside.2 (List.mem_map_of_mem member)
  have apart : entries.Pairwise fun earlier later => ∀ world after,
      (Sparing home (tree.Others earlier.1) world after → Awaits home later world →
        Awaits home later after) ∧
      (Sparing home (tree.Others later.1) world after →
        world.fs.ShowsClosed closes (home ++ earlier.1) earlier.2 →
        after.fs.ShowsClosed closes (home ++ earlier.1) earlier.2) := by
    refine List.Pairwise.imp_of_mem ?_ (List.pairwise_map.mp distinct)
    intro earlier later inFirst inSecond different world after
    exact ⟨waits fun leaf => ⟨isLeaf inSecond leaf, different.symm⟩,
      fun spares => spares.showsClosed fun leaf => ⟨isLeaf inFirst leaf, different⟩⟩
  have loop := receiveRecords_meets (sparing_refl (tree.Mine entries)) entries
    (fun entry member => SourceTree.entryRecord_complete (members entry member))
    (fun entry member state world rest payload _ awaits =>
      receiveTreeRecord_meets named free (members entry member)
        (fun leaf => ⟨leaf, List.mem_map_of_mem member⟩) possible state world rest payload awaits)
    stable within apart (fun _ => True) (fun _ _ _ _ => trivial) (fun _ _ _ _ _ _ => trivial) _
    ⟨connection, 0⟩ world carries le_rfl awaits trivial
  refine (receiveFilePart_meets loop).weaken fun result later _ ended => ?_
  obtain ⟨total, -, received⟩ := ended.2 (ended.1 trivial)
  exact ⟨ended.1 trivial, total, received⟩

/-- Streams that carry different entries of the tree end without an error, and what they carry
is received. -/
theorem treeStreams_endsIn (named : before.Names options.outputDir home)
    (free : ∀ entry ∈ tree.nodes, before.lookup (home ++ entry.1) = none) {streams : Nat}
    (parts : Fin streams → List (List Bytes × Node))
    (members : ∀ stream, ∀ entry ∈ parts stream, entry ∈ tree.nodes)
    (distinct : ∀ stream, ((parts stream).map Prod.fst).Nodup)
    (disjoint : ∀ stream other, stream ≠ other →
      ((parts stream).map Prod.fst).Disjoint ((parts other).map Prod.fst))
    (possible : ∃ fault, closes fault) (connections : Fin streams → Connection)
    (carries : ∀ stream, (connections stream).remaining =
      (parts stream).flatMap fun entry => (entryRecord entry).bytes) :
    (startReceive options before connections).EndsIn perform (Closing closes) fun results world =>
      Grown tree home before world.fs ∧ ∀ stream, (results stream).error = none ∧
        (results stream).bytes =
          ((parts stream).map fun entry => (entryRecord entry).payloadSize).sum ∧
        ∀ entry ∈ parts stream, world.fs.ShowsClosed closes (home ++ entry.1) entry.2 := by
  have meet : (startReceive options before connections).AllMeet perform _ _ _ _ _ :=
    ⟨Grown.refl, fun stream => treeStream_meets named free (members stream) (distinct stream)
      possible (carries stream) _ fun entry member _ _ => free entry (members stream entry member)⟩
  refine meet.endsIn (fun stream => sparing_refl _) (fun stream _ _ _ => Spares.trans) ?_
  intro stream other different world later
  exact Spares.mono fun names own => ⟨own.1, disjoint stream other different own.2⟩

/-! ### The whole transfer -/

/-- When every entry of a tree is on one stream, no two streams share a name. -/
theorem parts_distinct {streams : Nat} {parts : Fin streams → List (List Bytes × Node)}
    (all : (List.ofFn parts).flatten.Perm tree.nodes) :
    (∀ stream, ∀ entry ∈ parts stream, entry ∈ tree.nodes) ∧
      (∀ stream, ((parts stream).map Prod.fst).Nodup) ∧
      ∀ stream other, stream ≠ other →
        ((parts stream).map Prod.fst).Disjoint ((parts other).map Prod.fst) := by
  have names : (List.ofFn fun stream => (parts stream).map Prod.fst).flatten.Nodup := by
    have same : (List.ofFn fun stream => (parts stream).map Prod.fst).flatten =
        (List.ofFn parts).flatten.map Prod.fst := by
      rw [List.map_flatten, List.map_ofFn]
      rfl
    rw [same, (all.map Prod.fst).nodup_iff]
    exact SourceTree.nodup_names
  obtain ⟨each, apart⟩ := List.nodup_flatten.mp names
  rw [List.pairwise_ofFn] at apart
  refine ⟨fun stream entry member => all.subset ?_, fun stream => each _ ?_, ?_⟩
  · exact List.mem_flatten.mpr ⟨parts stream, List.mem_ofFn.mpr ⟨stream, rfl⟩, member⟩
  · exact List.mem_ofFn.mpr ⟨stream, rfl⟩
  · intro stream other different
    rcases lt_or_gt_of_ne different with less | greater
    · exact apart less
    · exact (apart greater).symm

end Records

/-- Where the root has no entry, nothing lies below it. -/
theorem FileSystem.IsTree.none_below_root {fs : FileSystem} (isTree : fs.IsTree)
    {home : Location} {root : Bytes} (absent : fs.lookup (home ++ [root]) = none)
    (names : List Bytes) : fs.lookup (home ++ root :: names) = none := by
  have below := isTree.none_below absent names
  rwa [List.append_assoc, List.singleton_append] at below

theorem SourceTree.free_nodes (tree : SourceTree) {fs : FileSystem} (isTree : fs.IsTree)
    {home : Location} (absent : fs.lookup (home ++ [tree.root]) = none)
    (entry : List Bytes × Node) (member : entry ∈ tree.nodes) :
    fs.lookup (home ++ entry.1) = none := by
  rcases mem_nodes.mp member with rfl | ⟨below, -, rfl⟩
  · exact absent
  · exact isTree.none_below_root absent below.1

/-- The entries of a tree, and nothing else, lie below a directory under the root's name. -/
def FileSystem.Reproduces (fs : FileSystem) (home : Location) (tree : SourceTree) : Prop :=
  (∀ entry ∈ tree.nodes, fs.Shows (home ++ entry.1) entry.2) ∧
    ∀ names, fs.lookup (home ++ tree.root :: names) ≠ none →
      ∃ node, (tree.root :: names, node) ∈ tree.nodes

/-- The same, but the closes of the streams may have taken mode bits away. -/
def FileSystem.ReproducesClosed (fs : FileSystem) (closes : Fault → Prop) (home : Location)
    (tree : SourceTree) : Prop :=
  (∀ entry ∈ tree.nodes, fs.ShowsClosed closes (home ++ entry.1) entry.2) ∧
    ∀ names, fs.lookup (home ++ tree.root :: names) ≠ none →
      ∃ node, (tree.root :: names, node) ∈ tree.nodes

/-- What the close of a stream may do. Only what an unprivileged process writes takes mode bits
away. -/
def ClosesAs (privileged : Bool) (fault : Fault) : Prop :=
  privileged = true → fault ≠ .first

instance (privileged : Bool) : DecidablePred (ClosesAs privileged) := fun _ =>
  inferInstanceAs (Decidable (_ → _))

/-- A transfer of a tree arrives: no sender fails; and under every cut of the streams into
pieces and every interleaving, no receiver fails, the output directory is as it should be, and
both sides report the same number of bytes. -/
def SourceTree.Arrives (tree : SourceTree) (options : Options)
    (sort : List DirectoryItem → List DirectoryItem) (fs : FileSystem) (closes : Fault → Prop)
    (arrived : FileSystem → Prop) : Prop :=
  (∀ stream, (sendDirectory options sort (tree.listing options.file) stream).result.error =
      none) ∧
    ∀ fragments : Fin options.parallel.toNat → List Nat,
      (startReceive options fs fun stream =>
          ⟨(sendDirectory options sort (tree.listing options.file) stream).bytes,
            fragments stream⟩).EndsIn perform (Closing closes) fun results world =>
        (∀ stream, (results stream).error = none) ∧ arrived world.fs ∧
          ∃ total, finishTransfer (List.ofFn results) = .ok total ∧
            finishTransfer (List.ofFn fun stream =>
              (sendDirectory options sort (tree.listing options.file) stream).result) =
                .ok total

section Transfer

variable {tree : SourceTree} {options : Options} {sort : List DirectoryItem → List DirectoryItem}
  {fs : FileSystem} {home : Location} {closes : Fault → Prop} {privileged : Bool}

/-- Everything arrives but the mode bits that a close takes away. -/
theorem SourceTree.arrives_closed (sorts : SortsBySize sort) (streams : 0 < options.parallel.toNat)
    (sent : options.file.filename = tree.root) (isTree : fs.IsTree)
    (named : fs.Names options.outputDir home) (absent : fs.lookup (home ++ [tree.root]) = none)
    (possible : ∃ fault, closes fault) :
    tree.Arrives options sort fs closes fun later => later.ReproducesClosed closes home tree := by
  have plain := SourceTree.plain_of_filename (sent ▸ tree.rootName.1)
  obtain ⟨parts, all, sends⟩ := tree.sendDirectory_eq options plain streams sorts
  obtain ⟨members, distinct, disjoint⟩ := parts_distinct all
  refine ⟨fun stream => by rw [sends stream], fun fragments => ?_⟩
  have ends := treeStreams_endsIn named (tree.free_nodes isTree absent) parts members distinct
    disjoint possible (fun stream =>
      ⟨(sendDirectory options sort (tree.listing options.file) stream).bytes, fragments stream⟩)
    fun stream => by rw [sends stream, List.flatMap_map]
  refine ends.weaken (fun _ _ _ => id) fun results world both => ?_
  obtain ⟨grown, each⟩ := both
  refine ⟨fun stream => (each stream).1, ⟨fun entry member => ?_, fun names present => ?_⟩, ?_⟩
  · obtain ⟨part, inParts, inPart⟩ := List.mem_flatten.mp (all.symm.subset member)
    obtain ⟨stream, rfl⟩ := List.mem_ofFn.mp inParts
    exact (each stream).2.2 entry inPart
  · obtain ⟨entry, found⟩ := Option.ne_none_iff_exists'.mp present
    rcases grown.known _ _ found with old | ⟨⟨other, node⟩, member, same, -⟩
    · rw [isTree.none_below_root absent names] at old
      cases old
    · exact ⟨node, List.append_cancel_left same ▸ member⟩
  · have same : results = fun stream =>
        (sendDirectory options sort (tree.listing options.file) stream).result := by
      funext stream
      obtain ⟨clean, bytes, -⟩ := each stream
      rw [sends stream, List.map_map]
      exact congrArg₂ StreamResult.mk bytes clean
    rw [← same]
    exact ⟨_, finishTransfer_clean fun stream => (each stream).1,
      finishTransfer_clean fun stream => (each stream).1⟩

/-- Where no close can take a mode bit away, the tree is reproduced. -/
theorem FileSystem.ReproducesClosed.reproduces
    (modes : privileged = true ∨ ∀ names content mode,
      (names, Node.file content mode) ∈ tree.nodes → content = [] ∨ withoutSetId mode = mode)
    (closed : fs.ReproducesClosed (ClosesAs privileged) home tree) : fs.Reproduces home tree := by
  refine ⟨fun entry member => ?_, closed.2⟩
  obtain ⟨fault, allows, shown⟩ := closed.1 entry member
  obtain ⟨names, node⟩ := entry
  cases node with
  | file content mode =>
    have kept : closedMode fault content mode = mode := by
      unfold closedMode
      split
      · rename_i held
        rcases modes with surely | each
        · exact absurd held.1 (allows surely)
        · exact (each names content mode member).resolve_left held.2
      · rfl
    simp only [Node.closed, kept] at shown
    exact shown
  | _ => exact shown

/-- Where a close can take a mode bit away, some run ends with the wrong mode. -/
theorem SourceTree.Arrives.modes (sorts : SortsBySize sort)
    (streams : 0 < options.parallel.toNat) (sent : options.file.filename = tree.root)
    (isTree : fs.IsTree) (named : fs.Names options.outputDir home)
    (absent : fs.lookup (home ++ [tree.root]) = none)
    (arrives : tree.Arrives options sort fs (ClosesAs privileged) fun later =>
      later.Reproduces home tree) :
    privileged = true ∨ ∀ names content mode,
      (names, Node.file content mode) ∈ tree.nodes → content = [] ∨ withoutSetId mode = mode := by
  by_cases surely : privileged = true
  · exact Or.inl surely
  refine Or.inr fun names content mode member => ?_
  by_contra both
  simp only [not_or] at both
  -- Every stream still holds bytes when it is closed.
  have held := (SourceTree.arrives_closed sorts streams sent isTree named absent
    (⟨.first, rfl⟩ : ∃ fault, fault = Fault.first)).2 fun _ => []
  obtain ⟨schedule, results, admissible, finished, -, closed, -⟩ :=
    held.exists_run fun request world => by
      cases request with
      | close output => exact ⟨.first, rfl⟩
      | _ => exact ⟨.none, rfl⟩
  have permitted := admissible.weaken fun fault request world allows =>
    show Closing (ClosesAs privileged) fault request world by
      cases request with
      | close output => exact fun never => absurd never surely
      | _ => exact allows
  obtain ⟨-, reproduced, -⟩ := (arrives.2 fun _ => []).2 schedule permitted results finished
  obtain ⟨inode, present, data⟩ := reproduced.1 _ member
  obtain ⟨fault, rfl, inode', present', data'⟩ := closed.1 _ member
  have same : inode = inode' := by
    injection Option.some.inj (present.symm.trans present')
  rw [same, data', closedMode, if_pos ⟨rfl, both.1⟩] at data
  injection data with _ mode_eq
  exact both.2 mode_eq

end Transfer

/-- When a parallel directory transfer reproduces the tree. However the items are sorted and
spread over the streams, and under every interleaving and every cut of the streams into pieces,
everything arrives but the mode bits that a close takes away. The code sets the mode of a file
before its stream is closed, and the last bytes that the stream then writes cost the file its
set-ID bits unless the receiver is privileged. So the tree is reproduced exactly if the receiver
is privileged or no file that is not empty has such bits. -/
theorem directoryTransfer_reproduces_iff (tree : SourceTree) (options : Options)
    (sort : List DirectoryItem → List DirectoryItem) (sorts : SortsBySize sort)
    (parallel : 1 < options.parallel) (sent : options.file.filename = tree.root)
    (fs : FileSystem) (isTree : fs.IsTree) (home : Location)
    (named : fs.Names options.outputDir home) (absent : fs.lookup (home ++ [tree.root]) = none)
    (privileged : Bool) :
    (tree.Arrives options sort fs (ClosesAs privileged) fun later =>
      later.ReproducesClosed (ClosesAs privileged) home tree) ∧
    ((tree.Arrives options sort fs (ClosesAs privileged) fun later =>
        later.Reproduces home tree) ↔
      privileged = true ∨ ∀ names content mode,
        (names, Node.file content mode) ∈ tree.nodes →
          content = [] ∨ withoutSetId mode = mode) := by
  have streams : 0 < options.parallel.toNat := Nat.lt_trans Nat.zero_lt_one
    (UInt32.lt_iff_toNat_lt.mp parallel)
  have closed := SourceTree.arrives_closed sorts streams sent isTree named absent
    (⟨.none, fun _ => by decide⟩ : ∃ fault, ClosesAs privileged fault)
  refine ⟨closed, fun arrives => arrives.modes sorts streams sent isTree named absent,
    fun modes => ⟨closed.1, fun fragments => ?_⟩⟩
  exact (closed.2 fragments).weaken (fun _ _ _ => id) fun results world both =>
    ⟨both.1, both.2.1.reproduces modes, both.2.2⟩

/-- A directory with a directory, a file in it and a link to that file. -/
def smallTree : SourceTree where
  root := ascii "d"
  mode := 0o755
  entries := [([ascii "a"], .directory 0o700), ([ascii "a", ascii "f"], .file (ascii "xy") 0o640),
    ([ascii "l"], .symlink (ascii "a/f"))]
  rootName := by decide
  names := by decide
  distinct := by decide
  parents := by
    simp only [List.mem_cons, List.not_mem_nil, or_false, forall_eq_or_imp, forall_eq]
    exact ⟨fun top => absurd rfl top, fun _ => ⟨0o700, by decide⟩, fun top => absurd rfl top⟩
  sendable := by decide
  rootShort := by decide
  short := by decide

def smallTransfer : Options where
  parallel := 2
  file := Path.parse (ascii "src/d")
  outputDir := Path.parse (ascii "/")

/-- The small tree over two streams into an empty root directory. -/
theorem directoryTransfer_reproduces_iff_smallTree :
    (smallTree.Arrives smallTransfer sortBySize rootOnly (ClosesAs false) fun later =>
      later.ReproducesClosed (ClosesAs false) [] smallTree) ∧
    ((smallTree.Arrives smallTransfer sortBySize rootOnly (ClosesAs false) fun later =>
        later.Reproduces [] smallTree) ↔
      false = true ∨ ∀ names content mode,
        (names, Node.file content mode) ∈ smallTree.nodes →
          content = [] ∨ withoutSetId mode = mode) :=
  directoryTransfer_reproduces_iff smallTree smallTransfer sortBySize sortBySize_sorts (by decide)
    (by decide) rootOnly (isTree_of_entries (by decide) (by decide)) []
    ⟨by decide, by decide, by decide⟩ (by decide) false

/-- A directory with a program of three bytes that runs as its owner. -/
def setUserIdTree : SourceTree where
  root := ascii "d"
  mode := 0o755
  entries := [([ascii "f"], .file (ascii "abc") 0o4755)]
  rootName := by decide
  names := by decide
  distinct := by decide
  parents := by
    simp only [List.mem_singleton, forall_eq]
    exact fun top => absurd rfl top
  sendable := by decide
  rootShort := by decide
  short := by decide

/-- An unprivileged receiver does not reproduce it: the program no longer runs as its owner. -/
theorem setUserId_lost :
    ¬ setUserIdTree.Arrives smallTransfer sortBySize rootOnly (ClosesAs false) fun later =>
      later.Reproduces [] setUserIdTree := by
  intro arrives
  rcases arrives.modes sortBySize_sorts (by decide) (by decide)
    (isTree_of_entries (by decide) (by decide)) ⟨by decide, by decide, by decide⟩ (by decide)
    with never | modes
  · cases never
  · rcases modes [ascii "d", ascii "f"] (ascii "abc") 0o4755 (by decide) with empty | kept
    · exact absurd empty (by decide)
    · exact absurd kept (by decide)

end HyperLink
