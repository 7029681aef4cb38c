/-
This file is about path resolution in a file system that changes. A resolution
that succeeded stays what it was as long as the entries it met stay. A path that
continues below an existing directory is resolved from there, and plain names
below a directory lead where they say. These are the facts by which a thread's
path keeps naming the same place while other threads work next to it.
-/

import HyperLink.FileSystem

namespace HyperLink

namespace FileSystem

/-! ### Entries after a change -/

@[simp]
theorem lookup_insert (fs : FileSystem) (location other : Location) (entry : Entry) :
    (fs.insert location entry).lookup other =
      if other = location then some entry else fs.lookup other := by
  unfold lookup insert
  rw [List.lookup_cons]
  by_cases same : other = location
  · simp [same]
  · rw [if_neg same, beq_false_of_ne same]

@[simp]
theorem lookup_erase (fs : FileSystem) (location other : Location) :
    (fs.erase location).lookup other = if other = location then none else fs.lookup other := by
  unfold lookup erase
  simp only []
  induction fs.entries with
  | nil => simp
  | cons pair rest inductionHypothesis =>
    rw [List.filter_cons]
    by_cases erased : pair.1 = location
    · rw [if_neg (by simpa using erased), inductionHypothesis, List.lookup_cons]
      by_cases same : other = location
      · rw [if_pos same, if_pos same]
      · rw [if_neg same, if_neg same, beq_false_of_ne (fun found => same (found.trans erased))]
    · rw [if_pos (by simpa using erased), List.lookup_cons, inductionHypothesis, List.lookup_cons]
      by_cases same : other = location
      · rw [if_pos same, if_pos same,
          beq_false_of_ne (fun found => erased (found.symm.trans same))]
      · rw [if_neg same, if_neg same]

@[simp]
theorem lookup_setFile (fs : FileSystem) (inode : Nat) (data : FileData) (location : Location) :
    (fs.setFile inode data).lookup location = fs.lookup location := rfl

@[simp]
theorem files_setFile (fs : FileSystem) (inode : Nat) (data : FileData) :
    (fs.setFile inode data).files = Function.update fs.files inode data := rfl

/-! ### The steps of a walk -/

/-- A name that a walk looks up. -/
def Plain (name : Bytes) : Prop := name ≠ dot ∧ name ≠ dotDot

theorem plain_of_safe {name : Bytes} (safe : SafeName name) : Plain name :=
  safe.2.2

section Steps

variable {fs : FileSystem} {follow : Bool} {links : Nat} {directory : Location} {name : Bytes}
  {rest : List Bytes}

@[simp]
theorem walk_nil (fs : FileSystem) (follow : Bool) (links : Nat) (directory : Location) :
    fs.walk follow links directory [] = some directory := by
  cases links <;> rfl

theorem walk_outside (outside : fs.lookup directory ≠ some .directory) :
    fs.walk follow links directory (name :: rest) = none := by
  cases links <;> simp [walk, walkFrom, outside]

theorem walk_dot (inside : fs.lookup directory = some .directory) :
    fs.walk follow links directory (dot :: rest) = fs.walk follow links directory rest := by
  cases links <;> simp [walk, walkFrom, inside]

theorem walk_dotDot (inside : fs.lookup directory = some .directory) :
    fs.walk follow links directory (dotDot :: rest) =
      fs.walk follow links directory.dropLast rest := by
  have different : dotDot ≠ dot := by decide
  cases links <;> simp [walk, walkFrom, inside, different]

theorem walk_enter (inside : fs.lookup directory = some .directory) (plain : Plain name)
    (entry : fs.lookup (directory ++ [name]) = some .directory) :
    fs.walk follow links directory (name :: rest) =
      fs.walk follow links (directory ++ [name]) rest := by
  cases links <;> simp [walk, walkFrom, inside, plain.1, plain.2, entry]

theorem walk_missing (inside : fs.lookup directory = some .directory) (plain : Plain name)
    (entry : fs.lookup (directory ++ [name]) = none) :
    fs.walk follow links directory (name :: rest) =
      if rest = [] then some (directory ++ [name]) else none := by
  cases links <;> simp [walk, walkFrom, inside, plain.1, plain.2, entry]

theorem walk_file {inode : Nat} (inside : fs.lookup directory = some .directory)
    (plain : Plain name) (entry : fs.lookup (directory ++ [name]) = some (.file inode)) :
    fs.walk follow links directory (name :: rest) =
      if rest = [] then some (directory ++ [name]) else none := by
  cases links <;> simp [walk, walkFrom, inside, plain.1, plain.2, entry]

theorem walk_link {target : Bytes} (inside : fs.lookup directory = some .directory)
    (plain : Plain name) (entry : fs.lookup (directory ++ [name]) = some (.symlink target)) :
    fs.walk follow links directory (name :: rest) =
      if rest = [] ∧ follow = false then some (directory ++ [name])
      else match links with
        | 0 => none
        | left + 1 =>
            fs.walk follow left (targetBase target directory) (targetParts target ++ rest) := by
  cases links <;> simp [walk, walkFrom, inside, plain.1, plain.2, entry]

end Steps

/-- The successful walks, step by step. -/
inductive Walks (fs : FileSystem) (follow : Bool) (found : Location) :
    Nat → Location → List Bytes → Prop
  | arrived {links : Nat} : Walks fs follow found links found []
  | here {links : Nat} {directory : Location} {rest : List Bytes}
      (inside : fs.lookup directory = some .directory)
      (later : Walks fs follow found links directory rest) :
      Walks fs follow found links directory (dot :: rest)
  | up {links : Nat} {directory : Location} {rest : List Bytes}
      (inside : fs.lookup directory = some .directory)
      (later : Walks fs follow found links directory.dropLast rest) :
      Walks fs follow found links directory (dotDot :: rest)
  | enter {links : Nat} {directory : Location} {name : Bytes} {rest : List Bytes}
      (inside : fs.lookup directory = some .directory) (plain : Plain name)
      (entry : fs.lookup (directory ++ [name]) = some .directory)
      (later : Walks fs follow found links (directory ++ [name]) rest) :
      Walks fs follow found links directory (name :: rest)
  | last {links : Nat} {directory : Location} {name : Bytes}
      (inside : fs.lookup directory = some .directory) (plain : Plain name)
      (here : found = directory ++ [name])
      (entry : fs.lookup found ≠ some .directory)
      (itself : ∀ target, fs.lookup found = some (.symlink target) → follow = false) :
      Walks fs follow found links directory [name]
  | jump {links : Nat} {directory : Location} {name target : Bytes} {rest : List Bytes}
      (inside : fs.lookup directory = some .directory) (plain : Plain name)
      (entry : fs.lookup (directory ++ [name]) = some (.symlink target))
      (followed : ¬ (rest = [] ∧ follow = false))
      (later : Walks fs follow found links (targetBase target directory)
        (targetParts target ++ rest)) :
      Walks fs follow found (links + 1) directory (name :: rest)

theorem walk_of_walks {fs : FileSystem} {follow : Bool} {found directory : Location} {links : Nat}
    {parts : List Bytes} (walks : fs.Walks follow found links directory parts) :
    fs.walk follow links directory parts = some found := by
  induction walks with
  | arrived => exact walk_nil _ _ _ _
  | here inside _ inductionHypothesis => rw [walk_dot inside, inductionHypothesis]
  | up inside _ inductionHypothesis => rw [walk_dotDot inside, inductionHypothesis]
  | enter inside plain entry _ inductionHypothesis =>
    rw [walk_enter inside plain entry, inductionHypothesis]
  | @last links directory name inside plain here entry itself =>
    subst here
    cases present : fs.lookup (directory ++ [name]) with
    | none => rw [walk_missing inside plain present, if_pos rfl]
    | some value =>
      cases value with
      | directory => exact absurd present entry
      | file inode => rw [walk_file inside plain present, if_pos rfl]
      | symlink target => rw [walk_link inside plain present, if_pos ⟨rfl, itself target present⟩]
  | jump inside plain entry followed _ inductionHypothesis =>
    rw [walk_link inside plain entry, if_neg followed]
    exact inductionHypothesis

theorem walks_of_walk {fs : FileSystem} {follow : Bool} {found directory : Location} {links : Nat}
    {parts : List Bytes} (walked : fs.walk follow links directory parts = some found) :
    fs.Walks follow found links directory parts := by
  induction links using Nat.strong_induction_on generalizing directory parts with
  | _ links fewer =>
    induction parts generalizing directory with
    | nil =>
      rw [walk_nil] at walked
      injection walked with same
      exact same ▸ .arrived
    | cons name rest inductionHypothesis =>
      by_cases inside : fs.lookup directory = some .directory
      swap
      · rw [walk_outside inside] at walked
        cases walked
      by_cases isDot : name = dot
      · subst isDot
        rw [walk_dot inside] at walked
        exact .here inside (inductionHypothesis walked)
      by_cases isDotDot : name = dotDot
      · subst isDotDot
        rw [walk_dotDot inside] at walked
        exact .up inside (inductionHypothesis walked)
      have plain : Plain name := ⟨isDot, isDotDot⟩
      cases present : fs.lookup (directory ++ [name]) with
      | none =>
        rw [walk_missing inside plain present, Option.ite_none_right_eq_some] at walked
        obtain ⟨rfl, same⟩ := walked
        injection same with same
        exact .last inside plain same.symm (by simp [← same, present]) (by simp [← same, present])
      | some value =>
        cases value with
        | directory =>
          rw [walk_enter inside plain present] at walked
          exact .enter inside plain present (inductionHypothesis walked)
        | file inode =>
          rw [walk_file inside plain present, Option.ite_none_right_eq_some] at walked
          obtain ⟨rfl, same⟩ := walked
          injection same with same
          exact .last inside plain same.symm (by simp [← same, present])
            (by simp [← same, present])
        | symlink target =>
          rw [walk_link inside plain present] at walked
          split at walked
          · rename_i itself
            obtain ⟨rfl, unfollowed⟩ := itself
            injection walked with same
            exact .last inside plain same.symm (by simp [← same, present])
              (fun _ _ => unfollowed)
          · rename_i followed
            cases links with
            | zero => cases walked
            | succ left => exact .jump inside plain present followed (fewer left (by omega) walked)

/-! ### A resolution survives changes elsewhere -/

/-- Every entry of a file system is still there later. -/
def Keeps (fs later : FileSystem) : Prop :=
  later.workingDirectory = fs.workingDirectory ∧
    ∀ location entry, fs.lookup location = some entry → later.lookup location = some entry

theorem Keeps.refl (fs : FileSystem) : fs.Keeps fs := ⟨rfl, fun _ _ found => found⟩

theorem Keeps.trans {first second third : FileSystem} (before : first.Keeps second)
    (after : second.Keeps third) : first.Keeps third :=
  ⟨after.1.trans before.1, fun location entry found =>
    after.2 location entry (before.2 location entry found)⟩

theorem Keeps.insert {fs : FileSystem} {location : Location} (free : fs.lookup location = none)
    (entry : Entry) : fs.Keeps (fs.insert location entry) := by
  refine ⟨rfl, fun other found present => ?_⟩
  rw [lookup_insert, if_neg]
  · exact present
  · intro same
    rw [same, free] at present
    cases present

/-- A walk that succeeded stays the same while entries are only added, unless a link is put
where it ended. -/
theorem Walks.keeps {fs later : FileSystem} {follow : Bool} {found directory : Location}
    {links : Nat} {parts : List Bytes} (kept : fs.Keeps later)
    (plain : fs.lookup found = none → ∀ target, later.lookup found ≠ some (.symlink target))
    (walks : fs.Walks follow found links directory parts) :
    later.walk follow links directory parts = some found := by
  induction walks with
  | arrived => exact walk_nil _ _ _ _
  | here inside _ inductionHypothesis => rw [walk_dot (kept.2 _ _ inside), inductionHypothesis]
  | up inside _ inductionHypothesis => rw [walk_dotDot (kept.2 _ _ inside), inductionHypothesis]
  | enter inside name entry _ inductionHypothesis =>
    rw [walk_enter (kept.2 _ _ inside) name (kept.2 _ _ entry), inductionHypothesis]
  | @last links directory name inside safe here entry itself =>
    subst here
    cases present : later.lookup (directory ++ [name]) with
    | none => rw [walk_missing (kept.2 _ _ inside) safe present, if_pos rfl]
    | some value =>
      cases value with
      | directory => rw [walk_enter (kept.2 _ _ inside) safe present, walk_nil]
      | file inode => rw [walk_file (kept.2 _ _ inside) safe present, if_pos rfl]
      | symlink target =>
        have old : fs.lookup (directory ++ [name]) = some (.symlink target) := by
          cases before : fs.lookup (directory ++ [name]) with
          | none => exact absurd present (plain before target)
          | some value => rw [← kept.2 _ _ before, present]
        rw [walk_link (kept.2 _ _ inside) safe present, if_pos ⟨rfl, itself target old⟩]
  | jump inside name entry followed _ inductionHypothesis =>
    rw [walk_link (kept.2 _ _ inside) name (kept.2 _ _ entry), if_neg followed]
    exact inductionHypothesis

theorem start_keeps {fs later : FileSystem} (kept : fs.Keeps later) (path : Path) :
    later.start path = fs.start path := by
  unfold start
  rw [kept.1]

theorem resolve_keeps {fs later : FileSystem} {follow : Bool} {found : Location} {path : Path}
    (kept : fs.Keeps later)
    (plain : fs.lookup found = none → ∀ target, later.lookup found ≠ some (.symlink target))
    (resolved : fs.resolve follow path = some found) : later.resolve follow path = some found := by
  unfold resolve at resolved ⊢
  split at resolved
  · cases resolved
  · rename_i named
    rw [if_neg named, start_keeps kept]
    exact (walks_of_walk resolved).keeps kept plain

theorem Keeps.setFile (fs : FileSystem) (inode : Nat) (data : FileData) :
    fs.Keeps (fs.setFile inode data) := ⟨rfl, fun _ _ found => found⟩

/-! ### Paths that open as files -/

/-- A path opens as a regular file. -/
structure Opens (fs : FileSystem) (path : Path) (handle : Handle) : Prop where
  leaf : path.native.trailing = false
  resolves : fs.resolve true path = some handle.location
  entry : fs.lookup handle.location = some (.file handle.inode)

theorem Opens.keeps {fs later : FileSystem} {path : Path} {handle : Handle}
    (opens : fs.Opens path handle) (kept : fs.Keeps later) : later.Opens path handle where
  leaf := opens.leaf
  resolves := resolve_keeps kept (fun free => by rw [opens.entry] at free; cases free)
    opens.resolves
  entry := kept.2 _ _ opens.entry

theorem Opens.openReadWrite {fs : FileSystem} {path : Path} {handle : Handle}
    (opens : fs.Opens path handle) : fs.openReadWrite path = fs.unchanged (some handle) := by
  unfold FileSystem.openReadWrite
  rw [if_neg (by simp [opens.leaf]), opens.resolves]
  simp only [opens.entry]

theorem opens_of_openReadWrite {fs : FileSystem} {path : Path} {handle : Handle}
    (opened : (fs.openReadWrite path).reply = some handle) : fs.Opens path handle := by
  unfold FileSystem.openReadWrite at opened
  split at opened
  · cases opened
  · rename_i leaf
    split at opened
    · cases opened
    · rename_i location resolves
      split at opened
      · rename_i inode entry
        injection opened with same
        subst same
        exact ⟨Bool.eq_false_of_not_eq_true leaf, resolves, entry⟩
      · cases opened

theorem Opens.readFile {fs : FileSystem} {path : Path} {handle : Handle}
    (opens : fs.Opens path handle) :
    fs.readFile path = some (fs.files handle.inode).content := by
  rw [FileSystem.readFile, opens.openReadWrite]
  rfl

/-- Everything that opening for truncation can do: refuse, create a file, or empty one. -/
theorem openTruncate_cases (fs : FileSystem) (path : Path) :
    fs.openTruncate path = fs.unchanged none ∨
      ∃ location, path.native.trailing = false ∧ fs.resolve true path = some location ∧
        ((fs.lookup location = none ∧ fs.openTruncate path =
          ⟨some ⟨fs.nextInode, location⟩,
            ({ fs with nextInode := fs.nextInode + 1 }.insert location
              (.file fs.nextInode)).setFile fs.nextInode ⟨[], fs.newFileMode⟩,
            [.createdFile location]⟩) ∨
        ∃ inode, fs.lookup location = some (.file inode) ∧ fs.openTruncate path =
          ⟨some ⟨inode, location⟩, fs.setFile inode ⟨[], (fs.files inode).mode⟩,
            [.truncated location]⟩) := by
  unfold openTruncate
  split
  · exact Or.inl rfl
  · rename_i leaf
    split
    · exact Or.inl rfl
    · rename_i location resolves
      split
      · rename_i free
        exact Or.inr ⟨location, Bool.eq_false_of_not_eq_true leaf, resolves,
          Or.inl ⟨free, rfl⟩⟩
      · rename_i inode entry
        exact Or.inr ⟨location, Bool.eq_false_of_not_eq_true leaf, resolves,
          Or.inr ⟨inode, entry, rfl⟩⟩
      · exact Or.inl rfl

/-- A file that was opened for truncation is empty. -/
theorem content_of_openTruncate {fs : FileSystem} {path : Path} {handle : Handle}
    (opened : (fs.openTruncate path).reply = some handle) :
    ((fs.openTruncate path).fs.files handle.inode).content = [] := by
  obtain same | ⟨location, -, -, ⟨-, same⟩ | ⟨inode, -, same⟩⟩ := openTruncate_cases fs path
  · rw [same] at opened
    cases opened
  · rw [same] at opened ⊢
    cases opened
    simp
  · rw [same] at opened ⊢
    cases opened
    simp

/-- What is opened for truncation can be opened again. -/
theorem opens_of_openTruncate {fs : FileSystem} {path : Path} {handle : Handle}
    (opened : (fs.openTruncate path).reply = some handle) :
    (fs.openTruncate path).fs.Opens path handle ∧ fs.Keeps (fs.openTruncate path).fs := by
  obtain same | ⟨location, leaf, resolves, ⟨free, same⟩ | ⟨inode, entry, same⟩⟩ :=
    openTruncate_cases fs path
  · rw [same] at opened
    cases opened
  · rw [same] at opened ⊢
    cases opened
    have next : FileSystem.Keeps { fs with nextInode := fs.nextInode + 1 } _ :=
      Keeps.insert free (.file fs.nextInode)
    have kept : fs.Keeps (({ fs with nextInode := fs.nextInode + 1 }.insert location
        (.file fs.nextInode)).setFile fs.nextInode ⟨[], fs.newFileMode⟩) :=
      Keeps.trans next (Keeps.setFile _ _ _)
    have entered : (({ fs with nextInode := fs.nextInode + 1 }.insert location
        (.file fs.nextInode)).setFile fs.nextInode ⟨[], fs.newFileMode⟩).lookup location =
        some (.file fs.nextInode) := by simp
    refine ⟨⟨leaf, resolve_keeps kept (fun _ target linked => ?_) resolves, entered⟩, kept⟩
    rw [entered] at linked
    cases linked
  · rw [same] at opened ⊢
    cases opened
    have opens : fs.Opens path ⟨inode, location⟩ := ⟨leaf, resolves, entry⟩
    exact ⟨opens.keeps (Keeps.setFile _ _ _), Keeps.setFile _ _ _⟩

theorem Opens.resizeFile {fs : FileSystem} {path : Path} {handle : Handle}
    (opens : fs.Opens path handle) {size : Nat} (small : size ≤ maximumOffset) :
    fs.resizeFile path size =
      ⟨true, fs.setFile handle.inode ⟨resizeTo (fs.files handle.inode).content size,
        (fs.files handle.inode).mode⟩, [.resized handle.location size]⟩ := by
  unfold FileSystem.resizeFile
  rw [if_neg (by simp only [opens.leaf, Bool.false_eq_true, false_or]; omega), opens.resolves]
  simp only [opens.entry]

theorem Opens.setPermissions {fs : FileSystem} {path : Path} {handle : Handle}
    (opens : fs.Opens path handle) (mode : Nat) :
    fs.setPermissions path mode =
      ⟨true, fs.setFile handle.inode ⟨(fs.files handle.inode).content, mode % 0o10000⟩,
        [.changedMode handle.location (mode % 0o10000)]⟩ := by
  unfold FileSystem.setPermissions
  rw [opens.resolves]
  simp only [opens.entry, opens.leaf, Bool.false_eq_true, if_false]

theorem resizeFile_large {fs : FileSystem} {path : Path} {size : Nat}
    (large : maximumOffset < size) : fs.resizeFile path size = fs.unchanged false := by
  unfold FileSystem.resizeFile
  rw [if_pos (Or.inr large)]

theorem openTruncate_none {fs : FileSystem} {path : Path}
    (refused : (fs.openTruncate path).reply = none) :
    (fs.openTruncate path).fs = fs ∧ (fs.openTruncate path).effects = [] := by
  obtain same | ⟨location, -, -, ⟨-, same⟩ | ⟨inode, -, same⟩⟩ := openTruncate_cases fs path
  · rw [same]
    exact ⟨rfl, rfl⟩
  · rw [same] at refused
    cases refused
  · rw [same] at refused
    cases refused

/-! ### Paths below a directory -/

/-- A walk through an existing directory continues from there, with the links still to
follow. -/
theorem Walks.append {fs : FileSystem} {found directory : Location} {links : Nat}
    {parts : List Bytes} (walks : fs.Walks true found links directory parts)
    (arrives : fs.lookup found = some .directory) (follow : Bool) {rest : List Bytes}
    (more : rest ≠ []) :
    ∃ left, fs.walk follow links directory (parts ++ rest) = fs.walk follow left found rest := by
  induction walks with
  | @arrived links => exact ⟨links, rfl⟩
  | here inside _ inductionHypothesis =>
    rw [List.cons_append, walk_dot inside]
    exact inductionHypothesis
  | up inside _ inductionHypothesis =>
    rw [List.cons_append, walk_dotDot inside]
    exact inductionHypothesis
  | enter inside plain entry _ inductionHypothesis =>
    rw [List.cons_append, walk_enter inside plain entry]
    exact inductionHypothesis
  | last inside plain here entry itself => exact absurd arrives entry
  | jump inside plain entry followed _ inductionHypothesis =>
    rw [List.cons_append, walk_link inside plain entry, if_neg (by simp [more])]
    rw [List.append_assoc] at inductionHypothesis
    exact inductionHypothesis

/-- On the way to an existing directory there are only existing directories. -/
theorem Walks.front {fs : FileSystem} {found directory : Location} {links : Nat}
    {front back : List Bytes} (walks : fs.Walks true found links directory (front ++ back))
    (arrives : fs.lookup found = some .directory) :
    ∃ middle, fs.walk true links directory front = some middle ∧
      fs.lookup middle = some .directory := by
  generalize whole : front ++ back = parts at walks
  induction walks generalizing front with
  | arrived =>
    obtain ⟨rfl, -⟩ := List.append_eq_nil_iff.mp whole
    exact ⟨found, walk_nil _ _ _ _, arrives⟩
  | here inside _ inductionHypothesis =>
    cases front with
    | nil => exact ⟨_, walk_nil _ _ _ _, inside⟩
    | cons name front =>
      obtain ⟨rfl, rest⟩ := List.cons_eq_cons.mp whole
      rw [walk_dot inside]
      exact inductionHypothesis rest
  | up inside _ inductionHypothesis =>
    cases front with
    | nil => exact ⟨_, walk_nil _ _ _ _, inside⟩
    | cons name front =>
      obtain ⟨rfl, rest⟩ := List.cons_eq_cons.mp whole
      rw [walk_dotDot inside]
      exact inductionHypothesis rest
  | enter inside plain entry _ inductionHypothesis =>
    cases front with
    | nil => exact ⟨_, walk_nil _ _ _ _, inside⟩
    | cons name front =>
      obtain ⟨rfl, rest⟩ := List.cons_eq_cons.mp whole
      rw [walk_enter inside plain entry]
      exact inductionHypothesis rest
  | last inside plain here entry itself => exact absurd arrives entry
  | jump inside plain entry followed _ inductionHypothesis =>
    cases front with
    | nil => exact ⟨_, walk_nil _ _ _ _, inside⟩
    | cons name front =>
      obtain ⟨rfl, rest⟩ := List.cons_eq_cons.mp whole
      rw [walk_link inside plain entry, if_neg (by simp)]
      exact inductionHypothesis ((List.append_assoc _ _ _).trans (congrArg _ rest))

/-- The names below a directory exist as directories, up to but not including the last one. -/
def Leads (fs : FileSystem) (directory : Location) (names : List Bytes) : Prop :=
  ∀ front back, names = front ++ back → back ≠ [] →
    fs.lookup (directory ++ front) = some .directory

theorem Leads.tail {fs : FileSystem} {directory : Location} {name : Bytes} {rest : List Bytes}
    (leads : fs.Leads directory (name :: rest)) : fs.Leads (directory ++ [name]) rest := by
  intro front back same more
  have inside := leads (name :: front) back (by rw [same, List.cons_append]) more
  rwa [List.append_assoc, List.singleton_append]

theorem Leads.keeps {fs later : FileSystem} {directory : Location} {names : List Bytes}
    (kept : fs.Keeps later) (leads : fs.Leads directory names) : later.Leads directory names :=
  fun front back same more => kept.2 _ _ (leads front back same more)

/-- Plain names through existing directories lead where they say. -/
theorem walk_names {fs : FileSystem} {follow : Bool} {links : Nat} {directory : Location}
    {names : List Bytes} (plain : ∀ name ∈ names, Plain name) (leads : fs.Leads directory names)
    (itself : ∀ target, fs.lookup (directory ++ names) = some (.symlink target) → names ≠ [] →
      follow = false) :
    fs.walk follow links directory names = some (directory ++ names) := by
  induction names generalizing directory with
  | nil => simp
  | cons name rest inductionHypothesis =>
    have inside : fs.lookup directory = some .directory := by
      have first := leads [] (name :: rest) rfl (List.cons_ne_nil _ _)
      rwa [List.append_nil] at first
    have safe := plain name List.mem_cons_self
    cases rest with
    | nil =>
      refine walk_of_walks ?_
      by_cases entry : fs.lookup (directory ++ [name]) = some .directory
      · exact .enter inside safe entry .arrived
      · exact .last inside safe rfl entry fun target present => itself target present (by simp)
    | cons next rest =>
      have entry : fs.lookup (directory ++ [name]) = some .directory :=
        leads [name] (next :: rest) rfl (List.cons_ne_nil _ _)
      have whole : directory ++ name :: next :: rest = directory ++ [name] ++ next :: rest := by
        rw [List.append_assoc, List.singleton_append]
      rw [walk_enter inside safe entry, whole]
      refine inductionHypothesis (fun other member => plain other (List.mem_cons_of_mem _ member))
        leads.tail fun target present _ => ?_
      exact itself target (whole ▸ present) (List.cons_ne_nil _ _)

/-! ### The output directory -/

/-- A path names an existing directory. -/
def Names (fs : FileSystem) (path : Path) (directory : Location) : Prop :=
  path.NulFree ∧ fs.resolve true path = some directory ∧ fs.lookup directory = some .directory

theorem Names.keeps {fs later : FileSystem} {path : Path} {directory : Location}
    (kept : fs.Keeps later) (names : fs.Names path directory) : later.Names path directory :=
  ⟨names.1, resolve_keeps kept (fun free => by rw [names.2.2] at free; cases free) names.2.1,
    kept.2 _ _ names.2.2⟩

theorem Names.walks {fs : FileSystem} {path : Path} {directory : Location}
    (named : fs.Names path directory) :
    path.isEmpty = false ∧
      fs.Walks true directory maximumLinks (fs.start path) path.parts := by
  obtain ⟨free, resolved, -⟩ := named
  unfold resolve at resolved
  rw [Path.native_of_nulFree free] at resolved
  split at resolved
  · cases resolved
  · rename_i something
    exact ⟨Bool.not_eq_true _ ▸ something, walks_of_walk resolved⟩

/-- Names below the output directory are resolved inside it. -/
theorem Names.resolve_below {fs : FileSystem} {path : Path} {directory : Location}
    (named : fs.Names path directory) {names : List Bytes} (more : names ≠ [])
    (entries : ∀ name ∈ names, EntryName name) (leads : fs.Leads directory names) {follow : Bool}
    (itself : ∀ target, fs.lookup (directory ++ names) = some (.symlink target) →
      follow = false) :
    fs.resolve follow ⟨path.rooted, path.parts ++ names, false⟩ = some (directory ++ names) := by
  obtain ⟨-, walks⟩ := named.walks
  have free : Path.NulFree ⟨path.rooted, path.parts ++ names, false⟩ := by
    intro part member
    rcases List.mem_append.mp member with outer | inner
    · exact named.1 part outer
    · exact (entries part inner).2
  obtain ⟨left, continued⟩ := walks.append named.2.2 follow more
  unfold resolve
  rw [Path.native_of_nulFree free, if_neg (by simp [Path.isEmpty, more])]
  show fs.walk follow maximumLinks (fs.start path) (path.parts ++ names) = _
  rw [continued]
  exact walk_names (fun name member => plain_of_safe (entries name member).1) leads
    fun target present _ => itself target present

/-- Every directory on the way to the output directory exists. -/
theorem Names.isDirectory_front {fs : FileSystem} {path : Path} {directory : Location}
    (named : fs.Names path directory) {front back : List Bytes}
    (parts : path.parts = front ++ back) (more : front ≠ []) :
    fs.isDirectory ⟨path.rooted, front, false⟩ = true := by
  obtain ⟨-, walks⟩ := named.walks
  rw [parts] at walks
  obtain ⟨middle, walked, present⟩ := walks.front named.2.2
  have free : Path.NulFree ⟨path.rooted, front, false⟩ := fun part member =>
    named.1 part (by rw [parts]; exact List.mem_append_left _ member)
  have resolved : fs.resolve true ⟨path.rooted, front, false⟩ = some middle := by
    unfold resolve
    rw [Path.native_of_nulFree free, if_neg (by simp [Path.isEmpty, more])]
    exact walked
  unfold isDirectory
  rw [resolved]
  simp [present]

/-! ### File systems that are trees -/

/-- Every entry lies in a directory, and the root is one. -/
structure IsTree (fs : FileSystem) : Prop where
  root : fs.lookup [] = some .directory
  parent : ∀ location, fs.lookup location ≠ none →
    fs.lookup location.dropLast = some .directory

theorem IsTree.insert {fs : FileSystem} (tree : fs.IsTree) {location : Location}
    (free : fs.lookup location = none) (inside : fs.lookup location.dropLast = some .directory)
    (entry : Entry) : (fs.insert location entry).IsTree := by
  have other : ∀ {place : Location}, fs.lookup place = some .directory → place ≠ location := by
    rintro place present rfl
    rw [free] at present
    cases present
  refine ⟨?_, fun place present => ?_⟩
  · rw [lookup_insert, if_neg (other tree.root), tree.root]
  · rw [lookup_insert] at present ⊢
    by_cases new : place = location
    · rw [new, if_neg (other inside), inside]
    · rw [if_neg new] at present
      rw [if_neg (other (tree.parent place present)), tree.parent place present]

/-- Where there is no entry, there is none below. -/
theorem IsTree.none_below {fs : FileSystem} (tree : fs.IsTree) {location : Location}
    (free : fs.lookup location = none) (names : List Bytes) :
    fs.lookup (location ++ names) = none := by
  induction names using List.reverseRecOn with
  | nil => rwa [List.append_nil]
  | append_singleton others last inductionHypothesis =>
    by_contra present
    have above := tree.parent _ present
    rw [← List.append_assoc, List.dropLast_concat, inductionHypothesis] at above
    cases above

theorem mem_of_lookup {fs : FileSystem} {location : Location} {entry : Entry}
    (found : fs.lookup location = some entry) : (location, entry) ∈ fs.entries := by
  obtain ⟨front, back, whole, -⟩ := List.lookup_eq_some_iff.mp found
  rw [whole]
  simp

/-- Whether a file system is a tree can be read off its entries. -/
theorem isTree_of_entries {fs : FileSystem} (root : fs.lookup [] = some .directory)
    (parents : ∀ pair ∈ fs.entries, fs.lookup pair.1.dropLast = some .directory) :
    fs.IsTree := by
  refine ⟨root, fun location present => ?_⟩
  obtain ⟨entry, found⟩ := Option.ne_none_iff_exists'.mp present
  exact parents _ (mem_of_lookup found)

theorem isLeaf_below {fs : FileSystem} {location place : Location}
    (leaf : fs.isLeaf location = true) (present : fs.lookup place ≠ none)
    (below : location <+: place) : place = location := by
  obtain ⟨entry, found⟩ := Option.ne_none_iff_exists'.mp present
  have alone := List.all_eq_true.mp leaf _ (mem_of_lookup found)
  by_contra different
  simp [List.isPrefixOf_iff_prefix.mpr below, different] at alone

/-- Deleting a name below which there is nothing leaves a tree. -/
theorem IsTree.erase {fs : FileSystem} (tree : fs.IsTree) {location : Location}
    (inner : location ≠ [])
    (leaf : ∀ place, fs.lookup place ≠ none → place ≠ location → place.dropLast ≠ location) :
    (fs.erase location).IsTree := by
  refine ⟨?_, fun place present => ?_⟩
  · rw [lookup_erase, if_neg inner.symm, tree.root]
  · rw [lookup_erase] at present ⊢
    by_cases same : place = location
    · rw [if_pos same] at present
      exact absurd rfl present
    · rw [if_neg same] at present
      rw [if_neg (leaf place present same), tree.parent place present]

end FileSystem

end HyperLink
