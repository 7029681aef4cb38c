/-
This file is about where the receiver's calls end up. The names of a stream are
checked as text, while the operating system resolves a path through the links
that exist when a call is made, and a peer can put links into the output
directory with the records it sends.

As long as no call follows a link that lies in the output directory, every
change is made inside it, whatever bytes the peers send and however the threads
interleave. The names themselves cannot leave it: `..` is refused, and where a
zero byte hides it from the check, the operating system sees it only in last
position, where no call of the receiver changes anything. With a link inside the
output directory the first record that passes through it escapes.
-/

import HyperLink.Records
import HyperLink.Resolution

namespace HyperLink

open Threads Receiver

namespace FileSystem

/-! ### The links a resolution follows -/

/-- The links that a walk follows, in order. -/
def followedFrom (fs : FileSystem) (follow : Bool)
    (jump : Location → List Bytes → List Location) : Location → List Bytes → List Location
  | _, [] => []
  | directory, name :: rest =>
      if fs.lookup directory ≠ some .directory then []
      else if name = dot then followedFrom fs follow jump directory rest
      else if name = dotDot then followedFrom fs follow jump directory.dropLast rest
      else match fs.lookup (directory ++ [name]) with
        | some .directory => followedFrom fs follow jump (directory ++ [name]) rest
        | some (.symlink target) =>
            if rest = [] ∧ follow = false then []
            else (directory ++ [name]) ::
              jump (targetBase target directory) (targetParts target ++ rest)
        | _ => []

def followedLinks (fs : FileSystem) (follow : Bool) : Nat → Location → List Bytes → List Location
  | 0 => followedFrom fs follow fun _ _ => []
  | links + 1 => followedFrom fs follow (followedLinks fs follow links)

/-- The links that the resolution of a path follows. -/
def followed (fs : FileSystem) (follow : Bool) (path : Path) : List Location :=
  if path.native.isEmpty then []
  else fs.followedLinks follow maximumLinks (fs.start path.native) path.native.parts

section Steps

variable {fs : FileSystem} {follow : Bool} {links : Nat} {directory : Location} {name : Bytes}
  {rest : List Bytes}

theorem followedLinks_dot (inside : fs.lookup directory = some .directory) :
    fs.followedLinks follow links directory (dot :: rest) =
      fs.followedLinks follow links directory rest := by
  cases links <;> simp [followedLinks, followedFrom, inside]

theorem followedLinks_dotDot (inside : fs.lookup directory = some .directory) :
    fs.followedLinks follow links directory (dotDot :: rest) =
      fs.followedLinks follow links directory.dropLast rest := by
  have different : dotDot ≠ dot := by decide
  cases links <;> simp [followedLinks, followedFrom, inside, different]

theorem followedLinks_enter (inside : fs.lookup directory = some .directory)
    (plain : Plain name) (entry : fs.lookup (directory ++ [name]) = some .directory) :
    fs.followedLinks follow links directory (name :: rest) =
      fs.followedLinks follow links (directory ++ [name]) rest := by
  cases links <;> simp [followedLinks, followedFrom, inside, plain.1, plain.2, entry]

theorem followedLinks_link {target : Bytes} (inside : fs.lookup directory = some .directory)
    (plain : Plain name) (entry : fs.lookup (directory ++ [name]) = some (.symlink target))
    (continues : ¬ (rest = [] ∧ follow = false)) :
    fs.followedLinks follow links directory (name :: rest) = (directory ++ [name]) ::
      match links with
      | 0 => []
      | left + 1 =>
          fs.followedLinks follow left (targetBase target directory)
            (targetParts target ++ rest) := by
  cases links <;> simp [followedLinks, followedFrom, inside, plain.1, plain.2, entry, continues]

end Steps

/-! ### Walks that follow no link inside a directory -/

/-- No link of the list lies in the directory. -/
def Avoids (home : Location) (met : List Location) : Prop := ∀ link ∈ met, ¬ home <+: link

instance (home : Location) (met : List Location) : Decidable (Avoids home met) :=
  inferInstanceAs (Decidable (∀ link ∈ met, ¬ home <+: link))

/-- Two file systems are the same outside a directory, which had no link in it. -/
structure SameOutside (home : Location) (before fs : FileSystem) : Prop where
  lookup : ∀ location, ¬ home <+: location → fs.lookup location = before.lookup location
  linkFree : ∀ location target, home <+: location →
    before.lookup location ≠ some (.symlink target)

/-- A walk that once led to a directory still leads there, or fails, unless it now follows a
link inside the changed directory. Only without following it can a last link be the end. -/
theorem Walks.sameOutside {home : Location} {before fs : FileSystem}
    (same : SameOutside home before fs) {follow : Bool} {found directory location : Location}
    {links : Nat} {front : List Bytes} (walks : before.Walks true found links directory front)
    (arrives : before.lookup found = some .directory) {rest : List Bytes}
    (avoids : Avoids home (fs.followedLinks follow links directory (front ++ rest)))
    (walked : fs.walk follow links directory (front ++ rest) = some location) :
    (∃ left, fs.walk follow left found rest = some location ∧
        Avoids home (fs.followedLinks follow left found rest)) ∨
      rest = [] ∧ front ≠ [] ∧ follow = false ∧
        ∃ target, fs.lookup location = some (.symlink target) := by
  have entered : ∀ {links : Nat} {directory : Location} {parts : List Bytes},
      fs.walk follow links directory parts = some location → parts ≠ [] →
      fs.lookup directory = some .directory := by
    intro links directory parts walked more
    obtain ⟨name, others, rfl⟩ := List.exists_cons_of_ne_nil more
    by_contra outside
    rw [walk_outside outside] at walked
    cases walked
  induction walks with
  | @arrived links => exact Or.inl ⟨links, walked, avoids⟩
  | here inside _ inductionHypothesis =>
    have now := entered walked (by simp)
    rw [List.cons_append, walk_dot now] at walked
    rw [List.cons_append, followedLinks_dot now] at avoids
    rcases inductionHypothesis avoids walked with left | ⟨last, _, itself⟩
    · exact Or.inl left
    · exact Or.inr ⟨last, by simp, itself⟩
  | up inside _ inductionHypothesis =>
    have now := entered walked (by simp)
    rw [List.cons_append, walk_dotDot now] at walked
    rw [List.cons_append, followedLinks_dotDot now] at avoids
    rcases inductionHypothesis avoids walked with left | ⟨last, _, itself⟩
    · exact Or.inl left
    · exact Or.inr ⟨last, by simp, itself⟩
  | @enter links directory name others inside plain entry later inductionHypothesis =>
    have now := entered walked (by simp)
    rw [List.cons_append] at walked avoids
    -- If the walk ends here, it ends where it did before.
    have ends : others ++ rest = [] → location = directory ++ [name] →
        (∃ left, fs.walk follow left found rest = some location ∧
          Avoids home (fs.followedLinks follow left found rest)) := by
      intro nothing here
      obtain ⟨rfl, rfl⟩ := List.append_eq_nil_iff.mp nothing
      cases later
      exact ⟨0, by rw [walk_nil, here], by simp [Avoids, followedLinks, followedFrom]⟩
    cases present : fs.lookup (directory ++ [name]) with
    | none =>
      rw [walk_missing now plain present, Option.ite_none_right_eq_some] at walked
      exact Or.inl (ends walked.1 (Option.some.inj walked.2).symm)
    | some value =>
      cases value with
      | file inode =>
        rw [walk_file now plain present, Option.ite_none_right_eq_some] at walked
        exact Or.inl (ends walked.1 (Option.some.inj walked.2).symm)
      | directory =>
        rw [walk_enter now plain present] at walked
        rw [followedLinks_enter now plain present] at avoids
        rcases inductionHypothesis avoids walked with left | ⟨last, _, itself⟩
        · exact Or.inl left
        · exact Or.inr ⟨last, by simp, itself⟩
      | symlink target =>
        have inHome : home <+: directory ++ [name] := by
          by_contra outside
          rw [same.lookup _ outside, entry] at present
          cases present
        by_cases continues : others ++ rest = [] ∧ follow = false
        · rw [walk_link now plain present, if_pos continues] at walked
          exact Or.inl (ends continues.1 (Option.some.inj walked).symm)
        · rw [followedLinks_link now plain present continues] at avoids
          exact absurd inHome (avoids _ List.mem_cons_self)
  | last inside plain here entry itself => exact absurd arrives entry
  | @jump links directory name target others inside plain entry followed later
      inductionHypothesis =>
    have now := entered walked (by simp)
    rw [List.cons_append] at walked avoids
    have outside : ¬ home <+: directory ++ [name] := fun inHome =>
      same.linkFree _ target inHome entry
    have present : fs.lookup (directory ++ [name]) = some (.symlink target) := by
      rw [same.lookup _ outside, entry]
    by_cases continues : others ++ rest = [] ∧ follow = false
    · rw [walk_link now plain present, if_pos continues] at walked
      refine Or.inr ⟨(List.append_eq_nil_iff.mp continues.1).2, by simp, continues.2, target, ?_⟩
      rw [← Option.some.inj walked]
      exact present
    · rw [walk_link now plain present, if_neg continues, ← List.append_assoc] at walked
      rw [followedLinks_link now plain present continues, ← List.append_assoc] at avoids
      rcases inductionHypothesis (fun link member => avoids link (List.mem_cons_of_mem _ member))
        walked with left | ⟨last, _, itself⟩
      · exact Or.inl left
      · exact Or.inr ⟨last, by simp, itself⟩

/-! ### Walks in a tree -/

/-- A walk that ends at no entry ends in an existing directory. -/
theorem Walks.parent {fs : FileSystem} (tree : fs.IsTree) {follow : Bool}
    {found directory : Location} {links : Nat} {parts : List Bytes}
    (walks : fs.Walks follow found links directory parts)
    (begins : parts = [] → fs.lookup directory ≠ none) (missing : fs.lookup found = none) :
    fs.lookup found.dropLast = some .directory := by
  induction walks with
  | arrived => exact absurd missing (begins rfl)
  | here inside _ inductionHypothesis =>
    exact inductionHypothesis fun _ => by simp [inside]
  | up inside _ inductionHypothesis =>
    refine inductionHypothesis fun _ => ?_
    rw [tree.parent _ (by simp [inside])]
    simp
  | enter inside plain entry _ inductionHypothesis =>
    exact inductionHypothesis fun _ => by simp [entry]
  | last inside plain here entry itself =>
    rw [here, List.dropLast_concat]
    exact inside
  | @jump links directory name target rest inside plain entry followed _ inductionHypothesis =>
    refine inductionHypothesis fun _ => ?_
    unfold targetBase
    split
    · simp [tree.root]
    · simp [inside]

/-- A walk whose last name is `..` ends at a directory. -/
theorem Walks.directory_of_dotDot {fs : FileSystem} (tree : fs.IsTree) {follow : Bool}
    {found directory : Location} {links : Nat} {parts : List Bytes}
    (walks : fs.Walks follow found links directory parts)
    (final : parts.getLast? = some dotDot) : fs.lookup found = some .directory := by
  -- In every step but the last one the rest of the path has the same last name.
  have more : ∀ {name : Bytes} {rest : List Bytes}, (name :: rest).getLast? = some dotDot →
      name ≠ dotDot → rest ≠ [] ∧ rest.getLast? = some dotDot := by
    intro name rest final other
    cases rest with
    | nil => exact absurd (Option.some.inj final) other
    | cons next rest => exact ⟨List.cons_ne_nil _ _, by rwa [List.getLast?_cons_cons] at final⟩
  induction walks with
  | arrived => cases final
  | here inside _ inductionHypothesis =>
    exact inductionHypothesis (more final (by decide)).2
  | @up links directory rest inside later inductionHypothesis =>
    cases rest with
    | nil =>
      cases later
      exact tree.parent _ (by simp [inside])
    | cons next rest => exact inductionHypothesis (by rwa [List.getLast?_cons_cons] at final)
  | enter inside plain entry _ inductionHypothesis =>
    exact inductionHypothesis (more final plain.2).2
  | last inside plain here entry itself => exact absurd rfl (more final plain.2).1
  | jump inside plain entry followed _ inductionHypothesis =>
    obtain ⟨others, final⟩ := more final plain.2
    exact inductionHypothesis (by rw [List.getLast?_append_of_ne_nil _ others, final])

theorem resolve_directory_of_dotDot {fs : FileSystem} (tree : fs.IsTree) {follow : Bool}
    {path : Path} {location : Location} (resolved : fs.resolve follow path = some location)
    (final : path.native.parts.getLast? = some dotDot) :
    fs.lookup location = some .directory := by
  unfold resolve at resolved
  split at resolved
  · cases resolved
  · exact (walks_of_walk resolved).directory_of_dotDot tree final

/-- From inside a directory, names of which only the last can be `..` do not leave it, unless
there is no other name. -/
theorem Walks.inside {fs : FileSystem} {home : Location} {follow : Bool}
    {found directory : Location} {links : Nat} {parts : List Bytes}
    (walks : fs.Walks follow found links directory parts) (within : home <+: directory)
    (dots : ∀ front back, parts = front ++ dotDot :: back → back = [])
    (avoids : Avoids home (fs.followedLinks follow links directory parts)) :
    home <+: found ∨
      parts.getLast? = some dotDot ∧ found = home.dropLast ∧ fs.lookup home = some .directory := by
  have later : ∀ {name : Bytes} {rest : List Bytes},
      (∀ front back, name :: rest = front ++ dotDot :: back → back = []) →
      ∀ front back, rest = front ++ dotDot :: back → back = [] := by
    intro name rest dots front back same
    exact dots (name :: front) back (by rw [same, List.cons_append])
  have longer : ∀ {name : Bytes} {rest : List Bytes}, rest.getLast? = some dotDot →
      (name :: rest).getLast? = some dotDot := by
    intro name rest final
    rw [List.getLast?_cons, final]
    rfl
  have onward : ∀ {name : Bytes} {rest : List Bytes} {found : Location},
      (home <+: found ∨ rest.getLast? = some dotDot ∧ found = home.dropLast ∧
        fs.lookup home = some .directory) →
      home <+: found ∨ (name :: rest).getLast? = some dotDot ∧ found = home.dropLast ∧
        fs.lookup home = some .directory := by
    rintro name rest found (inHome | ⟨final, above⟩)
    · exact Or.inl inHome
    · exact Or.inr ⟨longer final, above⟩
  induction walks with
  | arrived => exact Or.inl within
  | here inside _ inductionHypothesis =>
    rw [followedLinks_dot inside] at avoids
    exact onward (inductionHypothesis within (later dots) avoids)
  | @up links directory rest inside walks _ =>
    obtain rfl := dots [] rest rfl
    cases walks
    by_cases same : directory = home
    · exact Or.inr ⟨rfl, by rw [same], same ▸ inside⟩
    · obtain ⟨below, rfl⟩ := within
      rcases List.eq_nil_or_concat below with rfl | ⟨front, last, rfl⟩
      · simp at same
      · refine Or.inl ?_
        rw [List.concat_eq_append, ← List.append_assoc, List.dropLast_concat]
        exact List.prefix_append _ _
  | enter inside plain entry _ inductionHypothesis =>
    rw [followedLinks_enter inside plain entry] at avoids
    exact onward (inductionHypothesis (within.trans (List.prefix_append _ _)) (later dots) avoids)
  | last inside plain here entry itself =>
    rw [here]
    exact Or.inl (within.trans (List.prefix_append _ _))
  | jump inside plain entry followed _ _ =>
    rw [followedLinks_link inside plain entry followed] at avoids
    exact absurd (within.trans (List.prefix_append _ _)) (avoids _ List.mem_cons_self)

/-! ### Calls that stay inside -/

/-- A file system that was changed only inside a directory. -/
structure Fenced (home : Location) (before fs : FileSystem) : Prop where
  same : SameOutside home before fs
  tree : fs.IsTree
  working : fs.workingDirectory = before.workingDirectory

section Fence

variable {home : Location} {before fs : FileSystem}

theorem Fenced.insert (fenced : Fenced home before fs) {location : Location}
    (inHome : home <+: location) (free : fs.lookup location = none)
    (inside : fs.lookup location.dropLast = some .directory) (entry : Entry) :
    Fenced home before (fs.insert location entry) where
  same := by
    refine ⟨fun other outside => ?_, fenced.same.linkFree⟩
    have different : other ≠ location := fun same => outside (same ▸ inHome)
    rw [lookup_insert, if_neg different, fenced.same.lookup _ outside]
  tree := fenced.tree.insert free inside entry
  working := fenced.working

theorem Fenced.erase (fenced : Fenced home before fs) {location : Location}
    (inHome : home <+: location) (inner : location ≠ [])
    (leaf : ∀ place, fs.lookup place ≠ none → place ≠ location → place.dropLast ≠ location) :
    Fenced home before (fs.erase location) where
  same := by
    refine ⟨fun other outside => ?_, fenced.same.linkFree⟩
    have different : other ≠ location := fun same => outside (same ▸ inHome)
    rw [lookup_erase, if_neg different, fenced.same.lookup _ outside]
  tree := fenced.tree.erase inner leaf
  working := fenced.working

theorem Fenced.setFile (fenced : Fenced home before fs) (inode : Nat) (data : FileData) :
    Fenced home before (fs.setFile inode data) :=
  ⟨⟨fenced.same.lookup, fenced.same.linkFree⟩, ⟨fenced.tree.root, fenced.tree.parent⟩,
    fenced.working⟩

/-- A call left the file system outside a directory as it was, and every change it reports is
inside. -/
def Stays {Value : Type} (home : Location) (before : FileSystem) (outcome : Outcome Value) : Prop :=
  Fenced home before outcome.fs ∧ ∀ effect ∈ outcome.effects, home <+: effect.location

theorem stays_unchanged {Value : Type} (fenced : Fenced home before fs) (reply : Value) :
    Stays home before (fs.unchanged reply) :=
  ⟨fenced, fun _ never => by cases never⟩

theorem stays_of_one {Value : Type} {outcome : Outcome Value} {effect : Effect}
    (fenced : Fenced home before outcome.fs) (only : outcome.effects = [effect])
    (inHome : home <+: effect.location) : Stays home before outcome := by
  refine ⟨fenced, fun other member => ?_⟩
  rw [only, List.mem_singleton] at member
  rwa [member]

/-- What a path resolves to and does not exist lies in an existing directory. -/
theorem IsTree.resolve_parent (tree : fs.IsTree) {follow : Bool} {path : Path}
    {location : Location} (resolved : fs.resolve follow path = some location)
    (missing : fs.lookup location = none) : fs.lookup location.dropLast = some .directory := by
  unfold resolve at resolved
  split at resolved
  · cases resolved
  · rename_i something
    refine (walks_of_walk resolved).parent tree (fun nothing => ?_) missing
    have rooted : path.native.rooted = true := by
      simpa [Path.isEmpty, nothing] using something
    simp [start, rooted, tree.root]

/-- A new entry inside is the only change. -/
theorem stays_insert {Value : Type} (fenced : Fenced home before fs) {follow : Bool} {path : Path}
    {location : Location} (resolved : fs.resolve follow path = some location)
    (free : fs.lookup location = none) (inHome : home <+: location) (reply : Value) (entry : Entry)
    {effect : Effect} (there : effect.location = location) :
    Stays home before ⟨reply, fs.insert location entry, [effect]⟩ :=
  stays_of_one (fenced.insert inHome free (fenced.tree.resolve_parent resolved free) entry) rfl
    (there ▸ inHome)

theorem createDirectory_stays (fenced : Fenced home before fs) {path : Path}
    (lands : ∀ location, fs.resolve false path = some location → fs.lookup location = none →
      home <+: location) : Stays home before (fs.createDirectory path) := by
  unfold createDirectory
  split
  · exact stays_unchanged fenced _
  · split
    · exact stays_unchanged fenced _
    · rename_i location resolved
      split
      · exact stays_unchanged fenced _
      · rename_i free
        exact stays_insert fenced resolved free (lands location resolved free) _ _ rfl

theorem openTruncate_stays (fenced : Fenced home before fs) {path : Path}
    (lands : ∀ location, fs.resolve true path = some location →
      fs.lookup location ≠ some .directory → home <+: location) :
    Stays home before (fs.openTruncate path) ∧
      ∀ handle, (fs.openTruncate path).reply = some handle → home <+: handle.location := by
  obtain same | ⟨location, -, resolved, ⟨free, same⟩ | ⟨inode, entry, same⟩⟩ :=
    openTruncate_cases fs path
  · rw [same]
    exact ⟨stays_unchanged fenced _, fun _ never => by cases never⟩
  · have inHome := lands location resolved (by simp [free])
    have next : Fenced home before { fs with nextInode := fs.nextInode + 1 } :=
      ⟨⟨fenced.same.lookup, fenced.same.linkFree⟩, ⟨fenced.tree.root, fenced.tree.parent⟩,
        fenced.working⟩
    have entered := next.insert inHome free (fenced.tree.resolve_parent resolved free)
      (.file fs.nextInode)
    rw [same]
    refine ⟨stays_of_one (entered.setFile _ _) rfl inHome, fun handle opened => ?_⟩
    cases opened
    exact inHome
  · have inHome := lands location resolved (by simp [entry])
    rw [same]
    refine ⟨stays_of_one (fenced.setFile _ _) rfl inHome, fun handle opened => ?_⟩
    cases opened
    exact inHome

theorem setPermissions_stays (fenced : Fenced home before fs) {path : Path}
    (lands : ∀ location, fs.resolve true path = some location → home <+: location) (mode : Nat) :
    Stays home before (fs.setPermissions path mode) := by
  unfold setPermissions
  split
  · exact stays_unchanged fenced _
  · rename_i location resolved
    have inHome := lands location resolved
    split
    · split
      · exact stays_unchanged fenced _
      · exact stays_of_one (fenced.setFile _ _) rfl inHome
    · exact stays_of_one fenced rfl inHome
    · exact stays_unchanged fenced _

theorem remove_stays (fenced : Fenced home before fs) {path : Path}
    (lands : ∀ location, fs.resolve false path = some location →
      home <+: location ∨ fs.lookup location = some .directory ∧ fs.isLeaf location = false ∨
        path.native.trailing = true ∧ fs.lookup location ≠ some .directory) :
    Stays home before (fs.remove path) := by
  unfold remove
  split
  · exact stays_unchanged fenced _
  · rename_i location resolved
    split
    · exact stays_unchanged fenced _
    · rename_i present
      split
      · rename_i removable
        obtain ⟨inner, leaf, -⟩ := removable
        obtain inHome | ⟨-, full⟩ | ⟨-, other⟩ := lands location resolved
        · refine stays_of_one (fenced.erase inHome inner fun place present different same => ?_)
            rfl inHome
          exact different (isLeaf_below leaf present (same ▸ List.dropLast_prefix place))
        · rw [leaf] at full
          cases full
        · exact absurd present other
      · exact stays_unchanged fenced _
    · rename_i entry other present
      split
      · exact stays_unchanged fenced _
      · rename_i plain
        obtain inHome | ⟨directory, -⟩ | ⟨trailing, -⟩ := lands location resolved
        · refine stays_of_one (fenced.erase inHome ?_ fun place below _ same => ?_) rfl inHome
          · rintro rfl
            rw [fenced.tree.root] at present
            exact other (Option.some.inj present).symm
          · have parent := fenced.tree.parent place below
            rw [same, present] at parent
            exact other (Option.some.inj parent)
        · rw [present] at directory
          exact absurd (Option.some.inj directory) other
        · exact absurd trailing plain

theorem createSymlink_stays (fenced : Fenced home before fs) {path : Path}
    (lands : ∀ location, fs.resolve false path = some location → fs.lookup location = none →
      home <+: location) (target : Bytes) :
    Stays home before (fs.createSymlink target path) := by
  unfold createSymlink
  split
  · exact stays_unchanged fenced _
  · split
    · exact stays_unchanged fenced _
    · rename_i location resolved
      split
      · exact stays_unchanged fenced _
      · rename_i free
        exact stays_insert fenced resolved free (lands location resolved free) _ _ rfl

/-! ### Where checked names lead -/

/-- A path that the receiver makes from a checked name. -/
def Below (outputDir path : Path) : Prop :=
  ∃ names, names ≠ [] ∧ (∀ name ∈ names, SafeName name) ∧
    path = ⟨outputDir.rooted, outputDir.parts ++ names, false⟩

theorem Fenced.start (fenced : Fenced home before fs) {path other : Path}
    (same : path.rooted = other.rooted) : fs.start path = before.start other := by
  unfold FileSystem.start
  rw [same, fenced.working]

/-- A checked name leads into the output directory, or with `..` to the directory above it, or
it names the output directory as a link, which only a path with a separator at the end does. -/
theorem Fenced.lands (fenced : Fenced home before fs) {outputDir path : Path}
    (named : before.Names outputDir home) (below : Below outputDir path) {follow : Bool}
    {location : Location} (resolved : fs.resolve follow path = some location)
    (avoids : Avoids home (fs.followed follow path)) :
    home <+: location ∨
      (path.native.parts.getLast? = some dotDot ∧ fs.lookup location = some .directory ∧
        fs.isLeaf location = false) ∨
      (follow = false ∧ path.native.trailing = true ∧
        ∃ target, fs.lookup location = some (.symlink target)) := by
  obtain ⟨names, more, safe, rfl⟩ := below
  obtain ⟨cut, trailing, native, dots, nothing⟩ :=
    @Path.native_names outputDir.rooted _ _ named.1 safe
  obtain ⟨-, walks⟩ := named.walks
  unfold resolve at resolved
  unfold followed at avoids
  rw [native] at resolved avoids ⊢
  split at resolved
  · cases resolved
  rename_i something
  rw [if_neg something] at avoids
  have begins : fs.start ⟨outputDir.rooted, outputDir.parts ++ cut, trailing⟩ =
      before.start outputDir := fenced.start rfl
  rw [begins] at resolved avoids
  rcases walks.sameOutside fenced.same named.2.2 avoids resolved with
    ⟨left, walked, avoided⟩ | ⟨rfl, front, unfollowed, link⟩
  · rcases (walks_of_walk walked).inside (List.prefix_refl _) dots avoided with
      inHome | ⟨final, above, inside⟩
    · exact Or.inl inHome
    · by_cases root : home = []
      · exact Or.inl (root ▸ List.nil_prefix)
      refine Or.inr (Or.inl ⟨?_, (walks_of_walk walked).directory_of_dotDot fenced.tree final, ?_⟩)
      · simp [List.getLast?_append, final]
      · refine Bool.eq_false_of_not_eq_true fun leaf => ?_
        have below : location <+: home := above ▸ List.dropLast_prefix home
        have same := isLeaf_below leaf (by simp [inside]) below
        have length := congrArg List.length (same.trans above)
        have positive := List.length_pos_of_ne_nil root
        rw [List.length_dropLast] at length
        omega
  · refine Or.inr (Or.inr ⟨unfollowed, ?_, link⟩)
    rcases nothing rfl with never | separator
    · exact absurd never more
    · rw [separator]
      simpa using front

/-- A directory on the way to the output directory is still there, or was inside it. -/
theorem Fenced.lands_above (fenced : Fenced home before fs) {outputDir : Path}
    (named : before.Names outputDir home) {front back : List Bytes}
    (parts : outputDir.parts = front ++ back) {location : Location}
    (resolved : fs.resolve false ⟨outputDir.rooted, front, false⟩ = some location)
    (avoids : Avoids home (fs.followed false ⟨outputDir.rooted, front, false⟩))
    (missing : fs.lookup location = none) : home <+: location := by
  obtain ⟨-, walks⟩ := named.walks
  rw [parts] at walks
  obtain ⟨middle, walked, present⟩ := walks.front named.2.2
  have free : Path.NulFree ⟨outputDir.rooted, front, false⟩ := fun part member =>
    named.1 part (by rw [parts]; exact List.mem_append_left _ member)
  unfold resolve at resolved
  unfold followed at avoids
  rw [Path.native_of_nulFree free] at resolved avoids
  split at resolved
  · cases resolved
  rename_i something
  rw [if_neg something] at avoids
  have begins : fs.start ⟨outputDir.rooted, front, false⟩ = before.start outputDir :=
    fenced.start rfl
  rw [begins] at resolved avoids
  rw [← List.append_nil front] at resolved avoids
  rcases (walks_of_walk walked).sameOutside fenced.same present avoids resolved with
    ⟨left, arrived, -⟩ | ⟨-, -, -, target, link⟩
  · rw [walk_nil] at arrived
    obtain rfl := Option.some.inj arrived
    by_contra outside
    rw [fenced.same.lookup _ outside, present] at missing
    cases missing
  · rw [missing] at link
    cases link

/-- Opening an output file stays inside, and so does the file. -/
theorem Fenced.openTruncate (fenced : Fenced home before fs) {outputDir path : Path}
    (named : before.Names outputDir home) (below : Below outputDir path)
    (avoids : Avoids home (fs.followed true path)) :
    Stays home before (fs.openTruncate path) ∧ ∀ handle,
      (fs.openTruncate path).reply = some handle →
        home <+: handle.location ∧ path.native.parts.getLast? ≠ some dotDot := by
  have lands : ∀ location, fs.resolve true path = some location →
      fs.lookup location ≠ some .directory → home <+: location := by
    intro location resolved other
    obtain inHome | ⟨-, directory, -⟩ | ⟨never, -⟩ := fenced.lands named below resolved avoids
    · exact inHome
    · exact absurd directory other
    · cases never
  obtain ⟨stays, opens⟩ := openTruncate_stays fenced lands
  refine ⟨stays, fun handle opened => ⟨opens handle opened, fun final => ?_⟩⟩
  obtain ⟨⟨-, resolves, entry⟩, -⟩ := opens_of_openTruncate opened
  rw [resolve_directory_of_dotDot stays.1.tree resolves final] at entry
  cases entry

end Fence

end FileSystem

open FileSystem

/-! ### The calls of a thread -/

/-- The links that lie on the way to what a call may change. -/
def Call.follows : Call → World → List Location
  | .createDirectory path, world | .remove path, world | .createSymlink _ path, world =>
      world.fs.followed false path
  | .openTruncate path, world | .openReadWrite path, world | .setPermissions path _, world =>
      world.fs.followed true path
  | .prepare path _ _, world =>
      if world.shared.initialized then [] else world.fs.followed true path
  | _, _ => []

section Threads

variable (home : Location) (outputDir : Path) (before : FileSystem)

/-- The calls of the receiver: its paths lie below the output directory, except where it
creates the directories on the way there. -/
def Call.Fits : Call → Prop
  | .createDirectory path => Below outputDir path ∨
      ∃ front back, outputDir.parts = front ++ back ∧ path = ⟨outputDir.rooted, front, false⟩
  | .openTruncate path | .openReadWrite path | .remove path | .createSymlink _ path
  | .prepare path _ _ => Below outputDir path
  | .setPermissions path _ => Below outputDir path ∧ path.native.parts.getLast? ≠ some dotDot
  | .write handle _ _ | .close handle => home <+: handle.location
  | .openPipe _ | .writePipe _ | .closePipe => True

/-- What a reply tells the thread about its next calls. -/
def Call.Grants : (request : Call) → Reply request → Prop
  | .openTruncate path, reply => ∀ handle, reply = some handle →
      home <+: handle.location ∧ path.native.parts.getLast? ≠ some dotDot
  | .openReadWrite _, reply => ∀ handle, reply = some handle → home <+: handle.location
  | .prepare _ _ _, reply => ∀ path, reply = .ok path → Below outputDir path
  | _, _ => True

/-- All changes so far were made inside the output directory. -/
structure Guarded (world : World) : Prop where
  fenced : Fenced home before world.fs
  history : ∀ effect ∈ world.history, home <+: effect.location
  output : world.shared.initialized = true → Below outputDir world.shared.outputPath

variable {home outputDir before}

theorem Guarded.onFiles {world : World} {Value : Type} {outcome : Outcome Value}
    (guarded : Guarded home outputDir before world) (stays : Stays home before outcome) :
    Guarded home outputDir before (world.onFiles outcome).2 where
  fenced := stays.1
  history effect member := by
    rcases List.mem_append.mp member with old | new
    · exact guarded.history effect old
    · exact stays.2 effect new
  output := guarded.output

theorem prepare_guarded (named : before.Names outputDir home) {path : Path}
    (below : Below outputDir path) (fault : Fault) (name : Bytes) (size : UInt64) {world : World}
    (guarded : Guarded home outputDir before world)
    (avoids : Avoids home ((Call.prepare path name size).follows world)) :
    Guarded home outputDir before (prepare fault path name size world).2 ∧
      ∀ output, (prepare fault path name size world).1 = .ok output → Below outputDir output := by
  have opening : world.shared.initialized = false →
      Stays home before (world.fs.openTruncate path) ∧ ∀ handle,
        (world.fs.openTruncate path).reply = some handle → home <+: handle.location := by
    intro fresh
    rw [Call.follows, fresh, if_neg (by simp)] at avoids
    obtain ⟨stays, opens⟩ := guarded.fenced.openTruncate named below avoids
    exact ⟨stays, fun handle opened => (opens handle opened).1⟩
  obtain ⟨-, same⟩ | ⟨initialized, -, -, same⟩ | ⟨fresh, _, fs, effects, same, changes⟩ |
      ⟨fresh, handle, fs, opened, files, same⟩ := prepare_cases fault path name size world
  · rw [same]
    exact ⟨guarded, fun _ never => by cases never⟩
  · rw [same]
    refine ⟨guarded, fun output reply => ?_⟩
    injection reply with reply
    exact reply ▸ guarded.output initialized
  · have stays : Fenced home before fs ∧ ∀ effect ∈ effects, home <+: effect.location := by
      rcases changes with ⟨rfl, rfl⟩ | ⟨handle, -, rfl, rfl⟩
      · exact ⟨guarded.fenced, fun _ never => by cases never⟩
      · exact (opening fresh).1
    rw [same]
    refine ⟨⟨stays.1, fun effect member => ?_, fun _ => below⟩, fun _ never => by cases never⟩
    rcases List.mem_append.mp member with old | new
    · exact guarded.history effect old
    · exact stays.2 effect new
  · obtain ⟨stays, opens⟩ := opening fresh
    rw [same]
    refine ⟨⟨files ▸ stays.1.setFile _ _, fun effect member => ?_, fun _ => below⟩,
      fun output reply => ?_⟩
    · simp only [List.mem_append, List.mem_singleton] at member
      rcases member with old | new | rfl
      · exact guarded.history effect old
      · exact stays.2 effect new
      · exact opens handle opened
    · injection reply with reply
      exact reply ▸ below

/-- A call of the receiver stays inside the output directory, unless it follows a link in
it. -/
theorem performCall_guarded (named : before.Names outputDir home) {request : Call}
    (fits : request.Fits home outputDir) {world : World}
    (guarded : Guarded home outputDir before world)
    (avoids : Avoids home (request.follows world)) :
    Guarded home outputDir before (performCall request world).2 ∧
      request.Grants home outputDir (performCall request world).1 := by
  have fenced := guarded.fenced
  cases request with
  | createDirectory path =>
    refine ⟨guarded.onFiles (createDirectory_stays fenced fun location resolved missing => ?_),
      trivial⟩
    rcases fits with below | ⟨front, back, parts, rfl⟩
    · obtain inHome | ⟨-, directory, -⟩ | ⟨-, -, target, link⟩ :=
        fenced.lands named below resolved avoids
      · exact inHome
      · rw [missing] at directory
        cases directory
      · rw [missing] at link
        cases link
    · exact fenced.lands_above named parts resolved avoids missing
  | openTruncate path =>
    obtain ⟨stays, opens⟩ := fenced.openTruncate named fits avoids
    exact ⟨guarded.onFiles stays, opens⟩
  | openReadWrite path =>
    obtain ⟨same, opens⟩ := perform_openReadWrite .none path world
    rw [perform_none] at same opens
    refine ⟨by rwa [same], fun handle opened => ?_⟩
    obtain ⟨-, resolved, entry⟩ := opens handle opened
    obtain inHome | ⟨-, directory, -⟩ | ⟨never, -⟩ := fenced.lands named fits resolved avoids
    · exact inHome
    · rw [entry] at directory
      cases directory
    · cases never
  | write handle position bytes =>
    exact ⟨guarded.onFiles (stays_of_one (fenced.setFile _ _) rfl fits), trivial⟩
  | setPermissions path mode =>
    refine ⟨guarded.onFiles (setPermissions_stays fenced (fun location resolved => ?_) mode),
      trivial⟩
    obtain inHome | ⟨final, -⟩ | ⟨never, -⟩ := fenced.lands named fits.1 resolved avoids
    · exact inHome
    · exact absurd final fits.2
    · cases never
  | remove path =>
    refine ⟨guarded.onFiles (remove_stays fenced fun location resolved => ?_), trivial⟩
    obtain inHome | ⟨-, full⟩ | ⟨-, trailing, target, link⟩ :=
      fenced.lands named fits resolved avoids
    · exact Or.inl inHome
    · exact Or.inr (Or.inl full)
    · exact Or.inr (Or.inr ⟨trailing, by simp [link]⟩)
  | createSymlink target path =>
    refine ⟨guarded.onFiles (createSymlink_stays fenced (fun location resolved missing => ?_) _),
      trivial⟩
    obtain inHome | ⟨-, directory, -⟩ | ⟨-, -, target, link⟩ :=
      fenced.lands named fits resolved avoids
    · exact inHome
    · rw [missing] at directory
      cases directory
    · rw [missing] at link
      cases link
  | prepare path name size => exact prepare_guarded named fits .none name size guarded avoids
  | openPipe command => exact ⟨⟨fenced, guarded.history, guarded.output⟩, trivial⟩
  | writePipe bytes => exact ⟨⟨fenced, guarded.history, guarded.output⟩, trivial⟩
  | close _ | closePipe => exact ⟨guarded, trivial⟩

/-- The same under any failure of the environment. -/
theorem perform_guarded (named : before.Names outputDir home) (fault : Fault) {request : Call}
    (fits : request.Fits home outputDir) {world : World}
    (guarded : Guarded home outputDir before world)
    (avoids : Avoids home (request.follows world)) :
    Guarded home outputDir before (perform fault request world).2 ∧
      request.Grants home outputDir (perform fault request world).1 := by
  have refused : ∀ request : Call, request.Grants home outputDir (refusal request) := by
    intro request
    cases request with
    | openTruncate path => exact fun _ never => by cases never
    | openReadWrite path => exact fun _ never => by cases never
    | prepare path name size => exact fun _ never => by cases never
    | _ => trivial
  by_cases smooth : fault = .none
  · rw [smooth, perform_none]
    exact performCall_guarded named fits guarded avoids
  · cases request with
    | prepare path name size => exact prepare_guarded named fits fault name size guarded avoids
    | write handle position bytes =>
      simp only [perform, if_neg smooth]
      exact ⟨guarded, trivial⟩
    | close output =>
      obtain same | same := perform_close fault output world
      · exact ⟨by rwa [same], trivial⟩
      · rw [same]
        exact ⟨guarded.onFiles (stays_of_one (guarded.fenced.setFile _ _) rfl fits), trivial⟩
    | _ =>
      simp only [perform, if_neg smooth]
      exact ⟨guarded, refused _⟩

/-! ### The code of a thread -/

variable (home outputDir before)

/-- Code that makes only calls of the receiver. Nothing is asked of the other threads but the
invariant, and nothing is said about how the code ends. -/
def Careful {Value : Type} (code : Receiver Value) : Prop :=
  ∀ (state : StreamState) (world : World), (code state).Meets perform
    (fun _ request world => Avoids home (request.follows world)) (Guarded home outputDir before)
    (fun _ _ => True) (fun _ _ => True) (fun _ _ => True) world

variable {home outputDir before}

section Rules

variable {Value Other : Type}

theorem Careful.done {code : Receiver Value}
    (done : ∀ state, ∃ outcome, code state = .done outcome) :
    Careful home outputDir before code := by
  intro state world
  obtain ⟨outcome, same⟩ := done state
  rw [same]
  exact Program.Meets.done fun _ _ _ => trivial

theorem Careful.pure (value : Value) :
    Careful home outputDir before (Pure.pure value : Receiver Value) :=
  Careful.done fun state => ⟨(.ok value, state), rfl⟩

theorem Careful.fail (error : Error) :
    Careful home outputDir before (Receiver.fail error : Receiver Value) :=
  Careful.done fun state => ⟨(.error error, state), rfl⟩

theorem Careful.read (reader : Connection → Except Error (Value × Connection)) :
    Careful home outputDir before (Receiver.read reader) := by
  refine Careful.done fun state => ?_
  unfold Receiver.read
  split
  · exact ⟨_, rfl⟩
  · exact ⟨_, rfl⟩

theorem Careful.bind {code : Receiver Value} {continuation : Value → Receiver Other}
    (first : Careful home outputDir before code)
    (rest : ∀ value, Careful home outputDir before (continuation value)) :
    Careful home outputDir before (code >>= continuation) := by
  intro state world
  refine Program.Meets.bind (fun _ => trivial) ((first state world).weaken fun outcome world _ _ => ?_)
  obtain ⟨reply, last⟩ := outcome
  cases reply with
  | error error => exact Program.Meets.done fun _ _ _ => trivial
  | ok value => exact rest value last world

/-- After a check the code knows that its outcome was accepted. -/
theorem Careful.check {outcome : Except Error Value} {continuation : Value → Receiver Other}
    (rest : ∀ value, outcome = .ok value → Careful home outputDir before (continuation value)) :
    Careful home outputDir before (Receiver.check outcome >>= continuation) := by
  intro state world
  cases reply : outcome with
  | error error => exact Program.Meets.done fun _ _ _ => trivial
  | ok value => exact rest value reply state world

theorem Careful.invoke (named : before.Names outputDir home) {request : Call}
    {continuation : Reply request → Receiver Other} (fits : request.Fits home outputDir)
    (rest : ∀ reply, request.Grants home outputDir reply →
      Careful home outputDir before (continuation reply)) :
    Careful home outputDir before (Receiver.invoke request >>= continuation) := by
  intro state world
  refine invoke_meets fun later _ guarded fault avoids => ?_
  obtain ⟨keeps, grants⟩ := perform_guarded named fault fits guarded avoids
  exact ⟨_, _, rfl, keeps, trivial, rest _ grants state _⟩

end Rules

theorem careful_createEach (named : before.Names outputDir home) {paths : List Path}
    (fit : ∀ path ∈ paths, (Call.createDirectory path).Fits home outputDir) :
    Careful home outputDir before (createEach paths) := by
  induction paths with
  | nil => exact Careful.pure _
  | cons path rest inductionHypothesis =>
    rw [List.forall_mem_cons] at fit
    refine Careful.invoke named fit.1 fun reply _ => ?_
    cases reply with
    | ok _ => exact inductionHypothesis fit.2
    | error errno => exact Careful.pure _

/-- The directories on the way to a checked name. -/
theorem fits_ancestry {names : List Bytes} (safe : ∀ name ∈ names, SafeName name) (path : Path)
    (member : path ∈ Path.ancestry ⟨outputDir.rooted, outputDir.parts ++ names, false⟩) :
    (Call.createDirectory path).Fits home outputDir := by
  obtain ⟨front, initial, rfl⟩ := List.mem_map.mp member
  have part : front <+: outputDir.parts ++ names :=
    (List.mem_inits _ _).mp (List.mem_of_mem_tail initial)
  rcases List.prefix_or_prefix_of_prefix part (List.prefix_append outputDir.parts names) with
    ⟨back, whole⟩ | ⟨more, rfl⟩
  · exact Or.inr ⟨front, back, whole.symm, rfl⟩
  · by_cases nothing : more = []
    · exact Or.inr ⟨_, [], by simp [nothing], rfl⟩
    · refine Or.inl ⟨more, nothing, fun name inner => safe name ?_, rfl⟩
      exact ((List.prefix_append_right_inj _).mp part).subset inner

theorem careful_createDirectories (named : before.Names outputDir home) {names : List Bytes}
    (safe : ∀ name ∈ names, SafeName name) :
    Careful home outputDir before
      (createDirectories ⟨outputDir.rooted, outputDir.parts ++ names, false⟩) := by
  unfold createDirectories
  split
  · exact Careful.pure _
  · exact careful_createEach named (fits_ancestry safe)

theorem careful_createDirectoriesOrThrow (named : before.Names outputDir home)
    {names : List Bytes} (safe : ∀ name ∈ names, SafeName name) :
    Careful home outputDir before
      (createDirectoriesOrThrow ⟨outputDir.rooted, outputDir.parts ++ names, false⟩) := by
  refine (careful_createDirectories named safe).bind fun reply => ?_
  cases reply with
  | ok _ => exact Careful.pure _
  | error errno => exact Careful.fail _

theorem careful_receivePayload (named : before.Names outputDir home) {output : Handle}
    (inHome : home <+: output.location) (closed : Error) (counted : Bool) (position size : Nat) :
    Careful home outputDir before (receivePayload closed counted output position size) := by
  intro state world
  have fits : ∀ start bytes, (Call.write output start bytes).Fits home outputDir :=
    fun _ _ => inHome
  have payload : (receivePayload closed counted output (position + 0) (size - 0) state).Meets
      perform (fun _ request world => Avoids home (request.follows world))
      (Guarded home outputDir before) (fun _ _ => True) (fun _ _ => True)
      (Delivered (False ∧ _) state _ _ _) world :=
    receivePayload_meets (fun _ _ _ _ (_ : True) => trivial)
      (fun bytes done world fault _ _ guarded _ avoids =>
        ⟨(perform_guarded named fault (fits _ bytes) guarded avoids).1, trivial, False.elim,
          fun _ => trivial⟩)
      0 (Nat.zero_le _) state world rfl trivial
  exact payload.weaken fun _ _ _ _ => trivial

/-- The path of the fallback file is made from the same name with a longer end. -/
theorem below_fallback {path : Path} (below : Below outputDir path)
    (wellFormed : outputDir.WellFormed) :
    Below outputDir (Path.parse (path.string ++ fallbackSuffix)) := by
  obtain ⟨names, more, safe, rfl⟩ := below
  obtain ⟨front, last, rfl⟩ := (List.eq_nil_or_concat names).resolve_left more
  rw [List.concat_eq_append] at safe ⊢
  have all : ∀ name ∈ front ++ [last ++ fallbackSuffix], SafeName name := by
    intro name member
    rcases List.mem_append.mp member with early | final
    · exact safe name (List.mem_append_left _ early)
    · rw [List.mem_singleton.mp final]
      exact (safe last (by simp)).append (by decide) (by decide)
  exact ⟨front ++ [last ++ fallbackSuffix], by simp, all, Path.parse_string_append wellFormed all⟩

theorem careful_createSymlinkOrFallback (named : before.Names outputDir home)
    (wellFormed : outputDir.WellFormed) {path : Path} (below : Below outputDir path)
    (target : Bytes) :
    Careful home outputDir before (createSymlinkOrFallback target path) := by
  refine Careful.invoke named below fun _ _ => Careful.invoke named below fun created _ => ?_
  split
  · exact Careful.pure _
  · refine Careful.invoke named (below_fallback below wellFormed) fun opened granted => ?_
    cases opened with
    | none => exact Careful.fail _
    | some fallback =>
      exact Careful.invoke named (granted fallback rfl).1 fun _ _ => Careful.pure _

theorem careful_receiveDirectoryFile (named : before.Names outputDir home) {names : List Bytes}
    (more : names ≠ []) (safe : ∀ name ∈ names, SafeName name) (incoming : IncomingHeader) :
    Careful home outputDir before
      (receiveDirectoryFile ⟨outputDir.rooted, outputDir.parts ++ names, false⟩ incoming) := by
  have below : Below outputDir ⟨outputDir.rooted, outputDir.parts ++ names, false⟩ :=
    ⟨names, more, safe, rfl⟩
  have parents := careful_createDirectories named
    fun name member => safe name (List.mem_of_mem_dropLast member)
  rw [← List.dropLast_append_of_ne_nil more] at parents
  refine parents.bind fun reply => ?_
  cases reply with
  | error errno => exact Careful.fail _
  | ok _ =>
    refine Careful.invoke named below fun opened granted => ?_
    cases opened with
    | none => exact Careful.fail _
    | some output =>
      obtain ⟨inHome, final⟩ := granted output rfl
      refine (careful_receivePayload named inHome _ _ _ _).bind fun _ => ?_
      refine Careful.invoke named ⟨below, final⟩ fun _ _ => ?_
      exact Careful.invoke named inHome fun _ _ => Careful.pure _

theorem careful_receivePart {options : Options} (named : before.Names options.outputDir home)
    (incoming : IncomingHeader) :
    Careful home options.outputDir before (receivePart options incoming) := by
  refine Careful.check fun fileName accepted => ?_
  split
  · exact Careful.fail _
  · have safe := safeFileName_safe accepted
    have below : Below options.outputDir (options.outputDir / Path.parse fileName) := by
      refine ⟨[fileName], by simp, by simpa using safe, ?_⟩
      rw [Path.parse_name safe, Path.append_names _ (by simp)]
    refine Careful.invoke named below fun prepared granted => Careful.check fun output reply => ?_
    refine Careful.invoke named (granted output reply) fun opened granted => ?_
    cases opened with
    | none => exact Careful.fail _
    | some file =>
      simp only []
      split
      · exact Careful.fail _
      · exact careful_receivePayload named (granted file rfl) _ _ _ _

/-- Every record is received with calls of the receiver only. -/
theorem careful_receiveRecord {options : Options} (named : before.Names options.outputDir home)
    (wellFormed : options.outputDir.WellFormed) (incoming : IncomingHeader) :
    Careful home options.outputDir before (receiveRecord options incoming) := by
  obtain ⟨kind, payloadSize, nameSize, offset, totalSize, fileName⟩ := incoming
  cases kind with
  | file | filePart => exact careful_receivePart named _
  | directoryTar => exact Careful.fail _
  | directoryEntry =>
    refine Careful.check fun relative accepted => ?_
    obtain ⟨names, more, safe, rfl⟩ := safeRelativePath_safe accepted
    rw [Path.append_names _ more]
    exact careful_createDirectoriesOrThrow named safe
  | directoryFile =>
    refine Careful.check fun relative accepted => ?_
    obtain ⟨names, more, safe, rfl⟩ := safeRelativePath_safe accepted
    rw [Path.append_names _ more]
    exact careful_receiveDirectoryFile named more safe _
  | directorySymlink =>
    refine Careful.check fun relative accepted => ?_
    obtain ⟨names, more, safe, rfl⟩ := safeRelativePath_safe accepted
    rw [Path.append_names _ more]
    have parents := careful_createDirectoriesOrThrow named
      fun name member => safe name (List.mem_of_mem_dropLast member)
    rw [← List.dropLast_append_of_ne_nil more] at parents
    refine parents.bind fun _ => (Careful.read _).bind fun target => ?_
    refine (careful_createSymlinkOrFallback named wellFormed ⟨names, more, safe, rfl⟩ target).bind
      fun _ => ?_
    exact Careful.done fun state => ⟨_, rfl⟩

end Threads

/-! ### Runs -/

/-- All changes that a run has made were made inside a directory: it or what lies below it. -/
def ConfinedTo (home : Location) (world : World) : Prop :=
  ∀ effect ∈ world.history, home <+: effect.location

instance (home : Location) (world : World) : Decidable (ConfinedTo home world) :=
  inferInstanceAs (Decidable (∀ effect ∈ world.history, home <+: effect.location))

/-- No link lies in a directory. -/
def LinkFree (home : Location) (fs : FileSystem) : Prop :=
  ∀ location target, home <+: location → fs.lookup location ≠ some (.symlink target)

/-- Whatever the peers send and however the threads interleave, in every run in which no call
follows a link that lies in the output directory, every change is made inside the output
directory, in every state that is reached. -/
theorem receiver_confined (options : Options) (argument : Bytes)
    (parsed : options.outputDir = Path.parse argument) (fs : FileSystem) (home : Location)
    (named : fs.Names options.outputDir home) (tree : fs.IsTree) (linkFree : LinkFree home fs)
    {streams : Nat} (connections : Fin streams → Connection)
    (schedule : List (Fin streams × Fault))
    (avoids : (startReceive options fs connections).Admissible perform
      (fun _ request world => Avoids home (request.follows world)) schedule) :
    ConfinedTo home ((startReceive options fs connections).run perform schedule).world := by
  have begins : Guarded home options.outputDir fs (startReceive options fs connections).world :=
    ⟨⟨⟨fun _ _ => rfl, linkFree⟩, tree, rfl⟩, fun _ never => (by cases never),
      fun never => (by cases never)⟩
  have wellFormed : options.outputDir.WellFormed := parsed ▸ Path.parse_wellFormed argument
  have meet : (startReceive options fs connections).AllMeet perform
      (fun _ request world => Avoids home (request.follows world))
      (Guarded home options.outputDir fs) (fun _ _ _ => True) (fun _ _ _ => True)
      (fun _ _ _ => True) := by
    refine ⟨begins, fun stream => ?_⟩
    have record : ∀ incoming, True → ∀ (state : StreamState) (world : World),
        Guarded home options.outputDir fs world →
        (receiveRecord options incoming state).Meets perform
          (fun _ request world => Avoids home (request.follows world))
          (Guarded home options.outputDir fs) (fun _ _ => True) (fun _ _ => True)
          (fun _ _ => True) world :=
      fun incoming _ state world _ => careful_receiveRecord named wellFormed incoming state world
    exact receiveFilePart_meets_any (fun _ => trivial) record (connections stream) _
      fun _ _ => trivial
  have reached := Config.AllMeet.run (fun _ _ => trivial) (fun _ _ _ _ _ _ => trivial)
    (fun _ _ _ _ _ _ => trivial) schedule avoids meet
  exact reached.1.history

/-- A file system with an empty directory for incoming files, and a password file. -/
def smallHost : FileSystem where
  entries := [([], .directory), ([ascii "out"], .directory), ([ascii "etc"], .directory),
    ([ascii "etc", ascii "passwd"], .file 0)]
  files := fun _ => ⟨ascii "root", 0o644⟩
  nextInode := 1
  workingDirectory := []
  newFileMode := 0o644

theorem smallHost_isTree : smallHost.IsTree := isTree_of_entries (by decide) (by decide)

theorem smallHost_linkFree : LinkFree [ascii "out"] smallHost := by
  intro location target _ found
  have member := mem_of_lookup found
  simp [smallHost] at member

theorem smallHost_names : smallHost.Names (Path.parse (ascii "/out")) [ascii "out"] :=
  ⟨by decide, by decide, by decide⟩

/-- A link to another directory on one stream, and a file next to it on the other. -/
theorem receiver_confined_linkAside :
    ConfinedTo [ascii "out"] ((startReceive { outputDir := Path.parse (ascii "/out") } smallHost
      fun stream : Fin 2 => ⟨if stream = 0 then
          Record.bytes ⟨.directorySymlink, 4, 0, 0, ascii "a", ascii "/etc"⟩
        else Record.bytes ⟨.directoryFile, 1, 0, 0, ascii "b/f", ascii "x"⟩, []⟩).run perform
      [(0, .none), (1, .none), (0, .none), (0, .none), (1, .none), (1, .none), (1, .none),
        (1, .none)]).world :=
  receiver_confined { outputDir := Path.parse (ascii "/out") } (ascii "/out") rfl smallHost
    [ascii "out"] smallHost_names smallHost_isTree smallHost_linkFree _ _ (by decide +kernel)

/-- A link to another directory, and then a file through it: the receiver overwrites the
password file, although the output directory held no link and every name passed its check. -/
theorem linkThenFile_escapes :
    smallHost.Names (Path.parse (ascii "/out")) [ascii "out"] ∧ smallHost.IsTree ∧
      LinkFree [ascii "out"] smallHost ∧
      ¬ ConfinedTo [ascii "out"] ((startReceive { outputDir := Path.parse (ascii "/out") }
        smallHost fun stream : Fin 2 => ⟨if stream = 0 then
            Record.bytes ⟨.directorySymlink, 4, 0, 0, ascii "a", ascii "/etc"⟩ ++
              Record.bytes ⟨.directoryFile, 1, 0, 0, ascii "a/passwd", ascii "x"⟩
          else [], []⟩).run perform (List.replicate 9 (0, .none))).world :=
  ⟨smallHost_names, smallHost_isTree, smallHost_linkFree, by decide +kernel⟩

end HyperLink
