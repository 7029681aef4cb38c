/-
This file is `std::filesystem::path` on POSIX, as far as the file-transfer tool
uses it, and the two name checks of `examples/file_transfer.cpp`.

A path is kept as its decomposition: whether it starts at the root directory,
its non-empty filename elements, and whether it ends in a separator. Iteration,
`operator/`, `filename`, `parent_path` and `lexically_relative` are the C++17
definitions over these elements. The text of a path is not kept beside them, so a
separator that was typed twice is one here. The operating system reads a path as a
C string, so it sees only what stands before the first zero byte.
-/

import HyperLink.Wire

namespace HyperLink

def slash : UInt8 := 0x2F

def dot : Bytes := ascii "."

def dotDot : Bytes := ascii ".."

/-- The text of an exception, as `what()` returns it. -/
abbrev Error := Bytes

/-- A path by its elements. -/
structure Path where
  rooted : Bool
  parts : List Bytes
  trailing : Bool
  deriving DecidableEq, Repr

namespace Path

/-- The path of a string. Empty pieces between separators are no elements, but a separator
at the end gives a last, empty element. -/
def parse (text : Bytes) : Path :=
  let parts := (text.splitOn slash).filter (· ≠ [])
  { rooted := text.head? == some slash
    parts := parts
    trailing := parts ≠ [] && text.getLast? == some slash }

def isEmpty (path : Path) : Bool := !path.rooted && path.parts.isEmpty

/-- The elements that iteration over a path visits. -/
def elements (path : Path) : List Bytes :=
  (if path.rooted then [[slash]] else []) ++ path.parts ++ (if path.trailing then [[]] else [])

/-- The native string of a path, but for separators that stand twice in a row, which the library
keeps as they were given. They separate the same elements. -/
def string (path : Path) : Bytes :=
  (if path.rooted then [slash] else []) ++ [slash].intercalate path.parts ++
    (if path.trailing then [slash] else [])

def filename (path : Path) : Bytes :=
  if path.trailing then [] else path.parts.getLastD []

def parentPath (path : Path) : Path :=
  if path.trailing then { path with trailing := false }
  else { path with parts := path.parts.dropLast }

/-- The concatenation of two paths. An absolute right side replaces the left one; an empty
right side only adds a separator. -/
def append (left right : Path) : Path :=
  if right.rooted then right
  else if right.parts.isEmpty then { left with trailing := !left.parts.isEmpty }
  else { rooted := left.rooted, parts := left.parts ++ right.parts, trailing := right.trailing }

instance : Div Path := ⟨append⟩

/-- Drop the common leading elements of two paths. -/
def mismatch : List Bytes → List Bytes → List Bytes × List Bytes
  | left :: lefts, right :: rights =>
      if left = right then mismatch lefts rights else (left :: lefts, right :: rights)
  | lefts, rights => (lefts, rights)

def lexicallyRelative (path base : Path) : Path :=
  if path.rooted ≠ base.rooted then parse []
  else
    let (rest, baseRest) := mismatch path.elements base.elements
    let down := (baseRest.filter fun part => part ≠ [] ∧ part ≠ dot ∧ part ≠ dotDot).length
    let up := (baseRest.filter (· = dotDot)).length
    if rest = [] ∧ baseRest = [] then parse dot
    else if down < up then parse []
    else if down = up ∧ (rest = [] ∨ rest.head? = some []) then parse dot
    else (List.replicate (down - up) dotDot ++ rest).foldl (fun result part => result / parse part)
      (parse [])

/-! ### What the operating system sees -/

/-- Cut the elements at the first zero byte. The flag says that the cut left a separator at
the end; without a zero byte there is nothing to cut. -/
def cutAtNul : List Bytes → Option (List Bytes × Bool)
  | [] => none
  | part :: rest =>
      if 0 ∈ part then
        some (if part.takeWhile (· ≠ 0) = [] then ([], true)
          else ([part.takeWhile (· ≠ 0)], false))
      else (cutAtNul rest).map fun cut => (part :: cut.1, cut.2)

/-- The path that a system call receives through `c_str`. -/
def native (path : Path) : Path :=
  match cutAtNul path.parts with
  | none => path
  | some (parts, separator) =>
      { rooted := path.rooted, parts := parts, trailing := separator && !parts.isEmpty }

/-- The paths that `create_directories` creates where they are missing, outermost first. -/
def ancestry (path : Path) : List Path :=
  path.parts.inits.tail.map fun parts =>
    { rooted := path.rooted, parts := parts, trailing := false }

/-- A path has no zero byte, as every command-line argument. -/
def NulFree (path : Path) : Prop := ∀ part ∈ path.parts, (0 : UInt8) ∉ part

instance (path : Path) : Decidable path.NulFree :=
  inferInstanceAs (Decidable (∀ part ∈ path.parts, (0 : UInt8) ∉ part))

end Path

/-! ### The checks on incoming names -/

def safeFileName (name : Bytes) : Except Error Bytes :=
  let path := (Path.parse name).filename
  if path = [] ∨ path = dot ∨ path = dotDot then .error (ascii "invalid incoming file name")
  else .ok path

def safeRelativePath (name : Bytes) : Except Error Path :=
  let path := Path.parse name
  if path.isEmpty ∨ path.rooted then .error (ascii "invalid incoming relative path")
  else if path.elements.any fun part => part = dot ∨ part = dotDot ∨ part = [] then
    .error (ascii "invalid incoming relative path")
  else .ok path

def wirePath (path : Path) : Bytes := path.string

/-- What the checks let through: one element, neither of the two dot names. -/
def SafeName (name : Bytes) : Prop :=
  name ≠ [] ∧ slash ∉ name ∧ name ≠ dot ∧ name ≠ dotDot

instance (name : Bytes) : Decidable (SafeName name) :=
  inferInstanceAs (Decidable (_ ∧ _ ∧ _ ∧ _))

/-- A name that a directory can hold. -/
def EntryName (name : Bytes) : Prop := SafeName name ∧ (0 : UInt8) ∉ name

instance (name : Bytes) : Decidable (EntryName name) :=
  inferInstanceAs (Decidable (_ ∧ _))

/-- A name that becomes longer stays a name. -/
theorem SafeName.append {name suffix : Bytes} (safe : SafeName name) (free : slash ∉ suffix)
    (long : 2 ≤ suffix.length) : SafeName (name ++ suffix) := by
  have some := List.length_pos_of_ne_nil safe.1
  refine ⟨by simp [safe.1], by simp [safe.2.1, free], ?_, ?_⟩
  all_goals
    intro same
    have length := congrArg List.length same
    simp only [List.length_append, dot, dotDot, ascii] at length
    simp at length
    omega

/-! ### Reading a path back from its string -/

namespace Path

/-- The elements of a path are non-empty and hold no separator, and only a path with an
element can end in one. Every parsed path is of this kind. -/
structure WellFormed (path : Path) : Prop where
  part : ∀ part ∈ path.parts, part ≠ [] ∧ slash ∉ part
  trailing : path.parts = [] → path.trailing = false

theorem splitOn_separator_free {text : Bytes} {part : Bytes} (member : part ∈ text.splitOn slash) :
    slash ∉ part := by
  induction text generalizing part with
  | nil =>
    rw [List.splitOn_nil, List.mem_singleton] at member
    simp [member]
  | cons first rest inductionHypothesis =>
    rw [List.splitOn_cons_eq_if_modifyHead] at member
    split at member
    · rw [List.mem_cons] at member
      rcases member with same | member
      · simp [same]
      · exact inductionHypothesis member
    · rename_i other
      cases split : rest.splitOn slash with
      | nil => exact absurd split (List.splitOn_ne_nil _ _)
      | cons piece pieces =>
        rw [split] at member inductionHypothesis
        rw [List.modifyHead_cons, List.mem_cons] at member
        rcases member with same | member
        · subst same
          simp only [List.mem_cons, not_or]
          exact ⟨fun same => other (beq_iff_eq.mpr same.symm),
            inductionHypothesis List.mem_cons_self⟩
        · exact inductionHypothesis (List.mem_cons_of_mem _ member)

theorem parse_wellFormed (text : Bytes) : (parse text).WellFormed where
  part := by
    intro part member
    obtain ⟨member, nonempty⟩ := List.mem_filter.mp member
    exact ⟨of_decide_eq_true nonempty, splitOn_separator_free member⟩
  trailing := by
    intro nothing
    show (decide ((parse text).parts ≠ []) && _) = false
    rw [nothing]
    rfl

/-- The pieces of a text hold nothing but its bytes. -/
theorem mem_of_mem_splitOn {text part : Bytes} {byte : UInt8}
    (piece : part ∈ text.splitOn slash) (member : byte ∈ part) : byte ∈ text := by
  have inside : ∀ parts : List Bytes, part ∈ parts → byte ∈ [slash].intercalate parts := by
    intro parts isPart
    induction parts with
    | nil => cases isPart
    | cons first rest inductionHypothesis =>
      cases rest with
      | nil =>
        rw [List.intercalate_singleton]
        exact List.mem_singleton.mp isPart ▸ member
      | cons next rest =>
        rw [List.intercalate_cons_cons, List.mem_append]
        rcases List.mem_cons.mp isPart with rfl | later
        · exact .inl (List.mem_append_left _ member)
        · exact .inr (inductionHypothesis later)
  have whole : [slash].intercalate (text.splitOn slash) = text := List.intercalate_splitOn slash
  rw [← whole]
  exact inside _ piece

theorem parse_nulFree {text : Bytes} (free : (0 : UInt8) ∉ text) : (parse text).NulFree :=
  fun _ part zero => free (mem_of_mem_splitOn (List.mem_filter.mp part).1 zero)

/-- Only the empty string is an empty path. -/
theorem parse_isEmpty_iff (text : Bytes) : (parse text).isEmpty = true ↔ text = [] := by
  cases text with
  | nil => exact iff_of_true rfl rfl
  | cons first rest =>
    refine iff_of_false (fun empty => ?_) (List.cons_ne_nil _ _)
    simp only [isEmpty, parse, List.head?_cons, Bool.and_eq_true, Bool.not_eq_true',
      beq_eq_false_iff_ne, ne_eq, Option.some.injEq, List.isEmpty_iff] at empty
    obtain ⟨other, nothing⟩ := empty
    obtain ⟨piece, pieces, split⟩ :=
      List.exists_cons_of_ne_nil (List.splitOn_ne_nil slash rest)
    rw [List.splitOn_cons_eq_if_modifyHead, if_neg (by simpa using other), split,
      List.modifyHead_cons, List.filter_cons_of_pos (by simp)] at nothing
    cases nothing

theorem intercalate_ne_nil {parts : List Bytes}
    (valid : ∀ part ∈ parts, part ≠ [] ∧ slash ∉ part) (something : parts ≠ []) :
    [slash].intercalate parts ≠ [] := by
  obtain ⟨part, rest, rfl⟩ := List.exists_cons_of_ne_nil something
  obtain ⟨nonempty, _⟩ := valid part List.mem_cons_self
  cases rest <;> simp [List.intercalate_cons_cons, nonempty]

theorem head?_intercalate {parts : List Bytes}
    (valid : ∀ part ∈ parts, part ≠ [] ∧ slash ∉ part) :
    ([slash].intercalate parts).head? ≠ some slash := by
  match parts, valid with
  | [], _ => simp
  | part :: rest, valid =>
    obtain ⟨nonempty, free⟩ := valid part List.mem_cons_self
    obtain ⟨byte, bytes, rfl⟩ := List.exists_cons_of_ne_nil nonempty
    have other : byte ≠ slash := fun same => free (same ▸ List.mem_cons_self)
    cases rest with
    | nil => simpa using other
    | cons next rest => simpa [List.intercalate_cons_cons] using other

theorem getLast?_intercalate {parts : List Bytes}
    (valid : ∀ part ∈ parts, part ≠ [] ∧ slash ∉ part) :
    ([slash].intercalate parts).getLast? ≠ some slash := by
  induction parts with
  | nil => simp
  | cons part rest inductionHypothesis =>
    cases rest with
    | nil =>
      obtain ⟨_, free⟩ := valid part List.mem_cons_self
      rw [List.intercalate_singleton]
      exact fun last => free (List.mem_of_getLast? last)
    | cons next rest =>
      have tail := inductionHypothesis fun other member =>
        valid other (List.mem_cons_of_mem _ member)
      have nonempty : [slash].intercalate (next :: rest) ≠ [] :=
        intercalate_ne_nil (fun other member => valid other (List.mem_cons_of_mem _ member))
          (List.cons_ne_nil _ _)
      rw [List.intercalate_cons_cons, List.getLast?_append_of_ne_nil _ nonempty]
      exact tail

/-- The pieces of a path's string are its elements, up to empty pieces. -/
theorem filter_splitOn_string {path : Path} (valid : path.WellFormed) :
    (path.string.splitOn slash).filter (· ≠ []) = path.parts := by
  have all : path.parts.filter (· ≠ []) = path.parts :=
    List.filter_eq_self.mpr fun part member => decide_eq_true (valid.part part member).1
  have inner : (([slash].intercalate path.parts).splitOn slash).filter (· ≠ []) = path.parts := by
    by_cases nothing : path.parts = []
    · simp [nothing]
    · rw [List.splitOn_intercalate slash (fun part member => (valid.part part member).2) nothing]
      exact all
  have before (text : Bytes) : ([slash] ++ text).splitOn slash = [] :: text.splitOn slash :=
    List.splitOn_append_cons_self [] text
  have behind (text : Bytes) : (text ++ [slash]).splitOn slash = text.splitOn slash ++ [[]] :=
    List.splitOn_append_cons_self text []
  unfold string
  cases path.rooted <;> cases path.trailing <;>
    simp only [if_true, if_false, Bool.false_eq_true, List.nil_append, List.append_nil, before,
      behind, List.append_assoc, List.filter_cons, List.filter_append] <;>
    simpa using inner

/-- A path is read back from its string. -/
theorem parse_string {path : Path} (valid : path.WellFormed) : parse path.string = path := by
  have parts := filter_splitOn_string valid
  have first : (path.string.head? == some slash) = path.rooted := by
    unfold string
    cases rooted : path.rooted with
    | true => simp
    | false =>
      by_cases nothing : path.parts = []
      · simp [nothing, valid.trailing nothing]
      · have head := head?_intercalate valid.part
        have nonempty := intercalate_ne_nil valid.part nothing
        simpa [List.head?_append_of_ne_nil _ nonempty] using head
  have last : (decide (path.parts ≠ []) && path.string.getLast? == some slash) =
      path.trailing := by
    unfold string
    by_cases nothing : path.parts = []
    · simp [nothing, valid.trailing nothing]
    · have final := getLast?_intercalate valid.part
      have nonempty := intercalate_ne_nil valid.part nothing
      cases trailing : path.trailing with
      | true => simp [nothing]
      | false => simpa [nothing, List.getLast?_append_of_ne_nil _ nonempty] using final
  unfold parse
  simp only [parts, first, last]

/-- The string of names joined by separators is the relative path of these names. -/
theorem parse_names {names : List Bytes} (safe : ∀ name ∈ names, SafeName name) :
    parse ([slash].intercalate names) = ⟨false, names, false⟩ := by
  have valid : WellFormed ⟨false, names, false⟩ :=
    ⟨fun part member => ⟨(safe part member).1, (safe part member).2.1⟩, fun _ => rfl⟩
  have read := parse_string valid
  simpa [string] using read

/-- A single part is read back as it stands, a dot name too. -/
theorem parse_part {part : Bytes} (some : part ≠ []) (free : slash ∉ part) :
    parse part = ⟨false, [part], false⟩ := by
  have single : WellFormed ⟨false, [part], false⟩ :=
    ⟨fun other member => by rw [List.mem_singleton.mp member]; exact ⟨some, free⟩, fun _ => rfl⟩
  simpa [string] using parse_string single

theorem parse_name {name : Bytes} (safe : SafeName name) : parse name = ⟨false, [name], false⟩ :=
  parse_part safe.1 safe.2.1

theorem filename_eq_nil_or_mem (path : Path) :
    path.filename = [] ∨ path.filename ∈ path.parts := by
  unfold filename
  split
  · exact .inl rfl
  · cases last : path.parts.getLast? with
    | none => simp [List.getLastD_eq_getLast?, last]
    | some part =>
      rw [List.getLastD_eq_getLast?, last]
      exact .inr (List.mem_of_getLast? last)

/-- The filename as a path has the filename as its string. -/
theorem string_parse_filename {path : Path} (valid : path.WellFormed) :
    (parse path.filename).string = path.filename := by
  rcases path.filename_eq_nil_or_mem with empty | member
  · rw [empty]
    rfl
  · obtain ⟨some, free⟩ := valid.part _ member
    rw [parse_part some free]
    simp [string]

theorem append_names (left : Path) {names : List Bytes} (some : names ≠ []) :
    left / (⟨false, names, false⟩ : Path) = ⟨left.rooted, left.parts ++ names, false⟩ := by
  have nonempty : names.isEmpty = false := by simpa using some
  show append left _ = _
  simp [append, nonempty]

/-- Text added to the string of a path lengthens its last element. -/
theorem string_append (rooted : Bool) (parts : List Bytes) (last suffix : Bytes) :
    (⟨rooted, parts ++ [last], false⟩ : Path).string ++ suffix =
      (⟨rooted, parts ++ [last ++ suffix], false⟩ : Path).string := by
  have joined : [slash].intercalate (parts ++ [last]) ++ suffix =
      [slash].intercalate (parts ++ [last ++ suffix]) := by
    induction parts with
    | nil => simp
    | cons part rest inductionHypothesis =>
      rw [List.cons_append, List.cons_append, List.intercalate_cons_of_ne_nil (by simp),
        List.intercalate_cons_of_ne_nil (by simp), List.append_assoc, List.append_assoc,
        inductionHypothesis, List.append_assoc]
  simp only [string, Bool.false_eq_true, if_false, List.append_nil]
  rw [List.append_assoc, joined]

/-- A lengthened path of safe names is read back. -/
theorem parse_string_append {path : Path} (wellFormed : path.WellFormed) {front : List Bytes}
    {last suffix : Bytes} (safe : ∀ name ∈ front ++ [last ++ suffix], SafeName name) :
    parse ((⟨path.rooted, path.parts ++ (front ++ [last]), false⟩ : Path).string ++ suffix) =
      ⟨path.rooted, path.parts ++ (front ++ [last ++ suffix]), false⟩ := by
  have valid : WellFormed ⟨path.rooted, path.parts ++ (front ++ [last ++ suffix]), false⟩ := by
    refine ⟨fun part member => ?_, fun _ => rfl⟩
    rcases List.mem_append.mp member with outer | inner
    · exact wellFormed.part part outer
    · exact ⟨(safe part inner).1, (safe part inner).2.1⟩
  rw [← List.append_assoc, string_append, List.append_assoc, parse_string valid]

/-! ### Cutting at a zero byte -/

theorem cutAtNul_append {front : List Bytes} (free : ∀ part ∈ front, (0 : UInt8) ∉ part)
    (names : List Bytes) :
    cutAtNul (front ++ names) = (cutAtNul names).map fun cut => (front ++ cut.1, cut.2) := by
  induction front with
  | nil => simp
  | cons part rest inductionHypothesis =>
    rw [List.cons_append, cutAtNul, if_neg (free part List.mem_cons_self),
      inductionHypothesis fun other member => free other (List.mem_cons_of_mem _ member),
      Option.map_map]
    rfl

/-- A path without a zero byte reaches the operating system as it is. -/
theorem native_of_nulFree {path : Path} (free : path.NulFree) : path.native = path := by
  have whole := cutAtNul_append free []
  rw [List.append_nil] at whole
  unfold native
  rw [whole]
  rfl

/-- What a cut leaves of some names: those before the cut, and perhaps the front of one
more. -/
theorem cutAtNul_some {names cut : List Bytes} {separator : Bool}
    (found : cutAtNul names = some (cut, separator)) :
    ∃ before part after, names = before ++ part :: after ∧
      ((cut = before ∧ separator = true) ∨
        (cut = before ++ [part.takeWhile (· ≠ 0)] ∧ separator = false)) := by
  induction names generalizing cut with
  | nil => cases found
  | cons part rest inductionHypothesis =>
    rw [cutAtNul] at found
    split at found
    · refine ⟨[], part, rest, rfl, ?_⟩
      split at found
      · cases found
        exact Or.inl ⟨rfl, rfl⟩
      · cases found
        exact Or.inr ⟨rfl, rfl⟩
    · obtain ⟨⟨inner, flag⟩, innerFound, same⟩ := Option.map_eq_some_iff.mp found
      cases same
      obtain ⟨before, last, after, rfl, shape⟩ := inductionHypothesis innerFound
      refine ⟨part :: before, last, after, rfl, ?_⟩
      rcases shape with ⟨rfl, flag⟩ | ⟨rfl, flag⟩
      · exact Or.inl ⟨rfl, flag⟩
      · exact Or.inr ⟨rfl, flag⟩

/-- What the operating system sees of safe names below a path: again names below it, of which
only the last can be `..`. If nothing is left of them, the path ends in a separator. -/
theorem native_names {rooted : Bool} {front names : List Bytes}
    (free : ∀ part ∈ front, (0 : UInt8) ∉ part) (safe : ∀ name ∈ names, SafeName name) :
    ∃ cut trailing, native ⟨rooted, front ++ names, false⟩ = ⟨rooted, front ++ cut, trailing⟩ ∧
      (∀ before after, cut = before ++ dotDot :: after → after = []) ∧
      (cut = [] → names = [] ∨ trailing = !front.isEmpty) := by
  unfold native
  simp only []
  rw [cutAtNul_append free]
  cases found : cutAtNul names with
  | none =>
    refine ⟨names, false, rfl, fun before after same => ?_, Or.inl⟩
    have member : dotDot ∈ names := by rw [same]; simp
    exact absurd rfl (safe dotDot member).2.2.2
  | some pair =>
    obtain ⟨cut, separator⟩ := pair
    refine ⟨cut, separator && !(front ++ cut).isEmpty, rfl, fun before after same => ?_, ?_⟩
    · obtain ⟨kept, part, others, rfl, shape⟩ := cutAtNul_some found
      have early : dotDot ∉ kept := fun member =>
        absurd rfl (safe dotDot (List.mem_append_left _ member)).2.2.2
      rcases shape with ⟨rfl, -⟩ | ⟨rfl, -⟩
      · exact absurd (by rw [same]; simp) early
      · rcases List.eq_nil_or_concat after with nothing | ⟨others, last, rfl⟩
        · exact nothing
        · have whole : kept ++ [part.takeWhile (· ≠ 0)] =
              (before ++ dotDot :: others) ++ [last] := by
            rw [same]
            simp
          have init := (List.append_inj' whole rfl).1
          exact absurd (by rw [init]; simp) early
    · rintro rfl
      obtain ⟨kept, part, others, rfl, shape⟩ := cutAtNul_some found
      rcases shape with ⟨-, rfl⟩ | ⟨never, -⟩
      · exact Or.inr (by simp)
      · simp at never

end Path

/-! ### What the checks let through -/

theorem safeFileName_safe {raw name : Bytes} (accepted : safeFileName raw = .ok name) :
    SafeName name := by
  have valid := Path.parse_wellFormed raw
  simp only [safeFileName] at accepted
  split at accepted
  · cases accepted
  · rename_i refused
    simp only [not_or] at refused
    injection accepted with same
    subst same
    refine ⟨refused.1, ?_, refused.2.1, refused.2.2⟩
    rcases (Path.parse raw).filename_eq_nil_or_mem with empty | member
    · rw [empty]
      exact List.not_mem_nil
    · exact (valid.part _ member).2

/-- The check accepts what it returns. -/
theorem safeFileName_of_safe {name : Bytes} (safe : SafeName name) :
    safeFileName name = .ok name := by
  have refused : ¬ (name = [] ∨ name = dot ∨ name = dotDot) := by
    simp only [not_or]
    exact ⟨safe.1, safe.2.2⟩
  simp only [safeFileName, Path.parse_name safe, Path.filename, Bool.false_eq_true, if_false,
    List.getLastD_cons, List.getLastD_nil, if_neg refused]

theorem safeRelativePath_safe {raw : Bytes} {relative : Path}
    (accepted : safeRelativePath raw = .ok relative) :
    ∃ names, names ≠ [] ∧ (∀ name ∈ names, SafeName name) ∧ relative = ⟨false, names, false⟩ := by
  have valid := Path.parse_wellFormed raw
  simp only [safeRelativePath] at accepted
  split at accepted
  · cases accepted
  · rename_i relativeOnly
    split at accepted
    · cases accepted
    · rename_i dots
      injection accepted with same
      subst same
      generalize Path.parse raw = path at valid relativeOnly dots
      obtain ⟨rooted, parts, trailing⟩ := path
      simp only [Path.isEmpty, not_or, Bool.not_eq_true] at relativeOnly
      obtain ⟨nonempty, rfl⟩ := relativeOnly
      have allowed : ∀ part ∈ Path.elements ⟨false, parts, trailing⟩,
          part ≠ dot ∧ part ≠ dotDot ∧ part ≠ [] := by
        intro part member
        have clean := List.any_eq_false.mp (Bool.not_eq_true _ ▸ dots) part member
        simpa [not_or] using clean
      have last : trailing = false := by
        cases trailing with
        | false => rfl
        | true => exact absurd rfl (allowed [] (by simp [Path.elements])).2.2
      subst last
      refine ⟨parts, by simpa using nonempty, fun name member => ?_, rfl⟩
      have clean := allowed name (by simpa [Path.elements] using member)
      exact ⟨clean.2.2, (valid.part name member).2, clean.1, clean.2.1⟩

theorem safeRelativePath_of_safe {names : List Bytes} (some : names ≠ [])
    (safe : ∀ name ∈ names, SafeName name) :
    safeRelativePath ([slash].intercalate names) = .ok ⟨false, names, false⟩ := by
  have nonempty : names.isEmpty = false := by simpa using some
  have clean : ∀ part ∈ Path.elements ⟨false, names, false⟩,
      ¬ part = dot ∧ ¬ part = dotDot ∧ ¬ part = [] := by
    intro part member
    have name := safe part (by simpa [Path.elements] using member)
    exact ⟨name.2.2.1, name.2.2.2, name.1⟩
  simpa [safeRelativePath, Path.parse_names safe, Path.isEmpty, nonempty] using clean

end HyperLink
