/-
This file is about the names of directory entries on their way from the sender to
the receiver. The check on incoming relative paths is a condition on the text, and
whatever the spelling of the sender's argument, what `lexically_relative` makes of
an entry below it passes the check with the root's name and the names below the
root as its elements.
-/

import HyperLink.DirectoryListing

namespace HyperLink

/-! ### The check on relative paths -/

/-- A text with a first and a last element that are names, and no dot name between them. -/
def AcceptableText (text : Bytes) : Prop :=
  text ≠ [] ∧ text.head? ≠ some slash ∧ text.getLast? ≠ some slash ∧
    ∀ part ∈ text.splitOn slash, part ≠ [] → part ≠ dot ∧ part ≠ dotDot

instance (text : Bytes) : Decidable (AcceptableText text) :=
  inferInstanceAs (Decidable (_ ∧ _ ∧ _ ∧ _))

theorem mem_parts_parse {text part : Bytes} :
    part ∈ (Path.parse text).parts ↔ part ∈ text.splitOn slash ∧ part ≠ [] := by
  simp [Path.parse]

/-- The elements of a relative path that is not empty. -/
theorem elements_parse {text : Bytes} (notEmpty : text ≠ []) (relative : text.head? ≠ some slash) :
    (Path.parse text).elements =
      (Path.parse text).parts ++ if text.getLast? = some slash then [[]] else [] := by
  have unrooted : (Path.parse text).rooted = false := by simpa [Path.parse] using relative
  have elements : (Path.parse text).parts ≠ [] := by
    intro none
    refine notEmpty ((Path.parse_isEmpty_iff text).mp ?_)
    simp [Path.isEmpty, unrooted, none]
  have trailing : (Path.parse text).trailing = decide (text.getLast? = some slash) := by
    show (decide ((Path.parse text).parts ≠ []) && _) = _
    rw [decide_eq_true elements, Bool.true_and, beq_eq_decide]
  rw [Path.elements, unrooted, trailing]
  simp

/-- The check accepts a text exactly when it is acceptable. -/
theorem safeRelativePath_ok_iff (text : Bytes) :
    (∃ path, safeRelativePath text = .ok path) ↔ AcceptableText text := by
  by_cases empty : text = []
  · subst empty
    exact iff_of_false (by rintro ⟨path, accepted⟩; cases accepted) fun fine => fine.1 rfl
  by_cases absolute : text.head? = some slash
  · have rooted : (Path.parse text).rooted = true := by simp [Path.parse, absolute]
    refine iff_of_false ?_ fun fine => fine.2.1 absolute
    rintro ⟨path, accepted⟩
    rw [safeRelativePath, if_pos (.inr rooted)] at accepted
    cases accepted
  have relative : ¬ ((Path.parse text).isEmpty = true ∨ (Path.parse text).rooted = true) := by
    rw [Path.parse_isEmpty_iff]
    simpa [Path.parse, empty] using absolute
  have elements := elements_parse empty absolute
  rw [safeRelativePath, if_neg relative]
  split
  next dots =>
    refine iff_of_false (by rintro ⟨path, accepted⟩; cases accepted) fun fine => ?_
    obtain ⟨part, member, wrong⟩ := List.any_eq_true.mp dots
    rw [elements, if_neg fine.2.2.1, List.append_nil, mem_parts_parse] at member
    have names := fine.2.2.2 part member.1 member.2
    simp [names.1, names.2, member.2] at wrong
  next clean =>
    refine iff_of_true ⟨_, rfl⟩ ⟨empty, absolute, fun separator => ?_, fun part piece some => ?_⟩
    · refine clean (List.any_eq_true.mpr ⟨[], ?_, by simp⟩)
      rw [elements, if_pos separator]
      exact List.mem_append_right _ (List.mem_singleton_self _)
    · have member : part ∈ (Path.parse text).elements := by
        rw [elements]
        exact List.mem_append_left _ (mem_parts_parse.mpr ⟨piece, some⟩)
      have allowed := List.any_eq_false.mp (Bool.not_eq_true _ ▸ clean) part member
      simp only [decide_eq_true_eq, not_or] at allowed
      exact ⟨allowed.1, allowed.2.1⟩

/-! ### From the sender to the receiver -/

/-- The root and its entries, by the names below the root. -/
def ShownDirectory.fromRoot (shown : ShownDirectory) : List (List Bytes × Node) :=
  ([], shown.self) :: shown.entries

/-- The items name what they are made of: each of them is accepted with the root's name and the
names below the root as its elements, and no two lead to one output path. -/
structure RepresentedExactly (path : Path) (shown : ShownDirectory) : Prop where
  items : List.Forall₂
    (fun entry item => item.source = ⟨path.rooted, path.parts ++ entry.1, false⟩ ∧
      safeRelativePath item.relativePath = .ok ⟨false, path.filename :: entry.1, false⟩)
    (shown.fromRoot.filter fun entry => entry.2 ≠ .special)
    (collectDirectoryItems path (shown.listing path))
  outputs : ∀ outputDir : Path, ((collectDirectoryItems path (shown.listing path)).map
    fun item => outputDir / Path.parse item.relativePath).Nodup

namespace ShownDirectory

variable {path : Path} {shown : ShownDirectory}

theorem nodes_fromRoot (shown : ShownDirectory) (path : Path) :
    shown.nodes path = shown.fromRoot.map fun entry => (path.filename :: entry.1, entry.2) := rfl

theorem items_exact (safe : SafeName path.filename) (shown : ShownDirectory) :
    List.Forall₂
      (fun entry item => item.source = ⟨path.rooted, path.parts ++ entry.1, false⟩ ∧
        safeRelativePath item.relativePath = .ok ⟨false, path.filename :: entry.1, false⟩)
      (shown.fromRoot.filter fun entry => entry.2 ≠ .special)
      (collectDirectoryItems path (shown.listing path)) := by
  rw [collectDirectoryItems_shown safe, nodes_fromRoot, List.filter_map, List.map_map,
    List.forall₂_map_right_iff]
  refine List.forall₂_same.mpr fun entry visible => ⟨?_, ?_⟩
  · have parts := (parts_of_filename safe).2
    simp only [Function.comp_apply, entryItem, Path.mk.injEq, true_and, and_true]
    rw [List.append_cons, ← parts]
  · have member : (path.filename :: entry.1, entry.2) ∈ shown.nodes path := by
      rw [nodes_fromRoot]
      exact List.mem_map.mpr ⟨entry, (List.mem_filter.mp visible).1, rfl⟩
    rw [Function.comp_apply, relativePath_entryItem]
    exact safeRelativePath_of_safe (List.cons_ne_nil _ _) (names_of_node safe member).2

theorem outputs_distinct (safe : SafeName path.filename) (shown : ShownDirectory)
    (outputDir : Path) :
    ((collectDirectoryItems path (shown.listing path)).map
      fun item => outputDir / Path.parse item.relativePath).Nodup := by
  have output : ∀ entry ∈ shown.nodes path,
      outputDir / Path.parse (entryItem path entry).relativePath =
        ⟨outputDir.rooted, outputDir.parts ++ entry.1, false⟩ := by
    intro entry member
    obtain ⟨named, names⟩ := names_of_node safe member
    rw [relativePath_entryItem, wireName, Path.parse_names names, Path.append_names _ named]
  rw [collectDirectoryItems_shown safe, List.map_map]
  refine List.Nodup.map_on ?_ ((List.Nodup.of_map _ (shown.nodup_nodes path)).filter _)
  intro first inFirst second inSecond same
  have isFirst := (List.mem_filter.mp inFirst).1
  have isSecond := (List.mem_filter.mp inSecond).1
  rw [Function.comp_apply, Function.comp_apply, output first isFirst,
    output second isSecond] at same
  have names : first.1 = second.1 := List.append_cancel_left (Path.mk.inj same).2.1
  exact List.inj_on_of_nodup_map (shown.nodup_nodes path) isFirst isSecond names

end ShownDirectory

/-- What the sender calls the entries of a directory is what the receiver takes them for. -/
theorem relativePaths_exact :
    (∀ text, (∃ path, safeRelativePath text = .ok path) ↔ AcceptableText text) ∧
      ∀ text, (∃ name, safeFileName (Path.parse text).filename = .ok name) →
        ∀ shown : ShownDirectory, RepresentedExactly (Path.parse text) shown := by
  refine ⟨safeRelativePath_ok_iff, fun text accepted shown => ?_⟩
  have safe := ShownDirectory.safe_of_accepted accepted
  exact ⟨ShownDirectory.items_exact safe shown, ShownDirectory.outputs_distinct safe shown⟩

/-- A directory above the working directory, with a doubled slash. -/
theorem plainDirectory_represented :
    AcceptableText (ascii "photos//f") ∧
      RepresentedExactly (Path.parse (ascii "../a//photos")) plainDirectory :=
  ⟨(relativePaths_exact.1 (ascii "photos//f")).mp ⟨_, rfl⟩,
    relativePaths_exact.2 (ascii "../a//photos") ⟨ascii "photos", by decide +kernel⟩ plainDirectory⟩

end HyperLink
