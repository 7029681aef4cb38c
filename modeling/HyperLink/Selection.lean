/-
This file is the library of choosing from a list by keys. A list is reduced to
the first item of every key; a sort orders its items by a comparison of which it
may ask that it is a strict weak order on the items, and promises nothing about
items that the comparison does not tell apart.

A comparison that compares keys of a linear order is strict and weak, and then
the front of every sorted list is an item with the least key. One that compares
numbers where both items have one and keys otherwise is not, and the three items
that keep it from being one are always of the same kind.
-/

import Mathlib

namespace Selection

variable {Item Key : Type}

/-! ### The first item of every key -/

section KeepFirst

variable [DecidableEq Key] (key : Item → Key)

/-- The first item of every key that was not seen before. -/
def keepFirst : List Key → List Item → List Item
  | _, [] => []
  | seen, item :: rest =>
      if key item ∈ seen then keepFirst seen rest
      else item :: keepFirst (key item :: seen) rest

/-- An item is kept exactly if its key is new and no earlier item has it. -/
theorem mem_keepFirst {seen : List Key} {items : List Item} {item : Item} :
    item ∈ keepFirst key seen items ↔
      key item ∉ seen ∧ items.find? (fun other => key other = key item) = some item := by
  induction items generalizing seen with
  | nil => simp [keepFirst]
  | cons first rest inductionHypothesis =>
    rw [keepFirst, List.find?_cons]
    by_cases old : key first ∈ seen
    · rw [if_pos old, inductionHypothesis]
      by_cases same : key first = key item
      · have known : key item ∈ seen := same ▸ old
        simp [known]
      · simp [same]
    · rw [if_neg old, List.mem_cons, inductionHypothesis]
      by_cases same : key first = key item
      · have new : key item ∉ seen := same ▸ old
        simp [same, new, eq_comm]
      · have other : item ≠ first := fun equal => same (equal ▸ rfl)
        simp [same, other, Ne.symm same]

/-- The kept keys are the new keys, each once, in the order of their first appearance. -/
theorem map_keepFirst [BEq Key] [LawfulBEq Key] (seen : List Key) (items : List Item) :
    (keepFirst key seen items).map key =
      ((items.map key).filter (· ∉ seen)).eraseDups := by
  induction items generalizing seen with
  | nil => rfl
  | cons first rest inductionHypothesis =>
    rw [keepFirst, List.map_cons]
    by_cases old : key first ∈ seen
    · rw [if_pos old, inductionHypothesis, List.filter_cons_of_neg (by simpa using old)]
    · rw [if_neg old, List.map_cons, inductionHypothesis,
        List.filter_cons_of_pos (by simpa using old), List.eraseDups_cons, List.filter_filter]
      congr 3
      funext other
      rw [Bool.eq_iff_iff]
      simp

/-- Every key of the list is kept. -/
theorem exists_mem_keepFirst {items : List Item} {item : Item} (member : item ∈ items) :
    ∃ first ∈ keepFirst key [] items, key first = key item := by
  have kept : key item ∈ (keepFirst key [] items).map key := by
    rw [map_keepFirst, List.mem_eraseDups]
    simpa using ⟨item, member, rfl⟩
  obtain ⟨first, kept, same⟩ := List.mem_map.mp kept
  exact ⟨first, kept, same⟩

theorem nodup_map_keepFirst (seen : List Key) (items : List Item) :
    ((keepFirst key seen items).map key).Nodup := by
  induction items generalizing seen with
  | nil => exact List.nodup_nil
  | cons first rest inductionHypothesis =>
    rw [keepFirst]
    split
    · exact inductionHypothesis seen
    · rw [List.map_cons, List.nodup_cons]
      refine ⟨fun again => ?_, inductionHypothesis _⟩
      obtain ⟨other, kept, same⟩ := List.mem_map.mp again
      exact ((mem_keepFirst key).mp kept).1 (by rw [same]; exact List.mem_cons_self)

theorem mem_of_mem_keepFirst {seen : List Key} {items : List Item} {item : Item}
    (member : item ∈ keepFirst key seen items) : item ∈ items :=
  List.mem_of_find?_eq_some ((mem_keepFirst key).mp member).2

/-- An item whose key came before changes nothing. -/
theorem keepFirst_insert_seen {front : List Item} {item : Item} (back : List Item)
    {seen : List Key} (known : key item ∈ seen ∨ ∃ earlier ∈ front, key earlier = key item) :
    keepFirst key seen (front ++ item :: back) = keepFirst key seen (front ++ back) := by
  induction front generalizing seen with
  | nil =>
    rcases known with old | ⟨_, never, _⟩
    · rw [List.nil_append, keepFirst, if_pos old]
      rfl
    · cases never
  | cons first rest inductionHypothesis =>
    rw [List.cons_append, List.cons_append, keepFirst, keepFirst]
    by_cases old : key first ∈ seen
    · rw [if_pos old, if_pos old]
      refine inductionHypothesis ?_
      rcases known with known | ⟨earlier, member, same⟩
      · exact Or.inl known
      · rcases List.mem_cons.mp member with rfl | member
        · exact Or.inl (same ▸ old)
        · exact Or.inr ⟨earlier, member, same⟩
    · rw [if_neg old, if_neg old]
      congr 1
      refine inductionHypothesis ?_
      rcases known with known | ⟨earlier, member, same⟩
      · exact Or.inl (List.mem_cons_of_mem _ known)
      · rcases List.mem_cons.mp member with rfl | member
        · exact Or.inl (same ▸ List.mem_cons_self)
        · exact Or.inr ⟨earlier, member, same⟩

/-- One copy more of the first item of a key keeps the same items, wherever it is added. -/
theorem mem_keepFirst_copy {front back : List Item} {seen : List Key} {item other : Item}
    (first : (front ++ back).find? (fun earlier => key earlier = key item) = some item) :
    other ∈ keepFirst key seen (front ++ item :: back) ↔
      other ∈ keepFirst key seen (front ++ back) := by
  rw [mem_keepFirst, mem_keepFirst]
  refine and_congr_right fun _ => ?_
  by_cases same : key item = key other
  · rw [← same, first, List.find?_append, List.find?_cons_of_pos (by simp)]
    rw [List.find?_append] at first
    cases found : front.find? fun earlier => key earlier = key item with
    | none => rfl
    | some earlier =>
      rw [found] at first
      exact Eq.congr_left first
  · rw [List.find?_append, List.find?_append, List.find?_cons_of_neg (by simpa using same)]

end KeepFirst

/-! ### Sorting -/

/-- A comparison is a strict weak order on the items of a list. -/
structure StrictWeak (precedes : Item → Item → Bool) (items : List Item) : Prop where
  irreflexive : ∀ first ∈ items, precedes first first = false
  transitive : ∀ first ∈ items, ∀ second ∈ items, ∀ third ∈ items,
    precedes first second = true → precedes second third = true → precedes first third = true
  incomparable : ∀ first ∈ items, ∀ second ∈ items, ∀ third ∈ items,
    precedes first second = false → precedes second first = false →
    precedes second third = false → precedes third second = false →
    precedes first third = false ∧ precedes third first = false

/-- What an unstable sort promises: for a strict weak order the same items, none of which
precedes an earlier one. -/
def Sorts (sort : (Item → Item → Bool) → List Item → List Item) : Prop :=
  ∀ precedes items, StrictWeak precedes items →
    (sort precedes items).Perm items ∧
      (sort precedes items).Pairwise fun first second => precedes second first = false

/-- A comparison of keys is a strict weak order. -/
theorem strictWeak_of_key [LinearOrder Key] {precedes : Item → Item → Bool} {items : List Item}
    (key : Item → Key) (agrees : ∀ first ∈ items, ∀ second ∈ items,
      (precedes first second = true ↔ key first < key second)) : StrictWeak precedes items := by
  have refuses : ∀ first ∈ items, ∀ second ∈ items,
      (precedes first second = false ↔ key second ≤ key first) := by
    intro first inFirst second inSecond
    rw [← Bool.not_eq_true, agrees first inFirst second inSecond, not_lt]
  refine ⟨fun first member => (refuses _ member _ member).mpr le_rfl, ?_, ?_⟩
  · intro first inFirst second inSecond third inThird before after
    rw [agrees _ ‹_› _ ‹_›] at before after ⊢
    exact before.trans after
  · intro first inFirst second inSecond third inThird a b c d
    rw [refuses _ ‹_› _ ‹_›] at a b c d ⊢
    rw [refuses _ ‹_› _ ‹_›]
    exact ⟨c.trans a, b.trans d⟩

/-- The front of a sorted list has the least key. -/
theorem Sorts.least [LinearOrder Key] {sort : (Item → Item → Bool) → List Item → List Item}
    (sorts : Sorts sort) {precedes : Item → Item → Bool} {items : List Item} {key : Item → Key}
    (agrees : ∀ first ∈ items, ∀ second ∈ items,
      (precedes first second = true ↔ key first < key second)) (some : items ≠ []) :
    ∃ first, (sort precedes items).head? = Option.some first ∧ first ∈ items ∧
      ∀ other ∈ items, key first ≤ key other := by
  obtain ⟨same, ordered⟩ := sorts precedes items (strictWeak_of_key key agrees)
  cases sorted : sort precedes items with
  | nil =>
    rw [sorted] at same
    exact absurd same.symm.eq_nil some
  | cons first rest =>
    rw [sorted] at same ordered
    have member : first ∈ items := same.subset List.mem_cons_self
    refine ⟨first, rfl, member, fun other inItems => ?_⟩
    rcases List.mem_cons.mp (same.symm.subset inItems) with rfl | later
    · exact le_rfl
    · have order := (List.pairwise_cons.mp ordered).1 other later
      rw [← Bool.not_eq_true, agrees _ inItems _ member, not_lt] at order
      exact order

/-- A sort that keeps the promise. -/
def mergeSort (precedes : Item → Item → Bool) (items : List Item) : List Item :=
  (items.attach.mergeSort fun first second => !precedes second.val first.val).map Subtype.val

theorem mergeSort_sorts : Sorts (mergeSort : (Item → Item → Bool) → List Item → List Item) := by
  intro precedes items order
  refine ⟨?_, ?_⟩
  · have same := (List.mergeSort_perm items.attach
      fun first second => !precedes second.val first.val).map Subtype.val
    rwa [List.attach_map_subtype_val] at same
  · rw [mergeSort, List.pairwise_map]
    refine (List.pairwise_mergeSort ?_ ?_ _).imp fun ordered => by simpa using ordered
    · -- Were the third before the first, the second would be between them or tied with both.
      rintro ⟨a, inA⟩ ⟨b, inB⟩ ⟨c, inC⟩ before after
      simp only [Bool.not_eq_true'] at before after ⊢
      by_contra third
      rw [Bool.not_eq_false] at third
      have noBC : precedes b c = false := by
        by_contra found
        rw [Bool.not_eq_false] at found
        rw [order.transitive _ inB _ inC _ inA found third] at before
        cases before
      have noAB : precedes a b = false := by
        by_contra found
        rw [Bool.not_eq_false] at found
        rw [order.transitive _ inC _ inA _ inB third found] at after
        cases after
      have tied := (order.incomparable _ inA _ inB _ inC noAB before noBC after).2
      rw [third] at tied
      cases tied
    · rintro ⟨a, inA⟩ ⟨b, inB⟩
      by_contra neither
      simp only [Bool.or_eq_true, Bool.not_eq_true', not_or, Bool.not_eq_false] at neither
      have loop := order.transitive _ inA _ inB _ inA neither.2 neither.1
      rw [order.irreflexive _ inA] at loop
      cases loop

/-! ### Comparisons in turn -/

/-- What a sort asks of a comparison, with the asymmetry that follows. -/
structure LegalOrder (precedes : Item → Item → Bool) (items : List Item) : Prop
    extends StrictWeak precedes items where
  asymmetric : ∀ first ∈ items, ∀ second ∈ items,
    precedes first second = true → precedes second first = false

theorem legalOrder_iff {precedes : Item → Item → Bool} {items : List Item} :
    LegalOrder precedes items ↔ StrictWeak precedes items := by
  refine ⟨LegalOrder.toStrictWeak, fun order => ⟨order, ?_⟩⟩
  intro first inFirst second inSecond before
  by_contra behind
  rw [Bool.not_eq_false] at behind
  have loop := order.transitive _ inFirst _ inSecond _ inFirst before behind
  rw [order.irreflexive _ inFirst] at loop
  cases loop

section Grouped

variable {Group : Type} [LinearOrder Group] (group : Item → Group) (inner : Item → Item → Bool)

/-- The greatest group in front, and another comparison within a group. -/
def grouped (first second : Item) : Bool :=
  if group first ≠ group second then group first > group second else inner first second

theorem grouped_of_eq {first second : Item} (same : group first = group second) :
    grouped group inner first second = inner first second := by
  unfold grouped
  rw [if_neg (not_not.mpr same)]

theorem grouped_iff {first second : Item} : grouped group inner first second = true ↔
    group second < group first ∨ group first = group second ∧ inner first second = true := by
  by_cases same : group first = group second
  · rw [grouped_of_eq group inner same]
    simp [same]
  · unfold grouped
    rw [if_pos same]
    simp [same]

/-- Items that are tied are in one group. -/
theorem group_eq_of_tied {first second : Item}
    (notBefore : grouped group inner first second = false)
    (notBehind : grouped group inner second first = false) : group first = group second := by
  rw [← Bool.not_eq_true, grouped_iff, not_or, not_lt] at notBefore notBehind
  exact le_antisymm notBefore.1 notBehind.1

/-- A comparison in groups is a strict weak order exactly if it is one within every group. -/
theorem strictWeak_grouped_iff {items : List Item} :
    StrictWeak (grouped group inner) items ↔
      ∀ value, StrictWeak inner (items.filter (group · = value)) := by
  constructor
  · intro order value
    have within : ∀ first ∈ items.filter (group · = value),
        first ∈ items ∧ group first = value := fun first member => by
      simpa using member
    have agrees : ∀ first ∈ items.filter (group · = value),
        ∀ second ∈ items.filter (group · = value),
        inner first second = grouped group inner first second :=
      fun first inFirst second inSecond => (grouped_of_eq group inner
        ((within _ inFirst).2.trans (within _ inSecond).2.symm)).symm
    refine ⟨fun first member => ?_, ?_, ?_⟩
    · rw [agrees _ member _ member]
      exact order.irreflexive _ (within _ member).1
    · intro first inFirst second inSecond third inThird before after
      rw [agrees _ ‹_› _ ‹_›] at before after ⊢
      exact order.transitive _ (within _ inFirst).1 _ (within _ inSecond).1 _
        (within _ inThird).1 before after
    · intro first inFirst second inSecond third inThird a b c d
      rw [agrees _ ‹_› _ ‹_›] at a b c d ⊢
      rw [agrees _ ‹_› _ ‹_›]
      exact order.incomparable _ (within _ inFirst).1 _ (within _ inSecond).1 _
        (within _ inThird).1 a b c d
  · intro order
    have within : ∀ first ∈ items, ∀ value, group first = value →
        first ∈ items.filter (group · = value) := fun first member value same => by
      simpa using ⟨member, same⟩
    refine ⟨fun first member => ?_, ?_, ?_⟩
    · rw [grouped_of_eq group inner rfl]
      exact (order (group first)).irreflexive _ (within _ member _ rfl)
    · intro first inFirst second inSecond third inThird before after
      rw [grouped_iff] at before after ⊢
      rcases before with before | ⟨same, before⟩
      · rcases after with after | ⟨same, -⟩
        · exact Or.inl (after.trans before)
        · exact Or.inl (same ▸ before)
      · rcases after with after | ⟨alike, after⟩
        · exact Or.inl (same ▸ after)
        · exact Or.inr ⟨same.trans alike, (order (group third)).transitive
            _ (within _ inFirst _ (same.trans alike)) _ (within _ inSecond _ alike)
            _ (within _ inThird _ rfl) before after⟩
    · intro first inFirst second inSecond third inThird a b c d
      have same := group_eq_of_tied group inner a b
      have alike := group_eq_of_tied group inner c d
      rw [grouped_of_eq group inner same] at a
      rw [grouped_of_eq group inner same.symm] at b
      rw [grouped_of_eq group inner alike] at c
      rw [grouped_of_eq group inner alike.symm] at d
      rw [grouped_of_eq group inner (same.trans alike),
        grouped_of_eq group inner (same.trans alike).symm]
      exact (order (group third)).incomparable _ (within _ inFirst _ (same.trans alike))
        _ (within _ inSecond _ alike) _ (within _ inThird _ rfl) a b c d

end Grouped

/-! ### Numbers where there are any -/

section Mixed

variable {Number : Type} [LinearOrder Number] [LinearOrder Key]
  (number : Item → Option Number) (key : Item → Key)

/-- Different numbers decide, and keys where they do not. -/
def mixed (first second : Item) : Bool :=
  match number first, number second with
  | some firstNumber, some secondNumber =>
      if firstNumber ≠ secondNumber then firstNumber < secondNumber else key first < key second
  | _, _ => key first < key second

/-- Both items have a number, and the first one's is less. -/
def Below (first second : Item) : Prop :=
  ∃ firstNumber secondNumber, number first = some firstNumber ∧
    number second = some secondNumber ∧ firstNumber < secondNumber

theorem Below.trans {first second third : Item} (before : Below number first second)
    (after : Below number second third) : Below number first third := by
  obtain ⟨a, b, numberFirst, numberSecond, less⟩ := before
  obtain ⟨b', c, numberSecond', numberThird, lessToo⟩ := after
  rw [numberSecond] at numberSecond'
  cases numberSecond'
  exact ⟨a, c, numberFirst, numberThird, less.trans lessToo⟩

theorem Below.irrefl (item : Item) : ¬ Below number item item := by
  rintro ⟨a, b, first, second, less⟩
  rw [first] at second
  cases second
  exact lt_irrefl _ less

/-- Between two numbers there is room for a third, on one side or the other. -/
theorem Below.cut {first second : Item} (before : Below number first second) {third : Item}
    (isSome : number third ≠ none) : Below number first third ∨ Below number third second := by
  obtain ⟨a, b, numberFirst, numberSecond, less⟩ := before
  obtain ⟨c, numberThird⟩ := Option.ne_none_iff_exists'.mp isSome
  rcases lt_or_ge a c with fits | least
  · exact Or.inl ⟨a, c, numberFirst, numberThird, fits⟩
  · exact Or.inr ⟨c, b, numberThird, numberSecond, least.trans_lt less⟩

theorem mixed_iff {first second : Item} : mixed number key first second = true ↔
    Below number first second ∨ ¬ Below number second first ∧ key first < key second := by
  unfold mixed Below
  cases number first with
  | none => simp
  | some a =>
    cases number second with
    | none => simp
    | some b =>
      by_cases same : a = b
      · simp [same]
      · rcases lt_or_gt_of_ne same with less | greater
        · simp [same, less]
        · simp [same, greater, greater.not_gt]

/-- Three items in a circle: the numbers put the low one before the high one, and the keys put
the high one before the one without a number, and that one before the low one. -/
structure Misordered (low high other : Item) : Prop where
  below : Below number low high
  unnumbered : number other = none
  behind : key high < key other
  before : key other < key low

variable {number key}

theorem not_below_of_none {first second : Item} (unnumbered : number first = none) :
    ¬ Below number first second ∧ ¬ Below number second first := by
  unfold Below
  simp [unnumbered]

variable {items : List Item} (determined : ∀ first ∈ items, ∀ second ∈ items,
  key first = key second → number first = number second)

include determined

/-- Two items are tied exactly if they have the same key. -/
theorem mixed_tied_iff {first second : Item} (inFirst : first ∈ items)
    (inSecond : second ∈ items) :
    mixed number key first second = false ∧ mixed number key second first = false ↔
      key first = key second := by
  rw [← Bool.not_eq_true, ← Bool.not_eq_true, mixed_iff, mixed_iff]
  constructor
  · rintro ⟨notBefore, notBehind⟩
    rw [not_or] at notBefore notBehind
    refine le_antisymm (not_lt.mp fun less => ?_) (not_lt.mp fun less => ?_)
    · exact notBehind.2 ⟨notBefore.1, less⟩
    · exact notBefore.2 ⟨notBehind.1, less⟩
  · intro same
    have alike := determined _ inFirst _ inSecond same
    have apart : ¬ Below number first second ∧ ¬ Below number second first := by
      unfold Below
      rw [alike]
      exact ⟨Below.irrefl number second, Below.irrefl number second⟩
    rw [same]
    simp [apart]

/-- With no number of its own, an item keeps out of the way of two that the numbers order, unless
the three are misordered. -/
theorem mixed_trans (ordered : ∀ low ∈ items, ∀ high ∈ items, ∀ other ∈ items,
      ¬ Misordered number key low high other) {first second third : Item}
    (inFirst : first ∈ items) (inSecond : second ∈ items) (inThird : third ∈ items)
    (before : mixed number key first second = true)
    (after : mixed number key second third = true) : mixed number key first third = true := by
  rw [mixed_iff] at before after ⊢
  have different : ∀ low ∈ items, ∀ other ∈ items, number other = none →
      number low ≠ none → key other ≤ key low → key other < key low :=
    fun low inLow other inOther unnumbered numbered order => lt_of_le_of_ne order
      fun same => numbered ((determined _ inOther _ inLow same).symm.trans unnumbered)
  rcases before with before | ⟨notBehind, before⟩
  · rcases after with after | ⟨notBehind, after⟩
    · exact Or.inl (before.trans number after)
    · by_cases numbered : number third = none
      · refine Or.inr ⟨(not_below_of_none numbered).1, not_le.mp fun order => ?_⟩
        have isSome : number first ≠ none := fun unnumbered =>
          (not_below_of_none unnumbered).1 before
        exact ordered _ inFirst _ inSecond _ inThird
          ⟨before, numbered, after, different _ inFirst _ inThird numbered isSome order⟩
      · exact Or.inl ((before.cut number numbered).resolve_right notBehind)
  · rcases after with after | ⟨notBehindToo, after⟩
    · by_cases numbered : number first = none
      · refine Or.inr ⟨(not_below_of_none numbered).2, not_le.mp fun order => ?_⟩
        have isSome : number third ≠ none := fun unnumbered =>
          (not_below_of_none unnumbered).2 after
        have behind : key third < key first := lt_of_le_of_ne order fun same =>
          isSome ((determined _ inThird _ inFirst same).trans numbered)
        exact ordered _ inSecond _ inThird _ inFirst ⟨after, numbered, behind, before⟩
      · exact Or.inl ((after.cut number numbered).resolve_left notBehind)
    · refine Or.inr ⟨fun behind => ?_, before.trans after⟩
      by_cases numbered : number second = none
      · exact ordered _ inThird _ inFirst _ inSecond ⟨behind, numbered, before, after⟩
      · exact (behind.cut number numbered).elim notBehindToo notBehind

/-- The comparison is a strict weak order exactly if no three items are misordered. -/
theorem strictWeak_mixed_iff : StrictWeak (mixed number key) items ↔
    ∀ low ∈ items, ∀ high ∈ items, ∀ other ∈ items, ¬ Misordered number key low high other := by
  constructor
  · intro order low inLow high inHigh other inOther circle
    have first : mixed number key low high = true :=
      (mixed_iff number key).mpr (Or.inl circle.below)
    have second : mixed number key high other = true :=
      (mixed_iff number key).mpr (Or.inr ⟨(not_below_of_none circle.unnumbered).1, circle.behind⟩)
    rcases (mixed_iff number key).mp (order.transitive _ inLow _ inHigh _ inOther first second)
      with below | ⟨-, less⟩
    · exact (not_below_of_none circle.unnumbered).2 below
    · exact lt_asymm less circle.before
  · intro ordered
    refine ⟨fun first member => ((mixed_tied_iff determined member member).mpr rfl).1, ?_, ?_⟩
    · intro first inFirst second inSecond third inThird before after
      exact mixed_trans determined ordered inFirst inSecond inThird before after
    · intro first inFirst second inSecond third inThird a b c d
      exact (mixed_tied_iff determined inFirst inThird).mpr
        (((mixed_tied_iff determined inFirst inSecond).mp ⟨a, b⟩).trans
          ((mixed_tied_iff determined inSecond inThird).mp ⟨c, d⟩))

end Mixed

end Selection
