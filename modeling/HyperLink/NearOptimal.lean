/-
This file is about how well `partition_directory_items` spreads the payload over
the streams. Whatever order the sort gives to items of one size, and whichever of
several lightest partitions takes an item, the items are jobs dealt out longest
first, so Graham's bound holds against every assignment of the payload items to
the streams.
-/

import HyperLink.Partition
import HyperLink.Scheduling

namespace HyperLink

open Scheduling

/-! ### Any choice among the lightest partitions -/

/-- Some partition with the fewest bytes is picked. -/
def PicksLightest (pick : List DirectoryPartition → Nat) : Prop :=
  ∀ partitions, partitions ≠ [] → ∃ target, partitions[pick partitions]? = some target ∧
    ∀ part ∈ partitions, target.bytes ≤ part.bytes

/-- Give one item to the partition that is picked. -/
def placePicked (pick : List DirectoryPartition → Nat) (partitions : List DirectoryPartition)
    (item : DirectoryItem) : List DirectoryPartition :=
  partitions.modify (pick partitions) fun target =>
    ⟨target.items ++ [item], target.bytes + item.payloadSize⟩

/-- `partition_directory_items` with the choice of the partition left open. -/
def partitionPicked (pick : List DirectoryPartition → Nat)
    (sort : List DirectoryItem → List DirectoryItem) (items : List DirectoryItem)
    (parallel : Nat) : List DirectoryPartition :=
  (sort (items.filter carriesPayload)).foldl (placePicked pick)
    ((List.replicate parallel ({} : DirectoryPartition)).modifyHead fun front =>
      ⟨front.items ++ items.filter fun item => !carriesPayload item, front.bytes⟩)

theorem minElement_picks : PicksLightest minElement := by
  intro partitions streams
  have chosen := List.getElem?_eq_getElem (minElement_lt streams)
  exact ⟨_, chosen, fun part member => minElement_le chosen member⟩

/-- The code picks the first of the lightest. -/
theorem partitionPicked_minElement (sort : List DirectoryItem → List DirectoryItem)
    (items : List DirectoryItem) (parallel : Nat) :
    partitionPicked minElement sort items parallel = partitionDirectoryItems sort items parallel :=
  rfl

/-! ### The deal as a schedule -/

section

variable (pick : List DirectoryPartition → Nat) (start : List DirectoryPartition)
  (sorted : List DirectoryItem)

/-- The partitions after the first items were dealt out. -/
def dealt (count : Nat) : List DirectoryPartition :=
  (sorted.take count).foldl (placePicked pick) start

/-- The bytes of the item at a place in the order. -/
def sizeAt (job : Nat) : Nat := (sorted[job]?.map fun item => item.payloadSize.toNat).getD 0

theorem dealt_succ {count : Nat} {item : DirectoryItem} (next : sorted[count]? = some item) :
    dealt pick start sorted (count + 1) =
      placePicked pick (dealt pick start sorted count) item := by
  rw [dealt, dealt, List.take_add_one, next, Option.toList_some, List.foldl_append]
  rfl

theorem length_dealt (count : Nat) : (dealt pick start sorted count).length = start.length := by
  induction count with
  | zero => simp [dealt]
  | succ count inductionHypothesis =>
    cases next : sorted[count]? with
    | none =>
      rw [dealt, List.take_add_one, next, Option.toList_none, List.append_nil]
      exact inductionHypothesis
    | some item =>
      rw [dealt_succ pick start sorted next, placePicked, List.length_modify, inductionHypothesis]

variable {pick start} (picks : PicksLightest pick) (streams : start ≠ [])

include picks streams

/-- The partition picked for the next item has the fewest bytes. -/
theorem pick_dealt (count : Nat) :
    ∃ target, (dealt pick start sorted count)[pick (dealt pick start sorted count)]? = some target ∧
      ∀ part ∈ dealt pick start sorted count, target.bytes ≤ part.bytes := by
  refine picks _ fun nothing => streams ?_
  rw [← List.length_eq_zero_iff, ← length_dealt pick start sorted count, nothing]
  rfl

theorem pick_lt (count : Nat) : pick (dealt pick start sorted count) < start.length := by
  obtain ⟨target, chosen, -⟩ := pick_dealt sorted picks streams count
  rw [← length_dealt pick start sorted count]
  exact (List.getElem?_eq_some_iff.mp chosen).1

/-- The partition that takes the item at a place in the order. -/
def takerOf (job : Nat) : Fin start.length :=
  ⟨pick (dealt pick start sorted job), pick_lt sorted picks streams job⟩

/-- No partition counts more than all items together, so no counter overflows. -/
theorem load_taker_lt (small : (sorted.map fun item => item.payloadSize.toNat).sum < 2 ^ 64)
    {count : Nat} (within : count ≤ sorted.length) (machine : Fin start.length) :
    load (sizeAt sorted) (takerOf sorted picks streams) count machine < 2 ^ 64 := by
  refine lt_of_le_of_lt ?_ small
  calc load (sizeAt sorted) (takerOf sorted picks streams) count machine
      ≤ load (sizeAt sorted) (takerOf sorted picks streams) sorted.length machine :=
        load_mono within machine
    _ ≤ ∑ machine, load (sizeAt sorted) (takerOf sorted picks streams) sorted.length machine :=
        Finset.single_le_sum (fun _ _ => Nat.zero_le _) (Finset.mem_univ machine)
    _ = (sorted.map fun item => item.payloadSize.toNat).sum := by
        rw [sum_load, Finset.sum_range, ← Fin.sum_univ_fun_getElem]
        refine Finset.sum_congr rfl fun job _ => ?_
        simp [sizeAt]

/-- Each partition counts the bytes of the items it was given. -/
theorem bytes_dealt (fresh : ∀ part ∈ start, part.bytes = 0)
    (small : (sorted.map fun item => item.payloadSize.toNat).sum < 2 ^ 64) {count : Nat}
    (within : count ≤ sorted.length) (machine : Fin start.length) {part : DirectoryPartition}
    (there : (dealt pick start sorted count)[machine.val]? = some part) :
    part.bytes.toNat = load (sizeAt sorted) (takerOf sorted picks streams) count machine := by
  induction count generalizing part with
  | zero =>
    rw [load_zero, fresh part (List.mem_of_getElem? there)]
    rfl
  | succ count inductionHypothesis =>
    have next := List.getElem?_eq_getElem within
    have room := load_taker_lt sorted picks streams small within machine
    rw [dealt_succ pick start sorted next, placePicked, List.getElem?_modify] at there
    obtain ⟨before, was, changed⟩ := Option.map_eq_some_iff.mp there
    have counted := inductionHypothesis (Nat.le_of_succ_le within) was
    have size : sizeAt sorted count = sorted[count].payloadSize.toNat := by
      rw [sizeAt, next]
      rfl
    rw [load_succ] at room ⊢
    by_cases here : pick (dealt pick start sorted count) = machine.val
    · have taker : takerOf sorted picks streams count = machine := Fin.ext here
      rw [if_pos taker, ← counted, size] at room ⊢
      rw [if_pos here] at changed
      rw [← changed]
      show (before.bytes + sorted[count].payloadSize).toNat = _
      rw [UInt64.toNat_add]
      exact Nat.mod_eq_of_lt room
    · have taker : takerOf sorted picks streams count ≠ machine :=
        fun same => here (congrArg Fin.val same)
      rw [if_neg taker, Nat.add_zero]
      rw [if_neg here] at changed
      rw [← changed, counted]

/-- The items are dealt out longest first, each to a lightest partition. -/
theorem dealt_longestFirst (fresh : ∀ part ∈ start, part.bytes = 0)
    (small : (sorted.map fun item => item.payloadSize.toNat).sum < 2 ^ 64)
    (descending : sorted.Pairwise fun first second => ¬ second.payloadSize > first.payloadSize) :
    LongestFirst (sizeAt sorted) (takerOf sorted picks streams) sorted.length := by
  refine ⟨?_, ?_⟩
  · intro earlier later before inside
    rw [sizeAt, sizeAt, List.getElem?_eq_getElem inside,
      List.getElem?_eq_getElem (before.trans_lt inside)]
    rcases Nat.eq_or_lt_of_le before with rfl | strictly
    · exact le_rfl
    · have ordered := List.pairwise_iff_getElem.mp descending earlier later
        (before.trans_lt inside) inside strictly
      exact UInt64.le_iff_toNat_le.mp (UInt64.not_lt.mp ordered)
  · intro job inside machine
    obtain ⟨target, chosen, least⟩ := pick_dealt sorted picks streams job
    have there : machine.val < (dealt pick start sorted job).length := by
      rw [length_dealt]
      exact machine.isLt
    rw [← bytes_dealt sorted picks streams fresh small inside.le
        (takerOf sorted picks streams job) chosen,
      ← bytes_dealt sorted picks streams fresh small inside.le machine
        (List.getElem?_eq_getElem there)]
    exact UInt64.le_iff_toNat_le.mp (least _ (List.getElem_mem there))

end

/-! ### The bound -/

/-- A sorted list takes the places of the given one in some order. -/
theorem exists_order {sorted payload : List DirectoryItem} (same : sorted.Perm payload) :
    ∃ order : List (Fin payload.length), order.Perm (List.finRange payload.length) ∧
      sorted = order.map payload.get := by
  rw [← List.map_get_finRange payload] at same
  have found : Relation.Comp (fun left right => left = List.map payload.get right) List.Perm
      sorted (List.finRange payload.length) := by
    rw [List.eq_map_comp_perm]
    exact same
  obtain ⟨order, isOrder, all⟩ := found
  exact ⟨order, all, isOrder⟩

/-- The bound for items dealt out over partitions without bytes. -/
theorem foldl_placePicked_le {pick : List DirectoryPartition → Nat} (picks : PicksLightest pick)
    {start : List DirectoryPartition} (streams : start ≠ [])
    (fresh : ∀ part ∈ start, part.bytes = 0) {sorted payload : List DirectoryItem}
    (same : sorted.Perm payload)
    (descending : sorted.Pairwise fun first second => ¬ second.payloadSize > first.payloadSize)
    (small : (payload.map fun item => item.payloadSize.toNat).sum < 2 ^ 64) :
    ∀ part ∈ sorted.foldl (placePicked pick) start,
      3 * start.length * part.bytes.toNat ≤ (4 * start.length - 1) *
        optimum (fun job => (payload.get job).payloadSize.toNat) (Fin start.length) := by
  intro part member
  obtain ⟨order, all, rfl⟩ := exists_order same
  rw [← (same.map _).sum_eq] at small
  have greedy := dealt_longestFirst _ picks streams fresh small descending
  have whole : dealt pick start (order.map payload.get) (order.map payload.get).length =
      (order.map payload.get).foldl (placePicked pick) start := by
    rw [dealt, List.take_length]
  rw [← whole] at member
  obtain ⟨machine, there⟩ := List.mem_iff_getElem?.mp member
  have inside := (List.getElem?_eq_some_iff.mp there).1
  rw [length_dealt] at inside
  have counted := bytes_dealt _ picks streams fresh small le_rfl ⟨machine, inside⟩ there
  have weights : sizeAt (order.map payload.get) = fun job =>
      (order[job]?.map fun job => (payload.get job).payloadSize.toNat).getD 0 := by
    funext job
    rw [sizeAt, List.getElem?_map, Option.map_map]
    rfl
  rw [weights, List.length_map] at greedy counted
  have bound := greedy.near_optimum all ⟨machine, inside⟩
  rw [Fintype.card_fin, ← counted] at bound
  exact bound

/-- The bytes of the items that are spread over the streams, by their place in the list. -/
def payloadWeight (items : List DirectoryItem) (job : Fin (items.filter carriesPayload).length) :
    Nat :=
  ((items.filter carriesPayload).get job).payloadSize.toNat

/-- The least possible maximum load over all assignments of the payload items to the streams. -/
noncomputable def leastMaximumLoad (items : List DirectoryItem) (parallel : Nat) : Nat :=
  optimum (payloadWeight items) (Fin parallel)

/-- The bound for every choice among the lightest partitions. -/
theorem partitionPicked_le {pick : List DirectoryPartition → Nat} (picks : PicksLightest pick)
    {sort : List DirectoryItem → List DirectoryItem} (sorts : SortsBySize sort)
    {items : List DirectoryItem} {parallel : Nat} (streams : 1 ≤ parallel)
    (small : payloadBytes items < 2 ^ 64) :
    ∀ part ∈ partitionPicked pick sort items parallel,
      3 * parallel * part.bytes.toNat ≤ (4 * parallel - 1) * leastMaximumLoad items parallel := by
  obtain ⟨count, rfl⟩ := Nat.exists_eq_succ_of_ne_zero (Nat.ne_of_gt streams)
  have fresh : ∀ part ∈ (⟨items.filter fun item => !carriesPayload item, 0⟩ : DirectoryPartition) ::
      List.replicate count {}, part.bytes = 0 := by
    intro part member
    rcases List.mem_cons.mp member with rfl | later
    · rfl
    · rw [List.eq_of_mem_replicate later]
  obtain ⟨same, descending⟩ := sorts (items.filter carriesPayload)
  have bound := foldl_placePicked_le picks (List.cons_ne_nil _ _) fresh same descending small
  rw [List.length_cons, List.length_replicate] at bound
  exact bound

/-- The assignment of items to streams is near optimal: with `m` streams, `3 * m` times the
bytes of any partition are at most `4 * m - 1` times the least possible maximum load, for every
outcome of the sort, and for every choice among the lightest partitions. -/
theorem partitionDirectoryItems_nearOptimal (sort : List DirectoryItem → List DirectoryItem)
    (sorts : SortsBySize sort) (items : List DirectoryItem) (parallel : Nat)
    (streams : 1 ≤ parallel) (small : payloadBytes items < 2 ^ 64) :
    (∀ part ∈ partitionDirectoryItems sort items parallel,
      3 * parallel * part.bytes.toNat ≤ (4 * parallel - 1) * leastMaximumLoad items parallel) ∧
    ∀ pick, PicksLightest pick → ∀ part ∈ partitionPicked pick sort items parallel,
      3 * parallel * part.bytes.toNat ≤ (4 * parallel - 1) * leastMaximumLoad items parallel := by
  refine ⟨?_, fun pick picks => partitionPicked_le picks sorts streams small⟩
  rw [← partitionPicked_minElement]
  exact partitionPicked_le minElement_picks sorts streams small

/-- The four items over two streams. -/
theorem fourItems_nearOptimal :
    payloadBytes fourItems < 2 ^ 64 ∧
      ∀ part ∈ partitionDirectoryItems sortBySize fourItems 2,
        3 * 2 * part.bytes.toNat ≤ (4 * 2 - 1) * leastMaximumLoad fourItems 2 :=
  ⟨by decide, (partitionDirectoryItems_nearOptimal sortBySize sortBySize_sorts fourItems 2
    (by decide) (by decide)).1⟩

end HyperLink
