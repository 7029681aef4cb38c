/-
This file is about `partition_directory_items`. The items without a payload come
first on the first stream; the others are dealt out one by one, largest first,
each to the stream with the fewest bytes so far. Whatever order the sort gives
to items of one size, no item is lost or sent twice, each partition counts its
own bytes, and no partition is ahead of another by more than its last item.
-/

import HyperLink.Sender

namespace HyperLink

/-! ### Every item is placed once -/

theorem minElement_lt {partitions : List DirectoryPartition} (some : partitions ≠ []) :
    minElement partitions < partitions.length := by
  have values : partitions.map DirectoryPartition.bytes ≠ [] := by simpa using some
  obtain ⟨fewest, found⟩ := Option.isSome_iff_exists.mp (List.isSome_min?_of_ne_nil values)
  have member := List.min?_mem found
  unfold minElement
  rw [found, Option.getD_some, ← List.length_map DirectoryPartition.bytes]
  exact List.idxOf_lt_length_iff.mpr member

/-- The lightest partition takes the item, and no other changes. -/
theorem placeItem_perm {partitions : List DirectoryPartition} (some : partitions ≠ [])
    (item : DirectoryItem) :
    (placeItem partitions item).length = partitions.length ∧
      ((placeItem partitions item).flatMap DirectoryPartition.items).Perm
        (partitions.flatMap DirectoryPartition.items ++ [item]) := by
  obtain ⟨front, target, back, whole, -, placed⟩ := List.exists_of_modify
    (fun target => (⟨target.items ++ [item], target.bytes + item.payloadSize⟩ : DirectoryPartition))
    (minElement_lt some)
  rw [placeItem, placed]
  refine ⟨by rw [whole, List.length_append, List.length_append]; rfl, ?_⟩
  rw [whole]
  simp only [List.flatMap_append, List.flatMap_cons, List.append_assoc]
  refine List.Perm.append_left _ (List.Perm.append_left _ ?_)
  exact List.perm_append_comm

theorem foldl_placeItem_perm (items : List DirectoryItem) {partitions : List DirectoryPartition}
    (some : partitions ≠ []) :
    (items.foldl placeItem partitions).length = partitions.length ∧
      ((items.foldl placeItem partitions).flatMap DirectoryPartition.items).Perm
        (partitions.flatMap DirectoryPartition.items ++ items) := by
  induction items generalizing partitions with
  | nil => simp
  | cons item rest inductionHypothesis =>
    obtain ⟨length, placed⟩ := placeItem_perm some item
    have still : placeItem partitions item ≠ [] := by
      intro nothing
      rw [nothing] at length
      exact some (List.length_eq_zero_iff.mp length.symm)
    obtain ⟨total, all⟩ := inductionHypothesis still
    refine ⟨total.trans length, all.trans ?_⟩
    have more := placed.append_right rest
    rwa [List.append_assoc, List.singleton_append] at more

/-- However the items are sorted, every one is in one partition. -/
theorem partitionDirectoryItems_perm {sort : List DirectoryItem → List DirectoryItem}
    (sorts : SortsBySize sort) (items : List DirectoryItem) {parallel : Nat} (some : 0 < parallel) :
    (partitionDirectoryItems sort items parallel).length = parallel ∧
      ((partitionDirectoryItems sort items parallel).flatMap DirectoryPartition.items).Perm
        items := by
  obtain ⟨count, rfl⟩ := Nat.exists_eq_succ_of_ne_zero (Nat.ne_of_gt some)
  obtain ⟨length, placed⟩ := foldl_placeItem_perm (sort (items.filter carriesPayload))
    (List.cons_ne_nil (⟨items.filter fun item => !carriesPayload item, 0⟩ : DirectoryPartition)
      (List.replicate count {}))
  have empty : (List.replicate count ({} : DirectoryPartition)).flatMap DirectoryPartition.items =
      [] := by
    simp
  refine ⟨length.trans (by simp), placed.trans ?_⟩
  rw [List.flatMap_cons, empty, List.append_nil]
  have sorted := (sorts (items.filter carriesPayload)).1.append_left
    (items.filter fun item => !carriesPayload item)
  exact sorted.trans (List.perm_append_comm.trans (List.filter_append_perm carriesPayload items))

/-! ### The loop invariant -/

/-- The bytes of the items with a payload. -/
def payloadBytes (items : List DirectoryItem) : Nat :=
  ((items.filter carriesPayload).map fun item => item.payloadSize.toNat).sum

theorem payloadBytes_append (front back : List DirectoryItem) :
    payloadBytes (front ++ back) = payloadBytes front + payloadBytes back := by
  simp [payloadBytes]

theorem payloadBytes_perm {items others : List DirectoryItem} (same : items.Perm others) :
    payloadBytes items = payloadBytes others :=
  ((same.filter _).map _).sum_eq

theorem payloadBytes_singleton {item : DirectoryItem} (carries : carriesPayload item = true) :
    payloadBytes [item] = item.payloadSize.toNat := by
  simp [payloadBytes, carries]

theorem payloadBytes_le_of_mem {partitions : List DirectoryPartition} {part : DirectoryPartition}
    (member : part ∈ partitions) :
    payloadBytes part.items ≤ payloadBytes (partitions.flatMap DirectoryPartition.items) := by
  obtain ⟨front, back, rfl⟩ := List.append_of_mem member
  rw [List.flatMap_append, List.flatMap_cons, payloadBytes_append, payloadBytes_append]
  omega

/-- The partitions after some items were dealt out. -/
structure Balanced (metadata : List DirectoryItem) (partitions : List DirectoryPartition) :
    Prop where
  shape : ∀ (index : Nat) (part : DirectoryPartition), partitions[index]? = some part →
    ∃ payload, part.items = (if index = 0 then metadata else []) ++ payload ∧
      ∀ item ∈ payload, carriesPayload item = true
  accounts : ∀ part ∈ partitions, part.bytes.toNat = payloadBytes part.items
  balance : ∀ part ∈ partitions, ∀ other ∈ partitions, ∀ last,
    (part.items.filter carriesPayload).getLast? = some last →
      part.bytes.toNat - last.payloadSize.toNat ≤ other.bytes.toNat

/-- The chosen partition has the fewest bytes. -/
theorem minElement_le {partitions : List DirectoryPartition} {part target : DirectoryPartition}
    (chosen : partitions[minElement partitions]? = some target) (member : part ∈ partitions) :
    target.bytes ≤ part.bytes := by
  have values : partitions.map DirectoryPartition.bytes ≠ [] := by
    intro none
    rw [List.map_eq_nil_iff.mp none] at member
    cases member
  obtain ⟨fewest, found⟩ := Option.isSome_iff_exists.mp (List.isSome_min?_of_ne_nil values)
  have least := (List.min?_eq_some_iff.mp found).2 part.bytes (List.mem_map_of_mem member)
  have place : (partitions.map DirectoryPartition.bytes)[minElement partitions]? = some fewest := by
    unfold minElement
    rw [found, Option.getD_some]
    exact List.getElem?_idxOf (List.min?_mem found)
  rw [List.getElem?_map, chosen] at place
  rw [Option.some.inj place]
  exact least

/-- What one item changes: the lightest partition takes it, with no overflow. -/
theorem placeItem_cases {partitions : List DirectoryPartition} {item : DirectoryItem}
    {metadata : List DirectoryItem} (balanced : Balanced metadata partitions)
    (streams : partitions ≠ [])
    (small : payloadBytes (partitions.flatMap DirectoryPartition.items) +
      item.payloadSize.toNat < 2 ^ 64) :
    ∃ target, partitions[minElement partitions]? = some target ∧
      (∀ part ∈ partitions, target.bytes.toNat ≤ part.bytes.toNat) ∧
      (target.bytes + item.payloadSize).toNat = target.bytes.toNat + item.payloadSize.toNat ∧
      ∀ part ∈ placeItem partitions item, part ∈ partitions ∨
        part = ⟨target.items ++ [item], target.bytes + item.payloadSize⟩ := by
  have chosen := List.getElem?_eq_getElem (minElement_lt streams)
  have member := List.getElem_mem (minElement_lt streams)
  refine ⟨_, chosen, ?_, ?_, ?_⟩
  · intro part inside
    exact UInt64.le_iff_toNat_le.mp (minElement_le chosen inside)
  · rw [UInt64.toNat_add]
    refine Nat.mod_eq_of_lt ?_
    have whole := payloadBytes_le_of_mem member
    rw [balanced.accounts _ member]
    omega
  · intro part inside
    obtain ⟨index, found⟩ := List.mem_iff_getElem?.mp inside
    rw [placeItem, List.getElem?_modify] at found
    obtain ⟨before, there, changed⟩ := Option.map_eq_some_iff.mp found
    by_cases here : minElement partitions = index
    · rw [if_pos here] at changed
      rw [← here, chosen] at there
      cases there
      exact .inr changed.symm
    · rw [if_neg here] at changed
      rw [← changed]
      exact .inl (List.mem_of_getElem? there)

/-- One item keeps the partitions balanced. -/
theorem Balanced.placeItem {metadata : List DirectoryItem} {partitions : List DirectoryPartition}
    {item : DirectoryItem} (balanced : Balanced metadata partitions) (streams : partitions ≠ [])
    (carries : carriesPayload item = true)
    (small : payloadBytes (partitions.flatMap DirectoryPartition.items) +
      item.payloadSize.toNat < 2 ^ 64) : Balanced metadata (placeItem partitions item) := by
  obtain ⟨target, chosen, lightest, sum, cases_⟩ := placeItem_cases balanced streams small
  have member := List.mem_of_getElem? chosen
  refine ⟨?_, ?_, ?_⟩
  · intro index part found
    rw [HyperLink.placeItem, List.getElem?_modify] at found
    obtain ⟨before, there, changed⟩ := Option.map_eq_some_iff.mp found
    obtain ⟨payload, items, carry⟩ := balanced.shape index before there
    split at changed
    · refine ⟨payload ++ [item], ?_, ?_⟩
      · rw [← changed, ← List.append_assoc, ← items]
      · intro other inside
        rcases List.mem_append.mp inside with old | new
        · exact carry other old
        · rw [List.mem_singleton.mp new]
          exact carries
    · rw [← changed]
      exact ⟨payload, items, carry⟩
  · intro part inside
    rcases cases_ part inside with old | rfl
    · exact balanced.accounts part old
    · simp only []
      rw [sum, payloadBytes_append, payloadBytes_singleton carries, balanced.accounts _ member]
  · intro part inside other otherInside last isLast
    -- Every partition has at least the bytes it, or its predecessor, had before.
    obtain ⟨earlier, earlierInside, fewer⟩ : ∃ earlier ∈ partitions,
        earlier.bytes.toNat ≤ other.bytes.toNat := by
      rcases cases_ other otherInside with old | rfl
      · exact ⟨other, old, Nat.le_refl _⟩
      · exact ⟨target, member, by simp only []; omega⟩
    rcases cases_ part inside with old | rfl
    · exact (balanced.balance part old earlier earlierInside last isLast).trans fewer
    · have isItem : last = item := by
        simp only [List.filter_append, List.filter_singleton, carries, cond_true,
          List.getLast?_append, List.getLast?_singleton, Option.some_or, Option.some.injEq]
          at isLast
        exact isLast.symm
      have least := lightest earlier earlierInside
      simp only []
      rw [isItem, sum]
      omega

/-- Dealing out all items keeps the partitions balanced. -/
theorem Balanced.foldl {metadata : List DirectoryItem} (items : List DirectoryItem)
    {partitions : List DirectoryPartition} (balanced : Balanced metadata partitions)
    (streams : partitions ≠ []) (carry : ∀ item ∈ items, carriesPayload item = true)
    (small : payloadBytes (partitions.flatMap DirectoryPartition.items) + payloadBytes items <
      2 ^ 64) : Balanced metadata (items.foldl HyperLink.placeItem partitions) := by
  induction items generalizing partitions with
  | nil => exact balanced
  | cons item rest inductionHypothesis =>
    rw [List.forall_mem_cons] at carry
    rw [← List.singleton_append, payloadBytes_append, payloadBytes_singleton carry.1] at small
    obtain ⟨length, placed⟩ := placeItem_perm streams item
    have still : HyperLink.placeItem partitions item ≠ [] := by
      intro nothing
      rw [nothing] at length
      exact streams (List.length_eq_zero_iff.mp length.symm)
    refine inductionHypothesis (balanced.placeItem streams carry.1 (by omega)) still carry.2 ?_
    rw [payloadBytes_perm placed, payloadBytes_append, payloadBytes_singleton carry.1]
    omega

/-! ### The partition as a whole -/

theorem payloadBytes_metadata (items : List DirectoryItem) :
    payloadBytes (items.filter fun item => !carriesPayload item) = 0 := by
  simp [payloadBytes, List.filter_filter]

/-- Before anything is dealt out, no partition has bytes. -/
theorem balanced_start (items : List DirectoryItem) (count : Nat) :
    Balanced (items.filter fun item => !carriesPayload item)
      (⟨items.filter fun item => !carriesPayload item, 0⟩ :: List.replicate count {}) := by
  have zero : ∀ part ∈ (⟨items.filter fun item => !carriesPayload item, 0⟩ : DirectoryPartition) ::
      List.replicate count {}, part.bytes = 0 ∧ payloadBytes part.items = 0 := by
    intro part member
    rcases List.mem_cons.mp member with rfl | later
    · exact ⟨rfl, payloadBytes_metadata items⟩
    · rw [List.eq_of_mem_replicate later]
      exact ⟨rfl, rfl⟩
  refine ⟨?_, ?_, ?_⟩
  · intro index part found
    refine ⟨[], ?_, fun item nothing => (by cases nothing)⟩
    cases index with
    | zero =>
      cases found
      simp
    | succ index =>
      rw [List.getElem?_cons_succ] at found
      rw [List.eq_of_mem_replicate (List.mem_of_getElem? found)]
      rfl
  · intro part member
    rw [(zero part member).1, (zero part member).2]
    rfl
  · intro part member other _ last _
    rw [(zero part member).1]
    simp

/-- The partitions are balanced when all items were dealt out. -/
theorem balanced_partitionDirectoryItems {sort : List DirectoryItem → List DirectoryItem}
    (sorts : SortsBySize sort) {items : List DirectoryItem} {parallel : Nat}
    (streams : 1 ≤ parallel) (small : payloadBytes items < 2 ^ 64) :
    Balanced (items.filter fun item => !carriesPayload item)
      (partitionDirectoryItems sort items parallel) := by
  obtain ⟨count, rfl⟩ := Nat.exists_eq_succ_of_ne_zero (Nat.ne_of_gt streams)
  have empty : (List.replicate count ({} : DirectoryPartition)).flatMap DirectoryPartition.items =
      [] := by
    simp
  refine (balanced_start items count).foldl (sort (items.filter carriesPayload))
    (List.cons_ne_nil _ _) ?_ ?_
  · intro item member
    have inside := (sorts (items.filter carriesPayload)).1.mem_iff.mp member
    exact (List.mem_filter.mp inside).2
  · rw [List.flatMap_cons, empty, List.append_nil, payloadBytes_metadata, zero_add,
      payloadBytes_perm (sorts _).1]
    simpa [payloadBytes, List.filter_filter] using small

/-- Balanced partitions differ by no more than the largest payload. -/
theorem Balanced.le_add_largest {metadata : List DirectoryItem}
    {partitions : List DirectoryPartition} (balanced : Balanced metadata partitions)
    {largest : Nat} (bound : ∀ item ∈ partitions.flatMap DirectoryPartition.items,
      carriesPayload item = true → item.payloadSize.toNat ≤ largest)
    {part other : DirectoryPartition} (member : part ∈ partitions)
    (otherMember : other ∈ partitions) :
    part.bytes.toNat ≤ other.bytes.toNat + largest := by
  cases isLast : (part.items.filter carriesPayload).getLast? with
  | none =>
    have nothing : payloadBytes part.items = 0 := by
      rw [payloadBytes, List.getLast?_eq_none_iff.mp isLast]
      rfl
    rw [balanced.accounts part member, nothing]
    exact Nat.zero_le _
  | some last =>
    have near := balanced.balance part member other otherMember last isLast
    obtain ⟨inside, carries⟩ := List.mem_filter.mp (List.mem_of_getLast? isLast)
    have fits := bound last (List.mem_flatMap.mpr ⟨part, member, inside⟩) carries
    omega

/-- No item is lost, sent twice or out of place, and the streams carry about the same. The
items without a payload open the first partition in the order given; each partition counts
the bytes of its payload items; without its last one it has no more bytes than any other, so
that no two differ by more than the largest payload. -/
theorem partitionDirectoryItems_balanced (sort : List DirectoryItem → List DirectoryItem)
    (sorts : SortsBySize sort) (items : List DirectoryItem) (parallel : Nat)
    (streams : 1 ≤ parallel) (small : payloadBytes items < 2 ^ 64) :
    let partitions := partitionDirectoryItems sort items parallel
    partitions.length = parallel ∧
      (partitions.flatMap DirectoryPartition.items).Perm items ∧
      (∀ (index : Nat) (part : DirectoryPartition), partitions[index]? = some part →
        ∃ payload, part.items =
            (if index = 0 then items.filter fun item => !carriesPayload item else []) ++ payload ∧
          ∀ item ∈ payload, carriesPayload item = true) ∧
      (∀ part ∈ partitions, part.bytes.toNat = payloadBytes part.items) ∧
      (∀ part ∈ partitions, ∀ other ∈ partitions, ∀ last,
        (part.items.filter carriesPayload).getLast? = some last →
          part.bytes.toNat - last.payloadSize.toNat ≤ other.bytes.toNat) ∧
      ∀ largest, (∀ item ∈ items, carriesPayload item = true →
        item.payloadSize.toNat ≤ largest) →
        ∀ part ∈ partitions, ∀ other ∈ partitions,
          part.bytes.toNat ≤ other.bytes.toNat + largest := by
  obtain ⟨length, placed⟩ := partitionDirectoryItems_perm sorts items streams
  have balanced := balanced_partitionDirectoryItems sorts streams small
  refine ⟨length, placed, balanced.shape, balanced.accounts, balanced.balance, ?_⟩
  intro largest bound part member other otherMember
  refine balanced.le_add_largest (fun item inside => ?_) member otherMember
  exact bound item (placed.mem_iff.mp inside)

/-- A directory with two files and a link. -/
def fourItems : List DirectoryItem :=
  [⟨.directoryEntry, Path.parse (ascii "d"), ascii "d", 0, 0o755⟩,
    ⟨.directoryFile, Path.parse (ascii "d/a"), ascii "d/a", 3, 0o644⟩,
    ⟨.directoryFile, Path.parse (ascii "d/b"), ascii "d/b", 7, 0o644⟩,
    ⟨.directorySymlink, Path.parse (ascii "d/c"), ascii "d/c", 1, 0⟩]

/-- The four items over two streams. -/
theorem fourItems_balanced :
    payloadBytes fourItems < 2 ^ 64 ∧
      ((partitionDirectoryItems sortBySize fourItems 2).flatMap DirectoryPartition.items).Perm
        fourItems ∧
      ∀ part ∈ partitionDirectoryItems sortBySize fourItems 2,
        part.bytes.toNat = payloadBytes part.items :=
  have whole := partitionDirectoryItems_balanced sortBySize sortBySize_sorts fourItems 2
    (by decide) (by decide)
  ⟨by decide, whole.2.1, whole.2.2.2.1⟩

end HyperLink
