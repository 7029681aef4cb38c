/-
This file is about spreading jobs over identical machines. The jobs come one by
one, none larger than the one before, and each goes to a machine with the least
load so far. Graham's bound says how far this is from the best assignment: with
`m` machines, three times `m` times the largest load is at most `4 * m - 1` times
the largest load of any other assignment. A job of at most a third of that load
is paid for by the average; where all jobs are larger, no machine of the other
assignment has three of them, and counting the jobs shows that there is room.
-/

import Mathlib.Algebra.Order.BigOperators.Group.Finset
import Mathlib.Algebra.BigOperators.Fin
import Mathlib.Algebra.Group.Action.Defs
import Mathlib.Order.Lattice.Nat
import Mathlib.Tactic.Ring

namespace HyperLink

namespace Scheduling

open Finset

variable {Machine : Type} [DecidableEq Machine]

/-- The jobs among the first ones that are on a machine. -/
def jobsOn (assign : ℕ → Machine) (count : ℕ) (machine : Machine) : Finset ℕ :=
  (range count).filter fun job => assign job = machine

/-- What these jobs weigh. -/
def load (size : ℕ → ℕ) (assign : ℕ → Machine) (count : ℕ) (machine : Machine) : ℕ :=
  ∑ job ∈ jobsOn assign count machine, size job

variable {size : ℕ → ℕ} {assign other : ℕ → Machine}

theorem mem_jobsOn {count job : ℕ} {machine : Machine} :
    job ∈ jobsOn assign count machine ↔ job < count ∧ assign job = machine := by
  rw [jobsOn, mem_filter, mem_range]

theorem load_zero (machine : Machine) : load size assign 0 machine = 0 := by
  simp [load, jobsOn]

/-- A further job counts on its own machine only. -/
theorem load_succ (count : ℕ) (machine : Machine) :
    load size assign (count + 1) machine =
      load size assign count machine + if assign count = machine then size count else 0 := by
  rw [load, load, jobsOn, jobsOn, range_add_one, filter_insert]
  split
  · rw [sum_insert (by simp), add_comm]
  · rfl

theorem load_mono {fewer count : ℕ} (le : fewer ≤ count) (machine : Machine) :
    load size assign fewer machine ≤ load size assign count machine := by
  refine sum_le_sum_of_subset fun job member => ?_
  obtain ⟨before, here⟩ := mem_jobsOn.mp member
  exact mem_jobsOn.mpr ⟨before.trans_le le, here⟩

/-- Two jobs on one machine. -/
theorem pair_le_load {count first second : ℕ} (inside : first < count) (also : second < count)
    (distinct : first ≠ second) (together : other first = other second) :
    size first + size second ≤ load size other count (other second) := by
  rw [← sum_pair distinct]
  refine sum_le_sum_of_subset fun job member => mem_jobsOn.mpr ?_
  rcases mem_insert.mp member with rfl | last
  · exact ⟨inside, together⟩
  · rw [mem_singleton.mp last]
    exact ⟨also, rfl⟩

variable [Fintype Machine]

/-- The machines together carry every job once. -/
theorem sum_load (count : ℕ) :
    ∑ machine, load size assign count machine = ∑ job ∈ range count, size job :=
  sum_fiberwise (range count) assign size

theorem sum_card_jobsOn (count : ℕ) :
    ∑ machine, (jobsOn assign count machine).card = count := by
  have jobs := card_eq_sum_card_fiberwise (f := assign) (s := range count)
    (t := (univ : Finset Machine)) (fun job _ => mem_univ _)
  rw [card_range] at jobs
  exact jobs.symm

/-- The order in which the greedy rule takes the jobs, and where it puts them. -/
structure LongestFirst (size : ℕ → ℕ) (assign : ℕ → Machine) (count : ℕ) : Prop where
  descending : ∀ earlier later, earlier ≤ later → later < count → size later ≤ size earlier
  lightest : ∀ job < count, ∀ machine,
    load size assign job (assign job) ≤ load size assign job machine

/-! ### Small jobs -/

/-- The load a job finds on its machine is at most the average of the jobs before it. -/
theorem LongestFirst.average {count : ℕ} (greedy : LongestFirst size assign count) {job : ℕ}
    (inside : job < count) {bound : ℕ}
    (fits : ∀ machine, load size other count machine ≤ bound) :
    Fintype.card Machine * load size assign job (assign job) + size job ≤
      Fintype.card Machine * bound := by
  calc Fintype.card Machine * load size assign job (assign job) + size job
      ≤ ∑ machine, load size assign job machine + size job := by
        refine Nat.add_le_add_right ?_ _
        rw [← smul_eq_mul, ← card_univ]
        exact card_nsmul_le_sum _ _ _ fun machine _ => greedy.lightest job inside machine
    _ = ∑ machine, load size other (job + 1) machine := by
        rw [sum_load, sum_load, sum_range_succ]
    _ ≤ Fintype.card Machine * bound := by
        rw [← smul_eq_mul, ← card_univ]
        refine sum_le_card_nsmul _ _ _ fun machine _ => ?_
        exact (load_mono inside machine).trans (fits machine)

/-! ### Large jobs -/

/-- The jobs before this one that cannot share a machine with a job of its size. -/
def alone (size : ℕ → ℕ) (job bound : ℕ) : Finset ℕ :=
  (range job).filter fun earlier => bound < size earlier + size job

theorem mem_alone {job bound earlier : ℕ} :
    earlier ∈ alone size job bound ↔ earlier < job ∧ bound < size earlier + size job := by
  rw [alone, mem_filter, mem_range]

section

variable {job bound : ℕ} (smallest : ∀ earlier ≤ job, size job ≤ size earlier)
  (fits : ∀ machine, load size other (job + 1) machine ≤ bound)

include smallest fits

omit [Fintype Machine] in
/-- A job that must be alone is the only one on its machine. -/
theorem eq_of_alone {first second : ℕ} (single : first ∈ alone size job bound)
    (inside : second ≤ job) (together : other first = other second) : first = second := by
  obtain ⟨before, tooLarge⟩ := mem_alone.mp single
  by_contra distinct
  have both : size first + size second ≤ load size other (job + 1) (other second) :=
    pair_le_load (Nat.lt_succ_of_lt before) (Nat.lt_succ_of_le inside) distinct together
  have least := smallest second inside
  have room := fits (other second)
  omega

omit [Fintype Machine] in
/-- A machine of the other assignment has room for two large jobs, and for one when that must
be alone. -/
theorem card_jobsOn_le (large : bound < 3 * size job) (machine : Machine) :
    (jobsOn other (job + 1) machine).card +
      (if machine ∈ (alone size job bound).image other then 1 else 0) ≤ 2 := by
  split
  next single =>
    obtain ⟨first, isAlone, rfl⟩ := mem_image.mp single
    have only : jobsOn other (job + 1) (other first) ⊆ {first} := by
      intro second member
      obtain ⟨inside, together⟩ := mem_jobsOn.mp member
      rw [mem_singleton]
      exact (eq_of_alone smallest fits isAlone (Nat.le_of_lt_succ inside) together.symm).symm
    have one := card_le_card only
    rw [card_singleton] at one
    exact Nat.add_le_add_right one 1
  next =>
    have weight : (jobsOn other (job + 1) machine).card * size job ≤ bound := by
      refine le_trans ?_ (fits machine)
      rw [← smul_eq_mul]
      refine card_nsmul_le_sum _ _ _ fun earlier member => ?_
      exact smallest earlier (Nat.le_of_lt_succ (mem_jobsOn.mp member).1)
    by_contra more
    have three : 3 * size job ≤ (jobsOn other (job + 1) machine).card * size job :=
      Nat.mul_le_mul_right _ (by omega)
    omega

/-- Counting the other assignment: the jobs and those that must be alone take at most two
places a machine. -/
theorem count_add_alone_le (large : bound < 3 * size job) :
    job + 1 + (alone size job bound).card ≤ 2 * Fintype.card Machine := by
  have places := sum_le_card_nsmul univ _ 2 fun machine _ =>
    card_jobsOn_le smallest fits large machine
  have apart : Set.InjOn other (alone size job bound) := by
    intro first isFirst second isSecond together
    have before := (mem_alone.mp isSecond).1
    exact eq_of_alone smallest fits isFirst before.le together
  rw [sum_add_distrib, sum_card_jobsOn, ← card_filter, filter_mem_eq_inter, univ_inter,
    card_image_of_injOn apart, card_univ, smul_eq_mul, Nat.mul_comm] at places
  exact places

end

/-- Counting the greedy assignment: where no machine has room for the next job, each has two
jobs or one that must be alone. -/
theorem count_le_add_alone {job bound : ℕ}
    (full : ∀ machine, bound < load size assign job machine + size job)
    (fits : size job ≤ bound) :
    2 * Fintype.card Machine ≤ job + (alone size job bound).card := by
  have each : ∀ machine, 2 ≤ (jobsOn assign job machine).card +
      if machine ∈ (alone size job bound).image assign then 1 else 0 := by
    intro machine
    have isFull := full machine
    rcases Nat.lt_or_ge 1 (jobsOn assign job machine).card with two | few
    · exact Nat.le_add_right_of_le two
    · have some : (jobsOn assign job machine).card ≠ 0 := by
        intro none
        rw [load, card_eq_zero.mp none, sum_empty] at isFull
        omega
      obtain ⟨single, only⟩ := card_eq_one.mp (show (jobsOn assign job machine).card = 1 by omega)
      have member : single ∈ jobsOn assign job machine := by
        rw [only]
        exact mem_singleton_self single
      rw [load, only, sum_singleton] at isFull
      rw [if_pos (mem_image.mpr ⟨single, mem_alone.mpr ⟨(mem_jobsOn.mp member).1, isFull⟩,
        (mem_jobsOn.mp member).2⟩), only, card_singleton]
  have places := card_nsmul_le_sum univ _ 2 fun machine _ => each machine
  have images := card_image_le (s := alone size job bound) (f := assign)
  rw [sum_add_distrib, sum_card_jobsOn, ← card_filter, filter_mem_eq_inter, univ_inter, card_univ,
    smul_eq_mul, Nat.mul_comm] at places
  exact places.trans (Nat.add_le_add_left images _)

/-- A large job still fits below the bound. -/
theorem LongestFirst.large {count : ℕ} (greedy : LongestFirst size assign count) {job : ℕ}
    (inside : job < count) {bound : ℕ}
    (fits : ∀ machine, load size other count machine ≤ bound) (large : bound < 3 * size job) :
    load size assign job (assign job) + size job ≤ bound := by
  have smallest : ∀ earlier ≤ job, size job ≤ size earlier :=
    fun earlier before => greedy.descending earlier job before inside
  have fitsNow : ∀ machine, load size other (job + 1) machine ≤ bound :=
    fun machine => (load_mono inside machine).trans (fits machine)
  by_contra tooMuch
  have own : size job ≤ bound := by
    have here := fitsNow (other job)
    rw [load_succ, if_pos rfl] at here
    omega
  have full : ∀ machine, bound < load size assign job machine + size job := by
    intro machine
    have least := greedy.lightest job inside machine
    omega
  have above := count_le_add_alone full own
  have below := count_add_alone_le smallest fitsNow large
  omega

/-! ### The bound -/

/-- The load of the machine that takes a job. -/
theorem LongestFirst.placed {count : ℕ} (greedy : LongestFirst size assign count) {job : ℕ}
    (inside : job < count) {bound : ℕ}
    (fits : ∀ machine, load size other count machine ≤ bound) :
    3 * Fintype.card Machine * (load size assign job (assign job) + size job) ≤
      (4 * Fintype.card Machine - 1) * bound := by
  obtain ⟨rest, machines⟩ : ∃ rest, Fintype.card Machine = rest + 1 :=
    Nat.exists_eq_succ_of_ne_zero (Fintype.card_pos_iff.mpr ⟨assign 0⟩).ne'
  have average := greedy.average inside fits
  rw [machines] at average ⊢
  rw [show 4 * (rest + 1) - 1 = 4 * rest + 3 by omega]
  rcases Nat.lt_or_ge bound (3 * size job) with large | small
  · have low := greedy.large inside fits large
    calc 3 * (rest + 1) * (load size assign job (assign job) + size job)
        ≤ 3 * (rest + 1) * bound := Nat.mul_le_mul_left _ low
      _ ≤ (4 * rest + 3) * bound := Nat.mul_le_mul_right _ (by omega)
  · calc 3 * (rest + 1) * (load size assign job (assign job) + size job)
        = 3 * ((rest + 1) * load size assign job (assign job) + size job) +
            rest * (3 * size job) := by ring
      _ ≤ 3 * ((rest + 1) * bound) + rest * bound :=
          Nat.add_le_add (Nat.mul_le_mul_left _ average) (Nat.mul_le_mul_left _ small)
      _ = (4 * rest + 3) * bound := by ring

/-- Graham's bound for the longest job first. -/
theorem LongestFirst.near_optimal {count : ℕ} (greedy : LongestFirst size assign count)
    {bound : ℕ} (fits : ∀ machine, load size other count machine ≤ bound) (machine : Machine) :
    3 * Fintype.card Machine * load size assign count machine ≤
      (4 * Fintype.card Machine - 1) * bound := by
  -- The induction is on the jobs placed so far; a load changes only when its machine takes one.
  have prefixes : ∀ placed ≤ count, 3 * Fintype.card Machine * load size assign placed machine ≤
      (4 * Fintype.card Machine - 1) * bound := by
    intro placed within
    induction placed with
    | zero => simp [load_zero]
    | succ job inductionHypothesis =>
      rw [load_succ]
      split
      next here =>
        rw [← here]
        exact greedy.placed within fits
      next => exact inductionHypothesis (Nat.le_of_succ_le within)
  exact prefixes count le_rfl

/-! ### The best assignment -/

variable {Job : Type} [Fintype Job]

/-- The largest load of an assignment. -/
def makespan (weight : Job → ℕ) (assign : Job → Machine) : ℕ :=
  univ.sup fun machine => ∑ job with assign job = machine, weight job

/-- The least possible largest load over all assignments. -/
noncomputable def optimum (weight : Job → ℕ) (Machine : Type) [Fintype Machine]
    [DecidableEq Machine] : ℕ :=
  ⨅ assign : Job → Machine, makespan weight assign

/-- Some assignment is the best one. -/
theorem exists_makespan_eq_optimum [Nonempty Machine] (weight : Job → ℕ) :
    ∃ assign : Job → Machine, makespan weight assign = optimum weight Machine :=
  Nat.sInf_mem (Set.range_nonempty fun assign : Job → Machine => makespan weight assign)

theorem load_le_makespan (weight : Job → ℕ) (assign : Job → Machine) (machine : Machine) :
    ∑ job with assign job = machine, weight job ≤ makespan weight assign :=
  le_sup (f := fun machine => ∑ job with assign job = machine, weight job) (mem_univ machine)

omit [Fintype Machine] in
/-- The loads do not depend on the order in which the jobs are taken. -/
theorem load_order {jobs : ℕ} {order : List (Fin jobs)} (all : order.Perm (List.finRange jobs))
    (weight : Fin jobs → ℕ) (assign : Fin jobs → Machine) (spare machine : Machine) :
    load (fun job => (order[job]?.map weight).getD 0)
        (fun job => (order[job]?.map assign).getD spare) order.length machine =
      ∑ job with assign job = machine, weight job := by
  rw [load, jobsOn, sum_filter, sum_filter, sum_range, Fin.sum_univ_def (n := jobs),
    ← (all.map _).sum_eq, ← Fin.sum_univ_fun_getElem]
  refine sum_congr rfl fun job _ => ?_
  simp

/-- Graham's bound against the best assignment, for jobs taken in some order. -/
theorem LongestFirst.near_optimum {jobs : ℕ} {weight : Fin jobs → ℕ} {order : List (Fin jobs)}
    (all : order.Perm (List.finRange jobs))
    (greedy : LongestFirst (fun job => (order[job]?.map weight).getD 0) assign order.length)
    (machine : Machine) :
    3 * Fintype.card Machine *
        load (fun job => (order[job]?.map weight).getD 0) assign order.length machine ≤
      (4 * Fintype.card Machine - 1) * optimum weight Machine := by
  have : Nonempty Machine := ⟨machine⟩
  obtain ⟨best, attained⟩ : ∃ best : Fin jobs → Machine,
      makespan weight best = optimum weight Machine := exists_makespan_eq_optimum weight
  have fits : ∀ other, load (fun job => (order[job]?.map weight).getD 0)
      (fun job => (order[job]?.map best).getD machine) order.length other ≤
        optimum weight Machine := by
    intro other
    rw [load_order all, ← attained]
    exact load_le_makespan weight best other
  exact greedy.near_optimal fits machine

end Scheduling

end HyperLink
