/-
This file is the library of interleavings. A configuration is a shared world
and one program per thread. A step picks a thread and a choice of the
environment, and performs that thread's next call; a schedule is a list of such
picks, so quantifying over schedules is quantifying over every interleaving and
every behaviour of the environment.

Two results carry everything above it. Threads whose contracts tolerate each
other keep their contracts along every admissible schedule, so a finished run
ends in the conjunction of the postconditions. And every fair schedule finishes,
because a program is a well-founded tree and only its own steps move it.
-/

import HyperLink.Program

namespace Threads

/-- A shared world and the remaining program of every thread. -/
structure Config (Thread Call : Type) (Reply : Call → Type) (Result World : Type) where
  world : World
  threads : Thread → Program Call Reply Result

namespace Config

variable {Thread Call : Type} {Reply : Call → Type} {Result World Choice : Type}
  [DecidableEq Thread]
  (perform : Choice → (request : Call) → World → Reply request × World)

/-- One step of one thread. A finished thread does nothing. -/
def step (config : Config Thread Call Reply Result World) (pick : Thread × Choice) :
    Config Thread Call Reply Result World :=
  match config.threads pick.1 with
  | .done _ => config
  | .call request next =>
      { world := (perform pick.2 request config.world).2
        threads := Function.update config.threads pick.1
          (next (perform pick.2 request config.world).1) }

/-- Run a schedule from a configuration. -/
def run (schedule : List (Thread × Choice)) (config : Config Thread Call Reply Result World) :
    Config Thread Call Reply Result World :=
  schedule.foldl (step perform) config

/-- Every call of the run is made under an allowed choice of the environment. -/
def Admissible (allowed : Choice → Call → World → Prop) :
    List (Thread × Choice) → Config Thread Call Reply Result World → Prop
  | [], _ => True
  | pick :: rest, config =>
      (∀ request next, config.threads pick.1 = .call request next →
        allowed pick.2 request config.world) ∧
      Admissible allowed rest (config.step perform pick)

/-- Whether a schedule is admissible is found by running it. -/
instance decidableAdmissible {allowed : Choice → Call → World → Prop}
    [∀ choice request world, Decidable (allowed choice request world)] :
    (schedule : List (Thread × Choice)) → (config : Config Thread Call Reply Result World) →
      Decidable (Admissible perform allowed schedule config)
  | [], _ => isTrue trivial
  | pick :: rest, config =>
      @instDecidableAnd _ _
        (match config.threads pick.1 with
          | .done _ => isTrue fun _ _ never => by cases never
          | .call request _ => decidable_of_iff (allowed pick.2 request config.world)
              ⟨fun holds _ _ same => by cases same; exact holds, fun all => all _ _ rfl⟩)
        (decidableAdmissible rest (config.step perform pick))

/-- No thread has a call left. -/
def Finished (config : Config Thread Call Reply Result World) : Prop :=
  ∀ thread, ∃ result, config.threads thread = .done result

/-- Every thread has finished with the given result. -/
def FinishedWith (results : Thread → Result) (config : Config Thread Call Reply Result World) :
    Prop :=
  ∀ thread, config.threads thread = .done (results thread)

instance decidableFinishedWith [Fintype Thread] [DecidableEq Result] (results : Thread → Result)
    (config : Config Thread Call Reply Result World) : Decidable (config.FinishedWith results) :=
  inferInstanceAs (Decidable (∀ thread, config.threads thread = .done (results thread)))

/-- The configuration after the first steps of an infinite schedule. -/
def after (schedule : Nat → Thread × Choice) (count : Nat)
    (config : Config Thread Call Reply Result World) : Config Thread Call Reply Result World :=
  config.run perform ((List.range count).map schedule)

/-- Every thread is picked again and again. -/
def Fair (schedule : Nat → Thread × Choice) : Prop :=
  ∀ thread count, ∃ later, count ≤ later ∧ (schedule later).1 = thread

/-- Every fair run finishes, and every finished admissible run ends in `post`. -/
def EndsIn (allowed : Choice → Call → World → Prop)
    (post : (Thread → Result) → World → Prop)
    (config : Config Thread Call Reply Result World) : Prop :=
  (∀ schedule, Fair schedule → ∃ count, (config.after perform schedule count).Finished) ∧
    ∀ schedule, config.Admissible perform allowed schedule → ∀ results,
      (config.run perform schedule).FinishedWith results →
        post results (config.run perform schedule).world

/-! ### Consequence -/

variable {perform}

theorem Admissible.weaken {allowed more : Choice → Call → World → Prop}
    (implies : ∀ choice request world, allowed choice request world → more choice request world)
    {schedule : List (Thread × Choice)} {config : Config Thread Call Reply Result World}
    (admissible : config.Admissible perform allowed schedule) :
    config.Admissible perform more schedule := by
  induction schedule generalizing config with
  | nil => trivial
  | cons pick rest inductionHypothesis =>
    exact ⟨fun request next running => implies _ _ _ (admissible.1 request next running),
      inductionHypothesis admissible.2⟩

/-- Fewer admissible runs and a weaker postcondition. -/
theorem EndsIn.weaken {allowed fewer : Choice → Call → World → Prop}
    {post weaker : (Thread → Result) → World → Prop}
    {config : Config Thread Call Reply Result World}
    (ends : config.EndsIn perform allowed post)
    (narrower : ∀ choice request world, fewer choice request world → allowed choice request world)
    (implies : ∀ results world, post results world → weaker results world) :
    config.EndsIn perform fewer weaker :=
  ⟨ends.1, fun schedule admissible results finished =>
    implies _ _ (ends.2 schedule (admissible.weaken narrower) results finished)⟩

variable (perform)

/-! ### Steps and schedules -/

theorem step_of_done {config : Config Thread Call Reply Result World} {pick : Thread × Choice}
    {result : Result} (finished : config.threads pick.1 = .done result) :
    config.step perform pick = config := by
  unfold step
  rw [finished]

theorem step_of_call {config : Config Thread Call Reply Result World} {pick : Thread × Choice}
    {request : Call} {next : Reply request → Program Call Reply Result}
    (running : config.threads pick.1 = .call request next) :
    config.step perform pick =
      { world := (perform pick.2 request config.world).2
        threads := Function.update config.threads pick.1
          (next (perform pick.2 request config.world).1) } := by
  unfold step
  rw [running]

/-- A step moves only the picked thread. -/
theorem step_threads_of_ne {config : Config Thread Call Reply Result World}
    {pick : Thread × Choice} {thread : Thread} (other : thread ≠ pick.1) :
    (config.step perform pick).threads thread = config.threads thread := by
  cases program : config.threads pick.1 with
  | done result => rw [step_of_done perform program]
  | call request next =>
    rw [step_of_call perform program]
    exact Function.update_of_ne other _ _

theorem run_nil (config : Config Thread Call Reply Result World) :
    config.run perform [] = config := rfl

theorem run_cons (config : Config Thread Call Reply Result World) (pick : Thread × Choice)
    (rest : List (Thread × Choice)) :
    config.run perform (pick :: rest) = (config.step perform pick).run perform rest := rfl

theorem after_succ (schedule : Nat → Thread × Choice) (count : Nat)
    (config : Config Thread Call Reply Result World) :
    config.after perform schedule (count + 1) =
      (config.after perform schedule count).step perform (schedule count) := by
  unfold after run
  rw [List.range_succ, List.map_append, List.foldl_append]
  rfl

/-! ### Every fair run finishes -/

theorem after_done_mono {schedule : Nat → Thread × Choice} {thread : Thread} {result : Result}
    {config : Config Thread Call Reply Result World} {count later : Nat} (order : count ≤ later)
    (finished : (config.after perform schedule count).threads thread = .done result) :
    (config.after perform schedule later).threads thread = .done result := by
  induction later, order using Nat.le_induction with
  | base => exact finished
  | succ later _ inductionHypothesis =>
    rw [after_succ]
    by_cases picked : thread = (schedule later).1
    · rw [step_of_done perform (picked ▸ inductionHypothesis)]
      exact inductionHypothesis
    · rw [step_threads_of_ne perform picked]
      exact inductionHypothesis

/-- Until a thread is picked, its program does not change. -/
theorem after_unpicked {schedule : Nat → Thread × Choice} {thread : Thread}
    {config : Config Thread Call Reply Result World} {count later : Nat} (order : count ≤ later)
    (unpicked : ∀ time, count ≤ time → time < later → (schedule time).1 ≠ thread) :
    (config.after perform schedule later).threads thread =
      (config.after perform schedule count).threads thread := by
  induction later, order using Nat.le_induction with
  | base => rfl
  | succ later order inductionHypothesis =>
    rw [after_succ, step_threads_of_ne perform
      (fun same => unpicked later order (Nat.lt_succ_self later) same.symm)]
    exact inductionHypothesis fun time first last => unpicked time first (Nat.lt_succ_of_lt last)

/-- A fairly scheduled thread finishes: each of its turns moves it to a subtree. -/
theorem thread_finishes {schedule : Nat → Thread × Choice} (fair : Fair schedule)
    (thread : Thread) (config : Config Thread Call Reply Result World)
    (program : Program Call Reply Result) (count : Nat)
    (current : (config.after perform schedule count).threads thread = program) :
    ∃ later result, (config.after perform schedule later).threads thread = .done result := by
  induction program generalizing count with
  | done result => exact ⟨count, result, current⟩
  | call request next inductionHypothesis =>
    classical
    have picked : ∃ later, count ≤ later ∧ (schedule later).1 = thread := fair thread count
    have first := Nat.find_spec picked
    have held : (config.after perform schedule (Nat.find picked)).threads thread =
        .call request next := by
      rw [after_unpicked perform first.1 fun time after before same =>
        Nat.find_min picked before ⟨after, same⟩]
      exact current
    have moved := after_succ perform schedule (Nat.find picked) config
    rw [step_of_call perform (by rw [first.2]; exact held)] at moved
    refine inductionHypothesis
      (perform (schedule (Nat.find picked)).2 request
        (config.after perform schedule (Nat.find picked)).world).1 (Nat.find picked + 1) ?_
    rw [moved, first.2]
    exact Function.update_self _ _ _

/-- Every fair schedule finishes every thread. -/
theorem fair_finishes [Finite Thread] {schedule : Nat → Thread × Choice} (fair : Fair schedule)
    (config : Config Thread Call Reply Result World) :
    ∃ count, (config.after perform schedule count).Finished := by
  have := Fintype.ofFinite Thread
  choose time result finished using fun thread =>
    thread_finishes perform fair thread config _ 0 rfl
  refine ⟨Finset.univ.sup time, fun thread => ⟨result thread, ?_⟩⟩
  exact after_done_mono perform (Finset.le_sup (Finset.mem_univ thread)) (finished thread)

/-! ### Some admissible run finishes -/

section Possible

variable {perform} {allowed : Choice → Call → World → Prop}

theorem run_append (first second : List (Thread × Choice))
    (config : Config Thread Call Reply Result World) :
    config.run perform (first ++ second) = (config.run perform first).run perform second :=
  List.foldl_append

theorem Admissible.append {first second : List (Thread × Choice)}
    {config : Config Thread Call Reply Result World}
    (before : config.Admissible perform allowed first)
    (after : (config.run perform first).Admissible perform allowed second) :
    config.Admissible perform allowed (first ++ second) := by
  induction first generalizing config with
  | nil => exact after
  | cons pick rest inductionHypothesis => exact ⟨before.1, inductionHypothesis before.2 after⟩

/-- Where every call has an allowed choice, one thread can be run to its end while the others
wait. -/
theorem exists_done (possible : ∀ request world, ∃ choice, allowed choice request world)
    (thread : Thread) (program : Program Call Reply Result)
    {config : Config Thread Call Reply Result World} (current : config.threads thread = program) :
    ∃ schedule, config.Admissible perform allowed schedule ∧
      (∃ result, (config.run perform schedule).threads thread = .done result) ∧
      ∀ other, other ≠ thread →
        (config.run perform schedule).threads other = config.threads other := by
  induction program generalizing config with
  | done result => exact ⟨[], trivial, ⟨result, current⟩, fun _ _ => rfl⟩
  | call request next inductionHypothesis =>
    obtain ⟨choice, permitted⟩ := possible request config.world
    have moved : (config.step perform (thread, choice)).threads thread =
        next (perform choice request config.world).1 := by
      rw [step_of_call perform current]
      exact Function.update_self _ _ _
    obtain ⟨schedule, admissible, ended, others⟩ := inductionHypothesis _ moved
    refine ⟨(thread, choice) :: schedule, ⟨fun asked later running => ?_, admissible⟩, ended,
      fun other different => ?_⟩
    · rw [current] at running
      cases running
      exact permitted
    · rw [run_cons, others other different]
      exact step_threads_of_ne perform different

/-- Where every call has an allowed choice, the threads can be run to their ends one after the
other. -/
theorem exists_finished [Finite Thread]
    (possible : ∀ request world, ∃ choice, allowed choice request world)
    (config : Config Thread Call Reply Result World) :
    ∃ schedule, config.Admissible perform allowed schedule ∧
      (config.run perform schedule).Finished := by
  have := Fintype.ofFinite Thread
  have each : ∀ threads : Finset Thread, ∃ schedule,
      config.Admissible perform allowed schedule ∧
        ∀ thread ∈ threads, ∃ result,
          (config.run perform schedule).threads thread = .done result := by
    intro threads
    induction threads using Finset.induction_on with
    | empty => exact ⟨[], trivial, by simp⟩
    | insert thread threads _ inductionHypothesis =>
      obtain ⟨first, before, ended⟩ := inductionHypothesis
      obtain ⟨second, after, last, others⟩ := exists_done possible thread _
        (rfl : (config.run perform first).threads thread = _)
      refine ⟨first ++ second, before.append after, fun other member => ?_⟩
      rw [run_append]
      by_cases same : other = thread
      · rw [same]
        exact last
      · rw [others other same]
        exact ended other (Finset.mem_of_mem_insert_of_ne member same)
  obtain ⟨schedule, admissible, ended⟩ := each Finset.univ
  exact ⟨schedule, admissible, fun thread => ended thread (Finset.mem_univ thread)⟩

/-- Where every call has an allowed choice, some admissible run finishes, and it ends in
`post`. -/
theorem EndsIn.exists_run [Finite Thread] {post : (Thread → Result) → World → Prop}
    {config : Config Thread Call Reply Result World} (ends : config.EndsIn perform allowed post)
    (possible : ∀ request world, ∃ choice, allowed choice request world) :
    ∃ schedule results, config.Admissible perform allowed schedule ∧
      (config.run perform schedule).FinishedWith results ∧
      post results (config.run perform schedule).world := by
  obtain ⟨schedule, admissible, finished⟩ :=
    @exists_finished _ _ _ _ _ _ _ perform _ _ possible config
  choose results result using finished
  exact ⟨schedule, results, admissible, result, ends.2 schedule admissible results result⟩

end Possible

/-! ### Contracts along a schedule -/

section Contract

variable {perform} {allowed : Choice → Call → World → Prop} {invariant : World → Prop}
  {rely guarantee : Thread → World → World → Prop} {post : Thread → Result → World → Prop}

/-- Every thread meets its contract in the current world. -/
def AllMeet (perform : Choice → (request : Call) → World → Reply request × World)
    (allowed : Choice → Call → World → Prop) (invariant : World → Prop)
    (rely guarantee : Thread → World → World → Prop) (post : Thread → Result → World → Prop)
    (config : Config Thread Call Reply Result World) : Prop :=
  invariant config.world ∧ ∀ thread,
    (config.threads thread).Meets perform allowed invariant (rely thread) (guarantee thread)
      (post thread) config.world

/-- One allowed step keeps every contract, provided each thread tolerates the others. -/
theorem AllMeet.step (reflexive : ∀ thread world, rely thread world world)
    (transitive : ∀ thread first second third, rely thread first second →
      rely thread second third → rely thread first third)
    (compatible : ∀ thread other, thread ≠ other → ∀ before after,
      guarantee other before after → rely thread before after)
    {config : Config Thread Call Reply Result World} {pick : Thread × Choice}
    (permitted : ∀ request next, config.threads pick.1 = .call request next →
      allowed pick.2 request config.world)
    (meet : config.AllMeet perform allowed invariant rely guarantee post) :
    (config.step perform pick).AllMeet perform allowed invariant rely guarantee post := by
  obtain ⟨kept, each⟩ := meet
  cases program : config.threads pick.1 with
  | done result =>
    rw [step_of_done perform program]
    exact ⟨kept, each⟩
  | call request next =>
    have own := each pick.1
    rw [program] at own
    obtain ⟨keeps, respects, rest⟩ := own config.world (reflexive _ _) kept pick.2
      (permitted request next program)
    rw [step_of_call perform program]
    refine ⟨keeps, fun thread => ?_⟩
    by_cases same : thread = pick.1
    · subst same
      simp only [Function.update_self]
      exact rest
    · simp only [Function.update_of_ne same]
      exact (each thread).stable (transitive thread) (compatible thread pick.1 same _ _ respects)

/-- Contracts are kept along every admissible schedule. -/
theorem AllMeet.run (reflexive : ∀ thread world, rely thread world world)
    (transitive : ∀ thread first second third, rely thread first second →
      rely thread second third → rely thread first third)
    (compatible : ∀ thread other, thread ≠ other → ∀ before after,
      guarantee other before after → rely thread before after)
    (schedule : List (Thread × Choice)) {config : Config Thread Call Reply Result World}
    (admissible : config.Admissible perform allowed schedule)
    (meet : config.AllMeet perform allowed invariant rely guarantee post) :
    (config.run perform schedule).AllMeet perform allowed invariant rely guarantee post := by
  induction schedule generalizing config with
  | nil => exact meet
  | cons pick rest inductionHypothesis =>
    rw [run_cons]
    exact inductionHypothesis admissible.2
      (meet.step reflexive transitive compatible admissible.1)

omit [DecidableEq Thread] in
/-- A finished run ends in every thread's postcondition. -/
theorem AllMeet.finished (reflexive : ∀ thread world, rely thread world world)
    {config : Config Thread Call Reply Result World} {results : Thread → Result}
    (meet : config.AllMeet perform allowed invariant rely guarantee post)
    (finished : config.FinishedWith results) (thread : Thread) :
    post thread (results thread) config.world := by
  have own := meet.2 thread
  rw [finished thread] at own
  exact own config.world (reflexive _ _) meet.1

/-- The parallel composition rule. -/
theorem AllMeet.endsIn [Finite Thread] (reflexive : ∀ thread world, rely thread world world)
    (transitive : ∀ thread first second third, rely thread first second →
      rely thread second third → rely thread first third)
    (compatible : ∀ thread other, thread ≠ other → ∀ before after,
      guarantee other before after → rely thread before after)
    {config : Config Thread Call Reply Result World}
    (meet : config.AllMeet perform allowed invariant rely guarantee post) :
    config.EndsIn perform allowed fun results world =>
      invariant world ∧ ∀ thread, post thread (results thread) world := by
  refine ⟨fun schedule fair => fair_finishes perform fair config, ?_⟩
  intro schedule admissible results finished
  have kept := AllMeet.run reflexive transitive compatible schedule admissible meet
  exact ⟨kept.1, fun thread => kept.finished reflexive finished thread⟩

end Contract

/-- Whatever the schedule does, a thread that can only end in some results ends in one of
them. -/
theorem run_endsOnlyIn {allowedResult : Result → Prop} (thread : Thread)
    (schedule : List (Thread × Choice)) {config : Config Thread Call Reply Result World}
    (ends : (config.threads thread).EndsOnlyIn allowedResult) :
    ((config.run perform schedule).threads thread).EndsOnlyIn allowedResult := by
  induction schedule generalizing config with
  | nil => exact ends
  | cons pick rest inductionHypothesis =>
    rw [run_cons]
    refine inductionHypothesis ?_
    by_cases same : thread = pick.1
    · subst same
      cases program : config.threads pick.1 with
      | done result =>
        rw [step_of_done perform program]
        exact ends
      | call request next =>
        rw [program] at ends
        rw [step_of_call perform program]
        simp only [Function.update_self]
        exact ends _
    · rw [step_threads_of_ne perform same]
      exact ends

end Config

end Threads
