/-
This file is the library of foretold input. A thread may read from a source that
is still being filled while it runs: it asks, and the environment answers. Where
only the answers matter, such a run is one of threads that were given their whole
input in advance: to every run there is a source for each thread, made of the
answers it will get, from which the thread would have read the same.

`Follows` compares a program that asks with one that knows its source, and
`foretold` is the source of a thread in a run. The comparison is with any program
over the same calls, so the second one may read its source in another way.
-/

import HyperLink.Interleaving
import HyperLink.Runs

namespace Threads

variable {Ask Call Source Result Other : Type} {Answer : Ask → Type} {Reply : Call → Type}

/-- What a program that asks and calls gets in return. -/
abbrev Returns (Answer : Ask → Type) (Reply : Call → Type) : Ask ⊕ Call → Type
  | .inl ask => Answer ask
  | .inr request => Reply request

namespace Program

/-- A program that gets its answers from a source makes the calls of another program, and ends
where that one ends, with results that are related. -/
def Follows (pull : (ask : Ask) → Source → Answer ask × Source)
    (post : Result → Source → Other → Prop) :
    Program (Ask ⊕ Call) (Returns Answer Reply) Result → Source → Program Call Reply Other → Prop
  | .done result, source, plain => ∃ other, plain = .done other ∧ post result source other
  | .call (.inl ask) next, source, plain =>
      (next (pull ask source).1).Follows pull post (pull ask source).2 plain
  | .call (.inr request) next, source, plain =>
      ∃ others, plain = .call request others ∧
        ∀ reply, (next reply).Follows pull post source (others reply)

variable {pull : (ask : Ask) → Source → Answer ask × Source}

theorem Follows.weaken {post weaker : Result → Source → Other → Prop}
    {program : Program (Ask ⊕ Call) (Returns Answer Reply) Result} {source : Source}
    {plain : Program Call Reply Other} (follows : program.Follows pull post source plain)
    (implies : ∀ result source other, post result source other → weaker result source other) :
    program.Follows pull weaker source plain := by
  induction program generalizing source plain with
  | done result =>
    obtain ⟨other, ends, related⟩ := follows
    exact ⟨other, ends, implies _ _ _ related⟩
  | call request next inductionHypothesis =>
    cases request with
    | inl ask => exact inductionHypothesis _ follows
    | inr request =>
      obtain ⟨others, calls, each⟩ := follows
      exact ⟨others, calls, fun reply => inductionHypothesis reply (each reply)⟩

/-- Where the other program has ended, its result is all that matters of it. -/
theorem Follows.ended {Final : Type} {post : Result → Source → Other → Prop}
    {weaker : Result → Source → Final → Prop}
    {program : Program (Ask ⊕ Call) (Returns Answer Reply) Result} {source : Source}
    {other : Other} {final : Final}
    (follows : program.Follows pull post source (.done other : Program Call Reply Other))
    (implies : ∀ result rest, post result rest other → weaker result rest final) :
    program.Follows pull weaker source (.done final : Program Call Reply Final) := by
  induction program generalizing source with
  | done result =>
    obtain ⟨_, same, related⟩ := follows
    cases same
    exact ⟨final, rfl, implies _ _ related⟩
  | call request next inductionHypothesis =>
    cases request with
    | inl ask => exact inductionHypothesis _ follows
    | inr request =>
      obtain ⟨_, same, -⟩ := follows
      cases same

/-- The rule for a sequence. -/
theorem Follows.bind {Last Final : Type} {middle : Result → Source → Other → Prop}
    {post : Last → Source → Final → Prop}
    {program : Program (Ask ⊕ Call) (Returns Answer Reply) Result}
    {continuation : Result → Program (Ask ⊕ Call) (Returns Answer Reply) Last}
    {source : Source} {plain : Program Call Reply Other} {further : Other → Program Call Reply Final}
    (first : program.Follows pull middle source plain)
    (second : ∀ result rest other, middle result rest other →
      (continuation result).Follows pull post rest (further other)) :
    (program.bind continuation).Follows pull post source (plain.bind further) := by
  induction program generalizing source plain with
  | done result =>
    obtain ⟨other, rfl, related⟩ := first
    exact second _ _ _ related
  | call request next inductionHypothesis =>
    cases request with
    | inl ask => exact inductionHypothesis _ first
    | inr request =>
      obtain ⟨others, rfl, each⟩ := first
      exact ⟨_, rfl, fun reply => inductionHypothesis reply (each reply)⟩

/-- A program that never asks. -/
def calling : Program Call Reply Result → Program (Ask ⊕ Call) (Returns Answer Reply) Result
  | .done result => .done result
  | .call request next => .call (.inr request) fun reply => (next reply).calling

/-- What never asks follows itself. -/
theorem follows_calling (program : Program Call Reply Result) (source : Source) :
    (program.calling : Program (Ask ⊕ Call) (Returns Answer Reply) Result).Follows pull
      (fun result rest other => other = result ∧ rest = source) source program := by
  induction program with
  | done result => exact ⟨result, rfl, rfl, rfl⟩
  | call request next inductionHypothesis =>
    exact ⟨next, rfl, fun reply => inductionHypothesis reply⟩

end Program

/-! ### The source of a run -/

namespace Config

variable {Thread Wide World Choice Fault : Type} [DecidableEq Thread]
  (live : Thread → Choice → (request : Ask ⊕ Call) → Wide → Returns Answer Reply request × Wide)

/-- One step where the environment knows which thread it serves. -/
def stepLive (config : Config Thread (Ask ⊕ Call) (Returns Answer Reply) Result Wide)
    (pick : Thread × Choice) :
    Config Thread (Ask ⊕ Call) (Returns Answer Reply) Result Wide :=
  config.step (live pick.1) pick

def runLive (schedule : List (Thread × Choice))
    (config : Config Thread (Ask ⊕ Call) (Returns Answer Reply) Result Wide) :
    Config Thread (Ask ⊕ Call) (Returns Answer Reply) Result Wide :=
  schedule.foldl (stepLive live) config

/-- What a thread will have read from now on. -/
def foretold (finished : Source) (push : (ask : Ask) → Answer ask → Source → Source) :
    List (Thread × Choice) → Config Thread (Ask ⊕ Call) (Returns Answer Reply) Result Wide →
      Thread → Source
  | [], _, _ => finished
  | pick :: rest, config, thread =>
      let later := foretold finished push rest (config.stepLive live pick) thread
      if thread = pick.1 then
        match config.threads pick.1 with
        | .call (.inl ask) _ => push ask (live pick.1 pick.2 (.inl ask) config.world).1 later
        | _ => later
      else later

/-- The foretold sources give every answer of the run. -/
def Consistent (pull : (ask : Ask) → Source → Answer ask × Source) (finished : Source)
    (push : (ask : Ask) → Answer ask → Source → Source) :
    List (Thread × Choice) → Config Thread (Ask ⊕ Call) (Returns Answer Reply) Result Wide → Prop
  | [], _ => True
  | pick :: rest, config =>
      (∀ ask next, config.threads pick.1 = .call (.inl ask) next →
        let answer := (live pick.1 pick.2 (.inl ask) config.world).1
        let later := foretold live finished push rest (config.stepLive live pick) pick.1
        pull ask (push ask answer later) = (answer, later)) ∧
      Consistent pull finished push rest (config.stepLive live pick)

/-- The picks of a run that make a call, with what the environment does there. -/
def calls (fault : Choice → Fault) :
    List (Thread × Choice) → Config Thread (Ask ⊕ Call) (Returns Answer Reply) Result Wide →
      List (Thread × Fault)
  | [], _ => []
  | pick :: rest, config =>
      match config.threads pick.1 with
      | .call (.inr _) _ => (pick.1, fault pick.2) :: calls fault rest (config.stepLive live pick)
      | _ => calls fault rest (config.stepLive live pick)

/-- A call that is made is permitted to go as it does. -/
def Permits (view : Wide → World) (fault : Choice → Fault)
    (permitted : Fault → Call → World → Prop)
    (config : Config Thread (Ask ⊕ Call) (Returns Answer Reply) Result Wide)
    (pick : Thread × Choice) : Prop :=
  match config.threads pick.1 with
  | .call (.inr request) _ => permitted (fault pick.2) request (view config.world)
  | _ => True

variable {live} {perform : Fault → (request : Call) → World → Reply request × World}
  {pull : (ask : Ask) → Source → Answer ask × Source} {finished : Source}
  {push : (ask : Ask) → Answer ask → Source → Source} {view : Wide → World}
  {fault : Choice → Fault} {post : Thread → Result → Source → Other → Prop}

theorem runLive_cons (pick : Thread × Choice) (rest : List (Thread × Choice))
    (config : Config Thread (Ask ⊕ Call) (Returns Answer Reply) Result Wide) :
    config.runLive live (pick :: rest) = (config.stepLive live pick).runLive live rest := rfl

/-- Only an answer that the thread gets changes what it will have read. -/
theorem foretold_cons (finished : Source) (push : (ask : Ask) → Answer ask → Source → Source)
    (pick : Thread × Choice) (rest : List (Thread × Choice))
    (config : Config Thread (Ask ⊕ Call) (Returns Answer Reply) Result Wide) (thread : Thread)
    (silent : ∀ ask next, config.threads thread = .call (.inl ask) next → thread ≠ pick.1) :
    config.foretold live finished push (pick :: rest) thread =
      (config.stepLive live pick).foretold live finished push rest thread := by
  rw [foretold]
  by_cases same : thread = pick.1
  · subst same
    simp only [if_true]
    split
    · rename_i ask next running
      exact absurd rfl (silent ask next running)
    · rfl
  · rw [if_neg same]

theorem foretold_asked (finished : Source) (push : (ask : Ask) → Answer ask → Source → Source)
    (pick : Thread × Choice) (rest : List (Thread × Choice))
    (config : Config Thread (Ask ⊕ Call) (Returns Answer Reply) Result Wide) {ask : Ask}
    {next : Answer ask → Program (Ask ⊕ Call) (Returns Answer Reply) Result}
    (running : config.threads pick.1 = .call (.inl ask) next) :
    config.foretold live finished push (pick :: rest) pick.1 =
      push ask (live pick.1 pick.2 (.inl ask) config.world).1
        ((config.stepLive live pick).foretold live finished push rest pick.1) := by
  rw [foretold, if_pos rfl, running]

/-- A property of a thread's foretold source, from the end of the run to its beginning. -/
theorem foretold_induction {thread : Thread} {holds : Wide → Source → Prop}
    (silent : ∀ pick (config : Config Thread (Ask ⊕ Call) (Returns Answer Reply) Result Wide) later,
      (∀ ask next, config.threads thread = .call (.inl ask) next → thread ≠ pick.1) →
      holds (config.stepLive live pick).world later → holds config.world later)
    (asked : ∀ choice ask wide later, holds (live thread choice (.inl ask) wide).2 later →
      holds wide (push ask (live thread choice (.inl ask) wide).1 later))
    (schedule : List (Thread × Choice))
    (config : Config Thread (Ask ⊕ Call) (Returns Answer Reply) Result Wide)
    (last : holds (config.runLive live schedule).world finished) :
    holds config.world (config.foretold live finished push schedule thread) := by
  induction schedule generalizing config with
  | nil => exact last
  | cons pick rest inductionHypothesis =>
    have later := inductionHypothesis (config.stepLive live pick) last
    by_cases asks : ∃ ask next, config.threads thread = .call (.inl ask) next ∧ thread = pick.1
    · obtain ⟨ask, next, running, rfl⟩ := asks
      rw [foretold_asked finished push pick rest config running]
      refine asked pick.2 ask config.world _ ?_
      have moved : config.stepLive live pick = _ := step_of_call (live pick.1) running
      rw [moved] at later
      rw [moved]
      exact later
    · have quiet : ∀ ask next, config.threads thread = .call (.inl ask) next →
          thread ≠ pick.1 := fun ask next running same => asks ⟨ask, next, running, same⟩
      rw [foretold_cons finished push pick rest config thread quiet]
      exact silent pick config _ quiet later

/-- A step of threads that ask is what their calls in it are, none or one, of threads that know
their sources. Where the threads follow others from the foretold sources before the step, these
calls take the others to the same world, and what is left of the threads still follows. -/
theorem stepLive_foretold (permitted : Fault → Call → World → Prop)
    (asks : ∀ thread choice ask wide, view (live thread choice (.inl ask) wide).2 = view wide)
    (made : ∀ thread choice request wide,
      (live thread choice (.inr request) wide).1 =
          (perform (fault choice) request (view wide)).1 ∧
        view (live thread choice (.inr request) wide).2 =
          (perform (fault choice) request (view wide)).2)
    (pick : Thread × Choice) (rest : List (Thread × Choice))
    (config : Config Thread (Ask ⊕ Call) (Returns Answer Reply) Result Wide)
    (consistent : config.Consistent live pull finished push (pick :: rest))
    (plain : Config Thread Call Reply Other World) (same : plain.world = view config.world)
    (follows : ∀ thread, (config.threads thread).Follows pull (post thread)
      (config.foretold live finished push (pick :: rest) thread) (plain.threads thread)) :
    ∃ own : List (Thread × Fault),
      config.calls live fault (pick :: rest) =
        own ++ (config.stepLive live pick).calls live fault rest ∧
      (plain.run perform own).world = view (config.stepLive live pick).world ∧
      (∀ thread, ((config.stepLive live pick).threads thread).Follows pull (post thread)
        ((config.stepLive live pick).foretold live finished push rest thread)
        ((plain.run perform own).threads thread)) ∧
      (config.Permits view fault permitted pick → plain.Admissible perform permitted own) := by
  have others : ∀ thread, thread ≠ pick.1 →
      ((config.stepLive live pick).threads thread).Follows pull (post thread)
        ((config.stepLive live pick).foretold live finished push rest thread)
        (plain.threads thread) := by
    intro thread different
    rw [stepLive, step_threads_of_ne (live pick.1) different, ← stepLive,
      ← foretold_cons finished push pick rest config thread fun _ _ _ => different]
    exact follows thread
  cases program : config.threads pick.1 with
  | done result =>
    have stays : config.stepLive live pick = config := step_of_done (live pick.1) program
    refine ⟨[], ?_, same.trans (by rw [stays]), fun thread => ?_, fun _ => trivial⟩
    · rw [calls, program]
      rfl
    · rw [← foretold_cons finished push pick rest config thread, stays]
      · exact follows thread
      · rintro ask next running rfl
        rw [program] at running
        cases running
  | call request next =>
    have moved : config.stepLive live pick = _ := step_of_call (live pick.1) program
    cases request with
    | inl ask =>
      refine ⟨[], ?_, ?_, fun thread => ?_, fun _ => trivial⟩
      · rw [calls, program]
        rfl
      · rw [moved]
        exact same.trans (asks _ _ _ _).symm
      · by_cases different : thread = pick.1
        swap
        · exact others thread different
        subst different
        have asked := follows pick.1
        rw [foretold_asked finished push pick rest config program, program] at asked
        simp only [Program.Follows, consistent.1 ask next program] at asked
        rw [moved] at asked ⊢
        simpa [run_nil] using asked
    | inr request =>
      have followed := follows pick.1
      rw [program] at followed
      obtain ⟨further, calling, each⟩ := followed
      have advanced := @step_of_call _ _ _ _ _ _ _ perform plain (pick.1, fault pick.2) request
        further calling
      obtain ⟨reply, world⟩ := made pick.1 pick.2 request config.world
      refine ⟨[(pick.1, fault pick.2)], ?_, ?_, fun thread => ?_, fun permits => ⟨?_, trivial⟩⟩
      · rw [calls, program]
        rfl
      · rw [run_cons, advanced, moved, same]
        exact world.symm
      · rw [run_cons, run_nil]
        by_cases different : thread = pick.1
        swap
        · rw [step_threads_of_ne perform different]
          exact others thread different
        subst different
        rw [advanced, moved, same]
        simp only [Function.update_self]
        have left := each (live pick.1 pick.2 (.inr request) config.world).1
        rw [foretold_cons finished push pick rest config pick.1 (fun ask next running => by
          rw [program] at running
          cases running), moved] at left
        rw [← reply]
        exact left
      · intro other more running
        rw [calling] at running
        cases running
        simp only [Permits, program] at permits
        rwa [same]

/-- A run of threads that ask is a run of threads that know their sources: where the threads
follow others from the foretold sources, the calls of the run take these from the same world to
the same world, and what is left of the threads still follows. If the calls were permitted to go
as they went, so they are there. -/
theorem run_foretold (permitted : Fault → Call → World → Prop)
    (asks : ∀ thread choice ask wide, view (live thread choice (.inl ask) wide).2 = view wide)
    (made : ∀ thread choice request wide,
      (live thread choice (.inr request) wide).1 =
          (perform (fault choice) request (view wide)).1 ∧
        view (live thread choice (.inr request) wide).2 =
          (perform (fault choice) request (view wide)).2)
    (schedule : List (Thread × Choice))
    (config : Config Thread (Ask ⊕ Call) (Returns Answer Reply) Result Wide)
    (consistent : config.Consistent live pull finished push schedule)
    (plain : Config Thread Call Reply Other World) (same : plain.world = view config.world)
    (follows : ∀ thread, (config.threads thread).Follows pull (post thread)
      (config.foretold live finished push schedule thread) (plain.threads thread)) :
    let after := plain.run perform (config.calls live fault schedule)
    after.world = view (config.runLive live schedule).world ∧
      (∀ thread, ((config.runLive live schedule).threads thread).Follows pull (post thread)
        finished (after.threads thread)) ∧
      (HyperLink.Runs.Meets (stepLive live) (Permits view fault permitted) config schedule →
        plain.Admissible perform permitted (config.calls live fault schedule)) := by
  induction schedule generalizing config plain with
  | nil => exact ⟨same, follows, fun _ => trivial⟩
  | cons pick rest inductionHypothesis =>
    obtain ⟨own, split, world, each, permits⟩ := stepLive_foretold permitted asks made pick rest
      config consistent plain same follows
    obtain ⟨last, ended, admissible⟩ := inductionHypothesis (config.stepLive live pick)
      consistent.2 (plain.run perform own) world each
    rw [split, run_append]
    exact ⟨last, ended, fun meets => (permits (HyperLink.Runs.meets_cons.mp meets).1).append
      (admissible (HyperLink.Runs.meets_cons.mp meets).2)⟩

end Config

end Threads
