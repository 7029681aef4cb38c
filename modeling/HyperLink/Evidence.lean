/-
This file is the library of what the end of a thread says about its run. A thread
that cannot end well after a call has failed shows, by ending well, that none of
its calls failed. A thread that stops only where it has seen something shows, by
stopping, that it has seen it. And a thread that works on a world of its own keeps
its contract whatever the others do.

In all three the environment may know which thread it serves.
-/

import HyperLink.Interleaving

namespace Threads

variable {Call : Type} {Reply : Call → Type} {Result Other View World Choice : Type}

namespace Program

/-! ### What a thread has seen -/

/-- Whatever the replies, the program ends in a result that is allowed in the view they leave. -/
def Leaves (look : View → (request : Call) → Reply request → View)
    (allowed : Result → View → Prop) : Program Call Reply Result → View → Prop
  | done result, view => allowed result view
  | call request next, view => ∀ reply, (next reply).Leaves look allowed (look view request reply)

variable {look : View → (request : Call) → Reply request → View}

theorem Leaves.weaken {allowed weaker : Result → View → Prop} {program : Program Call Reply Result}
    {view : View} (leaves : program.Leaves look allowed view)
    (implies : ∀ result later, allowed result later → weaker result later) :
    program.Leaves look weaker view := by
  induction program generalizing view with
  | done result => exact implies result view leaves
  | call request next inductionHypothesis =>
    exact fun reply => inductionHypothesis reply (leaves reply)

/-- The sequencing rule. -/
theorem Leaves.bind {final : Other → View → Prop} {program : Program Call Reply Result}
    {continuation : Result → Program Call Reply Other} {view : View}
    (leaves : program.Leaves look
      (fun result later => (continuation result).Leaves look final later) view) :
    (program.bind continuation).Leaves look final view := by
  induction program generalizing view with
  | done result => exact leaves
  | call request next inductionHypothesis =>
    exact fun reply => inductionHypothesis reply (leaves reply)

/-! ### What a thread notices -/

/-- A call that goes another way than under the smooth choice leads to bad results only, as far
as its choice is allowed. -/
def Notices (perform : Choice → (request : Call) → World → Reply request × World)
    (allowed : Choice → Call → World → Prop) (smooth : Choice) (bad : Result → Prop) :
    Program Call Reply Result → Prop
  | done _ => True
  | call request next =>
      (∀ choice world, allowed choice request world →
        perform choice request world ≠ perform smooth request world →
        (next (perform choice request world).1).EndsOnlyIn bad) ∧
      ∀ reply, (next reply).Notices perform allowed smooth bad

variable {perform : Choice → (request : Call) → World → Reply request × World}
  {noticeable : Choice → Call → World → Prop} {smooth : Choice}

/-- Every program ends in some result. -/
theorem endsOnlyIn_all (program : Program Call Reply Result) :
    program.EndsOnlyIn fun _ => True := by
  induction program with
  | done result => trivial
  | call request next inductionHypothesis => exact inductionHypothesis

/-- The sequencing rule, where the first part's bad results are not mended by what follows. -/
theorem Notices.bind {bad allowed : Result → Prop} {final : Other → Prop}
    {program : Program Call Reply Result} {continuation : Result → Program Call Reply Other}
    (notices : program.Notices perform noticeable smooth bad)
    (ends : program.EndsOnlyIn allowed)
    (spoiled : ∀ result, bad result → (continuation result).EndsOnlyIn final)
    (rest : ∀ result, allowed result →
      (continuation result).Notices perform noticeable smooth final) :
    (program.bind continuation).Notices perform noticeable smooth final := by
  induction program with
  | done result => exact rest result ends
  | call request next inductionHypothesis =>
    exact ⟨fun choice world permitted differs =>
        (notices.1 choice world permitted differs).bind spoiled,
      fun reply => inductionHypothesis reply (notices.2 reply) (ends reply)⟩

end Program

namespace Config

variable {Thread : Type} [DecidableEq Thread]

/-- One step where the environment knows which thread it serves. -/
def stepEach (serve : Thread → Choice → (request : Call) → World → Reply request × World)
    (config : Config Thread Call Reply Result World) (pick : Thread × Choice) :
    Config Thread Call Reply Result World :=
  config.step (serve pick.1) pick

section View

variable {serve : Thread → Choice → (request : Call) → World → Reply request × World}
  {look : View → (request : Call) → Reply request → View} {view : World → Thread → View}

/-- What each thread will leave is kept by a step, if the view of a thread changes with its own
calls only. -/
theorem leaves_stepEach {allowed : Result → View → Prop}
    (sees : ∀ thread choice request world,
      view (serve thread choice request world).2 thread =
        look (view world thread) request (serve thread choice request world).1)
    (spares : ∀ thread other choice request world, thread ≠ other →
      view (serve other choice request world).2 thread = view world thread)
    {config : Config Thread Call Reply Result World} (pick : Thread × Choice)
    (leaves : ∀ thread, (config.threads thread).Leaves look allowed (view config.world thread))
    (thread : Thread) :
    ((config.stepEach serve pick).threads thread).Leaves look allowed
      (view (config.stepEach serve pick).world thread) := by
  unfold stepEach
  cases program : config.threads pick.1 with
  | done result =>
    rw [step_of_done (serve pick.1) program]
    exact leaves thread
  | call request next =>
    rw [step_of_call (serve pick.1) program]
    by_cases picked : thread = pick.1
    · subst picked
      have own := leaves pick.1
      rw [program] at own
      simp only [Function.update_self, sees]
      exact own _
    · simp only [Function.update_of_ne picked, spares _ _ _ _ _ picked]
      exact leaves thread

end View

/-! ### Worlds of their own -/

section Own

variable {Local : Type} {answer : Choice → (request : Call) → Local → Reply request × Local}
  {allowed : Choice → Call → Local → Prop} {invariant : Thread → Local → Prop}
  {post : Thread → Result → Local → Prop}

/-- A call of a thread changes the thread's own world. -/
def own (answer : Choice → (request : Call) → Local → Reply request × Local) (thread : Thread)
    (choice : Choice) (request : Call) (world : Thread → Local) :
    Reply request × (Thread → Local) :=
  ((answer choice request (world thread)).1,
    Function.update world thread (answer choice request (world thread)).2)

omit [DecidableEq Thread] in
/-- Every thread meets a contract with its own world. -/
def EachMeets (answer : Choice → (request : Call) → Local → Reply request × Local)
    (allowed : Choice → Call → Local → Prop) (invariant : Thread → Local → Prop)
    (post : Thread → Result → Local → Prop)
    (config : Config Thread Call Reply Result (Thread → Local)) : Prop :=
  ∀ thread, invariant thread (config.world thread) ∧
    (config.threads thread).Meets answer allowed (invariant thread) Eq (fun _ _ => True)
      (post thread) (config.world thread)

theorem EachMeets.step {config : Config Thread Call Reply Result (Thread → Local)}
    (each : config.EachMeets answer allowed invariant post) (pick : Thread × Choice)
    (permitted : ∀ request next, config.threads pick.1 = .call request next →
      allowed pick.2 request (config.world pick.1)) :
    (config.stepEach (own answer) pick).EachMeets answer allowed invariant post := by
  intro thread
  unfold stepEach
  cases program : config.threads pick.1 with
  | done result =>
    rw [step_of_done (own answer pick.1) program]
    exact each thread
  | call request next =>
    rw [step_of_call (own answer pick.1) program]
    by_cases picked : thread = pick.1
    · subst picked
      obtain ⟨holds, meets⟩ := each pick.1
      rw [program] at meets
      obtain ⟨keeps, -, rest⟩ := meets _ rfl holds pick.2 (permitted request next program)
      simp only [own, Function.update_self]
      exact ⟨keeps, rest⟩
    · simp only [own, Function.update_of_ne picked]
      exact each thread

omit [DecidableEq Thread] in
/-- A thread that has ended is in its postcondition. -/
theorem EachMeets.ended {config : Config Thread Call Reply Result (Thread → Local)}
    (each : config.EachMeets answer allowed invariant post) {thread : Thread} {result : Result}
    (done : config.threads thread = .done result) :
    post thread result (config.world thread) := by
  obtain ⟨holds, meets⟩ := each thread
  rw [done] at meets
  exact meets _ rfl holds

end Own

end Config

end Threads
