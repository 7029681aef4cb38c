/-
This file is the library of observed runs. An observer follows a configuration
without disturbing it: it keeps the worlds that were passed, and for each thread
a view, which it updates from the thread's calls and their replies. What no
single configuration shows can be stated about the observed one.

A program obeys a protocol when each of its calls is permitted by the view that
its earlier calls have left. Programs that obey it keep obeying it along every
run, so the views of a run can be trusted.
-/

import HyperLink.Interleaving
import HyperLink.Runs

namespace Threads

/-! ### Protocols of one thread -/

namespace Program

variable {Call : Type} {Reply : Call → Type} {Result Other View : Type}
  (look : View → (request : Call) → Reply request → View) (permits : View → Call → Prop)

/-- Whatever the replies, each call is permitted in the view that the earlier ones left. -/
def Obeys : Program Call Reply Result → View → Prop
  | done _, _ => True
  | call request next, view =>
      permits view request ∧ ∀ reply, (next reply).Obeys (look view request reply)

variable {look permits}

/-- The sequencing rule for a continuation that obeys the protocol from every view. -/
theorem Obeys.bind {program : Program Call Reply Result}
    {continuation : Result → Program Call Reply Other} {view : View}
    (first : program.Obeys look permits view)
    (rest : ∀ result later, (continuation result).Obeys look permits later) :
    (program.bind continuation).Obeys look permits view := by
  induction program generalizing view with
  | done result => exact rest result view
  | call request next inductionHypothesis =>
    exact ⟨first.1, fun reply => inductionHypothesis reply (first.2 reply)⟩

end Program

/-! ### Observed configurations -/

/-- A configuration with the worlds it has passed and a view of every thread. -/
structure Observed (Thread Call : Type) (Reply : Call → Type) (Result World View : Type) where
  config : Config Thread Call Reply Result World
  past : List World
  views : Thread → View

namespace Observed

variable {Thread Call : Type} {Reply : Call → Type} {Result World View Choice : Type}
  [DecidableEq Thread]
  (perform : Choice → (request : Call) → World → Reply request × World)
  (look : View → (request : Call) → Reply request → View)

/-- One observed step of one thread. -/
def step (state : Observed Thread Call Reply Result World View) (pick : Thread × Choice) :
    Observed Thread Call Reply Result World View :=
  match state.config.threads pick.1 with
  | .done _ => state
  | .call request _ =>
      { config := state.config.step perform pick
        past := state.past ++ [state.config.world]
        views := Function.update state.views pick.1
          (look (state.views pick.1) request (perform pick.2 request state.config.world).1) }

variable {perform look}

theorem step_of_done {state : Observed Thread Call Reply Result World View}
    {pick : Thread × Choice} {result : Result}
    (finished : state.config.threads pick.1 = .done result) :
    state.step perform look pick = state := by
  unfold step
  rw [finished]

theorem step_of_call {state : Observed Thread Call Reply Result World View}
    {pick : Thread × Choice} {request : Call} {next : Reply request → Program Call Reply Result}
    (running : state.config.threads pick.1 = .call request next) :
    state.step perform look pick =
      { config :=
          { world := (perform pick.2 request state.config.world).2
            threads := Function.update state.config.threads pick.1
              (next (perform pick.2 request state.config.world).1) }
        past := state.past ++ [state.config.world]
        views := Function.update state.views pick.1
          (look (state.views pick.1) request (perform pick.2 request state.config.world).1) } := by
  unfold step
  rw [running]
  simp only [Config.step_of_call perform running]

/-- Observing does not disturb. -/
theorem config_step (state : Observed Thread Call Reply Result World View)
    (pick : Thread × Choice) :
    (state.step perform look pick).config = state.config.step perform pick := by
  cases program : state.config.threads pick.1 with
  | done result => rw [step_of_done program, Config.step_of_done perform program]
  | call request next => rw [step_of_call program, Config.step_of_call perform program]

/-- An observed run is the run. -/
theorem config_after (state : Observed Thread Call Reply Result World View)
    (schedule : List (Thread × Choice)) :
    (HyperLink.Runs.after (step perform look) state schedule).config =
      state.config.run perform schedule := by
  induction schedule generalizing state with
  | nil => rfl
  | cons pick rest inductionHypothesis =>
    rw [Config.run_cons, ← config_step]
    exact inductionHypothesis _

/-- A step keeps what it keeps of the picked thread and its view, and what the change of the
world keeps of the others. -/
theorem forall_step {state : Observed Thread Call Reply Result World View}
    {pick : Thread × Choice} {request : Call} {next : Reply request → Program Call Reply Result}
    (running : state.config.threads pick.1 = .call request next)
    {holds : Program Call Reply Result → View → Prop}
    (others : ∀ thread, holds (state.config.threads thread) (state.views thread))
    (picked : holds (next (perform pick.2 request state.config.world).1)
      (look (state.views pick.1) request (perform pick.2 request state.config.world).1))
    (thread : Thread) :
    holds ((state.step perform look pick).config.threads thread)
      ((state.step perform look pick).views thread) := by
  rw [step_of_call running]
  by_cases same : thread = pick.1
  · subst same
    simp only [Function.update_self]
    exact picked
  · simp only [Function.update_of_ne same]
    exact others thread

end Observed

end Threads
