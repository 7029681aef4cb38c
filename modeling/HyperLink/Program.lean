/-
This file is the library of thread programs. A thread is the tree of its calls
on shared state: a finished thread carries its result, a running one carries
the call it makes next and its code for every reply. The tree is inductive, so
a thread that is scheduled often enough finishes.

Programs compose with `bind`, they can run alone against an interpretation of
the calls, and `Meets` is the rule system for one thread among others: under
interference that respects `rely`, every call of the thread keeps the shared
invariant and respects `guarantee`, and the thread ends in `post`. The rules
follow the program's structure, so a proof about a program reads like its code.
-/

import Mathlib

namespace Threads

/-- The code of one thread: finished with a result, or about to make a call. -/
inductive Program (Call : Type) (Reply : Call → Type) (Result : Type) where
  | done (result : Result)
  | call (request : Call) (next : Reply request → Program Call Reply Result)

namespace Program

variable {Call : Type} {Reply : Call → Type} {Result Other World : Type}

/-- Whether a program is finished with a result. -/
instance decidableEqDone [DecidableEq Result] (program : Program Call Reply Result)
    (result : Result) : Decidable (program = done result) :=
  match program with
  | done found => decidable_of_iff (found = result) ⟨congrArg done, done.inj⟩
  | call _ _ => isFalse fun never => by cases never

/-- Run a program and continue with its result. -/
def bind : Program Call Reply Result → (Result → Program Call Reply Other) →
    Program Call Reply Other
  | done result, continuation => continuation result
  | call request next, continuation => call request fun reply => (next reply).bind continuation

/-- Make one call and return its reply. -/
def invoke (request : Call) : Program Call Reply (Reply request) :=
  call request done

@[simp]
theorem bind_done (result : Result) (continuation : Result → Program Call Reply Other) :
    (done result).bind continuation = continuation result := rfl

@[simp]
theorem bind_call (request : Call) (next : Reply request → Program Call Reply Result)
    (continuation : Result → Program Call Reply Other) :
    (call request next).bind continuation =
      call request fun reply => (next reply).bind continuation := rfl

theorem bind_assoc {Last : Type} (program : Program Call Reply Result)
    (first : Result → Program Call Reply Other) (second : Other → Program Call Reply Last) :
    (program.bind first).bind second = program.bind fun result => (first result).bind second := by
  induction program with
  | done result => rfl
  | call request next inductionHypothesis =>
    simp only [bind_call]
    exact congrArg _ (funext inductionHypothesis)

/-! ### Running alone -/

/-- The result and the final world of a program that runs alone. -/
def run (perform : (request : Call) → World → Reply request × World) :
    Program Call Reply Result → World → Result × World
  | done result, world => (result, world)
  | call request next, world =>
      (next (perform request world).1).run perform (perform request world).2

@[simp]
theorem run_done (perform : (request : Call) → World → Reply request × World) (result : Result)
    (world : World) : (done result).run perform world = (result, world) := rfl

@[simp]
theorem run_call (perform : (request : Call) → World → Reply request × World) (request : Call)
    (next : Reply request → Program Call Reply Result) (world : World) :
    (call request next).run perform world =
      (next (perform request world).1).run perform (perform request world).2 := rfl

/-- A sequence runs its parts one after the other. -/
theorem run_bind (perform : (request : Call) → World → Reply request × World)
    (program : Program Call Reply Result) (continuation : Result → Program Call Reply Other)
    (world : World) :
    (program.bind continuation).run perform world =
      (continuation (program.run perform world).1).run perform (program.run perform world).2 := by
  induction program generalizing world with
  | done result => rfl
  | call request next inductionHypothesis =>
    simp only [bind_call, run_call]
    exact inductionHypothesis _ _

/-- Worlds that no call tells apart give runs that nothing tells apart. -/
theorem run_congr {perform : (request : Call) → World → Reply request × World}
    {similar : World → World → Prop}
    (respects : ∀ request first second, similar first second →
      (perform request first).1 = (perform request second).1 ∧
        similar (perform request first).2 (perform request second).2)
    (program : Program Call Reply Result) {first second : World} (same : similar first second) :
    (program.run perform first).1 = (program.run perform second).1 ∧
      similar (program.run perform first).2 (program.run perform second).2 := by
  induction program generalizing first second with
  | done result => exact ⟨rfl, same⟩
  | call request next inductionHypothesis =>
    obtain ⟨reply, later⟩ := respects request first second same
    rw [run_call, run_call, reply]
    exact inductionHypothesis _ later

/-! ### Every way a program can end -/

/-- Whatever the replies, the program ends only in results that satisfy the predicate. -/
def EndsOnlyIn (allowed : Result → Prop) : Program Call Reply Result → Prop
  | done result => allowed result
  | call _ next => ∀ reply, (next reply).EndsOnlyIn allowed

theorem EndsOnlyIn.bind {allowed : Result → Prop} {final : Other → Prop}
    {program : Program Call Reply Result} {continuation : Result → Program Call Reply Other}
    (first : program.EndsOnlyIn allowed)
    (second : ∀ result, allowed result → (continuation result).EndsOnlyIn final) :
    (program.bind continuation).EndsOnlyIn final := by
  induction program with
  | done result => exact second result first
  | call request next inductionHypothesis =>
    exact fun reply => inductionHypothesis reply (first reply)

theorem EndsOnlyIn.weaken {allowed other : Result → Prop} {program : Program Call Reply Result}
    (ends : program.EndsOnlyIn allowed) (weaker : ∀ result, allowed result → other result) :
    program.EndsOnlyIn other := by
  induction program with
  | done result => exact weaker result ends
  | call request next inductionHypothesis =>
    exact fun reply => inductionHypothesis reply (ends reply)

/-- Only the results that a program can end in matter to what follows it. -/
theorem EndsOnlyIn.bind_congr {allowed : Result → Prop} {program : Program Call Reply Result}
    {first second : Result → Program Call Reply Other} (ends : program.EndsOnlyIn allowed)
    (same : ∀ result, allowed result → first result = second result) :
    program.bind first = program.bind second := by
  induction program with
  | done result => exact same result ends
  | call request next inductionHypothesis =>
    simp only [bind_call]
    exact congrArg _ (funext fun reply => inductionHypothesis reply (ends reply))

/-! ### One thread among others -/

section Contract

variable {Choice : Type} (perform : Choice → (request : Call) → World → Reply request × World)
  (allowed : Choice → Call → World → Prop) (invariant : World → Prop)
  (rely guarantee : World → World → Prop)

/-- The program keeps `invariant` and respects `guarantee` at each of its calls, and ends in
`post`, whatever the other threads do within `rely` before each of them. -/
def Meets (post : Result → World → Prop) : Program Call Reply Result → World → Prop
  | done result, world => ∀ later, rely world later → invariant later → post result later
  | call request next, world =>
      ∀ later, rely world later → invariant later → ∀ choice, allowed choice request later →
        invariant (perform choice request later).2 ∧
          guarantee later (perform choice request later).2 ∧
          (next (perform choice request later).1).Meets post (perform choice request later).2

variable {perform allowed invariant rely guarantee}

/-- A contract survives the interference it tolerates. -/
theorem Meets.stable (transitive : ∀ first second third, rely first second →
      rely second third → rely first third)
    {post : Result → World → Prop} {program : Program Call Reply Result} {world later : World}
    (meets : program.Meets perform allowed invariant rely guarantee post world)
    (step : rely world later) :
    program.Meets perform allowed invariant rely guarantee post later := by
  cases program with
  | done result => exact fun last rest => meets last (transitive _ _ _ step rest)
  | call request next => exact fun last rest => meets last (transitive _ _ _ step rest)

/-- To establish a contract it is enough to establish it after every interference. -/
theorem Meets.of_later (reflexive : ∀ world, rely world world)
    {post : Result → World → Prop} {program : Program Call Reply Result} {world : World}
    (meets : ∀ later, rely world later → invariant later →
      program.Meets perform allowed invariant rely guarantee post later) :
    program.Meets perform allowed invariant rely guarantee post world := by
  cases program with
  | done result => exact fun later step kept => meets later step kept later (reflexive _) kept
  | call request next =>
    exact fun later step kept => meets later step kept later (reflexive _) kept

/-- The consequence rule. -/
theorem Meets.weaken {post weaker : Result → World → Prop}
    {program : Program Call Reply Result} {world : World}
    (meets : program.Meets perform allowed invariant rely guarantee post world)
    (implies : ∀ result later, invariant later → post result later → weaker result later) :
    program.Meets perform allowed invariant rely guarantee weaker world := by
  induction program generalizing world with
  | done result =>
    exact fun later step kept => implies result later kept (meets later step kept)
  | call request next inductionHypothesis =>
    intro later step kept choice permitted
    obtain ⟨keeps, respects, rest⟩ := meets later step kept choice permitted
    exact ⟨keeps, respects, inductionHypothesis _ rest⟩

/-- The frame rule: what neither the others nor the program disturb stays true. The program
may respect a narrower guarantee than is asked of it. -/
theorem Meets.frame {narrow : World → World → Prop} {held : World → Prop}
    (undisturbed : ∀ before after, rely before after → held before → held after)
    (respected : ∀ before after, narrow before after → held before → held after)
    (within : ∀ before after, narrow before after → guarantee before after)
    {post : Result → World → Prop} {program : Program Call Reply Result} {world : World}
    (meets : program.Meets perform allowed invariant rely narrow post world)
    (holds : held world) :
    program.Meets perform allowed invariant rely guarantee
      (fun result later => post result later ∧ held later) world := by
  induction program generalizing world with
  | done result =>
    exact fun later step kept => ⟨meets later step kept, undisturbed _ _ step holds⟩
  | call request next inductionHypothesis =>
    intro later step kept choice permitted
    obtain ⟨keeps, respects, rest⟩ := meets later step kept choice permitted
    exact ⟨keeps, within _ _ respects, inductionHypothesis _ rest
      (respected _ _ respects (undisturbed _ _ step holds))⟩

/-- What holds at every end of a program may be added to its postcondition. -/
theorem Meets.and_endsOnlyIn {ends : Result → Prop} {post : Result → World → Prop}
    {program : Program Call Reply Result} {world : World}
    (meets : program.Meets perform allowed invariant rely guarantee post world)
    (only : program.EndsOnlyIn ends) :
    program.Meets perform allowed invariant rely guarantee
      (fun result later => post result later ∧ ends result) world := by
  induction program generalizing world with
  | done result => exact fun later step kept => ⟨meets later step kept, only⟩
  | call request next inductionHypothesis =>
    intro later step kept choice permitted
    obtain ⟨keeps, respects, rest⟩ := meets later step kept choice permitted
    exact ⟨keeps, respects, inductionHypothesis _ rest (only _)⟩

/-- A contract that holds for more choices of the environment holds for fewer. -/
theorem Meets.restrict {fewer : Choice → Call → World → Prop}
    (narrower : ∀ choice request world, invariant world → fewer choice request world →
      allowed choice request world)
    {post : Result → World → Prop} {program : Program Call Reply Result} {world : World}
    (meets : program.Meets perform allowed invariant rely guarantee post world) :
    program.Meets perform fewer invariant rely guarantee post world := by
  induction program generalizing world with
  | done result => exact meets
  | call request next inductionHypothesis =>
    intro later step kept choice permitted
    obtain ⟨keeps, respects, rest⟩ :=
      meets later step kept choice (narrower choice request later kept permitted)
    exact ⟨keeps, respects, inductionHypothesis _ rest⟩

/-- The sequencing rule. -/
theorem Meets.bind (reflexive : ∀ world, rely world world)
    {post : Other → World → Prop} {program : Program Call Reply Result}
    {continuation : Result → Program Call Reply Other} {world : World}
    (meets : program.Meets perform allowed invariant rely guarantee
      (fun result later =>
        (continuation result).Meets perform allowed invariant rely guarantee post later) world) :
    (program.bind continuation).Meets perform allowed invariant rely guarantee post world := by
  induction program generalizing world with
  | done result => exact Meets.of_later reflexive meets
  | call request next inductionHypothesis =>
    intro later step kept choice permitted
    obtain ⟨keeps, respects, rest⟩ := meets later step kept choice permitted
    exact ⟨keeps, respects, inductionHypothesis _ rest⟩

/-- The rule for a program whose result is only converted. -/
theorem Meets.map {post : Other → World → Prop} {program : Program Call Reply Result}
    (convert : Result → Other) {world : World}
    (meets : program.Meets perform allowed invariant rely guarantee
      (fun result later => post (convert result) later) world) :
    (program.bind fun result => Program.done (convert result)).Meets perform allowed invariant
      rely guarantee post world := by
  induction program generalizing world with
  | done result => exact meets
  | call request next inductionHypothesis =>
    intro later step kept choice permitted
    obtain ⟨keeps, respects, rest⟩ := meets later step kept choice permitted
    exact ⟨keeps, respects, inductionHypothesis _ rest⟩

/-- The rule for a finished program: its result is right under every interference. -/
theorem Meets.done {post : Result → World → Prop} {result : Result} {world : World}
    (holds : ∀ later, rely world later → invariant later → post result later) :
    (Program.done result : Program Call Reply Result).Meets perform allowed invariant rely
      guarantee post world := holds

end Contract

end Program

end Threads
