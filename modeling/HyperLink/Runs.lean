/-
This file is about runs of a state machine whose step is a function: the state
a list of actions leads to, and the rule for what holds along a run. A condition
on the steps is exact for a property of the states when an invariant carries the
property across every step that meets the condition, and a step that does not
meet it spoils the property at once. A machine refines another one when each of
its steps is a step of the other or leaves what the other one sees. A component of
a machine runs on its own, on the actions that are its own.
-/

import Mathlib.Data.List.Induction

namespace HyperLink

namespace Runs

variable {State Action : Type}

/-- The state after some actions. -/
def after (step : State → Action → State) (start : State) (actions : List Action) : State :=
  actions.foldl step start

variable {step : State → Action → State} {start : State}

@[simp]
theorem after_nil : after step start [] = start := rfl

@[simp]
theorem after_concat (actions : List Action) (action : Action) :
    after step start (actions ++ [action]) = step (after step start actions) action := by
  simp [after]

/-- Every step taken within these actions meets the condition. -/
def Meets (step : State → Action → State) (allowed : State → Action → Prop) (start : State)
    (actions : List Action) : Prop :=
  ∀ before action, before ++ [action] <+: actions → allowed (after step start before) action

/-- Every state visited within these actions has the property. -/
def Along (step : State → Action → State) (good : State → Prop) (start : State)
    (actions : List Action) : Prop :=
  ∀ before, before <+: actions → good (after step start before)

variable {allowed : State → Action → Prop} {good invariant : State → Prop}

theorem meets_nil : Meets step allowed start [] := by
  intro before action inside
  simp at inside

theorem meets_cons {action : Action} {actions : List Action} :
    Meets step allowed start (action :: actions) ↔
      allowed start action ∧ Meets step allowed (step start action) actions := by
  refine ⟨fun meets => ⟨?_, fun before other inside => ?_⟩, fun meets before other inside => ?_⟩
  · exact meets [] action (List.prefix_cons_inj action |>.mpr List.nil_prefix)
  · exact meets (action :: before) other ((List.prefix_cons_inj action).mpr inside)
  · cases before with
    | nil =>
      rw [List.nil_append, List.cons_prefix_cons] at inside
      rw [inside.1]
      exact meets.1
    | cons first before =>
      rw [List.cons_append, List.cons_prefix_cons] at inside
      rw [inside.1]
      exact meets.2 before other inside.2

/-- Whether the steps of a run meet a condition is found by running it. -/
instance decidableMeets [∀ state action, Decidable (allowed state action)] :
    (start : State) → (actions : List Action) → Decidable (Meets step allowed start actions)
  | _, [] => isTrue meets_nil
  | start, action :: rest =>
      @decidable_of_iff _ _ meets_cons.symm
        (@instDecidableAnd _ _ _ (decidableMeets (step start action) rest))

theorem Meets.of_prefix {actions longer : List Action} (meets : Meets step allowed start longer)
    (shorter : actions <+: longer) : Meets step allowed start actions :=
  fun before action inside => meets before action (inside.trans shorter)

/-- What the allowed steps keep holds after every run of allowed steps. -/
theorem invariant_after (holds : invariant start)
    (kept : ∀ state action, invariant state → allowed state action →
      invariant (step state action))
    (actions : List Action) (meets : Meets step allowed start actions) :
    invariant (after step start actions) := by
  induction actions using List.reverseRecOn with
  | nil => exact holds
  | append_singleton actions action inductionHypothesis =>
    rw [after_concat]
    exact kept _ _ (inductionHypothesis (meets.of_prefix (List.prefix_append _ _)))
      (meets actions action List.prefix_rfl)

/-- Along a run of allowed steps every state has what follows from the invariant. -/
theorem along_of_meets (holds : invariant start)
    (kept : ∀ state action, invariant state → allowed state action →
      invariant (step state action))
    (enough : ∀ state, invariant state → good state)
    {actions : List Action} (meets : Meets step allowed start actions) :
    Along step good start actions :=
  fun before inside => enough _ (invariant_after holds kept before (meets.of_prefix inside))

/-- The condition is exact if a step without it spoils the property. -/
theorem along_iff_meets (holds : invariant start)
    (kept : ∀ state action, invariant state → allowed state action →
      invariant (step state action))
    (enough : ∀ state, invariant state → good state)
    (spoiled : ∀ state action, invariant state → ¬ allowed state action →
      ¬ good (step state action))
    (actions : List Action) :
    Along step good start actions ↔ Meets step allowed start actions := by
  refine ⟨fun along => ?_, along_of_meets holds kept enough⟩
  -- A step of a good run is allowed, so the invariant travels along the run.
  have carried : ∀ before, before <+: actions → Meets step allowed start before := by
    intro before inside
    induction before using List.reverseRecOn with
    | nil =>
      intro earlier action shorter
      simp at shorter
    | append_singleton before action inductionHypothesis =>
      have met := inductionHypothesis ((List.prefix_append _ _).trans inside)
      have last : allowed (after step start before) action := by
        by_contra refused
        have fine := along _ inside
        rw [after_concat] at fine
        exact spoiled _ action (invariant_after holds kept before met) refused fine
      intro earlier other shorter
      rcases List.prefix_concat_iff.mp shorter with same | shorter
      · obtain ⟨rfl, sameAction⟩ := List.append_inj' same rfl
        injection sameAction with sameAction
        rw [sameAction]
        exact last
      · exact met earlier other shorter
  exact carried actions List.prefix_rfl

/-- If every allowed step uses some of a measure up, no run of allowed steps is longer than the
measure. -/
theorem length_le_measure {measure : State → Nat} (holds : invariant start)
    (kept : ∀ state action, invariant state → allowed state action →
      invariant (step state action))
    (uses : ∀ state action, invariant state → allowed state action →
      measure (step state action) < measure state)
    {actions : List Action} (meets : Meets step allowed start actions) :
    actions.length ≤ measure start := by
  induction actions generalizing start with
  | nil => exact Nat.zero_le _
  | cons action rest inductionHypothesis =>
    rw [meets_cons] at meets
    have less := uses start action holds meets.1
    have later := inductionHypothesis (kept start action holds meets.1) meets.2
    rw [List.length_cons]
    omega

/-! ### Refinement -/

section Refinement

variable {Above Event : Type} {above : Above → Event → Above}
  {visible : State → Action → Option Event} {abstraction : State → Above}

/-- The events that a run shows to the level above. -/
def shown (step : State → Action → State) (visible : State → Action → Option Event)
    (start : State) : List Action → List Event
  | [] => []
  | action :: rest => (visible start action).toList ++ shown step visible (step start action) rest

theorem shown_append (actions more : List Action) :
    shown step visible start (actions ++ more) =
      shown step visible start actions ++ shown step visible (after step start actions) more := by
  induction actions generalizing start with
  | nil => rfl
  | cons action rest inductionHypothesis =>
    rw [List.cons_append, shown, shown, inductionHypothesis, List.append_assoc]
    rfl

/-- Every run of allowed steps is above the run of what it shows. -/
theorem refines_after (holds : invariant start)
    (kept : ∀ state action, invariant state → allowed state action →
      invariant (step state action))
    (simulates : ∀ state action, invariant state → allowed state action →
      abstraction (step state action) =
        after above (abstraction state) (visible state action).toList)
    (actions : List Action) (meets : Meets step allowed start actions) :
    abstraction (after step start actions) =
      after above (abstraction start) (shown step visible start actions) := by
  induction actions using List.reverseRecOn with
  | nil => rfl
  | append_singleton actions action inductionHypothesis =>
    have earlier := meets.of_prefix (List.prefix_append _ _)
    have reached := invariant_after holds kept actions earlier
    rw [after_concat, simulates _ _ reached (meets actions action List.prefix_rfl),
      inductionHypothesis earlier, shown_append]
    simp only [after, shown, List.append_nil, List.foldl_append]

/-- What allowed steps only add to is, after a run, what the run showed. -/
theorem accumulates_after {gathered : State → List Event} (holds : invariant start)
    (kept : ∀ state action, invariant state → allowed state action →
      invariant (step state action))
    (adds : ∀ state action, invariant state → allowed state action →
      gathered (step state action) = gathered state ++ (visible state action).toList)
    (actions : List Action) (meets : Meets step allowed start actions) :
    gathered (after step start actions) =
      gathered start ++ shown step visible start actions := by
  have appended : ∀ (more before : List Event),
      after (fun list event => list ++ [event]) before more = before ++ more := by
    intro more
    induction more with
    | nil => exact fun before => (List.append_nil before).symm
    | cons event rest inductionHypothesis =>
      intro before
      exact (inductionHypothesis (before ++ [event])).trans (List.append_cons _ _ _).symm
  rw [← appended]
  refine refines_after holds kept (fun state action fine allow => ?_) actions meets
  rw [adds state action fine allow, appended]

/-- What a run showed was shown by one of its steps. -/
theorem mem_shown {event : Event} {actions : List Action} :
    event ∈ shown step visible start actions ↔ ∃ before action,
      before ++ [action] <+: actions ∧ visible (after step start before) action = some event := by
  induction actions using List.reverseRecOn with
  | nil => simp [shown]
  | append_singleton actions action inductionHypothesis =>
    rw [shown_append, List.mem_append, inductionHypothesis]
    simp only [shown, List.append_nil, Option.mem_toList]
    constructor
    · rintro (⟨before, other, inside, saw⟩ | saw)
      · exact ⟨before, other, inside.trans (List.prefix_append _ _), saw⟩
      · exact ⟨actions, action, List.prefix_rfl, saw⟩
    · rintro ⟨before, other, inside, saw⟩
      rcases List.prefix_concat_iff.mp inside with same | shorter
      · obtain ⟨rfl, sameAction⟩ := List.append_inj' same rfl
        injection sameAction with sameAction
        rw [sameAction] at saw
        exact .inr saw
      · exact .inl ⟨before, other, shorter, saw⟩

end Refinement

/-! ### Components -/

section Component

variable {Part Own : Type} {part : State → Part} {partStep : Part → Own → Part}
  {own : Action → Option Own}

/-- The component of a run is the run of the component's own actions. -/
theorem component_after
    (acts : ∀ state action, part (step state action) =
      after partStep (part state) (own action).toList)
    (actions : List Action) :
    part (after step start actions) =
      after partStep (part start) (actions.filterMap own) := by
  induction actions using List.reverseRecOn with
  | nil => rfl
  | append_singleton actions action inductionHypothesis =>
    rw [after_concat, acts, inductionHypothesis, List.filterMap_append]
    cases mine : own action <;> simp [after, mine]

/-- A component meets its own condition if every step of the run does. -/
theorem Meets.component {partAllowed : Part → Own → Prop}
    (acts : ∀ state action, part (step state action) =
      after partStep (part state) (own action).toList)
    (each : ∀ state action move, allowed state action → own action = some move →
      partAllowed (part state) move)
    {actions : List Action} (meets : Meets step allowed start actions) :
    Meets partStep partAllowed (part start) (actions.filterMap own) := by
  induction actions generalizing start with
  | nil => exact meets_nil
  | cons action rest inductionHypothesis =>
    rw [meets_cons] at meets
    have later := inductionHypothesis meets.2
    cases mine : own action with
    | none =>
      rw [List.filterMap_cons_none mine]
      rw [acts, mine] at later
      exact later
    | some move =>
      rw [List.filterMap_cons_some mine]
      rw [acts, mine] at later
      exact meets_cons.mpr ⟨each _ _ _ meets.1 mine, later⟩

end Component

end Runs

end HyperLink
