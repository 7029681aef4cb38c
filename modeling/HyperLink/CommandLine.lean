/-
This file is about command lines: a loop takes the words from left to right, and a
word changes the settings by itself or with the word after it. It gives the loop
as a fold over the uses of words, the rule for a setting that only some words
write, and the rule for words that stand in another order.
-/

import Mathlib.Data.List.Induction
import Mathlib.Data.List.Perm.Basic

namespace HyperLink

namespace CommandLine

variable {Word Settings Stop : Type}

/-- What a word asks for: a change of the settings, or one that takes the next word. -/
inductive Meaning (Word Settings Stop : Type) where
  | switch (set : Settings → Except Stop Settings)
  | valued (set : Word → Settings → Except Stop Settings)

/-- Whether a word takes the next one. -/
def Meaning.isValued : Meaning Word Settings Stop → Bool
  | .switch _ => false
  | .valued _ => true

/-- The loop over the words. -/
def parse (meaning : Word → Meaning Word Settings Stop) (missing : Word → Stop) :
    List Word → Settings → Except Stop Settings
  | [], settings => .ok settings
  | word :: rest, settings =>
      match meaning word with
      | .switch set => set settings >>= fun settings => parse meaning missing rest settings
      | .valued set =>
          match rest with
          | [] => .error (missing word)
          | value :: rest =>
              set value settings >>= fun settings => parse meaning missing rest settings

/-- One use of a word, with the value it took. -/
structure Use (Word : Type) where
  word : Word
  value : Option Word
  deriving DecidableEq

/-- The words that are used, apart from those that are values. -/
def uses (isValued : Word → Bool) : List Word → List (Use Word)
  | [] => []
  | word :: rest =>
      if isValued word then
        match rest with
        | [] => [⟨word, none⟩]
        | value :: rest => ⟨word, some value⟩ :: uses isValued rest
      else ⟨word, none⟩ :: uses isValued rest

theorem uses_switch {isValued : Word → Bool} {word : Word} (switch : isValued word = false)
    (rest : List Word) : uses isValued (word :: rest) = ⟨word, none⟩ :: uses isValued rest := by
  rw [uses.eq_def]
  simp [switch]

theorem uses_missing {isValued : Word → Bool} {word : Word} (valued : isValued word = true) :
    uses isValued [word] = [⟨word, none⟩] := by
  rw [uses.eq_def]
  simp [valued]

theorem uses_valued {isValued : Word → Bool} {word : Word} (valued : isValued word = true)
    (value : Word) (rest : List Word) :
    uses isValued (word :: value :: rest) = ⟨word, some value⟩ :: uses isValued rest := by
  rw [uses.eq_def]
  simp [valued]

/-- A word that takes no value has none. -/
theorem value_of_mem_uses {isValued : Word → Bool} {words : List Word} {use : Use Word}
    (member : use ∈ uses isValued words) (switch : isValued use.word = false) :
    use.value = none := by
  fun_induction uses isValued words with
  | case1 => cases member
  | case2 word valued =>
    rw [List.mem_singleton.mp member]
  | case3 word valued value rest inductionHypothesis =>
    rcases List.mem_cons.mp member with rfl | later
    · rw [valued] at switch
      cases switch
    · exact inductionHypothesis later
  | case4 word rest switch_ inductionHypothesis =>
    rcases List.mem_cons.mp member with rfl | later
    · rfl
    · exact inductionHypothesis later

/-- What one use does. -/
def apply (meaning : Word → Meaning Word Settings Stop) (missing : Word → Stop)
    (settings : Settings) (use : Use Word) : Except Stop Settings :=
  match meaning use.word with
  | .switch set => set settings
  | .valued set =>
      match use.value with
      | none => .error (missing use.word)
      | some value => set value settings

/-- The loop is a fold over the uses. -/
theorem parse_eq_foldlM (meaning : Word → Meaning Word Settings Stop) (missing : Word → Stop)
    (words : List Word) (settings : Settings) :
    parse meaning missing words settings =
      (uses (fun word => (meaning word).isValued) words).foldlM (apply meaning missing)
        settings := by
  fun_induction parse meaning missing words settings with
  | case1 settings => rfl
  | case2 word rest settings set means inductionHypothesis =>
    have first : apply meaning missing settings ⟨word, none⟩ = set settings := by
      simp [apply, means]
    rw [uses_switch (by simp [means, Meaning.isValued]), List.foldlM_cons, first]
    exact congrArg _ (funext inductionHypothesis)
  | case3 word settings set means =>
    have first : apply meaning missing settings ⟨word, none⟩ = .error (missing word) := by
      simp [apply, means]
    rw [uses_missing (by simp [means, Meaning.isValued]), List.foldlM_cons, first]
    rfl
  | case4 word settings set means value rest inductionHypothesis =>
    have first : apply meaning missing settings ⟨word, some value⟩ = set value settings := by
      simp [apply, means]
    rw [uses_valued (by simp [means, Meaning.isValued]), List.foldlM_cons, first]
    exact congrArg _ (funext inductionHypothesis)

/-! ### Folds that can stop -/

section

variable {Action State : Type} {act : State → Action → Except Stop State}

/-- What goes through goes through at both steps. -/
theorem bind_ok {Between After : Type} {first : Except Stop Between}
    {next : Between → Except Stop After} {after : After} (done : first >>= next = .ok after) :
    ∃ between, first = .ok between ∧ next between = .ok after := by
  cases first with
  | error stop => cases done
  | ok between => exact ⟨between, rfl, done⟩

theorem foldlM_concat (actions : List Action) (action : Action) (start : State) :
    (actions ++ [action]).foldlM act start =
      actions.foldlM act start >>= fun between => act between action := by
  rw [List.foldlM_append]
  refine congrArg _ (funext fun between => ?_)
  rw [List.foldlM_cons]
  exact bind_pure _

theorem foldlM_concat_ok {actions : List Action} {action : Action} {start after : State}
    (done : (actions ++ [action]).foldlM act start = .ok after) :
    ∃ between, actions.foldlM act start = .ok between ∧ act between action = .ok after := by
  rw [foldlM_concat] at done
  exact bind_ok done

/-- A fold that goes through goes through every action. -/
theorem foldlM_each {actions : List Action} {start after : State}
    (done : actions.foldlM act start = .ok after) {action : Action} (member : action ∈ actions) :
    ∃ before later, act before action = .ok later := by
  induction actions using List.reverseRecOn generalizing after with
  | nil => cases member
  | append_singleton actions last inductionHypothesis =>
    obtain ⟨between, first, final⟩ := foldlM_concat_ok done
    rcases List.mem_append.mp member with earlier | isLast
    · exact inductionHypothesis first earlier
    · rw [List.mem_singleton.mp isLast]
      exact ⟨between, after, final⟩

/-- A fold that stops does so at one of the actions. -/
theorem foldlM_error {actions : List Action} {start : State} {stop : Stop}
    (stopped : actions.foldlM act start = .error stop) :
    ∃ before, ∃ action ∈ actions, act before action = .error stop := by
  induction actions using List.reverseRecOn with
  | nil => cases stopped
  | append_singleton actions action inductionHypothesis =>
    rw [foldlM_concat] at stopped
    cases first : actions.foldlM act start with
    | error earlier =>
      rw [first] at stopped
      cases stopped
      obtain ⟨before, other, member, failed⟩ := inductionHypothesis first
      exact ⟨before, other, List.mem_append_left _ member, failed⟩
    | ok between =>
      rw [first] at stopped
      exact ⟨between, action, List.mem_append_right _ (List.mem_singleton_self _), stopped⟩

/-- The fold goes through if every action does, where that depends on the action only. -/
theorem foldlM_ok_iff {fine : Action → Prop}
    (alone : ∀ before action, (∃ after, act before action = .ok after) ↔ fine action)
    (actions : List Action) (start : State) :
    (∃ after, actions.foldlM act start = .ok after) ↔ ∀ action ∈ actions, fine action := by
  induction actions using List.reverseRecOn with
  | nil => exact iff_of_true ⟨start, rfl⟩ (fun action nothing => (by cases nothing))
  | append_singleton actions action inductionHypothesis =>
    rw [List.forall_mem_append, List.forall_mem_singleton, ← inductionHypothesis]
    refine ⟨?_, ?_⟩
    · rintro ⟨after, done⟩
      obtain ⟨between, first, last⟩ := foldlM_concat_ok done
      exact ⟨⟨between, first⟩, (alone between action).mp ⟨after, last⟩⟩
    · rintro ⟨⟨between, first⟩, fits⟩
      obtain ⟨after, last⟩ := (alone between action).mpr fits
      refine ⟨after, ?_⟩
      rw [foldlM_concat, first]
      exact last

/-- What a field holds behind some actions: what the last of those that write it wrote, or else
what it held before. -/
def written {Field : Type} (writes : Action → Option Field) (before : Field)
    (actions : List Action) : Field :=
  (actions.filterMap writes).getLast?.getD before

theorem written_concat {Field : Type} (writes : Action → Option Field) (before : Field)
    (actions : List Action) (action : Action) :
    written writes before (actions ++ [action]) =
      (writes action).getD (written writes before actions) := by
  unfold written
  rw [List.filterMap_append]
  cases here : writes action with
  | none => simp [here]
  | some field => simp [here]

/-- The rule of the last writer. -/
theorem foldlM_written {Field : Type} {read : State → Field} {writes : Action → Option Field}
    (each : ∀ before action after, act before action = .ok after →
      read after = (writes action).getD (read before))
    {actions : List Action} {start after : State}
    (done : actions.foldlM act start = .ok after) :
    read after = written writes (read start) actions := by
  induction actions using List.reverseRecOn generalizing after with
  | nil =>
    cases done
    rfl
  | append_singleton actions action inductionHypothesis =>
    obtain ⟨between, first, last⟩ := foldlM_concat_ok done
    rw [each between action after last, written_concat, inductionHypothesis first]

/-- The last writer, among actions of which no others write. -/
theorem written_of_last {Field : Type} {writes : Action → Option Field} {mine : Action → Bool}
    (others : ∀ action, mine action = false → writes action = none) (before : Field)
    {actions : List Action} {action : Action} {field : Field}
    (last : (actions.filter mine).getLast? = some action) (wrote : writes action = some field) :
    written writes before actions = field := by
  have own : actions.filterMap writes = (actions.filter mine).filterMap writes := by
    rw [List.filterMap_filter]
    refine List.filterMap_congr fun action _ => ?_
    cases here : mine action with
    | true => rfl
    | false => exact others action here
  obtain ⟨front, split⟩ := List.getLast?_eq_some_iff.mp last
  rw [written, own, split, List.filterMap_append]
  simp [wrote]

theorem written_of_none {Field : Type} {writes : Action → Option Field} {actions : List Action}
    (nothing : ∀ action ∈ actions, writes action = none) (before : Field) :
    written writes before actions = before := by
  rw [written, List.filterMap_eq_nil_iff.mpr nothing]
  rfl

/-- The writers of a field write the same. -/
def Agreeing {Field : Type} (writes : Action → Option Field) (actions : List Action) : Prop :=
  ∀ first ∈ actions, ∀ second ∈ actions, ∀ one ∈ writes first, ∀ other ∈ writes second,
    one = other

/-- What agreeing writers write is what a field holds. -/
theorem Agreeing.written_eq {Field : Type} {writes : Action → Option Field}
    {actions : List Action} (agreeing : Agreeing writes actions) {action : Action}
    (member : action ∈ actions) {field : Field} (wrote : writes action = some field)
    (before : Field) : written writes before actions = field := by
  have here : field ∈ actions.filterMap writes := List.mem_filterMap.mpr ⟨action, member, wrote⟩
  cases last : (actions.filterMap writes).getLast? with
  | none =>
    rw [List.getLast?_eq_none_iff.mp last] at here
    cases here
  | some other =>
    obtain ⟨writer, inside, wroteOther⟩ :=
      List.mem_filterMap.mp (List.mem_of_getLast? last)
    rw [written, last, Option.getD_some]
    exact agreeing writer inside action member other wroteOther field wrote

/-- The rule for another order: agreeing writers leave the same. -/
theorem Agreeing.written_perm {Field : Type} {writes : Action → Option Field}
    {actions others : List Action} (agreeing : Agreeing writes actions)
    (perm : others.Perm actions) (before : Field) :
    written writes before others = written writes before actions := by
  have agreeingOthers : Agreeing writes others := by
    intro first isFirst second isSecond
    exact agreeing first (perm.mem_iff.mp isFirst) second (perm.mem_iff.mp isSecond)
  by_cases writer : ∃ action ∈ actions, ∃ field, writes action = some field
  · obtain ⟨action, member, field, wrote⟩ := writer
    rw [agreeing.written_eq member wrote before,
      agreeingOthers.written_eq (perm.mem_iff.mpr member) wrote before]
  · have nothing : ∀ action ∈ actions, writes action = none := by
      intro action member
      by_contra wrote
      exact writer ⟨action, member, Option.ne_none_iff_exists'.mp wrote⟩
    rw [written_of_none nothing,
      written_of_none fun action member => nothing action (perm.mem_iff.mp member)]

end

/-- The value that the last use of some words took. -/
def lastValue (isValued named : Word → Bool) (words : List Word) : Option Word :=
  ((uses isValued words).filter fun use => named use.word).getLast?.bind Use.value

/-- What a use writes to a field when its word is the one for it. -/
def writesFor {Field : Type} (named : Word → Bool) (read : Word → Option Field)
    (use : Use Word) : Option Field :=
  if named use.word then use.value.bind read else none

/-- A field that one option writes holds what its effective value is read as. -/
theorem written_writesFor {Field : Type} {isValued named : Word → Bool}
    {read : Word → Option Field} {words : List Word}
    (fine : ∀ use ∈ uses isValued words, named use.word = true →
      ∃ value field, use.value = some value ∧ read value = some field) (before : Field) :
    written (writesFor named read) before (uses isValued words) =
      ((lastValue isValued named words).bind read).getD before := by
  unfold lastValue
  cases last : ((uses isValued words).filter fun use => named use.word).getLast? with
  | none =>
    have nothing : (uses isValued words).filterMap (writesFor named read) = [] := by
      rw [List.getLast?_eq_none_iff] at last
      rw [List.filterMap_eq_nil_iff]
      intro use member
      rw [writesFor, if_neg]
      exact List.filter_eq_nil_iff.mp last use member
    rw [written, nothing]
    rfl
  | some use =>
    obtain ⟨inside, isNamed⟩ := List.mem_filter.mp (List.mem_of_getLast? last)
    obtain ⟨value, field, taken, isRead⟩ := fine use inside isNamed
    have wrote : writesFor named read use = some field := by
      rw [writesFor, if_pos isNamed, taken, Option.bind_some, isRead]
    rw [Option.bind_some, taken, Option.bind_some, isRead, Option.getD_some]
    refine written_of_last (fun other foreign => ?_) before last wrote
    rw [writesFor, if_neg (by simp [foreign])]

/-- A text that some options write as it stands is their effective value. -/
theorem parse_lastValue {meaning : Word → Meaning Word Settings Stop} {missing : Word → Stop}
    {named : Word → Bool} {read : Settings → Word}
    (valued : ∀ word, named word = true → (meaning word).isValued = true)
    (each : ∀ before use after, apply meaning missing before use = .ok after →
      read after = (writesFor named some use).getD (read before))
    {words : List Word} {start after : Settings}
    (done : parse meaning missing words start = .ok after) :
    read after =
      (lastValue (fun word => (meaning word).isValued) named words).getD (read start) := by
  rw [parse_eq_foldlM] at done
  rw [foldlM_written each done, written_writesFor, Option.bind_fun_some]
  intro use member isNamed
  obtain ⟨before, later, goes⟩ := foldlM_each done member
  have takes := valued use.word isNamed
  simp only [apply] at goes
  cases means : meaning use.word with
  | switch set =>
    rw [means] at takes
    cases takes
  | valued set =>
    rw [means] at goes
    cases value : use.value with
    | none =>
      rw [value] at goes
      cases goes
    | some text => exact ⟨text, text, rfl, rfl⟩

end CommandLine

end HyperLink
