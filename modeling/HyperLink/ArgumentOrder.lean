/-
This file is about the order of the options of the file-transfer tool. Four of
them write the host and two the output directory, so a later one takes back what
an earlier one said. For options that occur once, the order does not matter
exactly when it is refused in every order, or when those that write one field
write the same.
-/

import HyperLink.Arguments

namespace HyperLink

open CommandLine

/-! ### Outcomes in another order -/

/-- Both throw, or both return the same options. -/
def SameOutcome (first second : Except Stop Options) : Prop :=
  (∃ options, first = .ok options ∧ second = .ok options) ∨
    (∃ error, first = .error (.thrown error)) ∧ ∃ error, second = .error (.thrown error)

/-- The order of some settings does not matter to `parse_args`. -/
def OrderIrrelevant (settings : List Setting) : Prop :=
  ∀ other : List Setting, other.Perm settings →
    SameOutcome (parseArgs (settings.flatMap Setting.words))
      (parseArgs (other.flatMap Setting.words))

/-- Settings that are refused in any order: a value is unacceptable, not exactly one direction is
asked for, a sender has no file, a receiver is to discover, or a port is out of range. -/
def Refused (settings : List Setting) : Prop :=
  (∃ setting ∈ settings, ¬ setting.Fine) ∨
    (.send ∈ settings ↔ .receive ∈ settings) ∨
    (.send ∈ settings ∧ ∀ value, .file value ∈ settings → (Path.parse value).isEmpty) ∨
    (.receive ∈ settings ∧ .auto ∈ settings) ∨
    portRangeExceeds (written Setting.writesPort kDefaultPort settings)
      (written Setting.writesParallel 1 settings)

/-- The settings that write the host write the same, and so do those that write the output
directory. -/
def Harmonious (settings : List Setting) : Prop :=
  Agreeing Setting.writesHost settings ∧ Agreeing Setting.writesOutputDir settings

/-! ### Fields with one writer -/

/-- Settings whose options occur once, with a field that one option writes. -/
theorem agreeing_of_once {settings : List Setting} (once : (settings.map Setting.flag).Nodup)
    {Field : Type} {writes : Setting → Option Field} (flag : Bytes)
    (single : ∀ setting : Setting, writes setting ≠ none → setting.flag = flag) :
    Agreeing writes settings := by
  intro first isFirst second isSecond one wroteOne other wroteOther
  have sameFlag : first.flag = second.flag := by
    rw [single first (Option.ne_none_iff_exists'.mpr ⟨one, wroteOne⟩),
      single second (Option.ne_none_iff_exists'.mpr ⟨other, wroteOther⟩)]
  rw [List.inj_on_of_nodup_map once isFirst isSecond sameFlag] at wroteOne
  exact Option.some.inj (wroteOne.symm.trans wroteOther)

/-- Nine of the fields have one option each. -/
structure SingleWriters (settings : List Setting) : Prop where
  send : Agreeing Setting.writesSend settings
  receive : Agreeing Setting.writesReceive settings
  autoDiscover : Agreeing Setting.writesAutoDiscover settings
  advertise : Agreeing Setting.writesAdvertise settings
  port : Agreeing Setting.writesPort settings
  discoveryPort : Agreeing Setting.writesDiscoveryPort settings
  parallel : Agreeing Setting.writesParallel settings
  file : Agreeing Setting.writesFile settings
  remoteName : Agreeing Setting.writesRemoteName settings

theorem singleWriters {settings : List Setting} (once : (settings.map Setting.flag).Nodup) :
    SingleWriters settings where
  send := by
    refine agreeing_of_once once (ascii "--send") fun setting wrote => ?_
    cases setting with
    | send => rfl
    | _ => exact absurd rfl wrote
  receive := by
    refine agreeing_of_once once (ascii "--receive") fun setting wrote => ?_
    cases setting with
    | receive => rfl
    | _ => exact absurd rfl wrote
  autoDiscover := by
    refine agreeing_of_once once (ascii "--auto") fun setting wrote => ?_
    cases setting with
    | auto => rfl
    | _ => exact absurd rfl wrote
  advertise := by
    refine agreeing_of_once once (ascii "--no-advertise") fun setting wrote => ?_
    cases setting with
    | noAdvertise => rfl
    | _ => exact absurd rfl wrote
  port := by
    refine agreeing_of_once once (ascii "--port") fun setting wrote => ?_
    cases setting with
    | port value => rfl
    | _ => exact absurd rfl wrote
  discoveryPort := by
    refine agreeing_of_once once (ascii "--discovery-port") fun setting wrote => ?_
    cases setting with
    | discoveryPort value => rfl
    | _ => exact absurd rfl wrote
  parallel := by
    refine agreeing_of_once once (ascii "--parallel") fun setting wrote => ?_
    cases setting with
    | parallel value => rfl
    | _ => exact absurd rfl wrote
  file := by
    refine agreeing_of_once once (ascii "--file") fun setting wrote => ?_
    cases setting with
    | file value => rfl
    | _ => exact absurd rfl wrote
  remoteName := by
    refine agreeing_of_once once (ascii "--name") fun setting wrote => ?_
    cases setting with
    | name value => rfl
    | _ => exact absurd rfl wrote

/-- Settings in harmony give the same options in any order. -/
theorem assembled_perm {settings other : List Setting} (single : SingleWriters settings)
    (harmonious : Harmonious settings) (perm : other.Perm settings) :
    Setting.assembled other = Setting.assembled settings := by
  unfold Setting.assembled
  rw [single.send.written_perm perm, single.receive.written_perm perm,
    single.autoDiscover.written_perm perm, single.advertise.written_perm perm,
    harmonious.1.written_perm perm, single.port.written_perm perm,
    single.discoveryPort.written_perm perm, single.parallel.written_perm perm,
    single.file.written_perm perm, harmonious.2.written_perm perm,
    single.remoteName.written_perm perm]

/-! ### Refusals -/

/-- A flag is on if its switch is among the settings. -/
theorem switched_iff {settings : List Setting} {writes : Setting → Option Bool}
    (agreeing : Agreeing writes settings) {switch : Setting} (on : writes switch = some true)
    (only : ∀ setting, setting ≠ switch → writes setting = none) :
    written writes false settings = true ↔ switch ∈ settings := by
  by_cases asked : switch ∈ settings
  · exact iff_of_true (agreeing.written_eq asked on false) asked
  · have off : written writes false settings = false := by
      refine written_of_none (fun setting member => only setting ?_) false
      rintro rfl
      exact asked member
    rw [off]
    exact iff_of_false Bool.false_ne_true asked

theorem send_iff {settings : List Setting} (single : SingleWriters settings) :
    (Setting.assembled settings).send = true ↔ .send ∈ settings := by
  refine switched_iff single.send rfl fun setting other => ?_
  cases setting with
  | send => exact absurd rfl other
  | _ => rfl

theorem receive_iff {settings : List Setting} (single : SingleWriters settings) :
    (Setting.assembled settings).receive = true ↔ .receive ∈ settings := by
  refine switched_iff single.receive rfl fun setting other => ?_
  cases setting with
  | receive => exact absurd rfl other
  | _ => rfl

theorem autoDiscover_iff {settings : List Setting} (single : SingleWriters settings) :
    (Setting.assembled settings).autoDiscover = true ↔ .auto ∈ settings := by
  refine switched_iff single.autoDiscover rfl fun setting other => ?_
  cases setting with
  | auto => exact absurd rfl other
  | _ => rfl

theorem file_isEmpty_iff {settings : List Setting} (single : SingleWriters settings) :
    (Setting.assembled settings).file.isEmpty = true ↔
      ∀ value, .file value ∈ settings → (Path.parse value).isEmpty = true := by
  by_cases given : ∃ value, Setting.file value ∈ settings
  · obtain ⟨value, member⟩ := given
    have file : (Setting.assembled settings).file = Path.parse value :=
      single.file.written_eq member rfl _
    rw [file]
    refine ⟨fun empty other otherMember => ?_, fun all => all value member⟩
    rw [← single.file _ member _ otherMember _ rfl _ rfl]
    exact empty
  · have file : (Setting.assembled settings).file = Path.parse [] := by
      refine written_of_none (fun setting member => ?_) _
      cases setting with
      | file value => exact absurd ⟨value, member⟩ given
      | _ => rfl
    rw [file]
    exact iff_of_true rfl fun value member => absurd ⟨value, member⟩ given

/-- The values and the checks refuse what is refused in any order, and nothing else. -/
theorem parseArgs_ok_iff {settings : List Setting} (single : SingleWriters settings) :
    parseArgs (settings.flatMap Setting.words) = .ok (Setting.assembled settings) ↔
      ¬ Refused settings := by
  have fine : (∀ setting ∈ settings, setting.Fine) ↔ ¬ ∃ setting ∈ settings, ¬ setting.Fine := by
    simp
  have modes : (Setting.assembled settings).send ≠ (Setting.assembled settings).receive ↔
      ¬ (.send ∈ settings ↔ .receive ∈ settings) := by
    rw [← send_iff single, ← receive_iff single, Ne, Bool.eq_iff_iff]
  have range : portRangeExceeds (Setting.assembled settings).port
        (Setting.assembled settings).parallel = false ↔
      ¬ portRangeExceeds (written Setting.writesPort kDefaultPort settings)
        (written Setting.writesParallel 1 settings) = true :=
    (Bool.not_eq_true _).symm ▸ Iff.rfl
  rw [parseArgs_words_iff, checkArguments_iff, fine, modes, send_iff single,
    file_isEmpty_iff single, receive_iff single, autoDiscover_iff single, range]
  simp only [Refused, not_or, true_and]

/-- What is refused is not accepted with any options. -/
theorem Refused.not_ok {settings : List Setting} (once : (settings.map Setting.flag).Nodup)
    (refused : Refused settings) (options : Options) :
    parseArgs (settings.flatMap Setting.words) ≠ .ok options := by
  intro accepted
  obtain ⟨-, rfl, -⟩ := (parseArgs_words_iff _ _).mp accepted
  exact (parseArgs_ok_iff (singleWriters once)).mp accepted refused

theorem Refused.of_perm {settings other : List Setting} (single : SingleWriters settings)
    (perm : other.Perm settings) (refused : Refused settings) : Refused other := by
  unfold Refused at refused ⊢
  rw [single.port.written_perm perm, single.parallel.written_perm perm]
  simpa only [perm.mem_iff] using refused

/-- A list of settings is accepted or refused with an exception. -/
theorem parseArgs_ok_or_thrown (settings : List Setting) :
    (∃ options, parseArgs (settings.flatMap Setting.words) = .ok options) ∨
      ∃ error, parseArgs (settings.flatMap Setting.words) = .error (.thrown error) := by
  rcases parseArgs_words settings with ⟨error, thrown, -⟩ | ⟨-, checked⟩
  · exact .inr ⟨error, thrown⟩
  · rw [checked]
    unfold checkArguments
    split_ifs
    · exact .inr ⟨_, rfl⟩
    · exact .inr ⟨_, rfl⟩
    · exact .inr ⟨_, rfl⟩
    · exact .inr ⟨_, rfl⟩
    · exact .inl ⟨_, rfl⟩

/-- Command lines accepted alike have the same outcome. -/
theorem sameOutcome_of_iff {first second : List Setting}
    (alike : ∀ options, parseArgs (first.flatMap Setting.words) = .ok options ↔
      parseArgs (second.flatMap Setting.words) = .ok options) :
    SameOutcome (parseArgs (first.flatMap Setting.words))
      (parseArgs (second.flatMap Setting.words)) := by
  rcases parseArgs_ok_or_thrown first with ⟨options, accepted⟩ | thrown
  · exact .inl ⟨options, accepted, (alike options).mp accepted⟩
  · rcases parseArgs_ok_or_thrown second with ⟨options, accepted⟩ | thrownToo
    · exact .inl ⟨options, (alike options).mpr accepted, accepted⟩
    · exact .inr ⟨thrown, thrownToo⟩

/-! ### The exact condition -/

/-- Where the order does not matter, any writer could have been the last. -/
theorem OrderIrrelevant.last {settings : List Setting} (irrelevant : OrderIrrelevant settings)
    {options : Options} (accepted : parseArgs (settings.flatMap Setting.words) = .ok options)
    {setting : Setting} (member : setting ∈ settings) :
    ∃ before, options = setting.write before := by
  have perm : (settings.erase setting ++ [setting]).Perm settings :=
    (List.perm_append_comm).trans (List.perm_cons_erase member).symm
  rcases irrelevant _ perm with ⟨same, first, second⟩ | ⟨⟨error, thrown⟩, -⟩
  · rw [accepted] at first
    cases first
    obtain ⟨-, rfl, -⟩ := (parseArgs_words_iff _ _).mp second
    exact ⟨_, Setting.assembled_concat _ _⟩
  · rw [accepted] at thrown
    cases thrown

/-- For options that occur once, the order does not matter exactly when they are refused in any
order, or when those that write the host, and those that write the output directory, write the
same. -/
theorem parseArgs_order_iff (settings : List Setting)
    (once : (settings.map Setting.flag).Nodup) :
    OrderIrrelevant settings ↔ Refused settings ∨ Harmonious settings := by
  have single := singleWriters once
  refine ⟨fun irrelevant => ?_, ?_⟩
  · by_cases refused : Refused settings
    · exact .inl refused
    have accepted := (parseArgs_ok_iff single).mpr refused
    refine .inr ⟨?_, ?_⟩
    · intro first isFirst second isSecond one wroteOne other wroteOther
      obtain ⟨before, same⟩ := irrelevant.last accepted isFirst
      obtain ⟨earlier, sameToo⟩ := irrelevant.last accepted isSecond
      have hosts := congrArg Options.host (same.symm.trans sameToo)
      simp only [Setting.write] at hosts
      rw [Option.mem_def.mp wroteOne, Option.mem_def.mp wroteOther] at hosts
      exact hosts
    · intro first isFirst second isSecond one wroteOne other wroteOther
      obtain ⟨before, same⟩ := irrelevant.last accepted isFirst
      obtain ⟨earlier, sameToo⟩ := irrelevant.last accepted isSecond
      have directories := congrArg Options.outputDir (same.symm.trans sameToo)
      simp only [Setting.write] at directories
      rw [Option.mem_def.mp wroteOne, Option.mem_def.mp wroteOther] at directories
      exact directories
  · rintro (refused | harmonious) other perm
    · have onceToo : (other.map Setting.flag).Nodup := (perm.map _).nodup_iff.mpr once
      exact sameOutcome_of_iff fun options => iff_of_false (refused.not_ok once options)
        ((refused.of_perm single perm).not_ok onceToo options)
    · refine sameOutcome_of_iff fun options => ?_
      rw [parseArgs_words_iff, parseArgs_words_iff, assembled_perm single harmonious perm]
      simp only [perm.mem_iff]

/-- A sender with a host, in front of the option that asks to send. -/
def hostFirst : List Setting := [.host (ascii "10.0.0.5"), .send, .file (ascii "f")]

/-- The host is lost there, and kept behind that option. -/
theorem hostFirst_order_matters :
    (hostFirst.map Setting.flag).Nodup ∧ ¬ OrderIrrelevant hostFirst := by
  refine ⟨by decide +kernel, fun irrelevant => ?_⟩
  have perm : List.Perm [.send, .host (ascii "10.0.0.5"), .file (ascii "f")] hostFirst :=
    List.Perm.swap _ _ _
  have kept : parseArgs (List.flatMap Setting.words
      [.send, .host (ascii "10.0.0.5"), .file (ascii "f")]) =
      .ok { send := true, host := ascii "10.0.0.5", file := Path.parse (ascii "f") } := by
    decide +kernel
  have lost : parseArgs (hostFirst.flatMap Setting.words) =
      .ok { send := true, host := ascii "127.0.0.1", file := Path.parse (ascii "f") } := by
    decide +kernel
  rcases irrelevant _ perm with ⟨options, first, second⟩ | ⟨⟨error, thrown⟩, -⟩
  · rw [lost] at first
    rw [kept] at second
    have hosts := congrArg Options.host (Except.ok.inj (first.trans second.symm))
    exact absurd hosts (by decide +kernel)
  · rw [lost] at thrown
    cases thrown

/-- A sender without a host. -/
def plainSender : List Setting := [.send, .port (ascii "9000"), .file (ascii "f")]

theorem plainSender_order :
    (plainSender.map Setting.flag).Nodup ∧
      (OrderIrrelevant plainSender ↔ Refused plainSender ∨ Harmonious plainSender) := by
  have once : (plainSender.map Setting.flag).Nodup := by decide +kernel
  exact ⟨once, parseArgs_order_iff plainSender once⟩

end HyperLink
