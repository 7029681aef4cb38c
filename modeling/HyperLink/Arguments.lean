/-
This file is `parse_port` and `parse_args` of the file-transfer tool, with
`std::stoul` as it is documented: it skips white space, takes a sign, and stops
at the first character that is no digit.
-/

import HyperLink.Advertisement
import HyperLink.CommandLine
import Mathlib.Data.Set.List

namespace HyperLink

open CommandLine

/-! ### Numbers -/

/-- `isspace` in the C locale. -/
def isSpace (character : UInt8) : Bool :=
  character = 0x20 || (0x09 ≤ character && character ≤ 0x0d)

/-- An optional sign, whether it negates, and the text behind it. -/
def readSign : Bytes → Bool × Bytes
  | [] => (false, [])
  | character :: rest =>
      if character = 0x2d then (true, rest)
      else if character = 0x2b then (false, rest)
      else (false, character :: rest)

/-- `std::stoul` in base ten, for an `unsigned long` of 64 bits. A minus sign negates modulo
`2 ^ 64`. -/
def stoul (text : Bytes) : Except Error UInt64 :=
  let (negative, text) := readSign (text.dropWhile isSpace)
  let numeral := text.takeWhile isDigit
  if numeral = [] ∨ decimalValue numeral ≥ 2 ^ 64 then .error (ascii "stoul")
  else
    let value := UInt64.ofNat (decimalValue numeral)
    .ok (if negative then -value else value)

def parsePort (value : Bytes) : Except Error UInt16 := do
  let parsed ← stoul value
  if parsed = 0 ∨ parsed > 65535 then .error (ascii "port must be between 1 and 65535")
  else .ok parsed.toUInt16

/-- The value of `--parallel`: cut to 32 bits before it is checked. -/
def parseParallel (value : Bytes) : Except Error UInt32 := do
  let parallel := (← stoul value).toUInt32
  if parallel = 0 then .error (ascii "parallel must be positive") else .ok parallel

/-- An accepted port is the number that was read. -/
theorem parsePort_ok {value : Bytes} {port : UInt16} (accepted : parsePort value = .ok port) :
    ∃ parsed, stoul value = .ok parsed ∧ port.toNat = parsed.toNat ∧ 1 ≤ port.toNat := by
  unfold parsePort at accepted
  obtain ⟨parsed, read, checked⟩ := bind_ok accepted
  split at checked
  · cases checked
  next range =>
    cases checked
    obtain ⟨positive, small⟩ := not_or.mp range
    have bound : parsed.toNat ≤ 65535 := UInt64.le_iff_toNat_le.mp (UInt64.not_lt.mp small)
    have some : parsed.toNat ≠ 0 := fun zero => positive (UInt64.toNat_inj.mp zero)
    have same : parsed.toUInt16.toNat = parsed.toNat := by
      rw [UInt64.toNat_toUInt16]
      exact Nat.mod_eq_of_lt (Nat.lt_succ_of_le bound)
    exact ⟨parsed, read, same, by omega⟩

/-- An accepted stream count is the last 32 bits of the number that was read. -/
theorem parseParallel_ok {value : Bytes} {parallel : UInt32}
    (accepted : parseParallel value = .ok parallel) :
    ∃ parsed, stoul value = .ok parsed ∧ parallel.toNat = parsed.toNat % 2 ^ 32 ∧
      1 ≤ parallel.toNat := by
  unfold parseParallel at accepted
  obtain ⟨parsed, read, checked⟩ := bind_ok accepted
  simp only [] at checked
  split at checked
  · cases checked
  next positive =>
    cases checked
    have some : parsed.toUInt32.toNat ≠ 0 := fun zero => positive (UInt32.toNat_inj.mp zero)
    exact ⟨parsed, read, UInt64.toNat_toUInt32 parsed, by omega⟩

/-! ### Arguments -/

/-- A command line is refused by an exception, or ends the program with the usage text. -/
inductive Stop where
  | thrown (error : Error)
  | exited
  deriving DecidableEq, Repr

def requiresValue (name : Bytes) : Stop := .thrown (name ++ ascii " requires a value")

/-- Store what a value is read as. -/
def store {Settings Value : Type} (read : Except Error Value) (set : Value → Settings) :
    Except Stop Settings :=
  match read with
  | .error error => .error (.thrown error)
  | .ok value => .ok (set value)

theorem store_ok {Settings Value : Type} {read : Except Error Value} {set : Value → Settings}
    {after : Settings} (done : store read set = .ok after) :
    ∃ value, read = .ok value ∧ after = set value := by
  cases read with
  | error error => cases done
  | ok value =>
    cases done
    exact ⟨value, rfl, rfl⟩

/-- The branches of the loop in `parse_args`. -/
def fileArgument (arg : Bytes) : Meaning Bytes Options Stop :=
  if arg = ascii "--send" then
    .switch fun options => .ok { options with send := true, host := ascii "127.0.0.1" }
  else if arg = ascii "--receive" then
    .switch fun options => .ok { options with receive := true, host := ascii "0.0.0.0" }
  else if arg = ascii "--auto" then
    .switch fun options => .ok { options with autoDiscover := true, host := [] }
  else if arg = ascii "--no-advertise" then
    .switch fun options => .ok { options with advertise := false }
  else if arg = ascii "--host" then
    .valued fun value options => .ok { options with host := value }
  else if arg = ascii "--port" then
    .valued fun value options => store (parsePort value) fun port => { options with port }
  else if arg = ascii "--discovery-port" then
    .valued fun value options =>
      store (parsePort value) fun discoveryPort => { options with discoveryPort }
  else if arg = ascii "--parallel" then
    .valued fun value options =>
      store (parseParallel value) fun parallel => { options with parallel }
  else if arg = ascii "--file" then
    .valued fun value options => .ok { options with file := Path.parse value }
  else if arg = ascii "--output-dir" ∨ arg = ascii "--out" then
    .valued fun value options => .ok { options with outputDir := Path.parse value }
  else if arg = ascii "--name" then
    .valued fun value options => .ok { options with remoteName := value }
  else if arg = ascii "--help" ∨ arg = ascii "-h" then .switch fun _ => .error .exited
  else .switch fun _ => .error (.thrown (ascii "unknown argument: " ++ arg))

/-- The checks of `parse_args` behind its loop. -/
def checkArguments (options : Options) : Except Stop Options :=
  if options.send = options.receive then
    .error (.thrown (ascii "choose exactly one of --send or --receive"))
  else if options.send ∧ options.file.isEmpty then
    .error (.thrown (ascii "--send requires --file"))
  else if options.receive ∧ options.autoDiscover then
    .error (.thrown (ascii "--auto is only valid with --send"))
  else if portRangeExceeds options.port options.parallel then
    .error (.thrown (ascii "port plus parallel stream count exceeds 65535"))
  else .ok options

/-- `parse_args` on the words behind the name of the program. -/
def parseArgs (args : List Bytes) : Except Stop Options := do
  checkArguments (← parse fileArgument requiresValue args {})

/-! ### Settings -/

/-- One option of `hyperlink_file`, with its value. -/
inductive Setting where
  | send
  | receive
  | auto
  | noAdvertise
  | host (value : Bytes)
  | port (value : Bytes)
  | discoveryPort (value : Bytes)
  | parallel (value : Bytes)
  | file (value : Bytes)
  | outputDir (value : Bytes)
  | out (value : Bytes)
  | name (value : Bytes)
  deriving DecidableEq, Repr

namespace Setting

def flag : Setting → Bytes
  | .send => ascii "--send"
  | .receive => ascii "--receive"
  | .auto => ascii "--auto"
  | .noAdvertise => ascii "--no-advertise"
  | .host _ => ascii "--host"
  | .port _ => ascii "--port"
  | .discoveryPort _ => ascii "--discovery-port"
  | .parallel _ => ascii "--parallel"
  | .file _ => ascii "--file"
  | .outputDir _ => ascii "--output-dir"
  | .out _ => ascii "--out"
  | .name _ => ascii "--name"

def value : Setting → Option Bytes
  | .send | .receive | .auto | .noAdvertise => none
  | .host value | .port value | .discoveryPort value | .parallel value | .file value
  | .outputDir value | .out value | .name value => some value

def use (setting : Setting) : Use Bytes := ⟨setting.flag, setting.value⟩

/-- The setting on a command line. -/
def words (setting : Setting) : List Bytes := setting.flag :: setting.value.toList

/-- What the loop does at a setting. -/
def apply (options : Options) : Setting → Except Stop Options
  | .send => .ok { options with send := true, host := ascii "127.0.0.1" }
  | .receive => .ok { options with receive := true, host := ascii "0.0.0.0" }
  | .auto => .ok { options with autoDiscover := true, host := [] }
  | .noAdvertise => .ok { options with advertise := false }
  | .host value => .ok { options with host := value }
  | .port value => store (parsePort value) fun port => { options with port }
  | .discoveryPort value =>
      store (parsePort value) fun discoveryPort => { options with discoveryPort }
  | .parallel value => store (parseParallel value) fun parallel => { options with parallel }
  | .file value => .ok { options with file := Path.parse value }
  | .outputDir value | .out value => .ok { options with outputDir := Path.parse value }
  | .name value => .ok { options with remoteName := value }

theorem apply_use (options : Options) (setting : Setting) :
    CommandLine.apply fileArgument requiresValue options setting.use = setting.apply options := by
  cases setting <;> rfl

theorem isValued_flag (setting : Setting) :
    (fileArgument setting.flag).isValued = setting.value.isSome := by
  cases setting <;> rfl

/-- A use that goes through is a setting. -/
theorem exists_use {before after : Options} {use : Use Bytes}
    (shape : (fileArgument use.word).isValued = false → use.value = none)
    (done : CommandLine.apply fileArgument requiresValue before use = .ok after) :
    ∃ setting : Setting, use = setting.use := by
  obtain ⟨word, value⟩ := use
  have switchCase : ∀ setting : Setting, setting.value = none → word = setting.flag →
      ∃ setting : Setting, ⟨word, value⟩ = setting.use := by
    rintro setting noValue rfl
    have alone := shape (by rw [isValued_flag, noValue]; rfl)
    simp only [] at alone
    exact ⟨setting, by rw [use, noValue, alone]⟩
  have valuedCase : ∀ make : Bytes → Setting, (∀ value, (make value).value = some value) →
      (∀ value, word = (make value).flag) →
      ∃ setting : Setting, ⟨word, value⟩ = setting.use := by
    intro make values flags
    cases value with
    | some value => exact ⟨make value, by rw [use, values, ← flags]⟩
    | none =>
      have valued := isValued_flag (make [])
      rw [values, ← flags] at valued
      simp only [CommandLine.apply] at done
      cases meaning : fileArgument word with
      | switch set =>
        rw [meaning] at valued
        cases valued
      | valued set =>
        rw [meaning] at done
        cases done
  by_cases send : word = ascii "--send"
  · exact switchCase .send rfl send
  by_cases receive : word = ascii "--receive"
  · exact switchCase .receive rfl receive
  by_cases auto : word = ascii "--auto"
  · exact switchCase .auto rfl auto
  by_cases noAdvertise : word = ascii "--no-advertise"
  · exact switchCase .noAdvertise rfl noAdvertise
  by_cases host : word = ascii "--host"
  · exact valuedCase .host (fun _ => rfl) (fun _ => host)
  by_cases port : word = ascii "--port"
  · exact valuedCase .port (fun _ => rfl) (fun _ => port)
  by_cases discoveryPort : word = ascii "--discovery-port"
  · exact valuedCase .discoveryPort (fun _ => rfl) (fun _ => discoveryPort)
  by_cases parallel : word = ascii "--parallel"
  · exact valuedCase .parallel (fun _ => rfl) (fun _ => parallel)
  by_cases file : word = ascii "--file"
  · exact valuedCase .file (fun _ => rfl) (fun _ => file)
  by_cases outputDir : word = ascii "--output-dir"
  · exact valuedCase .outputDir (fun _ => rfl) (fun _ => outputDir)
  by_cases out : word = ascii "--out"
  · exact valuedCase .out (fun _ => rfl) (fun _ => out)
  by_cases name : word = ascii "--name"
  · exact valuedCase .name (fun _ => rfl) (fun _ => name)
  -- What is left is the usage text or an unknown argument, and does not go through.
  simp only [CommandLine.apply, fileArgument, if_neg send, if_neg receive, if_neg auto,
    if_neg noAdvertise, if_neg host, if_neg port, if_neg discoveryPort, if_neg parallel,
    if_neg file, outputDir, out, or_self, if_neg name, if_false] at done
  split at done
  next set meaning =>
    split at meaning
    · cases meaning
      cases done
    · cases meaning
      cases done
  next set meaning =>
    split at meaning
    · cases meaning
    · cases meaning

/-- Whether an argument takes the next one. -/
def takesValue (arg : Bytes) : Bool := (fileArgument arg).isValued

/-- A command line that goes through is a list of settings. -/
theorem exists_settings {args : List Bytes} {after : Options}
    (done : parse fileArgument requiresValue args {} = .ok after) :
    ∃ settings : List Setting, uses takesValue args = settings.map use ∧
      settings.foldlM apply {} = .ok after := by
  rw [parse_eq_foldlM] at done
  change (uses takesValue args).foldlM _ _ = _ at done
  have each : ∀ item ∈ uses takesValue args, item ∈ Set.range use := by
    intro item member
    obtain ⟨before, later, goes⟩ := foldlM_each done member
    obtain ⟨setting, same⟩ := exists_use (value_of_mem_uses member) goes
    exact ⟨setting, same.symm⟩
  obtain ⟨settings, same⟩ : uses takesValue args ∈ Set.range (List.map use) := by
    rw [Set.range_list_map]
    exact each
  refine ⟨settings, same.symm, ?_⟩
  rw [← same, List.foldlM_map] at done
  simp only [apply_use] at done
  exact done

theorem uses_words (settings : List Setting) :
    uses takesValue (settings.flatMap words) = settings.map use := by
  induction settings with
  | nil => rfl
  | cons setting rest inductionHypothesis =>
    have valued : takesValue setting.flag = setting.value.isSome := isValued_flag setting
    rw [List.flatMap_cons, List.map_cons, ← inductionHypothesis, words, use]
    cases value : setting.value with
    | none =>
      rw [value] at valued
      exact uses_switch valued _
    | some text =>
      rw [value] at valued
      exact uses_valued valued _ _

/-- The loop over a list of settings. -/
theorem parse_words (settings : List Setting) (options : Options) :
    parse fileArgument requiresValue (settings.flatMap words) options =
      settings.foldlM apply options := by
  rw [parse_eq_foldlM]
  show (uses takesValue _).foldlM _ _ = _
  rw [uses_words, List.foldlM_map]
  simp only [apply_use]

/-! ### The options that settings give -/

def writesSend : Setting → Option Bool
  | .send => some true
  | _ => none

def writesReceive : Setting → Option Bool
  | .receive => some true
  | _ => none

def writesAutoDiscover : Setting → Option Bool
  | .auto => some true
  | _ => none

def writesAdvertise : Setting → Option Bool
  | .noAdvertise => some false
  | _ => none

/-- Four settings write the host. -/
def writesHost : Setting → Option Bytes
  | .send => some (ascii "127.0.0.1")
  | .receive => some (ascii "0.0.0.0")
  | .auto => some []
  | .host value => some value
  | _ => none

def writesPort : Setting → Option UInt16
  | .port value => (parsePort value).toOption
  | _ => none

def writesDiscoveryPort : Setting → Option UInt16
  | .discoveryPort value => (parsePort value).toOption
  | _ => none

def writesParallel : Setting → Option UInt32
  | .parallel value => (parseParallel value).toOption
  | _ => none

def writesFile : Setting → Option Path
  | .file value => some (Path.parse value)
  | _ => none

/-- Two settings write the output directory. -/
def writesOutputDir : Setting → Option Path
  | .outputDir value | .out value => some (Path.parse value)
  | _ => none

def writesRemoteName : Setting → Option Bytes
  | .name value => some value
  | _ => none

/-- What a setting does to the options, field by field. -/
def write (before : Options) (setting : Setting) : Options where
  send := (writesSend setting).getD before.send
  receive := (writesReceive setting).getD before.receive
  autoDiscover := (writesAutoDiscover setting).getD before.autoDiscover
  advertise := (writesAdvertise setting).getD before.advertise
  host := (writesHost setting).getD before.host
  port := (writesPort setting).getD before.port
  discoveryPort := (writesDiscoveryPort setting).getD before.discoveryPort
  parallel := (writesParallel setting).getD before.parallel
  file := (writesFile setting).getD before.file
  outputDir := (writesOutputDir setting).getD before.outputDir
  remoteName := (writesRemoteName setting).getD before.remoteName

/-- The options after some settings. -/
def assembled (settings : List Setting) : Options where
  send := written writesSend false settings
  receive := written writesReceive false settings
  autoDiscover := written writesAutoDiscover false settings
  advertise := written writesAdvertise true settings
  host := written writesHost (ascii "0.0.0.0") settings
  port := written writesPort kDefaultPort settings
  discoveryPort := written writesDiscoveryPort kDefaultDiscoveryPort settings
  parallel := written writesParallel 1 settings
  file := written writesFile (Path.parse []) settings
  outputDir := written writesOutputDir (Path.parse dot) settings
  remoteName := written writesRemoteName [] settings

theorem apply_ok {before after : Options} {setting : Setting}
    (done : apply before setting = .ok after) : after = setting.write before := by
  cases setting with
  | port value | discoveryPort value =>
    obtain ⟨port, parsed, rfl⟩ := store_ok done
    simp only [write, writesPort, writesDiscoveryPort, parsed]
    rfl
  | parallel value =>
    obtain ⟨parallel, parsed, rfl⟩ := store_ok done
    simp only [write, writesParallel, parsed]
    rfl
  | _ =>
    cases done
    rfl

theorem assembled_concat (settings : List Setting) (setting : Setting) :
    assembled (settings ++ [setting]) = setting.write (assembled settings) := by
  simp only [assembled, written_concat, write]

/-- Settings that go through give the assembled options. -/
theorem eq_assembled {settings : List Setting} {after : Options}
    (done : settings.foldlM apply {} = .ok after) : after = assembled settings := by
  induction settings using List.reverseRecOn generalizing after with
  | nil =>
    cases done
    rfl
  | append_singleton settings setting inductionHypothesis =>
    obtain ⟨between, first, last⟩ := foldlM_concat_ok done
    rw [assembled_concat, ← inductionHypothesis first]
    exact apply_ok last

/-- The values that the three numeric settings accept; the others accept any. -/
def Fine : Setting → Prop
  | .port value | .discoveryPort value => ∃ port, parsePort value = .ok port
  | .parallel value => ∃ parallel, parseParallel value = .ok parallel
  | _ => True

theorem apply_ok_iff (before : Options) (setting : Setting) :
    (∃ after, apply before setting = .ok after) ↔ setting.Fine := by
  cases setting with
  | port value | discoveryPort value =>
    simp only [apply, store, Fine]
    cases parsePort value with
    | error error => exact iff_of_false (by simp) (by simp)
    | ok port => exact iff_of_true ⟨_, rfl⟩ ⟨port, rfl⟩
  | parallel value =>
    simp only [apply, store, Fine]
    cases parseParallel value with
    | error error => exact iff_of_false (by simp) (by simp)
    | ok parallel => exact iff_of_true ⟨_, rfl⟩ ⟨parallel, rfl⟩
  | _ => exact iff_of_true ⟨_, rfl⟩ trivial

/-- The error of a setting whose value is not accepted. -/
def RefusedWith (error : Error) : Setting → Prop
  | .port value | .discoveryPort value => parsePort value = .error error
  | .parallel value => parseParallel value = .error error
  | _ => False

theorem apply_error {before : Options} {setting : Setting} {stop : Stop}
    (failed : setting.apply before = .error stop) :
    ∃ error, stop = .thrown error ∧ setting.RefusedWith error := by
  have stored : ∀ {Value : Type} {read : Except Error Value} {set : Value → Options},
      store read set = .error stop → ∃ error, stop = .thrown error ∧ read = .error error := by
    intro Value read set stopped
    cases read with
    | error error =>
      cases stopped
      exact ⟨error, rfl, rfl⟩
    | ok value => cases stopped
  cases setting with
  | port value | discoveryPort value | parallel value => exact stored failed
  | _ => cases failed

/-- The loop accepts settings with fine values, and assembles the options. -/
theorem foldlM_apply_iff (settings : List Setting) (after : Options) :
    settings.foldlM apply {} = .ok after ↔
      (∀ setting ∈ settings, setting.Fine) ∧ after = assembled settings := by
  have fine := foldlM_ok_iff apply_ok_iff settings {}
  refine ⟨fun done => ⟨fine.mp ⟨after, done⟩, eq_assembled done⟩, ?_⟩
  rintro ⟨allFine, rfl⟩
  obtain ⟨after, done⟩ := fine.mpr allFine
  rw [← eq_assembled done]
  exact done

end Setting

/-! ### Accepted command lines -/

theorem checkArguments_ok {options checked : Options}
    (accepted : checkArguments options = .ok checked) : checked = options := by
  unfold checkArguments at accepted
  split_ifs at accepted
  cases accepted
  rfl

/-- The checks, one by one. -/
theorem checkArguments_iff (options : Options) :
    checkArguments options = .ok options ↔ options.send ≠ options.receive ∧
      ¬ (options.send = true ∧ options.file.isEmpty = true) ∧
      ¬ (options.receive = true ∧ options.autoDiscover = true) ∧
      portRangeExceeds options.port options.parallel = false := by
  unfold checkArguments
  by_cases modes : options.send = options.receive
  · rw [if_pos modes]
    exact iff_of_false (fun wrong => (by cases wrong)) (fun fine => fine.1 modes)
  by_cases noFile : options.send = true ∧ options.file.isEmpty = true
  · rw [if_neg modes, if_pos noFile]
    exact iff_of_false (fun wrong => (by cases wrong)) (fun fine => fine.2.1 noFile)
  by_cases discovering : options.receive = true ∧ options.autoDiscover = true
  · rw [if_neg modes, if_neg noFile, if_pos discovering]
    exact iff_of_false (fun wrong => (by cases wrong)) (fun fine => fine.2.2.1 discovering)
  rw [if_neg modes, if_neg noFile, if_neg discovering]
  cases range : portRangeExceeds options.port options.parallel with
  | true => exact iff_of_false (fun wrong => (by cases wrong)) (fun fine => (by cases fine.2.2.2))
  | false => exact iff_of_true rfl ⟨modes, noFile, discovering, rfl⟩

/-- A command line that `parse_args` accepts is a list of settings with fine values. -/
theorem exists_settings_of_parseArgs {args : List Bytes} {options : Options}
    (accepted : parseArgs args = .ok options) :
    ∃ settings : List Setting, uses Setting.takesValue args = settings.map Setting.use ∧
      (∀ setting ∈ settings, setting.Fine) ∧ options = Setting.assembled settings ∧
      checkArguments options = .ok options := by
  unfold parseArgs at accepted
  obtain ⟨after, loop, checked⟩ := bind_ok accepted
  obtain ⟨settings, same, done⟩ := Setting.exists_settings loop
  obtain ⟨fine, rfl⟩ := (Setting.foldlM_apply_iff settings after).mp done
  obtain rfl := checkArguments_ok checked
  exact ⟨settings, same, fine, rfl, checked⟩

/-- What `parse_args` does with a list of settings: it stops at a value that is not accepted, or
checks the assembled options. -/
theorem parseArgs_words (settings : List Setting) :
    (∃ error, parseArgs (settings.flatMap Setting.words) = .error (.thrown error) ∧
        ∃ setting ∈ settings, setting.RefusedWith error) ∨
      (∀ setting ∈ settings, setting.Fine) ∧
        parseArgs (settings.flatMap Setting.words) =
          checkArguments (Setting.assembled settings) := by
  unfold parseArgs
  rw [Setting.parse_words]
  cases loop : settings.foldlM Setting.apply {} with
  | error stop =>
    obtain ⟨before, setting, member, failed⟩ := foldlM_error loop
    obtain ⟨error, rfl, refused⟩ := Setting.apply_error failed
    exact .inl ⟨error, rfl, setting, member, refused⟩
  | ok after =>
    obtain ⟨fine, rfl⟩ := (Setting.foldlM_apply_iff settings after).mp loop
    exact .inr ⟨fine, rfl⟩

/-- `parse_args` on a list of settings. -/
theorem parseArgs_words_iff (settings : List Setting) (options : Options) :
    parseArgs (settings.flatMap Setting.words) = .ok options ↔
      (∀ setting ∈ settings, setting.Fine) ∧ options = Setting.assembled settings ∧
        checkArguments options = .ok options := by
  refine ⟨fun accepted => ?_, ?_⟩
  · rcases parseArgs_words settings with ⟨error, thrown, -⟩ | ⟨fine, checked⟩
    · rw [thrown] at accepted
      cases accepted
    · rw [checked] at accepted
      obtain rfl := checkArguments_ok accepted
      exact ⟨fine, rfl, accepted⟩
  · rintro ⟨fine, rfl, checked⟩
    unfold parseArgs
    rw [Setting.parse_words, (Setting.foldlM_apply_iff settings _).mpr ⟨fine, rfl⟩]
    exact checked

end HyperLink
