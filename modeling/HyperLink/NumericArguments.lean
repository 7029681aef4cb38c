/-
This file is about the numeric options of the file-transfer tool. `parse_args`
leaves the reading to `std::stoul`, which accepts more than numerals, and cuts a
stream count to 32 bits. An accepted value is stored as what it says exactly when
it has nothing in front of its digits and nothing behind them and, for a stream
count, fits into 32 bits.
-/

import HyperLink.Arguments

namespace HyperLink

open CommandLine

/-! ### What `stoul` reads -/

/-- Nothing that `stoul` would skip is in front of the digits, and nothing that it would leave
unread is behind them. -/
def Plain (text : Bytes) : Prop :=
  text.dropWhile isSpace = text ∧ readSign text = (false, text) ∧ text.dropWhile isDigit = []

theorem isSpace_of_isDigit {character : UInt8} (digit : isDigit character = true) :
    isSpace character = false ∧ character ≠ 0x2d ∧ character ≠ 0x2b := by
  simp only [isDigit, isSpace, Bool.and_eq_true, decide_eq_true_eq, UInt8.le_iff_toNat_le,
    Bool.or_eq_false_iff, Bool.and_eq_false_iff, decide_eq_false_iff_not] at digit ⊢
  have equal : ∀ other : UInt8, other.toNat < 48 → character ≠ other := by
    rintro other small rfl
    exact absurd digit.1 (Nat.not_le.mpr small)
  refine ⟨⟨equal 0x20 (by decide), .inr ?_⟩, equal _ (by decide), equal _ (by decide)⟩
  have low := digit.1
  simp only [UInt8.reduceToNat] at low ⊢
  omega

/-- A numeral is plain. -/
theorem plain_of_isDecimal {text : Bytes} (decimal : isDecimal text = true) : Plain text := by
  simp only [isDecimal, Bool.and_eq_true, Bool.not_eq_true', List.all_eq_true] at decimal
  obtain ⟨notEmpty, digits⟩ := decimal
  cases text with
  | nil => cases notEmpty
  | cons first rest =>
    obtain ⟨noSpace, noMinus, noPlus⟩ := isSpace_of_isDigit (digits first List.mem_cons_self)
    refine ⟨?_, ?_, List.dropWhile_eq_nil_iff.mpr digits⟩
    · exact List.dropWhile_cons_of_neg (by simp [noSpace])
    · rw [readSign, if_neg noMinus, if_neg noPlus]

/-- What `stoul` does with plain text. -/
theorem stoul_plain {text : Bytes} (plain : Plain text) {parsed : UInt64}
    (read : stoul text = .ok parsed) :
    text ≠ [] ∧ parsed.toNat = decimalValue text := by
  obtain ⟨noSpace, noSign, noRest⟩ := plain
  have numeral : text.takeWhile isDigit = text := by
    have split := List.takeWhile_append_dropWhile (p := isDigit) (l := text)
    rwa [noRest, List.append_nil] at split
  unfold stoul at read
  rw [noSpace, noSign] at read
  simp only [numeral] at read
  split at read
  · cases read
  next fits =>
    obtain ⟨notEmpty, small⟩ := not_or.mp fits
    cases read
    exact ⟨notEmpty, UInt64.toNat_ofNat_of_lt (Nat.lt_of_not_ge small)⟩

/-- What is plain and has digits is a numeral. -/
theorem isDecimal_of_plain {text : Bytes} (plain : Plain text) (notEmpty : text ≠ []) :
    isDecimal text = true := by
  have digits := List.dropWhile_eq_nil_iff.mp plain.2.2
  simpa [isDecimal, notEmpty] using digits

/-! ### Effective values -/

/-- The value of the last use of an option. -/
def lastGiven (flag : Bytes) (args : List Bytes) : Option Bytes :=
  lastValue Setting.takesValue (fun word => decide (word = flag)) args

theorem lastGiven_settings {args : List Bytes} {settings : List Setting}
    (same : uses Setting.takesValue args = settings.map Setting.use) (flag : Bytes) :
    lastGiven flag args =
      (settings.filter fun setting => decide (setting.flag = flag)).getLast?.bind
        Setting.value := by
  rw [lastGiven, lastValue, same, List.filter_map, List.getLast?_map, Option.bind_map]
  rfl

/-- A numeric field holds what its reader made of the effective value. -/
theorem read_lastGiven {Field : Type} {args : List Bytes} {settings : List Setting}
    (same : uses Setting.takesValue args = settings.map Setting.use)
    (fine : ∀ setting ∈ settings, setting.Fine) {flag : Bytes}
    {read : Bytes → Except Error Field} {writes : Setting → Option Field}
    (others : ∀ setting : Setting, setting.flag ≠ flag → writes setting = none)
    (own : ∀ setting : Setting, setting.flag = flag → ∃ value, setting.value = some value ∧
      writes setting = (read value).toOption ∧
      (setting.Fine → ∃ field, read value = .ok field))
    (default : Field) {value : Bytes} (given : lastGiven flag args = some value) :
    read value = .ok (written writes default settings) := by
  rw [lastGiven_settings same] at given
  obtain ⟨setting, last, valueOf⟩ := Option.bind_eq_some_iff.mp given
  obtain ⟨inside, flagOf⟩ := List.mem_filter.mp (List.mem_of_getLast? last)
  obtain ⟨own, ownValue, wrote, reads⟩ := own setting (of_decide_eq_true flagOf)
  obtain rfl : own = value := Option.some.inj (ownValue.symm.trans valueOf)
  obtain ⟨field, isRead⟩ := reads (fine setting inside)
  rw [isRead] at wrote
  rw [isRead, written_of_last (fun other foreign => others other (of_decide_eq_false foreign))
    default last wrote]

theorem flag_eq_port {setting : Setting} (flag : setting.flag = ascii "--port") :
    ∃ value, setting = .port value := by
  cases setting with
  | port value => exact ⟨value, rfl⟩
  | _ =>
    simp only [Setting.flag] at flag
    exact absurd flag (by decide)

theorem flag_eq_discoveryPort {setting : Setting}
    (flag : setting.flag = ascii "--discovery-port") : ∃ value, setting = .discoveryPort value := by
  cases setting with
  | discoveryPort value => exact ⟨value, rfl⟩
  | _ =>
    simp only [Setting.flag] at flag
    exact absurd flag (by decide)

theorem flag_eq_parallel {setting : Setting} (flag : setting.flag = ascii "--parallel") :
    ∃ value, setting = .parallel value := by
  cases setting with
  | parallel value => exact ⟨value, rfl⟩
  | _ =>
    simp only [Setting.flag] at flag
    exact absurd flag (by decide)

/-- What `parse_args` stores for the effective values. -/
theorem numbers_of_parseArgs {args : List Bytes} {options : Options}
    (accepted : parseArgs args = .ok options) :
    (∀ value, lastGiven (ascii "--port") args = some value →
        parsePort value = .ok options.port) ∧
      (∀ value, lastGiven (ascii "--discovery-port") args = some value →
        parsePort value = .ok options.discoveryPort) ∧
      ∀ value, lastGiven (ascii "--parallel") args = some value →
        parseParallel value = .ok options.parallel := by
  obtain ⟨settings, same, fine, rfl, -⟩ := exists_settings_of_parseArgs accepted
  refine ⟨fun value given => ?_, fun value given => ?_, fun value given => ?_⟩
  · refine read_lastGiven same fine (fun setting foreign => ?_) (fun setting flag => ?_) _ given
    · cases setting with
      | port value => exact absurd rfl foreign
      | _ => rfl
    · obtain ⟨own, rfl⟩ := flag_eq_port flag
      exact ⟨own, rfl, rfl, id⟩
  · refine read_lastGiven same fine (fun setting foreign => ?_) (fun setting flag => ?_) _ given
    · cases setting with
      | discoveryPort value => exact absurd rfl foreign
      | _ => rfl
    · obtain ⟨own, rfl⟩ := flag_eq_discoveryPort flag
      exact ⟨own, rfl, rfl, id⟩
  · refine read_lastGiven same fine (fun setting foreign => ?_) (fun setting flag => ?_) _ given
    · cases setting with
      | parallel value => exact absurd rfl foreign
      | _ => rfl
    · obtain ⟨own, rfl⟩ := flag_eq_parallel flag
      exact ⟨own, rfl, rfl, id⟩

/-! ### Options that mean what they say -/

/-- A value is a numeral, and its number is what is stored. -/
def Means (value : Bytes) (stored : Nat) : Prop :=
  isDecimal value = true ∧ stored = decimalValue value

/-- The numeric options mean what they say. -/
structure NumbersMeant (args : List Bytes) (options : Options) : Prop where
  port : ∀ value, lastGiven (ascii "--port") args = some value →
    Means value options.port.toNat ∧ 1 ≤ options.port.toNat ∧ options.port.toNat ≤ 65535
  discoveryPort : ∀ value, lastGiven (ascii "--discovery-port") args = some value →
    Means value options.discoveryPort.toNat ∧ 1 ≤ options.discoveryPort.toNat ∧
      options.discoveryPort.toNat ≤ 65535
  parallel : ∀ value, lastGiven (ascii "--parallel") args = some value →
    Means value options.parallel.toNat ∧ 1 ≤ options.parallel.toNat

/-- Nothing is in front of the digits or behind them, and a stream count has 32 bits. -/
structure NumbersPlain (args : List Bytes) : Prop where
  port : ∀ value, lastGiven (ascii "--port") args = some value → Plain value
  discoveryPort : ∀ value, lastGiven (ascii "--discovery-port") args = some value → Plain value
  parallel : ∀ value, lastGiven (ascii "--parallel") args = some value →
    Plain value ∧ decimalValue value < 2 ^ 32

theorem means_port_iff {value : Bytes} {port : UInt16} (accepted : parsePort value = .ok port) :
    (Means value port.toNat ∧ 1 ≤ port.toNat ∧ port.toNat ≤ 65535) ↔ Plain value := by
  obtain ⟨parsed, read, stored, positive⟩ := parsePort_ok accepted
  refine ⟨fun means => plain_of_isDecimal means.1.1, fun plain => ?_⟩
  obtain ⟨notEmpty, number⟩ := stoul_plain plain read
  exact ⟨⟨isDecimal_of_plain plain notEmpty, stored.trans number⟩, positive,
    Nat.le_of_lt_succ port.toNat_lt⟩

theorem means_parallel_iff {value : Bytes} {parallel : UInt32}
    (accepted : parseParallel value = .ok parallel) :
    (Means value parallel.toNat ∧ 1 ≤ parallel.toNat) ↔
      Plain value ∧ decimalValue value < 2 ^ 32 := by
  obtain ⟨parsed, read, stored, positive⟩ := parseParallel_ok accepted
  refine ⟨fun means => ⟨plain_of_isDecimal means.1.1, ?_⟩, fun ⟨plain, small⟩ => ?_⟩
  · rw [← means.1.2]
    exact parallel.toNat_lt
  · obtain ⟨notEmpty, number⟩ := stoul_plain plain read
    refine ⟨⟨isDecimal_of_plain plain notEmpty, ?_⟩, positive⟩
    rw [stored, number]
    exact Nat.mod_eq_of_lt small

/-- For every accepted command line, the numeric options mean what they say exactly when each
effective value has nothing around its digits and a stream count fits into 32 bits. -/
theorem parseArgs_numbers_iff (args : List Bytes) (options : Options)
    (accepted : parseArgs args = .ok options) :
    NumbersMeant args options ↔ NumbersPlain args := by
  obtain ⟨port, discoveryPort, parallel⟩ := numbers_of_parseArgs accepted
  refine ⟨fun meant => ⟨?_, ?_, ?_⟩, fun plain => ⟨?_, ?_, ?_⟩⟩
  · exact fun value given => (means_port_iff (port value given)).mp (meant.port value given)
  · exact fun value given =>
      (means_port_iff (discoveryPort value given)).mp (meant.discoveryPort value given)
  · exact fun value given =>
      (means_parallel_iff (parallel value given)).mp (meant.parallel value given)
  · exact fun value given => (means_port_iff (port value given)).mpr (plain.port value given)
  · exact fun value given =>
      (means_port_iff (discoveryPort value given)).mpr (plain.discoveryPort value given)
  · exact fun value given =>
      (means_parallel_iff (parallel value given)).mpr (plain.parallel value given)

/-- A receiver asked for 4294967297 streams, and for port eight with a letter behind it. -/
def wideArguments : List Bytes :=
  [ascii "--receive", ascii "--parallel", ascii "4294967297", ascii "--port", ascii "8x"]

/-- It takes one stream on port eight. -/
theorem wideArguments_options : parseArgs wideArguments = .ok { receive := true, port := 8 } := by
  decide +kernel

/-- Two accepted values that do not mean what they say. -/
theorem numbers_not_always_meant :
    ∃ options, parseArgs wideArguments = .ok options ∧ ¬ NumbersMeant wideArguments options := by
  refine ⟨_, wideArguments_options, fun meant => ?_⟩
  have number := (meant.parallel (ascii "4294967297") (by decide +kernel)).1.2
  exact absurd number (by decide +kernel)

/-- A receiver on port 9000 with four streams. -/
def plainArguments : List Bytes :=
  [ascii "--receive", ascii "--port", ascii "9000", ascii "--parallel", ascii "4"]

theorem plainArguments_numbers :
    parseArgs plainArguments = .ok { receive := true, port := 9000, parallel := 4 } ∧
      (NumbersMeant plainArguments { receive := true, port := 9000, parallel := 4 } ↔
        NumbersPlain plainArguments) := by
  have accepted : parseArgs plainArguments =
      .ok { receive := true, port := 9000, parallel := 4 } := by
    decide +kernel
  exact ⟨accepted, parseArgs_numbers_iff plainArguments _ accepted⟩

end HyperLink
