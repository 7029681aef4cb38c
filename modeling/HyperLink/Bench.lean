/-
This file is `parse_args` and `endpoint_for_stream` of the benchmark tool. It
checks the last port in 32 bits, where the file-transfer tool and the responder
take 64, so a stream count just below `2 ^ 32` wraps around and passes. Below
that the ports of the streams are as they should be.
-/

import HyperLink.Arguments

namespace HyperLink

open CommandLine

structure BenchOptions where
  server : Bool := false
  host : Bytes := ascii "127.0.0.1"
  port : UInt16 := 47777
  seconds : UInt32 := 10
  parallel : UInt32 := 1
  socketBufferBytes : UInt32 := 0
  chunkBytes : UInt64 := 1024 * 1024
  deriving DecidableEq, Repr

namespace Bench

/-- `std::stoull`, which differs from `std::stoul` in the text of its error. -/
def stoull (text : Bytes) : Except Error UInt64 := (stoul text).mapError fun _ => ascii "stoull"

def parseSeconds (value : Bytes) : Except Error UInt32 := do
  let seconds := (← stoul value).toUInt32
  if seconds = 0 then .error (ascii "seconds must be positive") else .ok seconds

def parseChunkBytes (value : Bytes) : Except Error UInt64 := do
  let chunkBytes ← stoull value
  if chunkBytes = 0 then .error (ascii "chunk-bytes must be positive") else .ok chunkBytes

def parseSocketBufferBytes (value : Bytes) : Except Error UInt32 := do
  return (← stoul value).toUInt32

/-- The branches of the loop in `parse_args`. -/
def benchArgument (arg : Bytes) : Meaning Bytes BenchOptions Stop :=
  if arg = ascii "--server" then
    .switch fun options => .ok { options with server := true, host := ascii "0.0.0.0" }
  else if arg = ascii "--client" then .switch fun options => .ok { options with server := false }
  else if arg = ascii "--host" then
    .valued fun value options => .ok { options with host := value }
  else if arg = ascii "--port" then
    .valued fun value options => store (parsePort value) fun port => { options with port }
  else if arg = ascii "--seconds" then
    .valued fun value options => store (parseSeconds value) fun seconds => { options with seconds }
  else if arg = ascii "--parallel" then
    .valued fun value options =>
      store (parseParallel value) fun parallel => { options with parallel }
  else if arg = ascii "--chunk-bytes" then
    .valued fun value options =>
      store (parseChunkBytes value) fun chunkBytes => { options with chunkBytes }
  else if arg = ascii "--socket-buffer-bytes" then
    .valued fun value options =>
      store (parseSocketBufferBytes value) fun socketBufferBytes =>
        { options with socketBufferBytes }
  else if arg = ascii "--help" ∨ arg = ascii "-h" then .switch fun _ => .error .exited
  else .switch fun _ => .error (.thrown (ascii "unknown argument: " ++ arg))

/-- The check behind the loop: the last port, in 32 bits. -/
def checkPorts (options : BenchOptions) : Except Stop BenchOptions :=
  if options.port.toUInt32 + options.parallel - 1 > 65535 then
    .error (.thrown (ascii "port plus parallel stream count exceeds 65535"))
  else .ok options

/-- `parse_args` on the words behind the name of the program. -/
def parseArgs (args : List Bytes) : Except Stop BenchOptions := do
  checkPorts (← parse benchArgument requiresValue args {})

/-- The sum is taken in 32 bits and cut to 16. -/
def endpointForStream (options : BenchOptions) (stream : UInt32) : TcpEndpoint where
  host := options.host
  port := (options.port.toUInt32 + stream).toUInt16
  sendBufferBytes := options.socketBufferBytes
  receiveBufferBytes := options.socketBufferBytes

/-! ### The effective port and stream count -/

def writesPort : Use Bytes → Option UInt16 :=
  writesFor (fun word => decide (word = ascii "--port")) fun value => (parsePort value).toOption

def writesParallel : Use Bytes → Option UInt32 :=
  writesFor (fun word => decide (word = ascii "--parallel")) fun value =>
    (parseParallel value).toOption

/-- Arguments other than `--port` and `--parallel` leave both as they are. -/
theorem apply_others {before after : BenchOptions} {use : Use Bytes}
    (noPort : use.word ≠ ascii "--port") (noParallel : use.word ≠ ascii "--parallel")
    (done : CommandLine.apply benchArgument requiresValue before use = .ok after) :
    after.port = before.port ∧ after.parallel = before.parallel := by
  have stored : ∀ {Value : Type} {read : Except Error Value} {set : Value → BenchOptions},
      store read set = .ok after →
      (∀ value, (set value).port = before.port ∧ (set value).parallel = before.parallel) →
      after.port = before.port ∧ after.parallel = before.parallel := by
    intro Value read set went leaves
    obtain ⟨value, -, rfl⟩ := store_ok went
    exact leaves value
  obtain ⟨word, value⟩ := use
  unfold CommandLine.apply benchArgument at done
  simp only [if_neg noPort, if_neg noParallel] at done
  cases value with
  | none =>
    split_ifs at done
    all_goals
      cases done
      try exact ⟨rfl, rfl⟩
  | some value =>
    split_ifs at done with server client host seconds chunkBytes socketBufferBytes help
    · cases done
      exact ⟨rfl, rfl⟩
    · cases done
      exact ⟨rfl, rfl⟩
    · cases done
      exact ⟨rfl, rfl⟩
    · exact stored done fun _ => ⟨rfl, rfl⟩
    · exact stored done fun _ => ⟨rfl, rfl⟩
    · exact stored done fun _ => ⟨rfl, rfl⟩

/-- What an argument does to the port and the stream count. -/
theorem apply_written {before after : BenchOptions} {use : Use Bytes}
    (done : CommandLine.apply benchArgument requiresValue before use = .ok after) :
    after.port = (writesPort use).getD before.port ∧
      after.parallel = (writesParallel use).getD before.parallel := by
  obtain ⟨word, value⟩ := use
  by_cases port : word = ascii "--port"
  · subst port
    cases value with
    | none => cases done
    | some value =>
      obtain ⟨port, parsed, rfl⟩ := store_ok done
      have wrote : writesPort ⟨ascii "--port", some value⟩ = some port := by
        simp [writesPort, writesFor, parsed, Except.toOption]
      rw [wrote]
      exact ⟨rfl, rfl⟩
  by_cases parallel : word = ascii "--parallel"
  · subst parallel
    cases value with
    | none => cases done
    | some value =>
      obtain ⟨parallel, parsed, rfl⟩ := store_ok done
      have wrote : writesParallel ⟨ascii "--parallel", some value⟩ = some parallel := by
        simp [writesParallel, writesFor, parsed, Except.toOption]
      rw [wrote]
      exact ⟨rfl, rfl⟩
  have same := apply_others port parallel done
  simpa [writesPort, writesParallel, writesFor, port, parallel] using same

/-- A `--port` that goes through has a value that is a port. -/
theorem reads_port {before after : BenchOptions} {use : Use Bytes}
    (named : use.word = ascii "--port")
    (done : CommandLine.apply benchArgument requiresValue before use = .ok after) :
    ∃ value port, use.value = some value ∧ parsePort value = .ok port := by
  obtain ⟨word, value⟩ := use
  subst named
  cases value with
  | none => cases done
  | some value =>
    obtain ⟨port, parsed, -⟩ := store_ok done
    exact ⟨value, port, rfl, parsed⟩

/-- A `--parallel` that goes through has a value that is a stream count. -/
theorem reads_parallel {before after : BenchOptions} {use : Use Bytes}
    (named : use.word = ascii "--parallel")
    (done : CommandLine.apply benchArgument requiresValue before use = .ok after) :
    ∃ value parallel, use.value = some value ∧ parseParallel value = .ok parallel := by
  obtain ⟨word, value⟩ := use
  subst named
  cases value with
  | none => cases done
  | some value =>
    obtain ⟨parallel, parsed, -⟩ := store_ok done
    exact ⟨value, parallel, rfl, parsed⟩

/-- Whether an argument takes the next one. -/
def takesValue (arg : Bytes) : Bool := (benchArgument arg).isValued

/-- The value of the last use of an option. -/
def lastGiven (flag : Bytes) (args : List Bytes) : Option Bytes :=
  lastValue takesValue (fun word => decide (word = flag)) args

/-- The port that the arguments ask for. -/
def givenPort (args : List Bytes) : UInt16 :=
  ((lastGiven (ascii "--port") args).bind fun value => (parsePort value).toOption).getD 47777

/-- The stream count that the arguments ask for, in 32 bits. -/
def givenParallel (args : List Bytes) : UInt32 :=
  ((lastGiven (ascii "--parallel") args).bind fun value => (parseParallel value).toOption).getD 1

theorem checkPorts_ok {options checked : BenchOptions}
    (accepted : checkPorts options = .ok checked) :
    checked = options ∧ ¬ options.port.toUInt32 + options.parallel - 1 > 65535 := by
  unfold checkPorts at accepted
  split_ifs at accepted with fits
  cases accepted
  exact ⟨rfl, fits⟩

/-- Accepted arguments give the port and the stream count that they ask for. -/
theorem given_of_parseArgs {args : List Bytes} {options : BenchOptions}
    (accepted : parseArgs args = .ok options) :
    options.port = givenPort args ∧ options.parallel = givenParallel args ∧
      ¬ options.port.toUInt32 + options.parallel - 1 > 65535 := by
  unfold parseArgs at accepted
  obtain ⟨after, loop, checked⟩ := bind_ok accepted
  obtain ⟨rfl, fits⟩ := checkPorts_ok checked
  rw [parse_eq_foldlM] at loop
  change (uses takesValue args).foldlM _ _ = _ at loop
  have written : ∀ before use later,
      CommandLine.apply benchArgument requiresValue before use = .ok later →
      later.port = (writesPort use).getD before.port ∧
        later.parallel = (writesParallel use).getD before.parallel :=
    fun _ _ _ done => apply_written done
  refine ⟨?_, ?_, fits⟩
  · rw [foldlM_written (fun before use later done => (written before use later done).1) loop]
    refine written_writesFor (fun use member named => ?_) _
    obtain ⟨before, later, done⟩ := foldlM_each loop member
    obtain ⟨value, port, taken, read⟩ := reads_port (of_decide_eq_true named) done
    exact ⟨value, port, taken, by rw [read]; rfl⟩
  · rw [foldlM_written (fun before use later done => (written before use later done).2) loop]
    refine written_writesFor (fun use member named => ?_) _
    obtain ⟨before, later, done⟩ := foldlM_each loop member
    obtain ⟨value, parallel, taken, read⟩ := reads_parallel (of_decide_eq_true named) done
    exact ⟨value, parallel, taken, by rw [read]; rfl⟩

/-! ### The ports of the streams -/

/-- The last port exists, and the endpoints of the streams have ports of their own. -/
def PortsValid (options : BenchOptions) : Prop :=
  options.port.toNat + options.parallel.toNat - 1 ≤ 65535 ∧
    (∀ stream < options.parallel,
      (endpointForStream options stream).port.toNat = options.port.toNat + stream.toNat ∧
        (endpointForStream options stream).port ≠ 0) ∧
    ∀ first second, first < second → second < options.parallel →
      (endpointForStream options first).port ≠ (endpointForStream options second).port

/-- Without a wrap the 32-bit check is the right one. -/
theorem toNat_lastPort32 {port : UInt16} {parallel : UInt32} (streams : 1 ≤ parallel.toNat)
    (fits : port.toNat + parallel.toNat ≤ 2 ^ 32) :
    (port.toUInt32 + parallel - 1).toNat = port.toNat + parallel.toNat - 1 := by
  have small := port.toNat_lt
  rw [UInt32.toNat_sub, UInt32.toNat_add, UInt16.toNat_toUInt32]
  simp only [UInt32.reduceToNat]
  omega

theorem toNat_streamPort {options : BenchOptions}
    (fits : options.port.toNat + options.parallel.toNat ≤ 65536) {stream : UInt32}
    (counted : stream < options.parallel) :
    (endpointForStream options stream).port.toNat = options.port.toNat + stream.toNat := by
  have below := UInt32.lt_iff_toNat_lt.mp counted
  simp only [endpointForStream]
  rw [UInt32.toNat_toUInt16, UInt32.toNat_add, UInt16.toNat_toUInt32]
  omega

/-- Ports up to 65535 are valid. -/
theorem portsValid_of_le {options : BenchOptions} (port : 1 ≤ options.port.toNat)
    (fits : options.port.toNat + options.parallel.toNat ≤ 65536) : PortsValid options := by
  refine ⟨by omega, fun stream counted => ⟨toNat_streamPort fits counted, fun zero => ?_⟩, ?_⟩
  · have number := toNat_streamPort fits counted
    rw [zero] at number
    simp only [UInt16.reduceToNat] at number
    omega
  · intro first second before counted same
    have numbers := congrArg UInt16.toNat same
    rw [toNat_streamPort fits counted, toNat_streamPort fits (UInt32.lt_trans before counted)]
      at numbers
    exact absurd (UInt32.lt_iff_toNat_lt.mp before) (by omega)

theorem givenPort_positive (args : List Bytes) : 1 ≤ (givenPort args).toNat := by
  unfold givenPort
  cases lastGiven (ascii "--port") args with
  | none => decide
  | some value =>
    rw [Option.bind_some]
    cases read : parsePort value with
    | error error => exact Nat.le_of_ble_eq_true rfl
    | ok port =>
      obtain ⟨-, -, -, positive⟩ := parsePort_ok read
      exact positive

theorem givenParallel_positive (args : List Bytes) : 1 ≤ (givenParallel args).toNat := by
  unfold givenParallel
  cases lastGiven (ascii "--parallel") args with
  | none => decide
  | some value =>
    rw [Option.bind_some]
    cases read : parseParallel value with
    | error error => exact Nat.le_of_ble_eq_true rfl
    | ok parallel =>
      obtain ⟨-, -, -, positive⟩ := parseParallel_ok read
      exact positive

/-- For every accepted command line the ports of the streams are valid exactly when the port and
the stream count together are at most `2 ^ 32`, where the check does not wrap around. -/
theorem parseArgs_ports_iff (args : List Bytes) (options : BenchOptions)
    (accepted : parseArgs args = .ok options) :
    PortsValid options ↔ (givenPort args).toNat + (givenParallel args).toNat ≤ 2 ^ 32 := by
  obtain ⟨port, parallel, fits⟩ := given_of_parseArgs accepted
  have somePort := givenPort_positive args
  have someStream := givenParallel_positive args
  rw [← port] at somePort ⊢
  rw [← parallel] at someStream ⊢
  refine ⟨fun valid => ?_, fun noWrap => ?_⟩
  · have last := valid.1
    omega
  · refine portsValid_of_le somePort ?_
    have bound : (options.port.toUInt32 + options.parallel - 1).toNat ≤ 65535 :=
      UInt32.le_iff_toNat_le.mp (UInt32.not_lt.mp fits)
    rw [toNat_lastPort32 someStream noWrap] at bound
    omega

/-- Port two with every stream that a count of 32 bits can name. -/
def wrappingArguments : List Bytes :=
  [ascii "--port", ascii "2", ascii "--parallel", ascii "4294967295"]

/-- The check wraps around and lets the arguments pass. -/
theorem ports_not_always_valid :
    ∃ options, parseArgs wrappingArguments = .ok options ∧ ¬ PortsValid options := by
  refine ⟨{ port := 2, parallel := 4294967295 }, by decide +kernel, fun valid => ?_⟩
  exact absurd valid.1 (by decide)

/-- Four streams from port 9000. -/
def fourStreams : List Bytes := [ascii "--port", ascii "9000", ascii "--parallel", ascii "4"]

theorem fourStreams_ports :
    PortsValid { port := 9000, parallel := 4 } ↔
      (givenPort fourStreams).toNat + (givenParallel fourStreams).toNat ≤ 2 ^ 32 :=
  parseArgs_ports_iff fourStreams { port := 9000, parallel := 4 } (by decide +kernel)

end Bench

end HyperLink
