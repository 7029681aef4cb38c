/-
This file is the command line of the friendly front end, `parse_receive` and
`parse_send`, and the arguments with which `run_receive` and `run_send` start the
file-transfer tool. That tool parses the arguments anew. It either refuses one of
the forwarded numbers, or does what the front end was asked for.
-/

import HyperLink.NumericArguments

namespace HyperLink

open CommandLine

structure ReceiveOptions where
  host : Bytes := ascii "0.0.0.0"
  port : Bytes := ascii "47790"
  outputDir : Bytes
  parallel : Bytes := ascii "8"
  discoveryPort : Bytes := ascii "47789"
  advertise : Bool := true
  deriving DecidableEq, Repr

structure SendOptions where
  file : Bytes := []
  host : Bytes := []
  port : Bytes := ascii "47790"
  parallel : Bytes := ascii "8"
  discoveryPort : Bytes := ascii "47789"
  remoteName : Bytes := []
  deriving DecidableEq, Repr

namespace Cli

/-- `default_download_dir` with the value of `HOME`. -/
def defaultDownloadDir (home : Option Bytes) : Bytes :=
  match home with
  | none => ascii "."
  | some home =>
      if home = [] then ascii "."
      else if home.getLast? = some slash then home ++ ascii "Downloads"
      else home ++ ascii "/Downloads"

/-- The branches of the loop in `parse_receive`. -/
def receiveArgument (arg : Bytes) : Meaning Bytes ReceiveOptions Stop :=
  if arg = ascii "--out" ∨ arg = ascii "--output-dir" then
    .valued fun value options => .ok { options with outputDir := value }
  else if arg = ascii "--host" then
    .valued fun value options => .ok { options with host := value }
  else if arg = ascii "--port" then
    .valued fun value options => .ok { options with port := value }
  else if arg = ascii "--parallel" then
    .valued fun value options => .ok { options with parallel := value }
  else if arg = ascii "--discovery-port" then
    .valued fun value options => .ok { options with discoveryPort := value }
  else if arg = ascii "--no-advertise" then
    .switch fun options => .ok { options with advertise := false }
  else if arg = ascii "--help" ∨ arg = ascii "-h" then .switch fun _ => .error .exited
  else .switch fun _ => .error (.thrown (ascii "unknown receive option: " ++ arg))

/-- `parse_receive` on the words behind the subcommand. -/
def parseReceive (home : Option Bytes) (args : List Bytes) : Except Stop ReceiveOptions :=
  parse receiveArgument requiresValue args { outputDir := defaultDownloadDir home }

/-- The branches of the loop in `parse_send`. What is no option is the file. -/
def sendArgument (arg : Bytes) : Meaning Bytes SendOptions Stop :=
  if arg = ascii "--name" then
    .valued fun value options => .ok { options with remoteName := value }
  else if arg = ascii "--host" then
    .valued fun value options => .ok { options with host := value }
  else if arg = ascii "--port" then
    .valued fun value options => .ok { options with port := value }
  else if arg = ascii "--parallel" then
    .valued fun value options => .ok { options with parallel := value }
  else if arg = ascii "--discovery-port" then
    .valued fun value options => .ok { options with discoveryPort := value }
  else if arg = ascii "--help" ∨ arg = ascii "-h" then .switch fun _ => .error .exited
  else if arg.head? = some hyphen then
    .switch fun _ => .error (.thrown (ascii "unknown send option: " ++ arg))
  else
    .switch fun options =>
      if options.file = [] then .ok { options with file := arg }
      else .error (.thrown (ascii "send accepts exactly one file or folder path"))

def checkSend (options : SendOptions) : Except Stop SendOptions :=
  if options.file = [] then .error (.thrown (ascii "send requires a file or folder path"))
  else .ok options

/-- `parse_send` on the words behind the subcommand. -/
def parseSend (args : List Bytes) : Except Stop SendOptions := do
  checkSend (← parse sendArgument requiresValue args {})

/-- The arguments of `run_receive`. -/
def receiveArguments (options : ReceiveOptions) : List Bytes :=
  [ascii "--receive", ascii "--host", options.host, ascii "--port", options.port,
    ascii "--output-dir", options.outputDir, ascii "--parallel", options.parallel,
    ascii "--discovery-port", options.discoveryPort] ++
  if options.advertise then [] else [ascii "--no-advertise"]

/-- The arguments of `run_send`. -/
def sendArguments (options : SendOptions) : List Bytes :=
  [ascii "--send", ascii "--file", options.file, ascii "--discovery-port",
    options.discoveryPort] ++
  (if options.host = [] then [ascii "--auto"]
    else [ascii "--host", options.host, ascii "--port", options.port, ascii "--parallel",
      options.parallel]) ++
  if options.remoteName = [] then [] else [ascii "--name", options.remoteName]

/-! ### What the front end reads -/

/-- Whether an argument of `receive` takes the next one. -/
def receiveTakesValue (arg : Bytes) : Bool := (receiveArgument arg).isValued

/-- Whether an argument of `send` takes the next one. -/
def sendTakesValue (arg : Bytes) : Bool := (sendArgument arg).isValued

/-- The last value given for one of some flags, or else the default. -/
def effective (takesValue : Bytes → Bool) (flags : List Bytes) (default : Bytes)
    (args : List Bytes) : Bytes :=
  (lastValue takesValue (fun word => decide (word ∈ flags)) args).getD default

/-- The value that a use gives for one of some flags. -/
def writesFlag (flags : List Bytes) (use : Use Bytes) : Option Bytes :=
  writesFor (fun word => decide (word ∈ flags)) some use

theorem effective_of_parse {Settings : Type} {meaning : Bytes → Meaning Bytes Settings Stop}
    {write : Settings → Use Bytes → Settings}
    (does : ∀ before use after, apply meaning requiresValue before use = .ok after →
      after = write before use)
    {args : List Bytes} {start after : Settings}
    (done : parse meaning requiresValue args start = .ok after)
    (read : Settings → Bytes) (flags : List Bytes)
    (valued : ∀ flag ∈ flags, (meaning flag).isValued = true)
    (each : ∀ before use, read (write before use) = (writesFlag flags use).getD (read before)) :
    read after = effective (fun word => (meaning word).isValued) flags (read start) args := by
  refine parse_lastValue (fun word named => valued word (of_decide_eq_true named)) ?_ done
  intro before use after applied
  rw [does before use after applied]
  exact each before use

def outputFlags : List Bytes := [ascii "--out", ascii "--output-dir"]

/-- What a use does to the options of `receive`. -/
def receiveWrite (before : ReceiveOptions) (use : Use Bytes) : ReceiveOptions where
  host := (writesFlag [ascii "--host"] use).getD before.host
  port := (writesFlag [ascii "--port"] use).getD before.port
  outputDir := (writesFlag outputFlags use).getD before.outputDir
  parallel := (writesFlag [ascii "--parallel"] use).getD before.parallel
  discoveryPort := (writesFlag [ascii "--discovery-port"] use).getD before.discoveryPort
  advertise := if use.word = ascii "--no-advertise" then false else before.advertise

theorem receive_apply_ok {before after : ReceiveOptions} {use : Use Bytes}
    (done : apply receiveArgument requiresValue before use = .ok after) :
    after = receiveWrite before use := by
  obtain ⟨word, value⟩ := use
  by_cases out : word = ascii "--out"
  · subst out
    cases value <;> cases done
    rfl
  by_cases outputDir : word = ascii "--output-dir"
  · subst outputDir
    cases value <;> cases done
    rfl
  by_cases host : word = ascii "--host"
  · subst host
    cases value <;> cases done
    rfl
  by_cases port : word = ascii "--port"
  · subst port
    cases value <;> cases done
    rfl
  by_cases parallel : word = ascii "--parallel"
  · subst parallel
    cases value <;> cases done
    rfl
  by_cases discoveryPort : word = ascii "--discovery-port"
  · subst discoveryPort
    cases value <;> cases done
    rfl
  by_cases noAdvertise : word = ascii "--no-advertise"
  · subst noAdvertise
    cases done
    rfl
  -- The usage text and unknown options do not go through.
  by_cases help : word = ascii "--help" ∨ word = ascii "-h"
  · simp only [apply, receiveArgument, out, outputDir, or_self, if_false, if_neg host,
      if_neg port, if_neg parallel, if_neg discoveryPort, if_neg noAdvertise, if_pos help] at done
    cases done
  · simp only [apply, receiveArgument, out, outputDir, or_self, if_false, if_neg host,
      if_neg port, if_neg parallel, if_neg discoveryPort, if_neg noAdvertise, if_neg help] at done
    cases done

/-- The use of `--no-advertise`. -/
def noAdvertise : Use Bytes := ⟨ascii "--no-advertise", none⟩

theorem advertise_of_parse {args : List Bytes} {start after : ReceiveOptions}
    (done : parse receiveArgument requiresValue args start = .ok after)
    (before : start.advertise = true) :
    after.advertise = decide (noAdvertise ∉ uses receiveTakesValue args) := by
  rw [parse_eq_foldlM] at done
  change (uses receiveTakesValue args).foldlM _ _ = _ at done
  let writes : Use Bytes → Option Bool := fun use =>
    if use.word = ascii "--no-advertise" then some false else none
  have each : ∀ before use after, apply receiveArgument requiresValue before use = .ok after →
      after.advertise = (writes use).getD before.advertise := by
    intro before use after applied
    rw [receive_apply_ok applied]
    simp only [receiveWrite, writes]
    split_ifs <;> rfl
  rw [foldlM_written each done, before]
  by_cases given : noAdvertise ∈ uses receiveTakesValue args
  · have agreeing : Agreeing writes (uses receiveTakesValue args) := by
      intro first _ second _ one isOne other isOther
      simp only [writes, Option.mem_def, Option.ite_none_right_eq_some] at isOne isOther
      rw [← Option.some.inj isOne.2, ← Option.some.inj isOther.2]
    rw [agreeing.written_eq given rfl, decide_eq_false (not_not.mpr given)]
  · have nothing : ∀ use ∈ uses receiveTakesValue args, writes use = none := by
      intro use member
      refine if_neg fun word => given ?_
      have alone := value_of_mem_uses member (by rw [word]; rfl)
      obtain ⟨_, _⟩ := use
      obtain rfl := word
      obtain rfl := alone
      exact member
    rw [written_of_none nothing, decide_eq_true given]

/-- What `parse_receive` accepts are the effective values. -/
theorem parseReceive_ok {home : Option Bytes} {args : List Bytes} {options : ReceiveOptions}
    (accepted : parseReceive home args = .ok options) :
    options =
      { host := effective receiveTakesValue [ascii "--host"] (ascii "0.0.0.0") args
        port := effective receiveTakesValue [ascii "--port"] (ascii "47790") args
        outputDir := effective receiveTakesValue outputFlags (defaultDownloadDir home) args
        parallel := effective receiveTakesValue [ascii "--parallel"] (ascii "8") args
        discoveryPort :=
          effective receiveTakesValue [ascii "--discovery-port"] (ascii "47789") args
        advertise := decide (noAdvertise ∉ uses receiveTakesValue args) } := by
  have given := effective_of_parse (fun _ _ _ => receive_apply_ok) accepted
  have host := given ReceiveOptions.host [ascii "--host"] (by decide) fun _ _ => rfl
  have port := given ReceiveOptions.port [ascii "--port"] (by decide) fun _ _ => rfl
  have outputDir := given ReceiveOptions.outputDir outputFlags (by decide) fun _ _ => rfl
  have parallel := given ReceiveOptions.parallel [ascii "--parallel"] (by decide) fun _ _ => rfl
  have discoveryPort := given ReceiveOptions.discoveryPort [ascii "--discovery-port"] (by decide)
    fun _ _ => rfl
  have advertise := advertise_of_parse accepted rfl
  obtain ⟨_, _, _, _, _, _⟩ := options
  simp only [ReceiveOptions.mk.injEq]
  exact ⟨host, port, outputDir, parallel, discoveryPort, advertise⟩

/-- What a use does to the options of `send`. -/
def sendWrite (before : SendOptions) (use : Use Bytes) : SendOptions where
  file := if use.word.head? = some hyphen then before.file else use.word
  host := (writesFlag [ascii "--host"] use).getD before.host
  port := (writesFlag [ascii "--port"] use).getD before.port
  parallel := (writesFlag [ascii "--parallel"] use).getD before.parallel
  discoveryPort := (writesFlag [ascii "--discovery-port"] use).getD before.discoveryPort
  remoteName := (writesFlag [ascii "--name"] use).getD before.remoteName

/-- A file is only taken when there is none yet. -/
theorem send_apply_ok {before after : SendOptions} {use : Use Bytes}
    (done : apply sendArgument requiresValue before use = .ok after) :
    after = sendWrite before use ∧ (use.word.head? ≠ some hyphen → before.file = []) := by
  obtain ⟨word, value⟩ := use
  have option {flag : Bytes} (hyphened : flag.head? = some hyphen) {claim : Prop} :
      flag.head? ≠ some hyphen → claim := fun other => absurd hyphened other
  by_cases name : word = ascii "--name"
  · subst name
    cases value <;> cases done
    exact ⟨rfl, option rfl⟩
  by_cases host : word = ascii "--host"
  · subst host
    cases value <;> cases done
    exact ⟨rfl, option rfl⟩
  by_cases port : word = ascii "--port"
  · subst port
    cases value <;> cases done
    exact ⟨rfl, option rfl⟩
  by_cases parallel : word = ascii "--parallel"
  · subst parallel
    cases value <;> cases done
    exact ⟨rfl, option rfl⟩
  by_cases discoveryPort : word = ascii "--discovery-port"
  · subst discoveryPort
    cases value <;> cases done
    exact ⟨rfl, option rfl⟩
  by_cases help : word = ascii "--help" ∨ word = ascii "-h"
  · simp only [apply, sendArgument, if_neg name, if_neg host, if_neg port, if_neg parallel,
      if_neg discoveryPort, if_pos help] at done
    cases done
  simp only [apply, sendArgument, if_neg name, if_neg host, if_neg port, if_neg parallel,
    if_neg discoveryPort, if_neg help] at done
  by_cases hyphened : word.head? = some hyphen
  · rw [if_pos hyphened] at done
    cases done
  rw [if_neg hyphened] at done
  simp only [] at done
  split at done
  next noFile =>
    cases done
    refine ⟨?_, fun _ => noFile⟩
    simp [sendWrite, writesFlag, writesFor, hyphened, name, host, port, parallel, discoveryPort]
  next given => cases done

/-- The words of `send` that are no options and no values, without the empty ones. -/
def fileWords (uses : List (Use Bytes)) : List Bytes :=
  (uses.map Use.word).filter fun word => decide (word ≠ [] ∧ word.head? ≠ some hyphen)

/-- The file is the only such word. -/
theorem fileWords_of_parse {uses : List (Use Bytes)} {after : SendOptions}
    (done : uses.foldlM (apply sendArgument requiresValue) {} = .ok after) :
    fileWords uses = [after.file].filter fun word => decide (word ≠ []) := by
  induction uses using List.reverseRecOn generalizing after with
  | nil =>
    cases done
    rfl
  | append_singleton uses use inductionHypothesis =>
    obtain ⟨between, first, last⟩ := foldlM_concat_ok done
    obtain ⟨rfl, alone⟩ := send_apply_ok last
    have earlier := inductionHypothesis first
    unfold fileWords at earlier ⊢
    rw [List.map_append, List.filter_append, earlier]
    by_cases hyphened : use.word.head? = some hyphen
    · simp [sendWrite, hyphened]
    · simp [sendWrite, hyphened, alone hyphened, List.filter_cons]

/-- What `parse_send` accepts are the effective values, with the file. -/
theorem parseSend_ok {args : List Bytes} {options : SendOptions}
    (accepted : parseSend args = .ok options) :
    fileWords (uses sendTakesValue args) = [options.file] ∧ options.file ≠ [] ∧
      options =
        { file := options.file
          host := effective sendTakesValue [ascii "--host"] [] args
          port := effective sendTakesValue [ascii "--port"] (ascii "47790") args
          parallel := effective sendTakesValue [ascii "--parallel"] (ascii "8") args
          discoveryPort :=
            effective sendTakesValue [ascii "--discovery-port"] (ascii "47789") args
          remoteName := effective sendTakesValue [ascii "--name"] [] args } := by
  unfold parseSend at accepted
  obtain ⟨after, loop, checked⟩ := bind_ok accepted
  unfold checkSend at checked
  split at checked
  · cases checked
  next isGiven =>
    cases checked
    have given := effective_of_parse (fun _ _ _ done => (send_apply_ok done).1) loop
    have host := given SendOptions.host [ascii "--host"] (by decide) fun _ _ => rfl
    have port := given SendOptions.port [ascii "--port"] (by decide) fun _ _ => rfl
    have parallel := given SendOptions.parallel [ascii "--parallel"] (by decide) fun _ _ => rfl
    have discoveryPort := given SendOptions.discoveryPort [ascii "--discovery-port"] (by decide)
      fun _ _ => rfl
    have name := given SendOptions.remoteName [ascii "--name"] (by decide) fun _ _ => rfl
    rw [parse_eq_foldlM] at loop
    change (uses sendTakesValue args).foldlM _ _ = _ at loop
    refine ⟨?_, isGiven, ?_⟩
    · rw [fileWords_of_parse loop]
      simp [isGiven]
    · obtain ⟨_, _, _, _, _, _⟩ := options
      simp only [SendOptions.mk.injEq]
      exact ⟨trivial, host, port, parallel, discoveryPort, name⟩

/-! ### What the file-transfer tool makes of it -/

/-- The errors that `parse_args` has for a forwarded port, stream count and discovery port. -/
def Unacceptable (port parallel discoveryPort : Bytes) (error : Error) : Prop :=
  parsePort port = .error error ∨ parseParallel parallel = .error error ∨
    parsePort discoveryPort = .error error ∨
    ∃ first streams, parsePort port = .ok first ∧ parseParallel parallel = .ok streams ∧
      portRangeExceeds first streams = true ∧
      error = ascii "port plus parallel stream count exceeds 65535"

/-- Settings that forward these numbers and no others: `parse_args` refuses one of the numbers, or
gives the options that they make. -/
theorem parseArgs_forwarded {settings : List Setting} {port parallel discoveryPort : Bytes}
    {options : UInt16 → UInt32 → UInt16 → Options}
    (forwards : .port port ∈ settings ∧ .parallel parallel ∈ settings ∧
      .discoveryPort discoveryPort ∈ settings)
    (only : ∀ error, (∃ setting ∈ settings, setting.RefusedWith error) →
      parsePort port = .error error ∨ parseParallel parallel = .error error ∨
        parsePort discoveryPort = .error error)
    (done : ∀ first streams udp, parsePort port = .ok first → parseParallel parallel = .ok streams →
      parsePort discoveryPort = .ok udp →
        settings.foldlM Setting.apply {} = .ok (options first streams udp))
    (checks : ∀ first streams udp, checkArguments (options first streams udp) =
      if portRangeExceeds first streams then
        .error (.thrown (ascii "port plus parallel stream count exceeds 65535"))
      else .ok (options first streams udp)) :
    (∃ error, parseArgs (settings.flatMap Setting.words) = .error (.thrown error) ∧
        Unacceptable port parallel discoveryPort error) ∨
      ∃ first streams udp, parsePort port = .ok first ∧ parseParallel parallel = .ok streams ∧
        parsePort discoveryPort = .ok udp ∧
        parseArgs (settings.flatMap Setting.words) = .ok (options first streams udp) := by
  rcases parseArgs_words settings with ⟨error, thrown, refused⟩ | ⟨fine, checked⟩
  · refine .inl ⟨error, thrown, ?_⟩
    rcases only error refused with port | parallel | discoveryPort
    · exact .inl port
    · exact .inr (.inl parallel)
    · exact .inr (.inr (.inl discoveryPort))
  · obtain ⟨first, isPort⟩ := fine _ forwards.1
    obtain ⟨streams, isParallel⟩ := fine _ forwards.2.1
    obtain ⟨udp, isDiscoveryPort⟩ := fine _ forwards.2.2
    rw [checked, ← Setting.eq_assembled (done first streams udp isPort isParallel isDiscoveryPort),
      checks]
    cases range : portRangeExceeds first streams with
    | true =>
      refine .inl ⟨_, rfl, .inr (.inr (.inr ?_))⟩
      exact ⟨first, streams, isPort, isParallel, range, rfl⟩
    | false => exact .inr ⟨first, streams, udp, isPort, isParallel, isDiscoveryPort, rfl⟩

def receiveSettings (options : ReceiveOptions) : List Setting :=
  [.receive, .host options.host, .port options.port, .outputDir options.outputDir,
    .parallel options.parallel, .discoveryPort options.discoveryPort] ++
  if options.advertise then [] else [.noAdvertise]

theorem receiveSettings_words (options : ReceiveOptions) :
    receiveArguments options = (receiveSettings options).flatMap Setting.words := by
  unfold receiveArguments receiveSettings
  cases options.advertise <;> rfl

theorem parseArgs_receiveArguments (options : ReceiveOptions) :
    (∃ error, parseArgs (receiveArguments options) = .error (.thrown error) ∧
        Unacceptable options.port options.parallel options.discoveryPort error) ∨
      ∃ port parallel discoveryPort, parsePort options.port = .ok port ∧
        parseParallel options.parallel = .ok parallel ∧
        parsePort options.discoveryPort = .ok discoveryPort ∧
        parseArgs (receiveArguments options) =
          .ok { receive := true
                advertise := options.advertise
                host := options.host
                port := port
                discoveryPort := discoveryPort
                parallel := parallel
                outputDir := Path.parse options.outputDir } := by
  rw [receiveSettings_words]
  refine parseArgs_forwarded (by simp [receiveSettings]) (fun error refused => ?_)
    (fun port parallel discoveryPort isPort isParallel isDiscoveryPort => ?_)
    fun port parallel discoveryPort => ?_
  · unfold receiveSettings at refused
    cases options.advertise <;> simpa [Setting.RefusedWith] using refused
  · unfold receiveSettings
    cases options.advertise <;>
      simp [Setting.apply, store, isPort, isParallel, isDiscoveryPort] <;> rfl
  · simp [checkArguments]

/-- The settings behind `--send`, `--file` and `--discovery-port`. -/
def peerSettings (options : SendOptions) : List Setting :=
  if options.host = [] then [.auto]
  else [.host options.host, .port options.port, .parallel options.parallel]

def sendSettings (options : SendOptions) : List Setting :=
  [.send, .file options.file, .discoveryPort options.discoveryPort] ++ peerSettings options ++
  if options.remoteName = [] then [] else [.name options.remoteName]

theorem sendSettings_words (options : SendOptions) :
    sendArguments options = (sendSettings options).flatMap Setting.words := by
  unfold sendArguments sendSettings peerSettings
  split_ifs <;> simp [Setting.words, Setting.flag, Setting.value]

/-- Without a host the peer is to be discovered, and no port and stream count are forwarded. -/
theorem parseArgs_sendArguments_auto {options : SendOptions} (noHost : options.host = [])
    (isGiven : options.file ≠ []) :
    (∃ error, parseArgs (sendArguments options) = .error (.thrown error) ∧
        parsePort options.discoveryPort = .error error) ∨
      ∃ discoveryPort, parsePort options.discoveryPort = .ok discoveryPort ∧
        parseArgs (sendArguments options) =
          .ok { send := true
                autoDiscover := true
                host := []
                discoveryPort := discoveryPort
                file := Path.parse options.file
                remoteName := options.remoteName } := by
  rw [sendSettings_words]
  rcases parseArgs_words (sendSettings options) with ⟨error, thrown, refused⟩ | ⟨fine, checked⟩
  · refine .inl ⟨error, thrown, ?_⟩
    rw [sendSettings, peerSettings, if_pos noHost] at refused
    split_ifs at refused <;> simpa [Setting.RefusedWith] using refused
  · obtain ⟨discoveryPort, isDiscoveryPort⟩ :=
      fine (.discoveryPort options.discoveryPort) (by simp [sendSettings])
    have done : (sendSettings options).foldlM Setting.apply {} =
        .ok { send := true, autoDiscover := true, host := [], discoveryPort := discoveryPort,
              file := Path.parse options.file, remoteName := options.remoteName } := by
      rw [sendSettings, peerSettings, if_pos noHost]
      split_ifs with noName <;> simp [Setting.apply, store, isDiscoveryPort, noName] <;> rfl
    refine .inr ⟨discoveryPort, isDiscoveryPort, ?_⟩
    have range : portRangeExceeds kDefaultPort 1 = false := by decide
    rw [checked, ← Setting.eq_assembled done]
    refine (checkArguments_iff _).mpr ⟨(Bool.false_ne_true ·.symm), ?_, by simp, range⟩
    exact fun empty => isGiven ((Path.parse_isEmpty_iff _).mp empty.2)

/-- With a host, its port and stream count are forwarded. -/
theorem parseArgs_sendArguments_host {options : SendOptions} (host : options.host ≠ [])
    (isGiven : options.file ≠ []) :
    (∃ error, parseArgs (sendArguments options) = .error (.thrown error) ∧
        Unacceptable options.port options.parallel options.discoveryPort error) ∨
      ∃ port parallel discoveryPort, parsePort options.port = .ok port ∧
        parseParallel options.parallel = .ok parallel ∧
        parsePort options.discoveryPort = .ok discoveryPort ∧
        parseArgs (sendArguments options) =
          .ok { send := true
                host := options.host
                port := port
                discoveryPort := discoveryPort
                parallel := parallel
                file := Path.parse options.file
                remoteName := options.remoteName } := by
  rw [sendSettings_words]
  refine parseArgs_forwarded (by simp [sendSettings, peerSettings, host])
    (fun error refused => ?_)
    (fun port parallel discoveryPort isPort isParallel isDiscoveryPort => ?_)
    fun port parallel discoveryPort => ?_
  · rw [sendSettings, peerSettings, if_neg host] at refused
    have value : parsePort options.discoveryPort = .error error ∨
        parsePort options.port = .error error ∨
          parseParallel options.parallel = .error error := by
      split_ifs at refused <;> simpa [Setting.RefusedWith] using refused
    exact (or_rotate.mp value)
  · rw [sendSettings, peerSettings, if_neg host]
    split_ifs with noName <;>
      simp [Setting.apply, store, isPort, isParallel, isDiscoveryPort, noName] <;> rfl
  · have file : ¬ (Path.parse options.file).isEmpty = true :=
      mt (Path.parse_isEmpty_iff _).mp isGiven
    simp [checkArguments, file]

/-! ### Delegation -/

/-- What the file-transfer tool may do when `receive` was asked for with some arguments. -/
def ReceivesAsAsked (home : Option Bytes) (args : List Bytes) (outcome : Except Stop Options) :
    Prop :=
  let given := effective receiveTakesValue
  let port := given [ascii "--port"] (ascii "47790") args
  let parallel := given [ascii "--parallel"] (ascii "8") args
  let discoveryPort := given [ascii "--discovery-port"] (ascii "47789") args
  (∃ error, outcome = .error (.thrown error) ∧
      Unacceptable port parallel discoveryPort error) ∨
    ∃ transferPort streams udpPort, parsePort port = .ok transferPort ∧
      parseParallel parallel = .ok streams ∧ parsePort discoveryPort = .ok udpPort ∧
      outcome = .ok
        { receive := true
          advertise := decide (noAdvertise ∉ uses receiveTakesValue args)
          host := given [ascii "--host"] (ascii "0.0.0.0") args
          port := transferPort
          discoveryPort := udpPort
          parallel := streams
          outputDir := Path.parse (given outputFlags (defaultDownloadDir home) args) }

/-- What it may do when `send` was asked for. -/
def SendsAsAsked (args : List Bytes) (outcome : Except Stop Options) : Prop :=
  let given := effective sendTakesValue
  let host := given [ascii "--host"] [] args
  let port := given [ascii "--port"] (ascii "47790") args
  let parallel := given [ascii "--parallel"] (ascii "8") args
  let discoveryPort := given [ascii "--discovery-port"] (ascii "47789") args
  ∃ file, fileWords (uses sendTakesValue args) = [file] ∧
    if host = [] then
      (∃ error, outcome = .error (.thrown error) ∧ parsePort discoveryPort = .error error) ∨
        ∃ udpPort, parsePort discoveryPort = .ok udpPort ∧
          outcome = .ok
            { send := true
              autoDiscover := true
              host := []
              discoveryPort := udpPort
              file := Path.parse file
              remoteName := given [ascii "--name"] [] args }
    else
      (∃ error, outcome = .error (.thrown error) ∧
          Unacceptable port parallel discoveryPort error) ∨
        ∃ transferPort streams udpPort, parsePort port = .ok transferPort ∧
          parseParallel parallel = .ok streams ∧ parsePort discoveryPort = .ok udpPort ∧
          outcome = .ok
            { send := true
              host := host
              port := transferPort
              discoveryPort := udpPort
              parallel := streams
              file := Path.parse file
              remoteName := given [ascii "--name"] [] args }

/-- The front end delegates faithfully: what it accepts, the file-transfer tool refuses for a
number or carries out. -/
theorem delegation_faithful :
    (∀ home args options, parseReceive home args = .ok options →
        ReceivesAsAsked home args (parseArgs (receiveArguments options))) ∧
      ∀ args options, parseSend args = .ok options →
        SendsAsAsked args (parseArgs (sendArguments options)) := by
  refine ⟨fun home args options accepted => ?_, fun args options accepted => ?_⟩
  · rw [parseReceive_ok accepted]
    exact parseArgs_receiveArguments _
  · obtain ⟨file, isGiven, values⟩ := parseSend_ok accepted
    refine ⟨options.file, file, ?_⟩
    rw [values]
    split_ifs with noHost
    · exact parseArgs_sendArguments_auto noHost isGiven
    · exact parseArgs_sendArguments_host noHost isGiven

/-- A file and a host in any order, the host a second time, and a name that looks like a flag. -/
def flagNamed : List Bytes :=
  [ascii "--host", ascii "10.0.0.4", ascii "f", ascii "--name", ascii "--auto", ascii "--host",
    ascii "10.0.0.5"]

theorem flagNamed_delegation :
    parseReceive none [ascii "--no-advertise", ascii "--port", ascii "70000"] =
        .ok { port := ascii "70000", outputDir := dot, advertise := false } ∧
      parseSend flagNamed =
        .ok { file := ascii "f", host := ascii "10.0.0.5", remoteName := ascii "--auto" } ∧
      ReceivesAsAsked none [ascii "--no-advertise", ascii "--port", ascii "70000"]
        (parseArgs (receiveArguments
          { port := ascii "70000", outputDir := dot, advertise := false })) ∧
      SendsAsAsked flagNamed (parseArgs (sendArguments
        { file := ascii "f", host := ascii "10.0.0.5", remoteName := ascii "--auto" })) :=
  ⟨by decide, by decide, delegation_faithful.1 none _ _ (by decide),
    delegation_faithful.2 flagNamed _ (by decide)⟩

end Cli

end HyperLink
