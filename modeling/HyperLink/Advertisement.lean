/-
This file is the advertisement of a receiver: the checks and the port choice of
`PeerDiscoveryResponder::start`, the datagram it answers with, and the parser on
the searching side, from `src/peer_discovery.cpp`.

Encoder and parser are written separately, with a decimal printer and a
space-delimited reader, and the display name may hold spaces itself. What a
started responder sends is read back exactly, and the configuration that a
sender takes from it names exactly the ports on which the receiver listens.
-/

import HyperLink.Options

namespace HyperLink

/-! ### Decimal numbers -/

/-- The value of a digit sequence. -/
def decimalValue (digits : Bytes) : Nat :=
  digits.foldl (fun value digit => 10 * value + (digit.toNat - 48)) 0

def isDigit (character : UInt8) : Bool := 48 ≤ character && character ≤ 57

/-- `std::to_string` of an unsigned number. -/
def toDecimal (value : Nat) : Bytes :=
  (Nat.toDigits 10 value).map fun character => UInt8.ofNat character.toNat

def isDecimal (text : Bytes) : Bool := !text.isEmpty && text.all isDigit

/-- Both integer types that the source reads are 32 bits wide; `from_chars` refuses what does
not fit. -/
def parseDecimal (text : Bytes) : Option UInt32 :=
  if !isDecimal text then none
  else if decimalValue text < 2 ^ 32 then some (UInt32.ofNat (decimalValue text))
  else none

/-- A printed digit as a byte. -/
theorem toNat_printed {value : Nat} {letter : Char} (printed : letter ∈ Nat.toDigits 10 value) :
    (UInt8.ofNat letter.toNat).toNat = letter.toNat ∧ 48 ≤ letter.toNat ∧ letter.toNat ≤ 57 := by
  have digit := Nat.isDigit_of_mem_toDigits (by decide) (by decide) printed
  obtain ⟨low, high⟩ : 48 ≤ letter.toNat ∧ letter.toNat ≤ 57 := by
    simpa [Char.isDigit, UInt32.le_iff_toNat_le] using digit
  exact ⟨UInt8.toNat_ofNat_of_lt (Nat.lt_of_le_of_lt high (by decide)), low, high⟩

theorem isDigit_toDecimal {value : Nat} {character : UInt8} (member : character ∈ toDecimal value) :
    isDigit character = true := by
  obtain ⟨letter, printed, rfl⟩ := List.mem_map.mp member
  obtain ⟨same, low, high⟩ := toNat_printed printed
  simp only [isDigit, Bool.and_eq_true, decide_eq_true_eq, UInt8.le_iff_toNat_le, same]
  exact ⟨low, high⟩

theorem decimalValue_toDecimal (value : Nat) : decimalValue (toDecimal value) = value := by
  have fold : ∀ (letters : List Char) (start : Nat), (∀ letter ∈ letters,
      (UInt8.ofNat letter.toNat).toNat = letter.toNat) →
      (letters.map fun letter => UInt8.ofNat letter.toNat).foldl
        (fun value digit => 10 * value + (digit.toNat - 48)) start =
      Nat.ofDigitChars 10 letters start := by
    intro letters
    induction letters with
    | nil => exact fun _ _ => rfl
    | cons letter rest inductionHypothesis =>
      intro start bytes
      rw [List.forall_mem_cons] at bytes
      rw [List.map_cons, List.foldl_cons, inductionHypothesis _ bytes.2, bytes.1,
        Nat.ofDigitChars_cons]
      rfl
  rw [decimalValue, toDecimal, fold _ _ fun letter printed => (toNat_printed printed).1,
    Nat.ofDigitChars_ten_toDigits]

theorem toDecimal_ne_nil (value : Nat) : toDecimal value ≠ [] := by
  simp [toDecimal, Nat.toDigits_ne_nil]

/-- Printed numbers are read back. -/
theorem parseDecimal_toDecimal (value : UInt32) :
    parseDecimal (toDecimal value.toNat) = some value := by
  have decimal : isDecimal (toDecimal value.toNat) = true := by
    simpa [isDecimal, toDecimal_ne_nil] using fun character => isDigit_toDecimal
  have small := value.toNat_lt
  simp [parseDecimal, decimal, decimalValue_toDecimal, small]

/-! ### Reading up to a separator -/

def space : UInt8 := 0x20

def period : UInt8 := 0x2E

/-- What stands before the first separator and what stands behind it. -/
def cutAt (separator : UInt8) : Bytes → Option (Bytes × Bytes)
  | [] => none
  | character :: rest =>
      if character = separator then some ([], rest)
      else (cutAt separator rest).map fun cut => (character :: cut.1, cut.2)

theorem cutAt_append {separator : UInt8} {front : Bytes} (free : separator ∉ front) (rest : Bytes) :
    cutAt separator (front ++ separator :: rest) = some (front, rest) := by
  induction front with
  | nil => simp [cutAt]
  | cons character others inductionHypothesis =>
    rw [List.mem_cons, not_or] at free
    rw [List.cons_append, cutAt, if_neg (Ne.symm free.1), inductionHypothesis free.2]
    rfl

theorem cutAt_none {separator : UInt8} {text : Bytes} (free : separator ∉ text) :
    cutAt separator text = none := by
  induction text with
  | nil => rfl
  | cons character others inductionHypothesis =>
    rw [List.mem_cons, not_or] at free
    rw [cutAt, if_neg (Ne.symm free.1), inductionHypothesis free.2]
    rfl

/-- A printed number holds no separator. -/
theorem separator_free {separator : UInt8} (other : isDigit separator = false) (value : Nat) :
    separator ∉ toDecimal value := by
  intro member
  rw [isDigit_toDecimal member] at other
  cases other

/-! ### Addresses -/

/-- One part of a dotted address. -/
def parseOctet (part : Bytes) : Option Nat :=
  (parseDecimal part).bind fun value => if value > 255 then none else some value.toNat

/-- The loop of `parse_ipv4`, with the number of parts still to read. A separator must follow
every part but the last. -/
def parseOctets : Nat → Bytes → Option (List Nat)
  | 0, _ => some []
  | left + 1, rest =>
      match cutAt period rest with
      | none => if left = 0 then (parseOctet rest).map fun octet => [octet] else none
      | some (part, behind) =>
          if left = 0 then none
          else (parseOctet part).bind fun octet =>
            (parseOctets left behind).map fun octets => octet :: octets

def parseIpv4 (address : Bytes) : Option (List Nat) := parseOctets 4 address

/-- The text of an address, as the system prints it. -/
def dottedQuad (a b c d : UInt8) : Bytes :=
  toDecimal a.toNat ++ period :: (toDecimal b.toNat ++ period ::
    (toDecimal c.toNat ++ period :: toDecimal d.toNat))

theorem parseOctet_toDecimal (octet : UInt8) :
    parseOctet (toDecimal octet.toNat) = some octet.toNat := by
  have small := octet.toNat_lt
  have read := parseDecimal_toDecimal octet.toUInt32
  rw [UInt8.toNat_toUInt32] at read
  have fits : ¬ octet.toUInt32 > 255 := by
    rw [gt_iff_lt, UInt32.lt_iff_toNat_lt, UInt8.toNat_toUInt32, not_lt]
    exact Nat.le_of_lt_succ small
  rw [parseOctet, read, Option.bind_some, if_neg fits, UInt8.toNat_toUInt32]

theorem parseIpv4_dottedQuad (a b c d : UInt8) :
    parseIpv4 (dottedQuad a b c d) = some [a.toNat, b.toNat, c.toNat, d.toNat] := by
  have free : ∀ octet : UInt8, period ∉ toDecimal octet.toNat :=
    fun octet => separator_free (by decide) _
  simp [parseIpv4, dottedQuad, parseOctets, cutAt_append (free _), cutAt_none (free _),
    parseOctet_toDecimal]

/-! ### Peers -/

structure PeerEndpoint where
  host : Bytes
  transferPort : UInt16
  probePort : UInt16
  parallelStreams : UInt32
  deriving DecidableEq, Repr

/-- A receiver that answered. The rate is measured later. -/
structure DiscoveredPeer (Rate : Type) where
  endpoint : PeerEndpoint
  displayName : Bytes
  sourceAddress : Bytes
  measuredBytesPerSecond : Rate
  deriving DecidableEq, Repr

def kMaximumAdvertisementBytes : Nat := 512

def kAdvertisementPrefix : Bytes := ascii "HLINK_PEER_V2 "

/-- The fields of an advertisement behind its prefix: two ports, the number of streams and the
display name, which is all that is left. -/
def advertisementFields (fields : Bytes) : Option (Bytes × Bytes × Bytes × Bytes) := do
  let (transferPort, rest) ← cutAt space fields
  let (probePort, rest) ← cutAt space rest
  let (parallelStreams, displayName) ← cutAt space rest
  if displayName = [] then none else some (transferPort, probePort, parallelStreams, displayName)

/-- `parse_peer_advertisement_for_testing`. The ports are read as 32-bit numbers and cut to 16
bits after they are checked. -/
def parsePeerAdvertisement {Rate : Type} [Zero Rate] (message sourceAddress : Bytes) :
    Option (DiscoveredPeer Rate) :=
  if message.length > kMaximumAdvertisementBytes ∨ ¬ kAdvertisementPrefix <+: message ∨
      parseIpv4 sourceAddress = none then none
  else do
    let (transferText, probeText, streamsText, displayName) ←
      advertisementFields (message.drop kAdvertisementPrefix.length)
    let transferPort ← parseDecimal transferText
    let probePort ← parseDecimal probeText
    let parallelStreams ← parseDecimal streamsText
    if transferPort = 0 ∨ transferPort > 65535 ∨ probePort = 0 ∨ probePort > 65535 ∨
        parallelStreams = 0 then none
    else some {
      endpoint := {
        host := sourceAddress
        transferPort := transferPort.toUInt16
        probePort := probePort.toUInt16
        parallelStreams := parallelStreams }
      displayName := displayName
      sourceAddress := sourceAddress
      measuredBytesPerSecond := 0 }

/-! ### The responder -/

structure PeerDiscoveryResponderOptions where
  bindHost : Bytes := ascii "0.0.0.0"
  transferPort : UInt16 := 47790
  probePort : UInt16 := 47791
  discoveryPort : UInt16 := 47789
  parallelStreams : UInt32 := 1
  displayName : Bytes := ascii "hyperlink-peer"
  deriving DecidableEq, Repr

/-- The last port that the streams use, in 64 bits. -/
def lastTransferPort (options : PeerDiscoveryResponderOptions) : UInt64 :=
  options.transferPort.toUInt64 + options.parallelStreams.toUInt64 - 1

/-- The probe port, moved out of the range of the streams. -/
def selectProbePort (options : PeerDiscoveryResponderOptions) : Except Error UInt16 :=
  let last := lastTransferPort options
  if options.probePort ≥ options.transferPort ∧ options.probePort.toUInt64 ≤ last then
    if last < 65535 then .ok (last + 1).toUInt16
    else if options.transferPort > 1 then .ok (options.transferPort - 1)
    else .error (ascii "no probe port is available outside the transfer stream range")
  else .ok options.probePort

def makeAdvertisement (options : PeerDiscoveryResponderOptions) (probePort : UInt16) : Bytes :=
  kAdvertisementPrefix ++ toDecimal options.transferPort.toNat ++ [space] ++
    toDecimal probePort.toNat ++ [space] ++ toDecimal options.parallelStreams.toNat ++ [space] ++
    options.displayName

/-- `PeerDiscoveryResponder::start` up to its first socket: the probe port it selects and the
advertisement it will send, or the error it throws. -/
def PeerDiscoveryResponder.start (options : PeerDiscoveryResponderOptions) :
    Except Error (UInt16 × Bytes) :=
  if options.transferPort = 0 ∨ options.probePort = 0 ∨ options.discoveryPort = 0 ∨
      options.parallelStreams = 0 ∨ options.displayName = [] then
    .error (ascii "invalid peer discovery responder options")
  else if lastTransferPort options > 65535 then
    .error (ascii "transfer port plus parallel stream count exceeds 65535")
  else do
    let selectedProbePort ← selectProbePort options
    let advertisement := makeAdvertisement options selectedProbePort
    if advertisement.length > kMaximumAdvertisementBytes then
      .error (ascii "peer discovery advertisement exceeds 512 bytes")
    else .ok (selectedProbePort, advertisement)

/-- The responder that `run_receive` builds from its options. -/
def responderOptions (options : Options) : PeerDiscoveryResponderOptions where
  bindHost := options.host
  transferPort := options.port
  discoveryPort := options.discoveryPort
  parallelStreams := options.parallel

/-- What `run_send` takes from the selected peer, and its check on the ports. -/
def adoptPeer {Rate : Type} (options : Options) (receiver : DiscoveredPeer Rate) :
    Except Error Options :=
  if portRangeExceeds receiver.endpoint.transferPort receiver.endpoint.parallelStreams then
    .error (ascii "discovered peer port plus parallel stream count exceeds 65535")
  else .ok { options with
    host := receiver.endpoint.host
    port := receiver.endpoint.transferPort
    parallel := receiver.endpoint.parallelStreams }

/-! ### Ports -/

/-- The last port in 64 bits is the last port: the sum cannot wrap. -/
theorem toNat_lastPort (port : UInt16) {parallel : UInt32} (streams : parallel ≠ 0) :
    (port.toUInt64 + parallel.toUInt64 - 1).toNat = port.toNat + parallel.toNat - 1 := by
  have first := port.toNat_lt
  have count := parallel.toNat_lt
  have positive : 0 < parallel.toNat :=
    UInt32.lt_iff_toNat_lt.mp (UInt32.pos_iff_ne_zero.mpr streams)
  have sum : (port.toUInt64 + parallel.toUInt64).toNat = port.toNat + parallel.toNat := by
    rw [UInt64.toNat_add, UInt16.toNat_toUInt64, UInt32.toNat_toUInt64, Nat.mod_eq_of_lt (by omega)]
  have least : 1 ≤ port.toUInt64 + parallel.toUInt64 := by
    rw [UInt64.le_iff_toNat_le, sum]
    exact Nat.le_add_left_of_le positive
  rw [UInt64.toNat_sub_of_le _ _ least, sum]
  rfl

/-- A port lies in the range of the streams. -/
def StreamPort (options : PeerDiscoveryResponderOptions) (port : UInt16) : Prop :=
  options.transferPort.toNat ≤ port.toNat ∧
    port.toNat < options.transferPort.toNat + options.parallelStreams.toNat

/-- The choice of the probe port: the requested one if it is free, else the next port behind
the streams, else the one before them. It fails only if the streams take every port. -/
theorem selectProbePort_cases {options : PeerDiscoveryResponderOptions}
    (streams : options.parallelStreams ≠ 0) (transfer : options.transferPort ≠ 0)
    (fits : options.transferPort.toNat + options.parallelStreams.toNat ≤ 65536) :
    (¬ StreamPort options options.probePort ∧
        selectProbePort options = .ok options.probePort) ∨
      (StreamPort options options.probePort ∧ ∃ port, selectProbePort options = .ok port ∧
        port ≠ 0 ∧ ¬ StreamPort options port) ∨
      (options.transferPort = 1 ∧ options.parallelStreams = 65535 ∧
        StreamPort options options.probePort ∧ ∃ error, selectProbePort options = .error error) := by
  have last : (lastTransferPort options).toNat = _ := toNat_lastPort options.transferPort streams
  have positive : 0 < options.parallelStreams.toNat :=
    UInt32.lt_iff_toNat_lt.mp (UInt32.pos_iff_ne_zero.mpr streams)
  have first : 0 < options.transferPort.toNat :=
    UInt16.lt_iff_toNat_lt.mp (UInt16.pos_iff_ne_zero.mpr transfer)
  have inside : (options.probePort ≥ options.transferPort ∧
      options.probePort.toUInt64 ≤ lastTransferPort options) ↔
      StreamPort options options.probePort := by
    rw [ge_iff_le, UInt16.le_iff_toNat_le, UInt64.le_iff_toNat_le, UInt16.toNat_toUInt64, last,
      StreamPort]
    omega
  unfold selectProbePort
  simp only []
  by_cases taken : StreamPort options options.probePort
  · rw [if_pos (inside.mpr taken)]
    by_cases room : lastTransferPort options < 65535
    · rw [if_pos room]
      have below : (lastTransferPort options).toNat < 65535 := UInt64.lt_iff_toNat_lt.mp room
      have next : (lastTransferPort options + 1).toUInt16.toNat =
          options.transferPort.toNat + options.parallelStreams.toNat := by
        rw [UInt64.toNat_toUInt16, UInt64.toNat_add, last]
        simp only [UInt64.toNat_one]
        omega
      refine Or.inr (Or.inl ⟨taken, _, rfl, fun zero => ?_, fun inRange => ?_⟩)
      · rw [zero] at next
        simp at next
        omega
      · have beyond := inRange.2
        omega
    · rw [if_neg room]
      have full : options.transferPort.toNat + options.parallelStreams.toNat = 65536 := by
        rw [UInt64.lt_iff_toNat_lt, last] at room
        simp at room
        omega
      by_cases before : options.transferPort > 1
      · rw [if_pos before]
        have more : 1 < options.transferPort.toNat := UInt16.lt_iff_toNat_lt.mp before
        have previous : (options.transferPort - 1).toNat = options.transferPort.toNat - 1 :=
          UInt16.toNat_sub_of_le _ _ (UInt16.le_iff_toNat_le.mpr (by simp; omega))
        refine Or.inr (Or.inl ⟨taken, _, rfl, fun zero => ?_, fun inRange => ?_⟩)
        · rw [zero] at previous
          simp at previous
          omega
        · have low := inRange.1
          omega
      · rw [if_neg before]
        have only : options.transferPort.toNat = 1 := by
          rw [gt_iff_lt, UInt16.lt_iff_toNat_lt] at before
          simp at before
          omega
        refine Or.inr (Or.inr ⟨UInt16.toNat.inj only, UInt32.toNat.inj ?_, taken, _, rfl⟩)
        simp
        omega
  · rw [if_neg fun inRange => taken (inside.mp inRange)]
    exact Or.inl ⟨taken, rfl⟩

/-- What lets the first checks of `start` pass. -/
@[mk_iff startable_iff]
structure Startable (options : PeerDiscoveryResponderOptions) : Prop where
  transfer : options.transferPort ≠ 0
  probe : options.probePort ≠ 0
  discovery : options.discoveryPort ≠ 0
  streams : options.parallelStreams ≠ 0
  name : options.displayName ≠ []
  fits : options.transferPort.toNat + options.parallelStreams.toNat ≤ 65536

theorem lastTransferPort_exceeds {options : PeerDiscoveryResponderOptions}
    (streams : options.parallelStreams ≠ 0) : lastTransferPort options > 65535 ↔
      65536 < options.transferPort.toNat + options.parallelStreams.toNat := by
  have positive : 0 < options.parallelStreams.toNat :=
    UInt32.lt_iff_toNat_lt.mp (UInt32.pos_iff_ne_zero.mpr streams)
  have last : (lastTransferPort options).toNat = _ := toNat_lastPort options.transferPort streams
  rw [gt_iff_lt, UInt64.lt_iff_toNat_lt, last, show (65535 : UInt64).toNat = 65535 from rfl]
  omega

/-- `start` on options that pass the first checks. -/
theorem Startable.start {options : PeerDiscoveryResponderOptions} (startable : Startable options) :
    PeerDiscoveryResponder.start options = (selectProbePort options).bind fun port =>
      if (makeAdvertisement options port).length > kMaximumAdvertisementBytes then
        .error (ascii "peer discovery advertisement exceeds 512 bytes")
      else .ok (port, makeAdvertisement options port) := by
  obtain ⟨transfer, probe, discovery, streams, name, fits⟩ := startable
  have range : ¬ lastTransferPort options > 65535 := by
    rw [lastTransferPort_exceeds streams]
    omega
  rw [PeerDiscoveryResponder.start,
    if_neg (by simp only [not_or]; exact ⟨transfer, probe, discovery, streams, name⟩),
    if_neg range]
  rfl

/-- Otherwise `start` throws. -/
theorem startable_or_error (options : PeerDiscoveryResponderOptions) :
    Startable options ∨ ∃ error, PeerDiscoveryResponder.start options = .error error := by
  unfold PeerDiscoveryResponder.start
  split
  · exact Or.inr ⟨_, rfl⟩
  · rename_i present
    simp only [not_or] at present
    obtain ⟨transfer, probe, discovery, streams, name⟩ := present
    split
    · exact Or.inr ⟨_, rfl⟩
    · rename_i range
      rw [lastTransferPort_exceeds streams, not_lt] at range
      exact Or.inl ⟨transfer, probe, discovery, streams, name, range⟩

/-! ### The round trip -/

theorem advertisementFields_printed (transferPort probePort parallelStreams : Nat)
    {displayName : Bytes} (named : displayName ≠ []) :
    advertisementFields (toDecimal transferPort ++ space :: (toDecimal probePort ++ space ::
        (toDecimal parallelStreams ++ space :: displayName))) =
      some (toDecimal transferPort, toDecimal probePort, toDecimal parallelStreams,
        displayName) := by
  have free : ∀ value, space ∉ toDecimal value := fun value => separator_free (by decide) value
  simp [advertisementFields, cutAt_append (free _), named]

theorem parseDecimal_port (port : UInt16) :
    parseDecimal (toDecimal port.toNat) = some port.toUInt32 := by
  have read := parseDecimal_toDecimal port.toUInt32
  rwa [UInt16.toNat_toUInt32] at read

/-- A port is accepted as it was printed. -/
theorem port_accepted {port : UInt16} (nonzero : port ≠ 0) :
    ¬ (port.toUInt32 = 0 ∨ port.toUInt32 > 65535) := by
  have small := port.toNat_lt
  rintro (zero | large)
  · refine nonzero (UInt16.toNat.inj ?_)
    have same := congrArg UInt32.toNat zero
    rwa [UInt16.toNat_toUInt32] at same
  · rw [gt_iff_lt, UInt32.lt_iff_toNat_lt, UInt16.toNat_toUInt32] at large
    exact absurd large (Nat.not_lt.mpr (Nat.le_of_lt_succ small))

/-- What a started responder sends is read back exactly. -/
theorem parsePeerAdvertisement_made {Rate : Type} [Zero Rate]
    {options : PeerDiscoveryResponderOptions} (startable : Startable options) {probePort : UInt16}
    (probe : probePort ≠ 0)
    (short : (makeAdvertisement options probePort).length ≤ kMaximumAdvertisementBytes)
    {source : Bytes} (address : parseIpv4 source ≠ none) :
    parsePeerAdvertisement (makeAdvertisement options probePort) source =
      some (⟨⟨source, options.transferPort, probePort, options.parallelStreams⟩,
        options.displayName, source, 0⟩ : DiscoveredPeer Rate) := by
  have shape : makeAdvertisement options probePort = kAdvertisementPrefix ++
      (toDecimal options.transferPort.toNat ++ space :: (toDecimal probePort.toNat ++ space ::
        (toDecimal options.parallelStreams.toNat ++ space :: options.displayName))) := by
    simp [makeAdvertisement]
  have ports := port_accepted startable.transfer
  have probes := port_accepted probe
  rw [not_or] at ports probes
  rw [shape] at short ⊢
  unfold parsePeerAdvertisement
  rw [if_neg (by
    simp only [not_or, not_not]
    exact ⟨Nat.not_lt.mpr short, List.prefix_append _ _, address⟩), List.drop_left' rfl,
    advertisementFields_printed _ _ _ startable.name]
  simp [parseDecimal_port, parseDecimal_toDecimal, ports, probes, startable.streams]

/-! ### The configuration of the sender -/

/-- The ports of the streams do not wrap. -/
theorem toNat_streamPort {options : Options}
    (fits : options.port.toNat + options.parallel.toNat ≤ 65536) {stream : UInt32}
    (counted : stream < options.parallel) :
    (endpointForStream options stream).port.toNat = options.port.toNat + stream.toNat := by
  have below := UInt32.lt_iff_toNat_lt.mp counted
  simp only [endpointForStream]
  rw [UInt32.toNat_toUInt16, UInt32.toNat_add, UInt16.toNat_toUInt32]
  omega

theorem adoptPeer_startable {Rate : Type} {options : PeerDiscoveryResponderOptions}
    (startable : Startable options) (sender : Options) {peer : DiscoveredPeer Rate}
    (port : peer.endpoint.transferPort = options.transferPort)
    (streams : peer.endpoint.parallelStreams = options.parallelStreams) :
    adoptPeer sender peer = .ok { sender with
      host := peer.endpoint.host
      port := options.transferPort
      parallel := options.parallelStreams } := by
  have range : portRangeExceeds options.transferPort options.parallelStreams = false := by
    refine decide_eq_false ?_
    have large := lastTransferPort_exceeds startable.streams
    rw [lastTransferPort] at large
    rw [large]
    exact Nat.not_lt.mpr startable.fits
  unfold adoptPeer
  rw [port, streams, range]
  rfl

/-- The sender's streams connect to the ports on which the receiver listens, each to its
own. -/
structure SamePorts (sender receiver : Options) : Prop where
  parallel : sender.parallel = receiver.parallel
  noWrap : ∀ stream < sender.parallel,
    (endpointForStream sender stream).port.toNat = sender.port.toNat + stream.toNat
  distinct : ∀ first < sender.parallel, ∀ second < sender.parallel,
    (endpointForStream sender first).port = (endpointForStream sender second).port →
      first = second
  listened : ∀ stream < sender.parallel,
    (endpointForStream sender stream).port = (endpointForStream receiver stream).port

theorem samePorts {sender receiver : Options} (port : sender.port = receiver.port)
    (parallel : sender.parallel = receiver.parallel)
    (fits : sender.port.toNat + sender.parallel.toNat ≤ 65536) : SamePorts sender receiver where
  parallel := parallel
  noWrap _ counted := toNat_streamPort fits counted
  distinct first inFirst second inSecond same := by
    have numbers := congrArg UInt16.toNat same
    rw [toNat_streamPort fits inFirst, toNat_streamPort fits inSecond] at numbers
    exact UInt32.toNat.inj (Nat.add_left_cancel numbers)
  listened _ _ := by simp only [endpointForStream, port]

/-- The selected port is free, and there is none exactly if the streams take every port. -/
theorem selectProbePort_ok {options : PeerDiscoveryResponderOptions}
    (startable : Startable options) {port : UInt16}
    (selected : selectProbePort options = .ok port) :
    port ≠ 0 ∧ (¬ StreamPort options options.probePort → port = options.probePort) ∧
      ¬ StreamPort options port := by
  obtain ⟨free, fine⟩ | ⟨taken, other, fine, nonzero, free⟩ | ⟨-, -, -, _, refused⟩ :=
    selectProbePort_cases startable.streams startable.transfer startable.fits
  · rw [selected] at fine
    cases fine
    exact ⟨startable.probe, fun _ => rfl, free⟩
  · rw [selected] at fine
    cases fine
    exact ⟨nonzero, fun never => absurd taken never, free⟩
  · rw [selected] at refused
    cases refused

theorem selectProbePort_error_iff {options : PeerDiscoveryResponderOptions}
    (startable : Startable options) :
    (∃ error, selectProbePort options = .error error) ↔
      options.transferPort = 1 ∧ options.parallelStreams = 65535 := by
  refine ⟨fun ⟨error, refused⟩ => ?_, fun ⟨one, all⟩ => ?_⟩
  · obtain ⟨-, fine⟩ | ⟨-, _, fine, -⟩ | ⟨one, all, -⟩ :=
      selectProbePort_cases startable.streams startable.transfer startable.fits
    · rw [refused] at fine
      cases fine
    · rw [refused] at fine
      cases fine
    · exact ⟨one, all⟩
  · cases selected : selectProbePort options with
    | error error => exact ⟨error, rfl⟩
    | ok port =>
      obtain ⟨nonzero, -, free⟩ := selectProbePort_ok startable selected
      have positive : 0 < port.toNat :=
        UInt16.lt_iff_toNat_lt.mp (UInt16.pos_iff_ne_zero.mpr nonzero)
      have bound := port.toNat_lt
      refine absurd ?_ free
      rw [StreamPort, one, all]
      simp
      omega

theorem start_error_iff (options : PeerDiscoveryResponderOptions) :
    (∃ error, PeerDiscoveryResponder.start options = .error error) ↔
      ¬ Startable options ∨ (options.transferPort = 1 ∧ options.parallelStreams = 65535) ∨
        ∃ port, selectProbePort options = .ok port ∧
          512 < (makeAdvertisement options port).length := by
  by_cases startable : Startable options
  swap
  · exact iff_of_true ((startable_or_error options).resolve_left startable) (Or.inl startable)
  rw [startable.start, or_iff_right (not_not.mpr startable),
    ← selectProbePort_error_iff startable]
  cases selectProbePort options with
  | error error => exact iff_of_true ⟨error, rfl⟩ (Or.inl ⟨error, rfl⟩)
  | ok port =>
    by_cases long : (makeAdvertisement options port).length > kMaximumAdvertisementBytes
    · rw [Except.bind, if_pos long]
      exact iff_of_true ⟨_, rfl⟩ (Or.inr ⟨port, rfl, long⟩)
    · rw [Except.bind, if_neg long]
      refine iff_of_false (fun ⟨_, never⟩ => by cases never) ?_
      rintro (⟨_, never⟩ | ⟨other, same, longer⟩)
      · cases never
      · cases same
        exact long longer

/-- What `start` returns. -/
theorem start_ok {options : PeerDiscoveryResponderOptions} {probePort : UInt16}
    {advertisement : Bytes}
    (started : PeerDiscoveryResponder.start options = .ok (probePort, advertisement)) :
    Startable options ∧ selectProbePort options = .ok probePort ∧
      advertisement = makeAdvertisement options probePort ∧
      (makeAdvertisement options probePort).length ≤ kMaximumAdvertisementBytes := by
  obtain startable | ⟨error, refused⟩ := startable_or_error options
  swap
  · rw [started] at refused
    cases refused
  rw [startable.start] at started
  cases selected : selectProbePort options with
  | error error =>
    rw [selected] at started
    cases started
  | ok port =>
    rw [selected, Except.bind] at started
    split at started
    · cases started
    · rename_i short
      cases started
      exact ⟨startable, rfl, rfl, Nat.le_of_not_lt short⟩

/-- Discovery leads to a matching transfer. `start` throws before it opens a socket exactly if
an option is zero or empty, the streams do not fit below port 65536, they leave no port for the
probe, or the advertisement is too long. Otherwise its advertisement, received from any address,
is read back as what was configured; the probe port exists, is not a port of a stream, and is
the requested one unless that is; the port check of `run_send` accepts the peer; and the ports
of the sender's streams are different, do not wrap, and are those of the receiver's. -/
theorem discovery_matches {Rate : Type} [Zero Rate] (options : PeerDiscoveryResponderOptions) :
    ((∃ error, PeerDiscoveryResponder.start options = .error error) ↔
      options.transferPort = 0 ∨ options.probePort = 0 ∨ options.discoveryPort = 0 ∨
        options.parallelStreams = 0 ∨ options.displayName = [] ∨
        65536 < options.transferPort.toNat + options.parallelStreams.toNat ∨
        (options.transferPort = 1 ∧ options.parallelStreams = 65535) ∨
        ∃ port, selectProbePort options = .ok port ∧
          512 < (makeAdvertisement options port).length) ∧
    ∀ probePort advertisement,
      PeerDiscoveryResponder.start options = .ok (probePort, advertisement) →
      (1 ≤ probePort.toNat ∧ probePort.toNat ≤ 65535) ∧
      (¬ StreamPort options options.probePort → probePort = options.probePort) ∧
      ¬ StreamPort options probePort ∧
      ∀ a b c d : UInt8, ∃ peer : DiscoveredPeer Rate,
        parsePeerAdvertisement advertisement (dottedQuad a b c d) = some peer ∧
        peer.endpoint = ⟨dottedQuad a b c d, options.transferPort, probePort,
          options.parallelStreams⟩ ∧
        peer.displayName = options.displayName ∧ peer.sourceAddress = dottedQuad a b c d ∧
        ∀ sender receiver : Options, receiver.port = options.transferPort →
          receiver.parallel = options.parallelStreams →
          ∃ effective, adoptPeer sender peer = .ok effective ∧
            effective.host = dottedQuad a b c d ∧ SamePorts effective receiver := by
  refine ⟨?_, fun probePort advertisement started => ?_⟩
  · have refused : ¬ Startable options ↔ options.transferPort = 0 ∨ options.probePort = 0 ∨
        options.discoveryPort = 0 ∨ options.parallelStreams = 0 ∨ options.displayName = [] ∨
        65536 < options.transferPort.toNat + options.parallelStreams.toNat := by
      rw [startable_iff]
      simp only [not_and_or, not_not, ne_eq, Nat.not_le]
    rw [start_error_iff, refused]
    simp only [or_assoc]
  · obtain ⟨startable, selected, rfl, short⟩ := start_ok started
    obtain ⟨nonzero, requested, free⟩ := selectProbePort_ok startable selected
    have positive : 0 < probePort.toNat :=
      UInt16.lt_iff_toNat_lt.mp (UInt16.pos_iff_ne_zero.mpr nonzero)
    refine ⟨⟨positive, Nat.le_of_lt_succ probePort.toNat_lt⟩, requested, free, fun a b c d => ?_⟩
    have address : parseIpv4 (dottedQuad a b c d) ≠ none := by simp [parseIpv4_dottedQuad]
    refine ⟨_, parsePeerAdvertisement_made startable nonzero short address, rfl, rfl, rfl, ?_⟩
    intro sender receiver port parallel
    refine ⟨_, adoptPeer_startable startable sender rfl rfl, rfl, ?_⟩
    exact samePorts port.symm parallel.symm startable.fits

/-- A receiver with three streams, whose requested probe port is one of theirs. -/
theorem discovery_matches_threeStreams :
    ∃ peer : DiscoveredPeer Nat,
      parsePeerAdvertisement (ascii "HLINK_PEER_V2 47790 47793 3 hyperlink-peer")
        (ascii "10.0.0.7") = some peer ∧ peer.endpoint.probePort = 47793 ∧
      ∃ effective, adoptPeer {} peer = .ok effective ∧ SamePorts effective { parallel := 3 } := by
  obtain ⟨-, -, -, read⟩ := (@discovery_matches Nat _ (responderOptions { parallel := 3 })).2 47793
    (ascii "HLINK_PEER_V2 47790 47793 3 hyperlink-peer") (by decide +kernel)
  obtain ⟨peer, parsed, endpoint, -, -, adopted⟩ := read 10 0 0 7
  obtain ⟨effective, accepted, -, ports⟩ := adopted {} { parallel := 3 } rfl rfl
  exact ⟨peer, parsed, by rw [endpoint], effective, accepted, ports⟩

end HyperLink
