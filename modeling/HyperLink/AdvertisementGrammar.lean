/-
This file is about the advertisements a searching sender accepts. A datagram is
received into a buffer one byte longer than the limit, so that a longer one is
seen to be too long and dropped, and what is left is parsed field by field. The
parser accepts exactly the texts of the grammar: the prefix, three decimal
numbers in their ranges and a display name, each behind a single space, from a
source that is a dotted address.
-/

import HyperLink.Advertisement

namespace HyperLink

def discoveryDatagramWithinLimit (receivedBytes : Nat) : Bool :=
  receivedBytes ≤ kMaximumAdvertisementBytes

/-- One round of `receive_discovery_replies`: the system fills the buffer with what fits of the
datagram. -/
def receiveReply (datagram : Bytes) : Option Bytes :=
  let received := datagram.take (kMaximumAdvertisementBytes + 1)
  if received.length > 0 ∧ discoveryDatagramWithinLimit received.length then some received else none

/-- A datagram from this source, received and parsed. -/
def receiveAdvertisement {Rate : Type} [Zero Rate] (datagram sourceAddress : Bytes) :
    Option (DiscoveredPeer Rate) :=
  (receiveReply datagram).bind fun message => parsePeerAdvertisement message sourceAddress

/-! ### The grammar -/

/-- A sequence of digits, leading zeros allowed, with a value in this range. -/
structure Number (low high : Nat) (text : Bytes) : Prop where
  some : text ≠ []
  digits : ∀ character ∈ text, isDigit character = true
  low : low ≤ decimalValue text
  high : decimalValue text ≤ high

/-- Four octets between periods. -/
def FourOctets (source : Bytes) : Prop :=
  ∃ a b c d, source = a ++ period :: (b ++ period :: (c ++ period :: d)) ∧
    Number 0 255 a ∧ Number 0 255 b ∧ Number 0 255 c ∧ Number 0 255 d

/-! ### The readers -/

theorem cutAt_eq_some_iff {separator : UInt8} {text front back : Bytes} :
    cutAt separator text = some (front, back) ↔
      text = front ++ separator :: back ∧ separator ∉ front := by
  constructor
  · intro cut
    induction text generalizing front with
    | nil => cases cut
    | cons character rest inductionHypothesis =>
      rw [cutAt] at cut
      split at cut
      · rename_i same
        cases cut
        exact ⟨by rw [same]; rfl, List.not_mem_nil⟩
      · rename_i other
        obtain ⟨later, cutLater, same⟩ := Option.map_eq_some_iff.mp cut
        cases same
        obtain ⟨whole, free⟩ := inductionHypothesis cutLater
        refine ⟨by rw [whole]; rfl, ?_⟩
        rw [List.mem_cons, not_or]
        exact ⟨Ne.symm other, free⟩
  · rintro ⟨rfl, free⟩
    exact cutAt_append free back

theorem Number.free {low high : Nat} {text : Bytes} (number : Number low high text)
    {separator : UInt8} (other : isDigit separator = false) : separator ∉ text := by
  intro member
  rw [number.digits separator member] at other
  cases other

/-- What is read as a number: a sequence of digits whose value fits into 32 bits. -/
theorem parseDecimal_eq_some_iff {text : Bytes} {value : UInt32} :
    parseDecimal text = some value ↔
      Number 0 (2 ^ 32 - 1) text ∧ decimalValue text = value.toNat := by
  have decimal : isDecimal text = true ↔
      text ≠ [] ∧ ∀ character ∈ text, isDigit character = true := by
    simp [isDecimal]
  unfold parseDecimal
  by_cases isNumber : isDecimal text = true
  · rw [if_neg (by simp [isNumber])]
    obtain ⟨nonempty, digits⟩ := decimal.mp isNumber
    by_cases fits : decimalValue text < 2 ^ 32
    · rw [if_pos fits, Option.some.injEq, ← UInt32.toNat_inj, UInt32.toNat_ofNat_of_lt' fits]
      have number : Number 0 (2 ^ 32 - 1) text :=
        ⟨nonempty, digits, Nat.zero_le _, Nat.le_pred_of_lt fits⟩
      exact ⟨fun same => ⟨number, same⟩, fun parsed => parsed.2⟩
    · rw [if_neg fits]
      refine iff_of_false (fun read => by cases read) fun parsed => fits ?_
      exact Nat.lt_of_le_of_lt parsed.1.high (by decide)
  · rw [if_pos (by simp [isNumber])]
    refine iff_of_false (fun read => by cases read) fun parsed => isNumber ?_
    exact decimal.mpr ⟨parsed.1.some, parsed.1.digits⟩

theorem parseOctet_isSome_iff {part : Bytes} :
    (∃ octet, parseOctet part = some octet) ↔ Number 0 255 part := by
  unfold parseOctet
  constructor
  · rintro ⟨octet, read⟩
    obtain ⟨value, parsed, checked⟩ := Option.bind_eq_some_iff.mp read
    obtain ⟨number, same⟩ := parseDecimal_eq_some_iff.mp parsed
    split at checked
    · cases checked
    · rename_i fits
      rw [gt_iff_lt, UInt32.lt_iff_toNat_lt, not_lt] at fits
      exact ⟨number.some, number.digits, number.low, same ▸ fits⟩
  · intro number
    have fits : decimalValue part < 2 ^ 32 := Nat.lt_of_le_of_lt number.high (by decide)
    have parsed : parseDecimal part = some (UInt32.ofNat (decimalValue part)) := by
      refine parseDecimal_eq_some_iff.mpr ⟨⟨number.some, number.digits, number.low, ?_⟩, ?_⟩
      · exact Nat.le_pred_of_lt fits
      · rw [UInt32.toNat_ofNat_of_lt' fits]
    have small : ¬ UInt32.ofNat (decimalValue part) > 255 := by
      rw [gt_iff_lt, UInt32.lt_iff_toNat_lt, not_lt, UInt32.toNat_ofNat_of_lt' fits]
      exact number.high
    refine ⟨(UInt32.ofNat (decimalValue part)).toNat, ?_⟩
    rw [parsed, Option.bind_some, if_neg small]

/-- Octets between periods, with the number of periods. -/
def Dotted : Nat → Bytes → Prop
  | 0, text => Number 0 255 text
  | count + 1, text => ∃ part rest, text = part ++ period :: rest ∧ Number 0 255 part ∧
      Dotted count rest

theorem parseOctets_isSome_iff (count : Nat) (text : Bytes) :
    (∃ octets, parseOctets (count + 1) text = some octets) ↔ Dotted count text := by
  induction count generalizing text with
  | zero =>
    rw [Dotted, ← parseOctet_isSome_iff, parseOctets]
    cases cut : cutAt period text with
    | none => simp
    | some pair =>
      obtain ⟨whole, -⟩ := cutAt_eq_some_iff.mp cut
      simp only [if_true, reduceCtorEq, exists_false, false_iff]
      intro read
      have free : period ∉ text := (parseOctet_isSome_iff.mp read).free rfl
      refine free ?_
      rw [whole]
      exact List.mem_append_right _ List.mem_cons_self
  | succ count inductionHypothesis =>
    rw [Dotted, parseOctets]
    cases cut : cutAt period text with
    | none =>
      simp only [Nat.succ_ne_zero, if_false, reduceCtorEq, exists_false, false_iff]
      rintro ⟨part, rest, rfl, number, -⟩
      rw [cutAt_append (number.free rfl)] at cut
      cases cut
    | some pair =>
      obtain ⟨part, rest⟩ := pair
      obtain ⟨whole, free⟩ := cutAt_eq_some_iff.mp cut
      simp only [Nat.succ_ne_zero, if_false]
      constructor
      · rintro ⟨octets, read⟩
        obtain ⟨octet, first, others⟩ := Option.bind_eq_some_iff.mp read
        obtain ⟨later, parsed, -⟩ := Option.map_eq_some_iff.mp others
        exact ⟨part, rest, whole, parseOctet_isSome_iff.mp ⟨octet, first⟩,
          (inductionHypothesis rest).mp ⟨later, parsed⟩⟩
      · rintro ⟨front, back, same, number, dotted⟩
        rw [same, cutAt_append (number.free rfl)] at cut
        cases cut
        obtain ⟨octet, first⟩ := parseOctet_isSome_iff.mpr number
        obtain ⟨later, parsed⟩ := (inductionHypothesis rest).mpr dotted
        exact ⟨octet :: later, by rw [first, parsed]; rfl⟩

/-- The addresses that are parsed. -/
theorem parseIpv4_isSome_iff (source : Bytes) : parseIpv4 source ≠ none ↔ FourOctets source := by
  rw [Option.ne_none_iff_exists', parseIpv4, parseOctets_isSome_iff]
  constructor
  · rintro ⟨a, _, rfl, first, b, _, rfl, second, c, d, rfl, third, fourth⟩
    exact ⟨a, b, c, d, rfl, first, second, third, fourth⟩
  · rintro ⟨a, b, c, d, rfl, first, second, third, fourth⟩
    exact ⟨a, _, rfl, first, b, _, rfl, second, c, d, rfl, third, fourth⟩

theorem advertisementFields_eq_some_iff {fields transferText probeText streamsText name : Bytes} :
    advertisementFields fields = some (transferText, probeText, streamsText, name) ↔
      fields = transferText ++ space :: (probeText ++ space :: (streamsText ++ space :: name)) ∧
        space ∉ transferText ∧ space ∉ probeText ∧ space ∉ streamsText ∧ name ≠ [] := by
  unfold advertisementFields
  constructor
  · intro read
    obtain ⟨⟨first, rest⟩, cutFirst, read⟩ := Option.bind_eq_some_iff.mp read
    obtain ⟨⟨second, more⟩, cutSecond, read⟩ := Option.bind_eq_some_iff.mp read
    obtain ⟨⟨third, last⟩, cutThird, read⟩ := Option.bind_eq_some_iff.mp read
    obtain ⟨wholeFirst, freeFirst⟩ := cutAt_eq_some_iff.mp cutFirst
    obtain ⟨wholeSecond, freeSecond⟩ := cutAt_eq_some_iff.mp cutSecond
    obtain ⟨wholeThird, freeThird⟩ := cutAt_eq_some_iff.mp cutThird
    simp only [] at read
    split at read
    · cases read
    · rename_i named
      cases read
      exact ⟨by rw [wholeFirst, wholeSecond, wholeThird], freeFirst, freeSecond, freeThird, named⟩
  · rintro ⟨rfl, freeFirst, freeSecond, freeThird, named⟩
    simp [cutAt_append freeFirst, cutAt_append freeSecond, cutAt_append freeThird, named]

/-! ### What is accepted -/

/-- A datagram within the limit is received as it is; a longer or an empty one is dropped. -/
theorem receiveReply_eq_some_iff {datagram message : Bytes} :
    receiveReply datagram = some message ↔
      message = datagram ∧ datagram ≠ [] ∧ datagram.length ≤ kMaximumAdvertisementBytes := by
  unfold receiveReply
  simp only [discoveryDatagramWithinLimit, decide_eq_true_eq, List.length_take]
  by_cases short : datagram.length ≤ kMaximumAdvertisementBytes
  · rw [Nat.min_eq_right (by omega), List.take_of_length_le (by omega)]
    by_cases empty : datagram = []
    · simp [empty]
    · rw [if_pos ⟨List.length_pos_iff.mpr empty, short⟩]
      exact ⟨fun same => ⟨(Option.some.inj same).symm, empty, short⟩, fun same => by rw [same.1]⟩
  · rw [if_neg (by omega)]
    exact ⟨fun dropped => (by cases dropped), fun ⟨_, _, small⟩ => absurd small short⟩

/-- The values that a peer carries, from the texts of its fields. -/
structure Carries {Rate : Type} [Zero Rate] (source transferText probeText streamsText name : Bytes)
    (peer : DiscoveredPeer Rate) : Prop where
  host : peer.endpoint.host = source
  transferPort : peer.endpoint.transferPort.toNat = decimalValue transferText
  probePort : peer.endpoint.probePort.toNat = decimalValue probeText
  parallelStreams : peer.endpoint.parallelStreams.toNat = decimalValue streamsText
  displayName : peer.displayName = name
  sourceAddress : peer.sourceAddress = source
  measured : peer.measuredBytesPerSecond = 0

/-- The fields of the grammar and the values that are checked. -/
theorem checkedPort_iff {text : Bytes} {value : UInt32} :
    (parseDecimal text = some value ∧ ¬ (value = 0 ∨ value > 65535)) ↔
      Number 1 65535 text ∧ decimalValue text = value.toNat := by
  rw [parseDecimal_eq_some_iff, not_or, gt_iff_lt, UInt32.lt_iff_toNat_lt, ← UInt32.toNat_inj]
  constructor
  · rintro ⟨⟨number, same⟩, positive, fits⟩
    refine ⟨⟨number.some, number.digits, ?_, ?_⟩, same⟩
    · rw [same]
      exact Nat.pos_of_ne_zero positive
    · rw [same]
      exact Nat.le_of_not_lt fits
  · rintro ⟨number, same⟩
    have low := number.low
    have high := number.high
    rw [same] at low high
    refine ⟨⟨⟨number.some, number.digits, Nat.zero_le _, ?_⟩, same⟩, ?_, ?_⟩
    · rw [same]
      exact high.trans (by decide)
    · exact Nat.ne_of_gt low
    · exact Nat.not_lt.mpr high

theorem checkedStreams_iff {text : Bytes} {value : UInt32} :
    (parseDecimal text = some value ∧ value ≠ 0) ↔
      Number 1 (2 ^ 32 - 1) text ∧ decimalValue text = value.toNat := by
  rw [parseDecimal_eq_some_iff, ne_eq, ← UInt32.toNat_inj]
  constructor
  · rintro ⟨⟨number, same⟩, positive⟩
    refine ⟨⟨number.some, number.digits, ?_, number.high⟩, same⟩
    rw [same]
    exact Nat.pos_of_ne_zero positive
  · rintro ⟨number, same⟩
    have low := number.low
    rw [same] at low
    exact ⟨⟨⟨number.some, number.digits, Nat.zero_le _, number.high⟩, same⟩, Nat.ne_of_gt low⟩

section accepted

variable {Rate : Type} [Zero Rate]

theorem toNat_toUInt16_of_number {text : Bytes} {value : UInt32} (number : Number 1 65535 text)
    (same : decimalValue text = value.toNat) : value.toUInt16.toNat = decimalValue text := by
  have high := number.high
  rw [UInt32.toNat_toUInt16, same]
  exact Nat.mod_eq_of_lt (by omega)

/-- What the parser makes of its fields. -/
theorem parsePeerAdvertisement_eq_some_iff (message source : Bytes)
    (peer : DiscoveredPeer Rate) :
    parsePeerAdvertisement message source = some peer ↔
      message.length ≤ kMaximumAdvertisementBytes ∧ FourOctets source ∧
        ∃ transferText probeText streamsText name,
          message = kAdvertisementPrefix ++ (transferText ++ space :: (probeText ++ space ::
            (streamsText ++ space :: name))) ∧
          Number 1 65535 transferText ∧ Number 1 65535 probeText ∧
          Number 1 (2 ^ 32 - 1) streamsText ∧ name ≠ [] ∧
          Carries source transferText probeText streamsText name peer := by
  unfold parsePeerAdvertisement
  constructor
  · intro parsed
    split at parsed
    · cases parsed
    · rename_i accepted
      rw [not_or, not_or, not_not] at accepted
      obtain ⟨short, ⟨fields, whole⟩, address⟩ := accepted
      obtain ⟨⟨transferText, probeText, streamsText, name⟩, cut, parsed⟩ :=
        Option.bind_eq_some_iff.mp parsed
      obtain ⟨transferPort, transferRead, parsed⟩ := Option.bind_eq_some_iff.mp parsed
      obtain ⟨probePort, probeRead, parsed⟩ := Option.bind_eq_some_iff.mp parsed
      obtain ⟨parallelStreams, streamsRead, parsed⟩ := Option.bind_eq_some_iff.mp parsed
      split at parsed
      · cases parsed
      · rename_i inRange
        rw [← whole, List.drop_left] at cut
        obtain ⟨rfl, -, -, -, named⟩ := advertisementFields_eq_some_iff.mp cut
        obtain ⟨transfer, transferValue⟩ := checkedPort_iff.mp
          ⟨transferRead, fun bad => inRange (by tauto)⟩
        obtain ⟨probe, probeValue⟩ := checkedPort_iff.mp
          ⟨probeRead, fun bad => inRange (by tauto)⟩
        obtain ⟨streams, streamsValue⟩ := checkedStreams_iff.mp
          ⟨streamsRead, fun bad => inRange (by tauto)⟩
        refine ⟨Nat.le_of_not_lt short, (parseIpv4_isSome_iff source).mp address, transferText,
          probeText, streamsText, name, whole.symm, transfer, probe, streams, named, ?_⟩
        cases parsed
        exact ⟨rfl, toNat_toUInt16_of_number transfer transferValue,
          toNat_toUInt16_of_number probe probeValue, streamsValue.symm, rfl, rfl, rfl⟩
  · rintro ⟨short, address, transferText, probeText, streamsText, name, whole, transfer, probe,
      streams, named, carries⟩
    have value : ∀ {low high : Nat} {text : Bytes}, Number low high text → high < 2 ^ 32 →
        decimalValue text = (UInt32.ofNat (decimalValue text)).toNat := by
      intro low high text number bound
      exact (UInt32.toNat_ofNat_of_lt' (Nat.lt_of_le_of_lt number.high bound)).symm
    have transferValue := value transfer (by decide)
    have probeValue := value probe (by decide)
    have streamsValue := value streams (by decide)
    obtain ⟨transferRead, transferRange⟩ := checkedPort_iff.mpr ⟨transfer, transferValue⟩
    obtain ⟨probeRead, probeRange⟩ := checkedPort_iff.mpr ⟨probe, probeValue⟩
    obtain ⟨streamsRead, streamsRange⟩ := checkedStreams_iff.mpr ⟨streams, streamsValue⟩
    have cut : advertisementFields (message.drop kAdvertisementPrefix.length) =
        some (transferText, probeText, streamsText, name) := by
      rw [whole, List.drop_left]
      exact advertisementFields_eq_some_iff.mpr
        ⟨rfl, transfer.free rfl, probe.free rfl, streams.free rfl, named⟩
    have starts : kAdvertisementPrefix <+: message := by
      rw [whole]
      exact List.prefix_append _ _
    rw [if_neg (by
        rw [not_or, not_or, not_not]
        exact ⟨Nat.not_lt.mpr short, starts, (parseIpv4_isSome_iff source).mpr address⟩),
      cut]
    simp only [Option.bind_eq_bind, Option.bind_some, transferRead, probeRead, streamsRead]
    rw [if_neg (by tauto)]
    obtain ⟨⟨host, transferPort, probePort, parallelStreams⟩, displayName, sourceAddress, rate⟩ :=
      peer
    obtain ⟨sameHost, transferSame, probeSame, streamsSame, sameName, sameSource, sameRate⟩ :=
      carries
    simp only [Option.some.injEq, DiscoveredPeer.mk.injEq, PeerEndpoint.mk.injEq,
      ← UInt16.toNat_inj, ← UInt32.toNat_inj]
    exact ⟨⟨sameHost.symm, (toNat_toUInt16_of_number transfer transferValue).trans transferSame.symm,
      (toNat_toUInt16_of_number probe probeValue).trans probeSame.symm,
      streamsValue.symm.trans streamsSame.symm⟩, sameName.symm, sameSource.symm, sameRate.symm⟩

/-- A datagram of any length from any source gives a peer exactly if it is within the limit
and in the grammar, and the peer then carries the values of its fields and the source as its
host. -/
theorem receiveAdvertisement_eq_some_iff (datagram source : Bytes) (peer : DiscoveredPeer Rate) :
    receiveAdvertisement datagram source = some peer ↔
      datagram.length ≤ 512 ∧ FourOctets source ∧
        ∃ transferText probeText streamsText name,
          datagram = ascii "HLINK_PEER_V2 " ++ (transferText ++ space :: (probeText ++ space ::
            (streamsText ++ space :: name))) ∧
          Number 1 65535 transferText ∧ Number 1 65535 probeText ∧
          Number 1 (2 ^ 32 - 1) streamsText ∧ name ≠ [] ∧
          Carries source transferText probeText streamsText name peer := by
  unfold receiveAdvertisement
  constructor
  · intro accepted
    obtain ⟨message, received, parsed⟩ := Option.bind_eq_some_iff.mp accepted
    obtain ⟨rfl, -, -⟩ := receiveReply_eq_some_iff.mp received
    exact (parsePeerAdvertisement_eq_some_iff _ _ _).mp parsed
  · intro grammar
    have parsed := (parsePeerAdvertisement_eq_some_iff datagram source peer).mpr grammar
    obtain ⟨short, -, transferText, _, _, _, whole, -⟩ := grammar
    have more : datagram ≠ [] := by
      rw [whole]
      exact List.append_ne_nil_of_left_ne_nil (by decide) _
    rw [receiveReply_eq_some_iff.mpr ⟨rfl, more, short⟩, Option.bind_some]
    exact parsed

end accepted

end HyperLink
