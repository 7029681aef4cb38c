/-
This file is about the comparison by which `select_fastest_peer_for_testing` of
`src/peer_discovery.cpp` sorts peers of any kind, not only those that a reply
was parsed to.

Peers with the greatest rate come first, and among peers of one rate two
addresses that parse are compared as numbers. If one of the two does not parse,
their texts are compared. The texts and the numbers of addresses can disagree,
and then an address that does not parse and whose text is between two others
makes a circle. Nothing else does.
-/

import HyperLink.PeerSelection

namespace HyperLink

open Selection

variable {Rate : Type}

/-- Two peers with the same texts and ports have the same address. -/
theorem parseIpv4_of_endpointKey {left right : DiscoveredPeer Rate}
    (same : endpointKey left = endpointKey right) :
    parseIpv4 left.sourceAddress = parseIpv4 right.sourceAddress := by
  obtain ⟨texts, -⟩ := Prod.mk.inj (toLex.injective same)
  rw [text_injective texts]

theorem endpointPrecedes_eq (left right : DiscoveredPeer Rate) :
    endpointPrecedes left right = decide (endpointKey left < endpointKey right) := by
  rw [Bool.eq_iff_iff, endpointPrecedes_iff, decide_eq_true_eq]

/-- Addresses are compared by number where both parse, otherwise by text and ports. -/
theorem sourceAddressPrecedes_eq_mixed : sourceAddressPrecedes =
    mixed (fun peer : DiscoveredPeer Rate => parseIpv4 peer.sourceAddress) endpointKey := by
  funext left right
  unfold sourceAddressPrecedes mixed
  rw [endpointPrecedes_eq]
  beta_reduce
  cases parseIpv4 left.sourceAddress with
  | none => rfl
  | some leftAddress =>
    cases parseIpv4 right.sourceAddress with
    | none => rfl
    | some rightAddress =>
      by_cases same : leftAddress = rightAddress
      · simp [same]
      · simp [same]

theorem fasterThan_eq_grouped [LinearOrder Rate] : fasterThan =
    grouped (fun peer : DiscoveredPeer Rate => peer.measuredBytesPerSecond)
      sourceAddressPrecedes :=
  rfl

/-- Three peers of one rate. The numbers of the low and the high address are in this order, the
third address does not parse, and its text is behind the high one's and before the low one's. -/
structure AddressCircle (low high other : DiscoveredPeer Rate) : Prop where
  sameRate : low.measuredBytesPerSecond = high.measuredBytesPerSecond ∧
    other.measuredBytesPerSecond = high.measuredBytesPerSecond
  numbers : ∃ lowAddress highAddress, parseIpv4 low.sourceAddress = some lowAddress ∧
    parseIpv4 high.sourceAddress = some highAddress ∧ lowAddress < highAddress
  unparsed : parseIpv4 other.sourceAddress = none
  behind : textPrecedes high.sourceAddress other.sourceAddress = true
  before : textPrecedes other.sourceAddress low.sourceAddress = true

/-- Where just one of two addresses parses, the texts differ and decide. -/
theorem endpointKey_lt_iff {left right : DiscoveredPeer Rate}
    (different : left.sourceAddress ≠ right.sourceAddress) :
    endpointKey left < endpointKey right ↔
      textPrecedes left.sourceAddress right.sourceAddress = true := by
  rw [← endpointPrecedes_iff]
  unfold endpointPrecedes
  rw [if_pos different]

theorem misordered_iff {low high other : DiscoveredPeer Rate} :
    Misordered (fun peer : DiscoveredPeer Rate => parseIpv4 peer.sourceAddress) endpointKey
        low high other ↔
      (∃ lowAddress highAddress, parseIpv4 low.sourceAddress = some lowAddress ∧
        parseIpv4 high.sourceAddress = some highAddress ∧ lowAddress < highAddress) ∧
      parseIpv4 other.sourceAddress = none ∧
      textPrecedes high.sourceAddress other.sourceAddress = true ∧
      textPrecedes other.sourceAddress low.sourceAddress = true := by
  have texts : (∃ lowAddress highAddress, parseIpv4 low.sourceAddress = some lowAddress ∧
        parseIpv4 high.sourceAddress = some highAddress ∧ lowAddress < highAddress) →
      parseIpv4 other.sourceAddress = none →
      high.sourceAddress ≠ other.sourceAddress ∧ other.sourceAddress ≠ low.sourceAddress := by
    rintro ⟨lowAddress, highAddress, lowParsed, highParsed, -⟩ unparsed
    refine ⟨fun same => ?_, fun same => ?_⟩
    · rw [← same, highParsed] at unparsed
      cases unparsed
    · rw [same, lowParsed] at unparsed
      cases unparsed
  constructor
  · rintro ⟨below, unparsed, behind, before⟩
    obtain ⟨highOther, otherLow⟩ := texts below unparsed
    exact ⟨below, unparsed, (endpointKey_lt_iff highOther).mp behind,
      (endpointKey_lt_iff otherLow).mp before⟩
  · rintro ⟨below, unparsed, behind, before⟩
    obtain ⟨highOther, otherLow⟩ := texts below unparsed
    exact ⟨below, unparsed, (endpointKey_lt_iff highOther).mpr behind,
      (endpointKey_lt_iff otherLow).mpr before⟩

/-- The comparison is one that a sort may use, on peers of any kind, exactly if no three of them
make a circle. -/
theorem fasterThan_legalOrder_iff [LinearOrder Rate] (candidates : List (DiscoveredPeer Rate)) :
    LegalOrder fasterThan candidates ↔
      ¬ ∃ low ∈ candidates, ∃ high ∈ candidates, ∃ other ∈ candidates,
        AddressCircle low high other := by
  have determined : ∀ first second : DiscoveredPeer Rate,
      endpointKey first = endpointKey second →
      parseIpv4 first.sourceAddress = parseIpv4 second.sourceAddress :=
    fun first second => parseIpv4_of_endpointKey
  rw [legalOrder_iff, fasterThan_eq_grouped, strictWeak_grouped_iff]
  simp only [sourceAddressPrecedes_eq_mixed]
  constructor
  · rintro order ⟨low, inLow, high, inHigh, other, inOther, circle⟩
    have within := strictWeak_mixed_iff
      (fun first _ second _ => determined first second) |>.mp (order high.measuredBytesPerSecond)
    refine within low ?_ high ?_ other ?_ (misordered_iff.mpr
      ⟨circle.numbers, circle.unparsed, circle.behind, circle.before⟩)
    · simpa using ⟨inLow, circle.sameRate.1⟩
    · simpa using inHigh
    · simpa using ⟨inOther, circle.sameRate.2⟩
  · intro noCircle rate
    refine (strictWeak_mixed_iff fun first _ second _ => determined first second).mpr ?_
    intro low inLow high inHigh other inOther circle
    simp only [List.mem_filter, decide_eq_true_eq] at inLow inHigh inOther
    obtain ⟨numbers, unparsed, behind, before⟩ := misordered_iff.mp circle
    exact noCircle ⟨low, inLow.1, high, inHigh.1, other, inOther.1,
      ⟨inLow.2.trans inHigh.2.symm, inOther.2.trans inHigh.2.symm⟩, numbers, unparsed, behind,
      before⟩

/-- A peer that was not probed, with an address. -/
def addressed (address : Bytes) : DiscoveredPeer Nat where
  endpoint := ⟨address, 9000, 9001, 1⟩
  displayName := []
  sourceAddress := address
  measuredBytesPerSecond := 0

/-- The number of `9.0.0.0` is the least, and its text the last. -/
theorem fasterThan_circle :
    ¬ LegalOrder fasterThan
      [addressed (ascii "9.0.0.0"), addressed (ascii "10.0.0.0"), addressed (ascii "5")] := by
  intro order
  have loop := order.transitive (addressed (ascii "9.0.0.0")) (by simp)
    (addressed (ascii "10.0.0.0")) (by simp) (addressed (ascii "5")) (by simp)
    (by decide +kernel) (by decide +kernel)
  have never : fasterThan (addressed (ascii "9.0.0.0")) (addressed (ascii "5")) = false := by
    decide +kernel
  rw [never] at loop
  cases loop

end HyperLink
