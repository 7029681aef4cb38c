/-
This file is the choice among the receivers that answered: `rank_candidates` and
`select_fastest_peer_for_testing` of `src/peer_discovery.cpp`. The replies are
parsed and reduced to one candidate for each endpoint, every candidate is probed
once, and a sort by rate and address puts the winner to the front.

The rate is any linear order, the probe any function that returns a rate or
throws, and the sort any sort that orders by a strict weak order. The comparison
is one on candidates, because every candidate's address was parsed; its ties are
broken by exactly the data that keep candidates apart, so the winner depends
neither on the sort nor on the order in which the replies arrived.
-/

import HyperLink.Advertisement
import HyperLink.Selection

namespace HyperLink

open Selection

/-- A datagram and the address it came from. -/
structure DiscoveryReply where
  message : Bytes
  source : Bytes
  deriving DecidableEq, Repr

/-- The order of two strings: byte by byte, as unsigned numbers. -/
def textPrecedes (left right : Bytes) : Bool :=
  left.map UInt8.toNat < right.map UInt8.toNat

section Candidates

variable {Rate : Type}

/-- The end of the comparison of two addresses: their texts, then the ports. -/
def endpointPrecedes (left right : DiscoveredPeer Rate) : Bool :=
  if left.sourceAddress ≠ right.sourceAddress then
    textPrecedes left.sourceAddress right.sourceAddress
  else if left.endpoint.transferPort ≠ right.endpoint.transferPort then
    left.endpoint.transferPort < right.endpoint.transferPort
  else left.endpoint.probePort < right.endpoint.probePort

def sourceAddressPrecedes (left right : DiscoveredPeer Rate) : Bool :=
  match parseIpv4 left.sourceAddress, parseIpv4 right.sourceAddress with
  | some leftAddress, some rightAddress =>
      if leftAddress ≠ rightAddress then leftAddress < rightAddress
      else endpointPrecedes left right
  | _, _ => endpointPrecedes left right

/-- What tells candidates apart. -/
def candidateKey (peer : DiscoveredPeer Rate) : Bytes × UInt16 × UInt16 :=
  (peer.endpoint.host, peer.endpoint.transferPort, peer.endpoint.probePort)

/-- The probes of `rank_candidates` so far. `probed` is every candidate that was probed, in
order. -/
structure Probes (Rate : Type) where
  probed : List (DiscoveredPeer Rate) := []
  failures : List Bytes := []
  successful : List (DiscoveredPeer Rate) := []

/-- One probe: a throw is noted and does not stop the others. -/
def probeCandidate (probe : DiscoveredPeer Rate → Except Bytes Rate) (probes : Probes Rate)
    (candidate : DiscoveredPeer Rate) : Probes Rate :=
  match probe candidate with
  | .ok rate => { probes with
      probed := probes.probed ++ [candidate]
      successful := probes.successful ++ [{ candidate with measuredBytesPerSecond := rate }] }
  | .error reason => { probes with
      probed := probes.probed ++ [candidate]
      failures := probes.failures ++ [candidate.endpoint.host ++ ascii ": " ++ reason] }

def noPeerDiscovered : Error := ascii "no Hyperlink peer discovered"

def allProbesFailed (failures : List Bytes) : Error :=
  failures.foldl (fun message failure => message ++ (ascii "; " ++ failure))
    (ascii "all Hyperlink peer probes failed")

/-- What `rank_candidates` probed, in order, and what it returned or threw. -/
structure Ranking (Rate : Type) where
  probed : List (DiscoveredPeer Rate)
  outcome : Except Error (DiscoveredPeer Rate)

end Candidates

/-- One round of `deduplicate_candidates`: the candidates and the keys so far. -/
def addReply {Rate : Type} [Zero Rate]
    (found : List (DiscoveredPeer Rate) × List (Bytes × UInt16 × UInt16))
    (reply : DiscoveryReply) : List (DiscoveredPeer Rate) × List (Bytes × UInt16 × UInt16) :=
  match parsePeerAdvertisement reply.message reply.source with
  | none => found
  | some peer =>
      if candidateKey peer ∈ found.2 then found
      else (found.1 ++ [peer], candidateKey peer :: found.2)

def deduplicateCandidates {Rate : Type} [Zero Rate] (replies : List DiscoveryReply) :
    List (DiscoveredPeer Rate) :=
  (replies.foldl addReply ([], [])).1

/-- The comparison of `select_fastest_peer_for_testing`. -/
def fasterThan {Rate : Type} [LinearOrder Rate] (left right : DiscoveredPeer Rate) : Bool :=
  if left.measuredBytesPerSecond ≠ right.measuredBytesPerSecond then
    left.measuredBytesPerSecond > right.measuredBytesPerSecond
  else sourceAddressPrecedes left right

/-- A sort of peers by a comparison. -/
abbrev PeerSort (Rate : Type) :=
  (DiscoveredPeer Rate → DiscoveredPeer Rate → Bool) → List (DiscoveredPeer Rate) →
    List (DiscoveredPeer Rate)

/-- `select_fastest_peer_for_testing`. A sort keeps the number of items, so the front exists. -/
def selectFastestPeer {Rate : Type} [LinearOrder Rate] (sort : PeerSort Rate)
    (candidates : List (DiscoveredPeer Rate)) : Except Error (DiscoveredPeer Rate) :=
  if candidates = [] then .error (ascii "peer candidates must not be empty")
  else match (sort fasterThan candidates).head? with
    | some first => .ok first
    | none => .error (ascii "peer candidates must not be empty")

def rankCandidates {Rate : Type} [LinearOrder Rate] [Zero Rate] (sort : PeerSort Rate)
    (probe : DiscoveredPeer Rate → Except Bytes Rate) (replies : List DiscoveryReply) :
    Ranking Rate :=
  let candidates := deduplicateCandidates replies
  if candidates = [] then ⟨[], .error noPeerDiscovered⟩
  else
    let probes := candidates.foldl (probeCandidate probe) {}
    if probes.successful = [] then ⟨probes.probed, .error (allProbesFailed probes.failures)⟩
    else ⟨probes.probed, selectFastestPeer sort probes.successful⟩

/-! ### Candidates -/

/-- The replies that parse, in order. -/
def parsedPeers {Rate : Type} [Zero Rate] (replies : List DiscoveryReply) :
    List (DiscoveredPeer Rate) :=
  replies.filterMap fun reply => parsePeerAdvertisement reply.message reply.source

section Parsed

variable {Rate : Type} [Zero Rate]

/-- The candidates are the first parsed peer of every key. -/
theorem deduplicateCandidates_eq (replies : List DiscoveryReply) :
    (deduplicateCandidates replies : List (DiscoveredPeer Rate)) =
      keepFirst candidateKey [] (parsedPeers replies) := by
  have rounds : ∀ (replies : List DiscoveryReply) (found : List (DiscoveredPeer Rate))
      (keys : List (Bytes × UInt16 × UInt16)), (replies.foldl addReply (found, keys)).1 =
        found ++ keepFirst candidateKey keys (parsedPeers replies) := by
    intro replies
    induction replies with
    | nil => exact fun found keys => (List.append_nil found).symm
    | cons reply rest inductionHypothesis =>
      intro found keys
      rw [List.foldl_cons, addReply, parsedPeers, List.filterMap_cons]
      cases (parsePeerAdvertisement reply.message reply.source : Option (DiscoveredPeer Rate)) with
      | none => exact inductionHypothesis found keys
      | some peer =>
        simp only [keepFirst]
        by_cases old : candidateKey peer ∈ keys
        · rw [if_pos old, if_pos old]
          exact inductionHypothesis found keys
        · rw [if_neg old, if_neg old, inductionHypothesis, List.append_assoc]
          rfl
  exact rounds replies [] []

/-- The address of a parsed peer is the source of its datagram. -/
theorem source_of_parsed {message source : Bytes} {peer : DiscoveredPeer Rate}
    (parsed : parsePeerAdvertisement message source = some peer) :
    peer.endpoint.host = peer.sourceAddress ∧ parseIpv4 peer.sourceAddress ≠ none := by
  unfold parsePeerAdvertisement at parsed
  split at parsed
  · cases parsed
  · rename_i accepted
    simp only [not_or] at accepted
    simp only [Option.bind_eq_bind, Option.bind_eq_some_iff] at parsed
    obtain ⟨_, _, _, _, _, _, _, _, parsed⟩ := parsed
    split at parsed
    · cases parsed
    · cases parsed
      exact ⟨rfl, accepted.2.2⟩

theorem source_of_mem_parsedPeers {replies : List DiscoveryReply} {peer : DiscoveredPeer Rate}
    (member : peer ∈ parsedPeers replies) :
    peer.endpoint.host = peer.sourceAddress ∧ parseIpv4 peer.sourceAddress ≠ none := by
  obtain ⟨reply, -, parsed⟩ := List.mem_filterMap.mp member
  exact source_of_parsed parsed

/-- The candidates of a list of replies. -/
abbrev candidatesOf (Rate : Type) [Zero Rate] (replies : List DiscoveryReply) :
    List (DiscoveredPeer Rate) := keepFirst candidateKey [] (parsedPeers replies)

theorem candidatesOf_eq_nil {replies : List DiscoveryReply} :
    candidatesOf Rate replies = [] ↔
      ∀ reply ∈ replies, (parsePeerAdvertisement reply.message reply.source :
        Option (DiscoveredPeer Rate)) = none := by
  rw [← List.filterMap_eq_nil_iff, candidatesOf]
  refine ⟨fun nothing => ?_, fun nothing => by rw [parsedPeers, nothing]; rfl⟩
  refine List.eq_nil_iff_forall_not_mem.mpr fun peer member => ?_
  obtain ⟨first, kept, -⟩ := exists_mem_keepFirst candidateKey member
  have none : first ∈ candidatesOf Rate replies := kept
  rw [candidatesOf, nothing] at none
  cases none

theorem source_of_candidate {replies : List DiscoveryReply} {candidate : DiscoveredPeer Rate}
    (member : candidate ∈ candidatesOf Rate replies) :
    candidate.endpoint.host = candidate.sourceAddress ∧
      parseIpv4 candidate.sourceAddress ≠ none :=
  source_of_mem_parsedPeers (mem_of_mem_keepFirst candidateKey member)

/-- Candidates with the same key are the same. -/
theorem candidate_unique {replies : List DiscoveryReply} {first second : DiscoveredPeer Rate}
    (inFirst : first ∈ candidatesOf Rate replies) (inSecond : second ∈ candidatesOf Rate replies)
    (same : candidateKey first = candidateKey second) : first = second := by
  have foundFirst := ((mem_keepFirst candidateKey).mp inFirst).2
  have foundSecond := ((mem_keepFirst candidateKey).mp inSecond).2
  rw [same, foundSecond] at foundFirst
  exact (Option.some.inj foundFirst).symm

end Parsed

/-! ### The order of the candidates -/

theorem parseOctet_small {part : Bytes} {octet : Nat} (parsed : parseOctet part = some octet) :
    octet ≤ 255 := by
  obtain ⟨value, -, small⟩ := Option.bind_eq_some_iff.mp parsed
  split at small
  · cases small
  · rename_i fits
    cases small
    rw [gt_iff_lt, UInt32.lt_iff_toNat_lt, not_lt] at fits
    exact fits

theorem parseOctets_shape {left : Nat} {text : Bytes} {octets : List Nat}
    (parsed : parseOctets left text = some octets) :
    octets.length = left ∧ ∀ octet ∈ octets, octet ≤ 255 := by
  induction left generalizing text octets with
  | zero =>
    cases parsed
    exact ⟨rfl, by simp⟩
  | succ left inductionHypothesis =>
    rw [parseOctets] at parsed
    split at parsed
    · split at parsed
      · rename_i last
        obtain ⟨octet, read, rfl⟩ := Option.map_eq_some_iff.mp parsed
        exact ⟨by simp [last], by simpa using parseOctet_small read⟩
      · cases parsed
    · split at parsed
      · cases parsed
      · obtain ⟨octet, read, rest⟩ := Option.bind_eq_some_iff.mp parsed
        obtain ⟨others, others_read, rfl⟩ := Option.map_eq_some_iff.mp rest
        obtain ⟨length, small⟩ := inductionHypothesis others_read
        exact ⟨by simp [length], List.forall_mem_cons.mpr ⟨parseOctet_small read, small⟩⟩

/-- The number of an address. -/
def addressNumber (octets : List Nat) : Nat :=
  octets.foldl (fun number octet => 256 * number + octet) 0

/-- Comparing the octets in order is comparing the numbers of the addresses. -/
theorem addressNumber_lt_iff {left right : Bytes} {leftOctets rightOctets : List Nat}
    (leftParsed : parseIpv4 left = some leftOctets)
    (rightParsed : parseIpv4 right = some rightOctets) :
    leftOctets < rightOctets ↔ addressNumber leftOctets < addressNumber rightOctets := by
  obtain ⟨leftLength, leftSmall⟩ := parseOctets_shape leftParsed
  obtain ⟨rightLength, rightSmall⟩ := parseOctets_shape rightParsed
  match leftOctets, leftLength, rightOctets, rightLength with
  | [a, b, c, d], _, [e, f, g, h], _ =>
    simp only [List.forall_mem_cons] at leftSmall rightSmall
    simp only [List.cons_lt_cons_iff, List.not_lt_nil, and_false, or_false, addressNumber,
      List.foldl_cons, List.foldl_nil]
    omega

theorem addressNumber_inj {left right : Bytes} {leftOctets rightOctets : List Nat}
    (leftParsed : parseIpv4 left = some leftOctets)
    (rightParsed : parseIpv4 right = some rightOctets) :
    addressNumber leftOctets = addressNumber rightOctets ↔ leftOctets = rightOctets := by
  have before := addressNumber_lt_iff leftParsed rightParsed
  have behind := addressNumber_lt_iff rightParsed leftParsed
  refine ⟨fun same => ?_, fun same => by rw [same]⟩
  rcases lt_trichotomy leftOctets rightOctets with less | equal | greater
  · exact absurd (before.mp less) (by omega)
  · exact equal
  · exact absurd (behind.mp greater) (by omega)

section Order

variable {Rate : Type}

/-- The text of the source address, the transfer port and the probe port. -/
def endpointKey (peer : DiscoveredPeer Rate) : List ℕ ×ₗ ℕ ×ₗ ℕ :=
  toLex (peer.sourceAddress.map UInt8.toNat,
    toLex (peer.endpoint.transferPort.toNat, peer.endpoint.probePort.toNat))

/-- What breaks ties between equal rates, in this order: the number of the source address, its
text, the transfer port and the probe port. -/
def tieBreaker (peer : DiscoveredPeer Rate) : ℕ ×ₗ List ℕ ×ₗ ℕ ×ₗ ℕ :=
  toLex (addressNumber ((parseIpv4 peer.sourceAddress).getD []), endpointKey peer)

/-- The order by which the sort ranks peers: the greatest rate first, then the ties. -/
def rankKey (peer : DiscoveredPeer Rate) : Rateᵒᵈ ×ₗ ℕ ×ₗ List ℕ ×ₗ ℕ ×ₗ ℕ :=
  toLex (OrderDual.toDual peer.measuredBytesPerSecond, tieBreaker peer)

theorem text_injective {left right : Bytes}
    (same : left.map UInt8.toNat = right.map UInt8.toNat) : left = right :=
  List.map_injective_iff.mpr (fun _ _ => UInt8.toNat.inj) same

theorem endpointPrecedes_iff (left right : DiscoveredPeer Rate) :
    endpointPrecedes left right = true ↔ endpointKey left < endpointKey right := by
  unfold endpointPrecedes endpointKey
  rw [Prod.Lex.toLex_lt_toLex, Prod.Lex.toLex_lt_toLex]
  by_cases address : left.sourceAddress = right.sourceAddress
  · rw [if_neg (not_not.mpr address), address]
    by_cases port : left.endpoint.transferPort = right.endpoint.transferPort
    · rw [if_neg (not_not.mpr port), port]
      simp [UInt16.lt_iff_toNat_lt]
    · have different : left.endpoint.transferPort.toNat ≠ right.endpoint.transferPort.toNat :=
        fun same => port (UInt16.toNat.inj same)
      rw [if_pos port]
      simp [UInt16.lt_iff_toNat_lt, different]
  · have different : left.sourceAddress.map UInt8.toNat ≠ right.sourceAddress.map UInt8.toNat :=
      fun same => address (text_injective same)
    rw [if_pos address]
    simp [textPrecedes, different]

/-- On addresses that parse the comparison is the order of the ties. -/
theorem sourceAddressPrecedes_iff {left right : DiscoveredPeer Rate}
    (leftParses : parseIpv4 left.sourceAddress ≠ none)
    (rightParses : parseIpv4 right.sourceAddress ≠ none) :
    sourceAddressPrecedes left right = true ↔ tieBreaker left < tieBreaker right := by
  obtain ⟨leftOctets, leftParsed⟩ := Option.ne_none_iff_exists'.mp leftParses
  obtain ⟨rightOctets, rightParsed⟩ := Option.ne_none_iff_exists'.mp rightParses
  have order := addressNumber_lt_iff leftParsed rightParsed
  have equal := addressNumber_inj leftParsed rightParsed
  unfold sourceAddressPrecedes tieBreaker
  rw [leftParsed, rightParsed, Prod.Lex.toLex_lt_toLex]
  simp only [Option.getD_some, ← order, equal, ← endpointPrecedes_iff]
  by_cases same : leftOctets = rightOctets
  · rw [if_neg (not_not.mpr same)]
    simp [same]
  · rw [if_pos same]
    simp [same]

theorem fasterThan_iff [LinearOrder Rate] {left right : DiscoveredPeer Rate}
    (leftParses : parseIpv4 left.sourceAddress ≠ none)
    (rightParses : parseIpv4 right.sourceAddress ≠ none) :
    fasterThan left right = true ↔ rankKey left < rankKey right := by
  unfold fasterThan rankKey
  rw [Prod.Lex.toLex_lt_toLex]
  by_cases same : left.measuredBytesPerSecond = right.measuredBytesPerSecond
  · rw [if_neg (not_not.mpr same), same, sourceAddressPrecedes_iff leftParses rightParses]
    simp
  · rw [if_pos same]
    simp [same]

/-- Peers with the same ties have the same endpoint. -/
theorem candidateKey_of_tieBreaker {left right : DiscoveredPeer Rate}
    (leftHost : left.endpoint.host = left.sourceAddress)
    (rightHost : right.endpoint.host = right.sourceAddress)
    (same : tieBreaker left = tieBreaker right) : candidateKey left = candidateKey right := by
  obtain ⟨-, endpoints⟩ := Prod.mk.inj (toLex.injective same)
  obtain ⟨texts, ports⟩ := Prod.mk.inj (toLex.injective endpoints)
  obtain ⟨transfer, probe⟩ := Prod.mk.inj (toLex.injective ports)
  unfold candidateKey
  rw [leftHost, rightHost, text_injective texts, UInt16.toNat.inj transfer, UInt16.toNat.inj probe]

end Order

/-! ### The probes -/

section Probing

variable {Rate : Type} (probe : DiscoveredPeer Rate → Except Bytes Rate)

/-- A candidate with its rate, if its probe succeeds. -/
def measured (candidate : DiscoveredPeer Rate) : Option (DiscoveredPeer Rate) :=
  match probe candidate with
  | .ok rate => some { candidate with measuredBytesPerSecond := rate }
  | .error _ => none

/-- The host of a candidate and the reason, if its probe throws. -/
def failure (candidate : DiscoveredPeer Rate) : Option Bytes :=
  match probe candidate with
  | .ok _ => none
  | .error reason => some (candidate.endpoint.host ++ ascii ": " ++ reason)

/-- Every candidate is probed once, whatever the other probes do. -/
theorem foldl_probeCandidate (candidates : List (DiscoveredPeer Rate)) :
    candidates.foldl (probeCandidate probe) {} =
      ⟨candidates, candidates.filterMap (failure probe), candidates.filterMap (measured probe)⟩ := by
  have rounds : ∀ (candidates : List (DiscoveredPeer Rate)) (probes : Probes Rate),
      candidates.foldl (probeCandidate probe) probes =
        ⟨probes.probed ++ candidates, probes.failures ++ candidates.filterMap (failure probe),
          probes.successful ++ candidates.filterMap (measured probe)⟩ := by
    intro candidates
    induction candidates with
    | nil => simp
    | cons candidate rest inductionHypothesis =>
      intro probes
      rw [List.foldl_cons, inductionHypothesis, probeCandidate]
      cases outcome : probe candidate with
      | ok rate => simp [failure, measured, outcome]
      | error reason => simp [failure, measured, outcome]
  exact rounds candidates {}

theorem mem_measured {candidates : List (DiscoveredPeer Rate)} {peer : DiscoveredPeer Rate} :
    peer ∈ candidates.filterMap (measured probe) ↔ ∃ candidate ∈ candidates, ∃ rate,
      probe candidate = .ok rate ∧ peer = { candidate with measuredBytesPerSecond := rate } := by
  rw [List.mem_filterMap]
  refine exists_congr fun candidate => and_congr_right fun _ => ?_
  unfold measured
  cases outcome : probe candidate with
  | ok rate => simp [eq_comm]
  | error reason => simp

theorem measured_eq_nil {candidates : List (DiscoveredPeer Rate)} :
    candidates.filterMap (measured probe) = [] ↔
      ∀ candidate ∈ candidates, ∃ reason, probe candidate = .error reason := by
  rw [List.filterMap_eq_nil_iff]
  refine forall₂_congr fun candidate _ => ?_
  unfold measured
  cases outcome : probe candidate with
  | ok rate => simp
  | error reason => simp

/-- The text of the error if every probe throws: each host with its reason, in order. -/
def failureText (candidates : List (DiscoveredPeer Rate)) : Error :=
  ascii "all Hyperlink peer probes failed" ++ candidates.flatMap fun candidate =>
    match probe candidate with
    | .ok _ => []
    | .error reason => ascii "; " ++ candidate.endpoint.host ++ ascii ": " ++ reason

theorem allProbesFailed_eq (candidates : List (DiscoveredPeer Rate)) :
    allProbesFailed (candidates.filterMap (failure probe)) = failureText probe candidates := by
  have rounds : ∀ (candidates : List (DiscoveredPeer Rate)) (message : Bytes),
      (candidates.filterMap (failure probe)).foldl
        (fun message failure => message ++ (ascii "; " ++ failure)) message =
      message ++ candidates.flatMap fun candidate =>
        match probe candidate with
        | .ok _ => []
        | .error reason => ascii "; " ++ candidate.endpoint.host ++ ascii ": " ++ reason := by
    intro candidates
    induction candidates with
    | nil => simp
    | cons candidate rest inductionHypothesis =>
      intro message
      rw [List.filterMap_cons, List.flatMap_cons, failure]
      cases outcome : probe candidate with
      | ok rate => simpa using inductionHypothesis message
      | error reason => simp [inductionHypothesis]
  exact rounds candidates _

theorem failureText_ne_noPeer (candidates : List (DiscoveredPeer Rate)) :
    failureText probe candidates ≠ noPeerDiscovered := by
  intro same
  have first := congrArg List.head? same
  rw [failureText, List.head?_append_of_ne_nil _ (by decide)] at first
  exact absurd first (by decide)

/-- A successful candidate that no other beats: none has a greater rate, and among those with
the same rate none comes first in the order of the ties. -/
structure Best [LinearOrder Rate] (candidates : List (DiscoveredPeer Rate))
    (candidate : DiscoveredPeer Rate) (rate : Rate) : Prop where
  member : candidate ∈ candidates
  succeeded : probe candidate = .ok rate
  fastest : ∀ other ∈ candidates, ∀ slower, probe other = .ok slower →
    slower < rate ∨ slower = rate ∧ tieBreaker candidate ≤ tieBreaker other

end Probing

/-! ### The outcome -/

section Outcome

variable {Rate : Type} [LinearOrder Rate] [Zero Rate] {sort : PeerSort Rate}
  {probe : DiscoveredPeer Rate → Except Bytes Rate} {replies : List DiscoveryReply}

theorem rankCandidates_eq : rankCandidates sort probe replies =
    if candidatesOf Rate replies = [] then ⟨[], .error noPeerDiscovered⟩
    else if (candidatesOf Rate replies).filterMap (measured probe) = [] then
      ⟨candidatesOf Rate replies, .error (failureText probe (candidatesOf Rate replies))⟩
    else ⟨candidatesOf Rate replies, selectFastestPeer sort
      ((candidatesOf Rate replies).filterMap (measured probe))⟩ := by
  unfold rankCandidates
  simp only [deduplicateCandidates_eq, foldl_probeCandidate, allProbesFailed_eq]

theorem probed_eq : (rankCandidates sort probe replies).probed = candidatesOf Rate replies := by
  rw [rankCandidates_eq]
  split
  · rename_i nothing
    exact nothing.symm
  · split <;> rfl

/-- The sort puts a best candidate to the front. -/
theorem selectFastestPeer_best (sorts : Sorts sort)
    (some : (candidatesOf Rate replies).filterMap (measured probe) ≠ []) :
    ∃ candidate rate, Best probe (candidatesOf Rate replies) candidate rate ∧
      selectFastestPeer sort ((candidatesOf Rate replies).filterMap (measured probe)) =
        .ok { candidate with measuredBytesPerSecond := rate } := by
  have parses : ∀ peer ∈ (candidatesOf Rate replies).filterMap (measured probe),
      parseIpv4 peer.sourceAddress ≠ none := by
    intro peer member
    obtain ⟨candidate, inCandidates, rate, -, rfl⟩ := (mem_measured probe).mp member
    exact (source_of_candidate inCandidates).2
  obtain ⟨first, front, member, least⟩ := sorts.least
    (fun left inLeft right inRight => fasterThan_iff (parses left inLeft) (parses right inRight))
    some
  obtain ⟨candidate, inCandidates, rate, succeeded, rfl⟩ := (mem_measured probe).mp member
  refine ⟨candidate, rate, ⟨inCandidates, succeeded, fun other inOthers slower measures => ?_⟩, ?_⟩
  · have order := least _ ((mem_measured probe).mpr ⟨other, inOthers, slower, measures, rfl⟩)
    rcases Prod.Lex.toLex_le_toLex.mp order with less | ⟨same, ties⟩
    · exact Or.inl less
    · exact Or.inr ⟨(OrderDual.toDual.injective same).symm, ties⟩
  · rw [selectFastestPeer, if_neg some, front]

/-- There is at most one best candidate. -/
theorem Best.unique {first second : DiscoveredPeer Rate} {rate other : Rate}
    (bestFirst : Best probe (candidatesOf Rate replies) first rate)
    (bestSecond : Best probe (candidatesOf Rate replies) second other) :
    first = second ∧ rate = other := by
  have same : rate = other ∧ tieBreaker first = tieBreaker second := by
    rcases bestFirst.fastest second bestSecond.member other bestSecond.succeeded with
      less | ⟨equal, ties⟩
    · rcases bestSecond.fastest first bestFirst.member rate bestFirst.succeeded with
        greater | ⟨equal, -⟩
      · exact absurd less greater.asymm
      · exact absurd less (by rw [equal]; exact lt_irrefl _)
    · rcases bestSecond.fastest first bestFirst.member rate bestFirst.succeeded with
        greater | ⟨-, converse⟩
      · exact absurd greater (by rw [equal]; exact lt_irrefl _)
      · exact ⟨equal.symm, le_antisymm ties converse⟩
  have key := candidateKey_of_tieBreaker (source_of_candidate bestFirst.member).1
    (source_of_candidate bestSecond.member).1 same.2
  exact ⟨candidate_unique bestFirst.member bestSecond.member key, same.1⟩

/-- The three ways in which the ranking ends. -/
theorem outcome_cases (sorts : Sorts sort) :
    (candidatesOf Rate replies = [] ∧
        (rankCandidates sort probe replies).outcome = .error noPeerDiscovered) ∨
      (candidatesOf Rate replies ≠ [] ∧
        (∀ candidate ∈ candidatesOf Rate replies, ∃ reason, probe candidate = .error reason) ∧
        (rankCandidates sort probe replies).outcome =
          .error (failureText probe (candidatesOf Rate replies))) ∨
      ∃ candidate rate, Best probe (candidatesOf Rate replies) candidate rate ∧
        (rankCandidates sort probe replies).outcome =
          .ok { candidate with measuredBytesPerSecond := rate } := by
  rw [rankCandidates_eq]
  by_cases nothing : candidatesOf Rate replies = []
  · rw [if_pos nothing]
    exact Or.inl ⟨nothing, rfl⟩
  rw [if_neg nothing]
  by_cases failed : (candidatesOf Rate replies).filterMap (measured probe) = []
  · rw [if_pos failed]
    exact Or.inr (Or.inl ⟨nothing, (measured_eq_nil probe).mp failed, rfl⟩)
  · rw [if_neg failed]
    exact Or.inr (Or.inr (selectFastestPeer_best sorts failed))

/-- The outcome is a peer exactly if it is the best candidate with its rate. -/
theorem outcome_eq_ok_iff (sorts : Sorts sort) {peer : DiscoveredPeer Rate} :
    (rankCandidates sort probe replies).outcome = .ok peer ↔ ∃ candidate rate,
      Best probe (candidatesOf Rate replies) candidate rate ∧
        peer = { candidate with measuredBytesPerSecond := rate } := by
  obtain ⟨nothing, outcome⟩ | ⟨-, failed, outcome⟩ | ⟨candidate, rate, best, outcome⟩ :=
    @outcome_cases _ _ _ sort probe replies sorts
  · refine iff_of_false (by rw [outcome]; exact fun never => by cases never) ?_
    rintro ⟨candidate, rate, best, -⟩
    rw [nothing] at best
    cases best.member
  · refine iff_of_false (by rw [outcome]; exact fun never => by cases never) ?_
    rintro ⟨candidate, rate, best, -⟩
    obtain ⟨reason, thrown⟩ := failed candidate best.member
    rw [best.succeeded] at thrown
    cases thrown
  · rw [outcome, Except.ok.injEq]
    refine ⟨fun same => ⟨candidate, rate, best, same.symm⟩, ?_⟩
    rintro ⟨other, measured, bestOther, rfl⟩
    obtain ⟨rfl, rfl⟩ := best.unique bestOther
    rfl

/-! ### Replies that change nothing -/

/-- A reply that may be added between `front` and `back` without changing the winner: it does not
parse, an earlier reply has its endpoint, it says the same as the first reply of its endpoint, or it
is from another endpoint than the winner's and its probe throws or measures less. -/
def Harmless (probe : DiscoveredPeer Rate → Except Bytes Rate) (winner : DiscoveredPeer Rate)
    (front back : List DiscoveryReply) (reply : DiscoveryReply) : Prop :=
  ∀ peer : DiscoveredPeer Rate,
    parsePeerAdvertisement reply.message reply.source = some peer →
    (∃ earlier ∈ (parsedPeers front : List (DiscoveredPeer Rate)),
      candidateKey earlier = candidateKey peer) ∨
    (parsedPeers (front ++ back)).find? (fun other => candidateKey other = candidateKey peer) =
      some peer ∨
    candidateKey peer ≠ candidateKey winner ∧
      ∀ rate, probe peer = .ok rate → rate < winner.measuredBytesPerSecond

/-- The replies to which harmless ones were added, at any places. -/
inductive Extends (probe : DiscoveredPeer Rate → Except Bytes Rate)
    (winner : DiscoveredPeer Rate) : List DiscoveryReply → List DiscoveryReply → Prop
  | same (replies : List DiscoveryReply) : Extends probe winner replies replies
  | add (front back : List DiscoveryReply) (reply : DiscoveryReply)
      (harmless : Harmless probe winner front back reply) {extended : List DiscoveryReply}
      (more : Extends probe winner (front ++ reply :: back) extended) :
      Extends probe winner (front ++ back) extended

omit [Zero Rate] in
/-- With the same candidates, in whatever order, the best one is the same. -/
theorem Best.congr {candidates others : List (DiscoveredPeer Rate)}
    {candidate : DiscoveredPeer Rate} {rate : Rate} (best : Best probe candidates candidate rate)
    (same : ∀ peer, peer ∈ others ↔ peer ∈ candidates) : Best probe others candidate rate :=
  ⟨(same _).mpr best.member, best.succeeded,
    fun other member => best.fastest other ((same other).mp member)⟩

omit [Zero Rate] in
/-- One slower or failing peer more leaves the best candidate what it was. -/
theorem Best.insert {front back : List (DiscoveredPeer Rate)} {peer candidate : DiscoveredPeer Rate}
    {rate : Rate}
    (best : Best probe (keepFirst candidateKey [] (front ++ back)) candidate rate)
    (apart : candidateKey peer ≠ candidateKey candidate)
    (slower : ∀ other, probe peer = .ok other → other < rate) :
    Best probe (keepFirst candidateKey [] (front ++ peer :: back)) candidate rate := by
  have kept := (mem_keepFirst candidateKey).mp best.member
  rw [List.find?_append] at kept
  refine ⟨(mem_keepFirst candidateKey).mpr ⟨kept.1, ?_⟩, best.succeeded,
    fun other member measures succeeded => ?_⟩
  · rw [List.find?_append, List.find?_cons_of_neg (by simpa using apart)]
    exact kept.2
  · -- The other one was a candidate before, or it is the new peer.
    obtain ⟨new, found⟩ := (mem_keepFirst candidateKey).mp member
    rw [List.find?_append] at found
    by_cases same : candidateKey peer = candidateKey other
    · rw [List.find?_cons_of_pos (by simpa using same)] at found
      cases early : front.find? fun earlier => candidateKey earlier = candidateKey other with
      | none =>
        rw [early] at found
        cases found
        exact Or.inl (slower measures succeeded)
      | some earlier =>
        rw [early] at found
        cases found
        refine best.fastest _ ((mem_keepFirst candidateKey).mpr ⟨new, ?_⟩) measures succeeded
        rw [List.find?_append, early]
        rfl
    · rw [List.find?_cons_of_neg (by simpa using same)] at found
      refine best.fastest _ ((mem_keepFirst candidateKey).mpr ⟨new, ?_⟩) measures succeeded
      rw [List.find?_append]
      exact found

/-- A harmless reply more does not change the winner. -/
theorem outcome_insert (sorts : Sorts sort) {winner : DiscoveredPeer Rate}
    {front back : List DiscoveryReply} {reply : DiscoveryReply}
    (harmless : Harmless probe winner front back reply)
    (won : (rankCandidates sort probe (front ++ back)).outcome = .ok winner) :
    (rankCandidates sort probe (front ++ reply :: back)).outcome = .ok winner := by
  rw [outcome_eq_ok_iff sorts] at won ⊢
  obtain ⟨candidate, rate, best, rfl⟩ := won
  refine ⟨candidate, rate, ?_, rfl⟩
  have split : (parsedPeers (front ++ back) : List (DiscoveredPeer Rate)) =
      parsedPeers front ++ parsedPeers back := List.filterMap_append
  rw [candidatesOf, split] at best
  cases parsed : (parsePeerAdvertisement reply.message reply.source :
    Option (DiscoveredPeer Rate)) with
  | none =>
    have same : (parsedPeers (front ++ reply :: back) : List (DiscoveredPeer Rate)) =
        parsedPeers front ++ parsedPeers back := by
      simp [parsedPeers, parsed]
    rw [candidatesOf, same]
    exact best
  | some peer =>
    have more : (parsedPeers (front ++ reply :: back) : List (DiscoveredPeer Rate)) =
        parsedPeers front ++ peer :: parsedPeers back := by
      simp [parsedPeers, parsed]
    rw [candidatesOf, more]
    rcases harmless peer parsed with earlier | copy | ⟨apart, slower⟩
    · rw [keepFirst_insert_seen candidateKey _ (Or.inr earlier)]
      exact best
    · rw [split] at copy
      exact best.congr fun other => mem_keepFirst_copy candidateKey copy
    · exact best.insert apart slower

theorem Extends.outcome (sorts : Sorts sort) {winner : DiscoveredPeer Rate}
    {replies extended : List DiscoveryReply} (more : Extends probe winner replies extended)
    (won : (rankCandidates sort probe replies).outcome = .ok winner) :
    (rankCandidates sort probe extended).outcome = .ok winner := by
  induction more with
  | same => exact won
  | add front back reply harmless _ inductionHypothesis =>
    exact inductionHypothesis (outcome_insert sorts harmless won)

end Outcome

/-- Peer selection. Every endpoint among the replies that parse is probed once, in the order of
first appearance, with its first reply, whatever other probes do. The outcome is the error that
no peer was discovered exactly if no reply parses; it is the error that lists every host with
its reason exactly if some reply parses and every probe throws; and otherwise it is the
candidate, with its rate, that has the greatest rate, the smallest address among those, and so
on through the ties. Replies that do not parse, come second for an endpoint, or are from peers
that fail or are slower, do not change a winner. -/
theorem rankCandidates_spec {Rate : Type} [LinearOrder Rate] [Zero Rate] (sort : PeerSort Rate)
    (sorts : Sorts sort) (probe : DiscoveredPeer Rate → Except Bytes Rate)
    (replies : List DiscoveryReply) :
    let parsed : List (DiscoveredPeer Rate) := parsedPeers replies
    let ranking := rankCandidates sort probe replies
    (ranking.probed.map candidateKey = (parsed.map candidateKey).eraseDups ∧
      ∀ peer ∈ ranking.probed,
        parsed.find? (fun other => candidateKey other = candidateKey peer) = some peer) ∧
    (ranking.outcome = .error noPeerDiscovered ↔
      ∀ reply ∈ replies, (parsePeerAdvertisement reply.message reply.source :
        Option (DiscoveredPeer Rate)) = none) ∧
    (ranking.outcome = .error (failureText probe ranking.probed) ↔
      (∃ reply ∈ replies, (parsePeerAdvertisement reply.message reply.source :
        Option (DiscoveredPeer Rate)) ≠ none) ∧
      ∀ peer ∈ ranking.probed, ∃ reason, probe peer = .error reason) ∧
    ((∃ peer ∈ ranking.probed, ∃ rate, probe peer = .ok rate) →
      ∃ candidate rate, Best probe ranking.probed candidate rate ∧
        ranking.outcome = .ok { candidate with measuredBytesPerSecond := rate }) ∧
    ∀ winner extended, ranking.outcome = .ok winner → Extends probe winner replies extended →
      (rankCandidates sort probe extended).outcome = .ok winner := by
  intro parsed ranking
  have probed : ranking.probed = candidatesOf Rate replies := probed_eq
  have parses : (∃ reply ∈ replies, (parsePeerAdvertisement reply.message reply.source :
      Option (DiscoveredPeer Rate)) ≠ none) ↔ candidatesOf Rate replies ≠ [] := by
    rw [Ne, candidatesOf_eq_nil]
    push Not
    rfl
  rw [probed, parses, ← candidatesOf_eq_nil]
  refine ⟨⟨?_, fun peer member => ((mem_keepFirst candidateKey).mp member).2⟩, ?_, ?_, ?_,
    fun winner extended won more => more.outcome sorts won⟩
  · rw [map_keepFirst]
    simp [parsed]
  all_goals
    obtain ⟨nothing, outcome⟩ | ⟨some, failed, outcome⟩ | ⟨candidate, rate, best, outcome⟩ :=
      @outcome_cases _ _ _ sort probe replies sorts
  · exact iff_of_true outcome nothing
  · refine iff_of_false ?_ some
    rw [show ranking.outcome = _ from outcome, Except.error.injEq]
    exact failureText_ne_noPeer probe _
  · refine iff_of_false ?_ (List.ne_nil_of_mem best.member)
    rw [show ranking.outcome = _ from outcome]
    exact fun never => by cases never
  · refine iff_of_false ?_ fun both => both.1 nothing
    rw [show ranking.outcome = _ from outcome, Except.error.injEq]
    exact (failureText_ne_noPeer probe _).symm
  · exact iff_of_true outcome ⟨some, failed⟩
  · refine iff_of_false ?_ fun both => ?_
    · rw [show ranking.outcome = _ from outcome]
      exact fun never => by cases never
    · obtain ⟨reason, thrown⟩ := both.2 candidate best.member
      rw [best.succeeded] at thrown
      cases thrown
  · rintro ⟨peer, member, -⟩
    rw [nothing] at member
    cases member
  · rintro ⟨peer, member, rate, succeeded⟩
    obtain ⟨reason, thrown⟩ := failed peer member
    rw [succeeded] at thrown
    cases thrown
  · exact fun _ => ⟨candidate, rate, best, outcome⟩

/-- Probes that measure each endpoint's port, as the tests do. -/
def probeByPort (peer : DiscoveredPeer Nat) : Except Bytes Nat :=
  if peer.endpoint.probePort = 47791 then .ok 5
  else if peer.endpoint.probePort = 47792 then .ok 15
  else .error (ascii "connection refused")

/-- A slow peer that answered twice, a fast one and one that does not parse. -/
def fourReplies : List DiscoveryReply :=
  [⟨ascii "HLINK_PEER_V2 47790 47791 1 slow", ascii "192.168.1.8"⟩,
    ⟨ascii "HLINK_PEER_V2 47790 47791 1 slow", ascii "192.168.1.8"⟩,
    ⟨ascii "HLINK_PEER_V1 47790 47791 1 old", ascii "192.168.1.7"⟩,
    ⟨ascii "HLINK_PEER_V2 47790 47792 1 fast", ascii "192.168.1.9"⟩]

theorem rankCandidates_spec_fourReplies :
    ∃ candidate rate,
      Best probeByPort (rankCandidates mergeSort probeByPort fourReplies).probed candidate rate ∧
        (rankCandidates mergeSort probeByPort fourReplies).outcome =
          .ok { candidate with measuredBytesPerSecond := rate } :=
  (rankCandidates_spec mergeSort mergeSort_sorts probeByPort fourReplies).2.2.2.1
    ⟨⟨⟨ascii "192.168.1.9", 47790, 47792, 1⟩, ascii "fast", ascii "192.168.1.9", 0⟩,
      by decide +kernel, 15, by decide +kernel⟩

/-! ### The order of arrival -/

/-- Two outcomes are the same selection: the same endpoint with the same rate, or errors of the
same kind. -/
def SameSelection {Rate : Type} :
    Except Error (DiscoveredPeer Rate) → Except Error (DiscoveredPeer Rate) → Prop
  | .ok first, .ok second =>
      first.endpoint.host = second.endpoint.host ∧ first.sourceAddress = second.sourceAddress ∧
        first.endpoint.transferPort = second.endpoint.transferPort ∧
        first.endpoint.probePort = second.endpoint.probePort ∧
        first.measuredBytesPerSecond = second.measuredBytesPerSecond
  | .error first, .error second =>
      (first = noPeerDiscovered ∧ second = noPeerDiscovered) ∨
        (ascii "all Hyperlink peer probes failed" <+: first ∧
          ascii "all Hyperlink peer probes failed" <+: second)
  | _, _ => False

section Shuffle

variable {Rate : Type} [Zero Rate] {replies shuffled : List DiscoveryReply}

/-- In another order of arrival every candidate has a twin with the same endpoint. -/
theorem exists_twin (same : replies.Perm shuffled) {candidate : DiscoveredPeer Rate}
    (member : candidate ∈ candidatesOf Rate replies) :
    ∃ twin ∈ candidatesOf Rate shuffled, candidateKey twin = candidateKey candidate := by
  have parsed : candidate ∈ (parsedPeers shuffled : List (DiscoveredPeer Rate)) :=
    (same.filterMap _).subset (mem_of_mem_keepFirst candidateKey member)
  exact exists_mem_keepFirst candidateKey parsed

/-- Candidates with the same key have the same ties, and a probe of the endpoint does not tell
them apart. -/
theorem twin_alike {probe : DiscoveredPeer Rate → Except Bytes Rate}
    (byEndpoint : ∀ first second : DiscoveredPeer Rate,
      first.endpoint.host = second.endpoint.host →
      first.endpoint.probePort = second.endpoint.probePort → probe first = probe second)
    {candidate twin : DiscoveredPeer Rate} (member : candidate ∈ candidatesOf Rate replies)
    (twinMember : twin ∈ candidatesOf Rate shuffled)
    (key : candidateKey twin = candidateKey candidate) :
    probe twin = probe candidate ∧ tieBreaker twin = tieBreaker candidate ∧
      twin.sourceAddress = candidate.sourceAddress := by
  obtain ⟨host, ports⟩ := Prod.mk.inj key
  obtain ⟨transfer, probePort⟩ := Prod.mk.inj ports
  have source : twin.sourceAddress = candidate.sourceAddress := by
    rw [← (source_of_candidate twinMember).1, ← (source_of_candidate member).1, host]
  refine ⟨byEndpoint _ _ host probePort, ?_, source⟩
  unfold tieBreaker endpointKey
  rw [source, transfer, probePort]

theorem candidatesOf_perm_nil (same : replies.Perm shuffled)
    (nothing : candidatesOf Rate replies = []) : candidatesOf Rate shuffled = [] := by
  refine List.eq_nil_iff_forall_not_mem.mpr fun candidate member => ?_
  obtain ⟨twin, twinMember, -⟩ := exists_twin same.symm member
  rw [nothing] at twinMember
  cases twinMember

/-- The twin of the best candidate is the best. -/
theorem Best.perm [LinearOrder Rate] {probe : DiscoveredPeer Rate → Except Bytes Rate}
    (byEndpoint : ∀ first second : DiscoveredPeer Rate,
      first.endpoint.host = second.endpoint.host →
      first.endpoint.probePort = second.endpoint.probePort → probe first = probe second)
    (same : replies.Perm shuffled) {candidate : DiscoveredPeer Rate} {rate : Rate}
    (best : Best probe (candidatesOf Rate replies) candidate rate) :
    ∃ twin, Best probe (candidatesOf Rate shuffled) twin rate ∧
      candidateKey twin = candidateKey candidate ∧
      twin.sourceAddress = candidate.sourceAddress := by
  obtain ⟨twin, twinMember, key⟩ := exists_twin same best.member
  obtain ⟨probes, ties, source⟩ := twin_alike byEndpoint best.member twinMember key
  refine ⟨twin, ⟨twinMember, by rw [probes, best.succeeded], ?_⟩, key, source⟩
  intro other member slower measures
  obtain ⟨before, inReplies, otherKey⟩ := exists_twin same.symm member
  obtain ⟨otherProbes, otherTies, -⟩ := twin_alike byEndpoint member inReplies otherKey
  rw [ties, ← otherTies]
  exact best.fastest before inReplies slower (by rw [otherProbes, measures])

end Shuffle

/-- Peer selection does not depend on the order of arrival, nor on what a sort does with items
it need not tell apart. -/
theorem rankCandidates_perm {Rate : Type} [LinearOrder Rate] [Zero Rate]
    (sort otherSort : PeerSort Rate) (sorts : Sorts sort) (otherSorts : Sorts otherSort)
    (probe : DiscoveredPeer Rate → Except Bytes Rate)
    (byEndpoint : ∀ first second : DiscoveredPeer Rate,
      first.endpoint.host = second.endpoint.host →
      first.endpoint.probePort = second.endpoint.probePort → probe first = probe second)
    (replies shuffled : List DiscoveryReply) (same : replies.Perm shuffled) :
    SameSelection (rankCandidates sort probe replies).outcome
      (rankCandidates otherSort probe shuffled).outcome := by
  obtain ⟨nothing, outcome⟩ | ⟨some, failed, outcome⟩ | ⟨candidate, rate, best, outcome⟩ :=
    @outcome_cases _ _ _ sort probe replies sorts
  · have nothingElse := candidatesOf_perm_nil same nothing
    rw [outcome, rankCandidates_eq, if_pos nothingElse]
    exact Or.inl ⟨rfl, rfl⟩
  · have someElse : candidatesOf Rate shuffled ≠ [] := fun nothing =>
      some (candidatesOf_perm_nil same.symm nothing)
    have failedElse : (candidatesOf Rate shuffled).filterMap (measured probe) = [] := by
      refine (measured_eq_nil probe).mpr fun twin member => ?_
      obtain ⟨candidate, inReplies, key⟩ := exists_twin same.symm member
      rw [← (twin_alike byEndpoint member inReplies key).1]
      exact failed candidate inReplies
    rw [outcome, rankCandidates_eq, if_neg someElse, if_pos failedElse]
    exact Or.inr ⟨List.prefix_append _ _, List.prefix_append _ _⟩
  · obtain ⟨twin, bestTwin, key, source⟩ := best.perm byEndpoint same
    obtain ⟨host, ports⟩ := Prod.mk.inj key
    obtain ⟨transfer, probePort⟩ := Prod.mk.inj ports
    rw [outcome, (outcome_eq_ok_iff otherSorts).mpr ⟨twin, rate, bestTwin, rfl⟩]
    exact ⟨host.symm, source.symm, transfer.symm, probePort.symm, rfl⟩

theorem rankCandidates_perm_reversed :
    SameSelection (rankCandidates mergeSort probeByPort fourReplies).outcome
      (rankCandidates mergeSort probeByPort fourReplies.reverse).outcome :=
  rankCandidates_perm mergeSort mergeSort mergeSort_sorts mergeSort_sorts probeByPort
    (fun _ _ _ port => by unfold probeByPort; rw [port]) fourReplies fourReplies.reverse
    (List.reverse_perm fourReplies).symm

end HyperLink
