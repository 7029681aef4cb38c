/-
This file is `src/auto_config.cpp`: the checks on a side's options and the
negotiation of a connection. Both ends run the same function with the arguments
exchanged and send no further message, so what they agree on is a symmetry of
that function. Everything but the role is symmetric. The role of a side that
asks for none is the one its peer did not ask for; when neither side asks, both
take the same one.
-/

import HyperLink.Path

namespace HyperLink

inductive LinkMode where
  | host
  | device
  | auto
  deriving DecidableEq, Repr

inductive TransferProfile where
  | lowLatency
  | balanced
  | throughput
  deriving DecidableEq, Repr

/-- The timeout is a signed number of milliseconds. -/
structure AutoConfigOptions where
  mode : LinkMode := .auto
  profile : TransferProfile := .balanced
  preferredPacketBytes : UInt32 := 64 * 1024
  discoveryTimeout : Int := 1500
  requireEncryption : Bool := true
  deriving DecidableEq, Repr

structure NegotiatedConfig where
  localMode : LinkMode := .auto
  profile : TransferProfile := .balanced
  packetBytes : UInt32 := 64 * 1024
  encryptionEnabled : Bool := true
  sessionName : Bytes
  deriving DecidableEq, Repr

def kMinPacketBytes : UInt32 := 1024

def kMaxPacketBytes : UInt32 := 1024 * 1024

def profileRank : TransferProfile → Int
  | .lowLatency => 0
  | .balanced => 1
  | .throughput => 2

def profileFromRank (rank : Int) : TransferProfile :=
  if rank = 0 then .lowLatency else if rank = 2 then .throughput else .balanced

/-- The first complaint about a side's options. -/
def validate (options : AutoConfigOptions) : Option Error :=
  if options.preferredPacketBytes < kMinPacketBytes then
    some (ascii "preferred_packet_bytes must be at least 1024 bytes")
  else if options.preferredPacketBytes > kMaxPacketBytes then
    some (ascii "preferred_packet_bytes must be no larger than 1048576 bytes")
  else if options.discoveryTimeout ≤ 0 then some (ascii "discovery_timeout must be positive")
  else none

/-- The role of this end. -/
def localMode (here peer : AutoConfigOptions) : LinkMode :=
  if here.mode = .auto then if peer.mode = .host then .device else .host else here.mode

def negotiate (here peer : AutoConfigOptions) (sessionName : Bytes) :
    Except Error NegotiatedConfig :=
  match validate here with
  | some error => .error (ascii "local auto config is invalid: " ++ error)
  | none =>
      match validate peer with
      | some error => .error (ascii "peer auto config is invalid: " ++ error)
      | none => .ok {
          localMode := localMode here peer
          profile := profileFromRank (min (profileRank here.profile) (profileRank peer.profile))
          packetBytes := min here.preferredPacketBytes peer.preferredPacketBytes
          encryptionEnabled := here.requireEncryption || peer.requireEncryption
          sessionName := sessionName }

/-! ### The result of a negotiation -/

variable {here peer : AutoConfigOptions}

theorem toNat_min (first second : UInt32) :
    (min first second).toNat = min first.toNat second.toNat := by
  show (if first ≤ second then first else second : UInt32).toNat = _
  split
  · rename_i small
    exact (Nat.min_eq_left (UInt32.le_iff_toNat_le.mp small)).symm
  · rename_i large
    rw [UInt32.le_iff_toNat_le] at large
    exact (Nat.min_eq_right (Nat.le_of_not_le large)).symm

/-- Valid options have a packet size in the allowed range. -/
theorem packetBytes_of_valid (valid : validate here = none) :
    kMinPacketBytes ≤ here.preferredPacketBytes ∧ here.preferredPacketBytes ≤ kMaxPacketBytes := by
  unfold validate at valid
  split at valid
  · cases valid
  · rename_i large
    split at valid
    · cases valid
    · rename_i small
      exact ⟨UInt32.not_lt.mp large, UInt32.not_lt.mp small⟩

theorem negotiate_of_valid (valid : validate here = none) (peerValid : validate peer = none)
    (sessionName : Bytes) :
    negotiate here peer sessionName = .ok {
      localMode := localMode here peer
      profile := profileFromRank (min (profileRank here.profile) (profileRank peer.profile))
      packetBytes := min here.preferredPacketBytes peer.preferredPacketBytes
      encryptionEnabled := here.requireEncryption || peer.requireEncryption
      sessionName := sessionName } := by
  unfold negotiate
  rw [valid, peerValid]

/-- The negotiation throws exactly if one side's options are invalid. -/
theorem negotiate_throws_iff (sessionName : Bytes) :
    (∃ error, negotiate here peer sessionName = .error error) ↔
      validate here ≠ none ∨ validate peer ≠ none := by
  unfold negotiate
  cases validate here with
  | some error => simp
  | none =>
    cases validate peer with
    | some error => simp
    | none => simp

/-- The rank of the common profile is the lower one. -/
theorem profileRank_min (first second : TransferProfile) :
    profileRank (profileFromRank (min (profileRank first) (profileRank second))) =
      min (profileRank first) (profileRank second) := by
  cases first <;> cases second <;> rfl

/-! ### Agreement -/

/-- The two roles fit together. -/
def Complementary (first second : LinkMode) : Prop :=
  (first = .host ∧ second = .device) ∨ (first = .device ∧ second = .host)

instance (first second : LinkMode) : Decidable (Complementary first second) :=
  inferInstanceAs (Decidable (_ ∨ _))

/-- Both sides ask for the same role. -/
def SameRole (here peer : AutoConfigOptions) : Prop :=
  (here.mode = .host ∧ peer.mode = .host) ∨ (here.mode = .device ∧ peer.mode = .device)

instance (here peer : AutoConfigOptions) : Decidable (SameRole here peer) :=
  inferInstanceAs (Decidable (_ ∨ _))

/-- What both ends may expect of the two results of one negotiation. -/
structure Agrees (here peer : AutoConfigOptions) (result other : NegotiatedConfig) : Prop where
  profile : result.profile = other.profile
  packetBytes : result.packetBytes = other.packetBytes
  encryption : result.encryptionEnabled = other.encryptionEnabled
  range : kMinPacketBytes ≤ result.packetBytes ∧ result.packetBytes ≤ kMaxPacketBytes
  preferred : result.packetBytes ≤ here.preferredPacketBytes ∧
    result.packetBytes ≤ peer.preferredPacketBytes
  conservative : profileRank result.profile ≤ profileRank here.profile ∧
    profileRank result.profile ≤ profileRank peer.profile
  required : here.requireEncryption ∨ peer.requireEncryption → result.encryptionEnabled
  roles : ¬ SameRole here peer → Complementary result.localMode other.localMode

/-- Negotiation agrees on both ends: they throw together, exactly if one side is invalid, and
otherwise their results fit together. -/
def NegotiationAgrees (here peer : AutoConfigOptions) (sessionName : Bytes) : Prop :=
  ((∃ error, negotiate here peer sessionName = .error error) ↔
      ∃ error, negotiate peer here sessionName = .error error) ∧
    ((∃ error, negotiate here peer sessionName = .error error) ↔
      validate here ≠ none ∨ validate peer ≠ none) ∧
    ∀ result other, negotiate here peer sessionName = .ok result →
      negotiate peer here sessionName = .ok other → Agrees here peer result other

/-- The roles fit unless both sides ask for the same one or for none. -/
theorem complementary_iff (distinct : ¬ SameRole here peer) :
    Complementary (localMode here peer) (localMode peer here) ↔
      ¬ (here.mode = .auto ∧ peer.mode = .auto) := by
  unfold SameRole at distinct
  unfold Complementary localMode
  cases hereMode : here.mode <;> cases peerMode : peer.mode <;> simp_all

/-- Everything but the roles is agreed on whenever both sides are valid. -/
theorem agrees_of_roles (valid : validate here = none) (peerValid : validate peer = none)
    (roles : ¬ SameRole here peer →
      Complementary (localMode here peer) (localMode peer here))
    {sessionName : Bytes} {result other : NegotiatedConfig}
    (ends : negotiate here peer sessionName = .ok result)
    (otherEnds : negotiate peer here sessionName = .ok other) : Agrees here peer result other := by
  rw [negotiate_of_valid valid peerValid] at ends
  rw [negotiate_of_valid peerValid valid] at otherEnds
  cases ends
  cases otherEnds
  obtain ⟨low, high⟩ := packetBytes_of_valid valid
  obtain ⟨peerLow, peerHigh⟩ := packetBytes_of_valid peerValid
  rw [UInt32.le_iff_toNat_le] at low high peerLow peerHigh
  refine ⟨?_, ?_, Bool.or_comm _ _, ?_, ?_, ?_, ?_, roles⟩
  · rw [min_comm]
  · rw [← UInt32.toNat_inj, toNat_min, toNat_min]
    exact Nat.min_comm _ _
  · simp only [UInt32.le_iff_toNat_le, toNat_min]
    exact ⟨Nat.le_min.mpr ⟨low, peerLow⟩, (Nat.min_le_left _ _).trans high⟩
  · simp only [UInt32.le_iff_toNat_le, toNat_min]
    exact ⟨Nat.min_le_left _ _, Nat.min_le_right _ _⟩
  · simp only [profileRank_min]
    exact ⟨min_le_left _ _, min_le_right _ _⟩
  · intro wanted
    simpa using wanted

/-- When negotiation agrees on both ends: whenever a side is invalid, so that both throw, and
otherwise unless neither side asks for a role. -/
theorem negotiationAgrees_iff (here peer : AutoConfigOptions) (sessionName : Bytes) :
    NegotiationAgrees here peer sessionName ↔
      validate here ≠ none ∨ validate peer ≠ none ∨ here.mode ≠ .auto ∨ peer.mode ≠ .auto := by
  have throws := @negotiate_throws_iff here peer sessionName
  have otherThrows := @negotiate_throws_iff peer here sessionName
  constructor
  · rintro ⟨-, -, agree⟩
    by_contra neither
    simp only [not_or, not_not] at neither
    obtain ⟨valid, peerValid, noRole, peerNoRole⟩ := neither
    have roles := (agree _ _ (negotiate_of_valid valid peerValid _)
      (negotiate_of_valid peerValid valid _)).roles
    have distinct : ¬ SameRole here peer := by
      simp [SameRole, noRole]
    exact (complementary_iff distinct).mp (roles distinct) ⟨noRole, peerNoRole⟩
  · intro condition
    refine ⟨throws.trans (or_comm.trans otherThrows.symm), throws, ?_⟩
    intro result other ends otherEnds
    have valid : validate here = none ∧ validate peer = none := by
      by_contra invalid
      rw [not_and_or] at invalid
      obtain ⟨error, thrown⟩ := throws.mpr invalid
      rw [ends] at thrown
      cases thrown
    refine agrees_of_roles valid.1 valid.2 (fun distinct => (complementary_iff distinct).mpr ?_)
      ends otherEnds
    rintro ⟨noRole, peerNoRole⟩
    rcases condition with invalid | invalid | role | role
    · exact invalid valid.1
    · exact invalid valid.2
    · exact role noRole
    · exact role peerNoRole

/-- With the default options on both sides both ends become the host. -/
theorem defaults_disagree : ¬ NegotiationAgrees {} {} (ascii "hyperlink-file") := by
  rintro ⟨-, -, agree⟩
  have roles := (agree _ _ rfl rfl).roles (by decide)
  exact absurd roles (by decide)

end HyperLink
