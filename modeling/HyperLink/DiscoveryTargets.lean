/-
This file is about `enumerate_discovery_targets` of `src/peer_discovery.cpp`, which
decides from where and to whom a searching sender calls. For every address of
this host it calls the directed broadcast of the address's network and the
limited one, and it always calls itself.

POSIX takes the broadcast from the interface or computes it from the mask, in the
octets as they stand on the wire; Windows computes it from the length of the
prefix, in numbers. Both come to the same list where an interface has no other
broadcast than the one of its mask, and no order in which the system lists its
interfaces changes the list.
-/

import HyperLink.PeerSelection

namespace HyperLink

open Selection

/-! ### Addresses as the system holds them -/

/-- `in_addr`: four octets in the order of the network. -/
structure InAddr where
  a : UInt8
  b : UInt8
  c : UInt8
  d : UInt8
  deriving DecidableEq, Repr

namespace InAddr

/-- The number of an address. -/
def ntohl (address : InAddr) : BitVec 32 :=
  address.a.toBitVec ++ address.b.toBitVec ++ address.c.toBitVec ++ address.d.toBitVec

/-- The address of a number. -/
def htonl (number : BitVec 32) : InAddr where
  a := .ofBitVec (number.extractLsb' 24 8)
  b := .ofBitVec (number.extractLsb' 16 8)
  c := .ofBitVec (number.extractLsb' 8 8)
  d := .ofBitVec (number.extractLsb' 0 8)

/-- `|` on `s_addr`, octet by octet in any byte order. -/
def or (left right : InAddr) : InAddr where
  a := left.a ||| right.a
  b := left.b ||| right.b
  c := left.c ||| right.c
  d := left.d ||| right.d

/-- `~` on `s_addr`. -/
def not (address : InAddr) : InAddr where
  a := ~~~address.a
  b := ~~~address.b
  c := ~~~address.c
  d := ~~~address.d

/-- `ipv4_string`. The buffer always suffices. -/
def ipv4String (address : InAddr) : Bytes := dottedQuad address.a address.b address.c address.d

end InAddr

/-- What a `sockaddr` pointer leads to. -/
inductive SocketAddress where
  | inet (address : InAddr)
  | other
  deriving DecidableEq, Repr

/-! ### The two branches -/

structure DiscoveryTarget where
  bindAddress : Bytes
  destination : Bytes
  deriving DecidableEq, Repr

def addTarget (targets : List DiscoveryTarget) (bindAddress destination : Bytes) :
    List DiscoveryTarget :=
  if bindAddress ≠ [] ∧ destination ≠ [] then targets ++ [⟨bindAddress, destination⟩] else targets

/-- Both calls of one address. -/
def addTargets (targets : List DiscoveryTarget) (address broadcast : InAddr) :
    List DiscoveryTarget :=
  addTarget (addTarget targets address.ipv4String broadcast.ipv4String)
    address.ipv4String (ascii "255.255.255.255")

/-- An item of the list that `getifaddrs` gives. -/
structure Interface where
  address : Option SocketAddress
  up : Bool
  broadaddr : Option InAddr
  netmask : Option InAddr
  deriving DecidableEq, Repr

namespace Interface

def broadcast (item : Interface) (address : InAddr) : InAddr :=
  match item.broadaddr with
  | some broadcast => broadcast
  | none =>
      match item.netmask with
      | some mask => address.or mask.not
      | none => ⟨0, 0, 0, 0⟩

/-- One round of the loop over the interfaces. -/
def add (targets : List DiscoveryTarget) (item : Interface) : List DiscoveryTarget :=
  match item.address with
  | some (.inet address) =>
      if item.up then addTargets targets address (item.broadcast address) else targets
  | _ => targets

end Interface

/-- An entry of the list of unicast addresses of an adapter. -/
structure UnicastAddress where
  address : Option SocketAddress
  onLinkPrefixLength : UInt8
  deriving DecidableEq, Repr

/-- An item of the list that `GetAdaptersAddresses` gives. -/
structure Adapter where
  up : Bool
  unicast : List UnicastAddress
  deriving DecidableEq, Repr

namespace UnicastAddress

def prefixLength (unicast : UnicastAddress) : Nat := min unicast.onLinkPrefixLength.toNat 32

end UnicastAddress

/-- The mask of a prefix, as a number. -/
def prefixMask (length : Nat) : BitVec 32 :=
  if length = 0 then 0 else 0xFFFFFFFF#32 <<< (32 - length)

/-- The directed broadcast, from numbers. -/
def prefixBroadcast (address : InAddr) (length : Nat) : InAddr :=
  .htonl ((address.ntohl &&& prefixMask length) ||| ~~~prefixMask length)

namespace UnicastAddress

/-- One round of the inner loop. -/
def add (targets : List DiscoveryTarget) (unicast : UnicastAddress) : List DiscoveryTarget :=
  match unicast.address with
  | some (.inet address) =>
      addTargets targets address (prefixBroadcast address unicast.prefixLength)
  | _ => targets

end UnicastAddress

/-- One round of the loop over the adapters. -/
def Adapter.add (targets : List DiscoveryTarget) (adapter : Adapter) : List DiscoveryTarget :=
  if adapter.up then adapter.unicast.foldl UnicastAddress.add targets else targets

/-- `std::tie` of both texts: the first one decides, and the second one where it does not. -/
def targetPrecedes (left right : DiscoveryTarget) : Bool :=
  if left.bindAddress ≠ right.bindAddress then textPrecedes left.bindAddress right.bindAddress
  else textPrecedes left.destination right.destination

def loopback : Bytes := ascii "127.0.0.1"

/-- A sort of targets by a comparison. -/
abbrev TargetSort := (DiscoveryTarget → DiscoveryTarget → Bool) → List DiscoveryTarget →
  List DiscoveryTarget

/-- What follows both branches. `std::unique` keeps what differs from the one it kept last. -/
def finishTargets (sort : TargetSort) (targets : List DiscoveryTarget) : List DiscoveryTarget :=
  (sort targetPrecedes (addTarget targets loopback loopback)).destutter (· ≠ ·)

/-- The POSIX branch, with what `getifaddrs` gives unless it fails. -/
def enumeratePosix (sort : TargetSort) (interfaces : Option (List Interface)) :
    List DiscoveryTarget :=
  finishTargets sort ((interfaces.getD []).foldl Interface.add [])

/-- The Windows branch, with what the two calls of `GetAdaptersAddresses` give unless one of
them fails. -/
def enumerateWindows (sort : TargetSort) (adapters : Option (List Adapter)) :
    List DiscoveryTarget :=
  finishTargets sort ((adapters.getD []).foldl Adapter.add [])

/-! ### Sorting -/

/-- The key of the comparison. -/
def targetKey (target : DiscoveryTarget) : List ℕ ×ₗ List ℕ :=
  toLex (target.bindAddress.map UInt8.toNat, target.destination.map UInt8.toNat)

theorem targetKey_injective : Function.Injective targetKey := by
  intro left right same
  obtain ⟨bind, destination⟩ := Prod.mk.inj (toLex.injective same)
  obtain ⟨_, _⟩ := left
  obtain ⟨_, _⟩ := right
  rw [DiscoveryTarget.mk.injEq]
  exact ⟨text_injective bind, text_injective destination⟩

theorem targetPrecedes_iff (left right : DiscoveryTarget) :
    targetPrecedes left right = true ↔ targetKey left < targetKey right := by
  unfold targetPrecedes targetKey
  rw [Prod.Lex.toLex_lt_toLex]
  by_cases bind : left.bindAddress = right.bindAddress
  · rw [if_neg (not_not.mpr bind), bind]
    simp [textPrecedes]
  · have different : left.bindAddress.map UInt8.toNat ≠ right.bindAddress.map UInt8.toNat :=
      fun same => bind (text_injective same)
    rw [if_pos bind]
    simp [textPrecedes, different]

/-- Strictly ordered targets. -/
abbrev Ascending (targets : List DiscoveryTarget) : Prop :=
  targets.Pairwise fun left right => targetKey left < targetKey right

/-- Ordered targets are determined by their members. -/
theorem Ascending.ext {left right : List DiscoveryTarget} (leftOrdered : Ascending left)
    (rightOrdered : Ascending right) (same : ∀ target, target ∈ left ↔ target ∈ right) :
    left = right := by
  have : Std.Antisymm fun left right : DiscoveryTarget => targetKey left < targetKey right :=
    ⟨fun _ _ before behind => absurd before (lt_asymm behind)⟩
  have : Std.Irrefl fun left right : DiscoveryTarget => targetKey left < targetKey right :=
    ⟨fun _ => lt_irrefl _⟩
  exact leftOrdered.eq_of_mem_iff rightOrdered same

/-- The sort and the removal of neighbours leave the members, once each and in order. -/
theorem finishTargets_spec {sort : TargetSort} (sorts : Sorts sort)
    (targets : List DiscoveryTarget) :
    Ascending (finishTargets sort targets) ∧ ∀ target,
      target ∈ finishTargets sort targets ↔ target = ⟨loopback, loopback⟩ ∨ target ∈ targets := by
  obtain ⟨same, ordered⟩ := sorts targetPrecedes (addTarget targets loopback loopback)
    (strictWeak_of_key targetKey fun left _ right _ => targetPrecedes_iff left right)
  have weakly : (sort targetPrecedes (addTarget targets loopback loopback)).Pairwise
      fun left right => targetKey left ≤ targetKey right := by
    refine ordered.imp fun {left right} notBefore => ?_
    rw [← Bool.not_eq_true, targetPrecedes_iff, not_lt] at notBefore
    exact notBefore
  have : Std.Antisymm fun left right : DiscoveryTarget => targetKey left ≤ targetKey right :=
    ⟨fun _ _ before behind => targetKey_injective (le_antisymm before behind)⟩
  have once : finishTargets sort targets =
      (sort targetPrecedes (addTarget targets loopback loopback)).dedup :=
    weakly.destutter_eq_dedup
  rw [once]
  refine ⟨?_, fun target => ?_⟩
  · have distinct := List.nodup_dedup (sort targetPrecedes (addTarget targets loopback loopback))
    refine ((weakly.sublist (List.dedup_sublist _)).and distinct).imp fun {left right} both => ?_
    exact lt_of_le_of_ne both.1 fun equal => both.2 (targetKey_injective equal)
  · rw [List.mem_dedup, same.mem_iff, addTarget, if_pos (by decide), List.mem_append,
      List.mem_singleton, or_comm]

/-! ### What is listed -/

theorem ipv4String_ne_nil (address : InAddr) : address.ipv4String ≠ [] := by
  simp [InAddr.ipv4String, dottedQuad]

/-- The two targets of an address. -/
def TargetOf (address broadcast : InAddr) (target : DiscoveryTarget) : Prop :=
  target.bindAddress = address.ipv4String ∧
    (target.destination = broadcast.ipv4String ∨ target.destination = ascii "255.255.255.255")

theorem mem_addTargets {targets : List DiscoveryTarget} {address broadcast : InAddr}
    {target : DiscoveryTarget} : target ∈ addTargets targets address broadcast ↔
      target ∈ targets ∨ TargetOf address broadcast target := by
  have limited : ascii "255.255.255.255" ≠ [] := by decide
  obtain ⟨bindAddress, destination⟩ := target
  simp only [addTargets, addTarget, ne_eq, ipv4String_ne_nil, not_false_eq_true, limited, and_self,
    if_true, List.mem_append, List.mem_singleton, DiscoveryTarget.mk.injEq, TargetOf, or_assoc]
  tauto

/-- Rounds that only add collect what each of them adds. -/
theorem mem_foldl_of_adds {Item : Type} {add : List DiscoveryTarget → Item → List DiscoveryTarget}
    {adds : Item → DiscoveryTarget → Prop}
    (each : ∀ targets item target, target ∈ add targets item ↔ target ∈ targets ∨ adds item target)
    (items : List Item) (targets : List DiscoveryTarget) (target : DiscoveryTarget) :
    target ∈ items.foldl add targets ↔ target ∈ targets ∨ ∃ item ∈ items, adds item target := by
  induction items generalizing targets with
  | nil => simp
  | cons item rest inductionHypothesis =>
    rw [List.foldl_cons, inductionHypothesis, each, or_assoc]
    simp

/-- An interface that is up has this address. -/
def Interface.Has (item : Interface) (address : InAddr) : Prop :=
  item.up = true ∧ item.address = some (.inet address)

theorem Interface.mem_add (targets : List DiscoveryTarget) (item : Interface)
    (target : DiscoveryTarget) : target ∈ item.add targets ↔ target ∈ targets ∨
      ∃ address, item.Has address ∧ TargetOf address (item.broadcast address) target := by
  unfold Interface.add Interface.Has
  split
  next address is =>
    split
    next up =>
      rw [mem_addTargets]
      simp [up, is]
    next down => simp [down]
  next other =>
    refine (or_iff_left ?_).symm
    rintro ⟨address, ⟨-, is⟩, -⟩
    exact other address is

/-- An adapter that is up has this address with a prefix of this length. -/
def Adapter.Has (adapter : Adapter) (address : InAddr) (length : Nat) : Prop :=
  adapter.up = true ∧ ∃ unicast ∈ adapter.unicast,
    unicast.address = some (.inet address) ∧ unicast.prefixLength = length

theorem Adapter.Has.length_le {adapter : Adapter} {address : InAddr} {length : Nat}
    (has : adapter.Has address length) : length ≤ 32 := by
  obtain ⟨-, unicast, -, -, rfl⟩ := has
  exact Nat.min_le_right _ _

theorem UnicastAddress.mem_add (targets : List DiscoveryTarget) (unicast : UnicastAddress)
    (target : DiscoveryTarget) : target ∈ unicast.add targets ↔ target ∈ targets ∨
      ∃ address, unicast.address = some (.inet address) ∧
        TargetOf address (prefixBroadcast address unicast.prefixLength) target := by
  unfold UnicastAddress.add
  split
  next address is =>
    rw [mem_addTargets]
    simp [is]
  next other =>
    refine (or_iff_left ?_).symm
    rintro ⟨address, is, -⟩
    exact other address is

theorem Adapter.mem_add (targets : List DiscoveryTarget) (adapter : Adapter)
    (target : DiscoveryTarget) : target ∈ adapter.add targets ↔ target ∈ targets ∨
      ∃ address length, adapter.Has address length ∧
        TargetOf address (prefixBroadcast address length) target := by
  unfold Adapter.add Adapter.Has
  split
  next up =>
    rw [mem_foldl_of_adds UnicastAddress.mem_add]
    refine or_congr_right ⟨?_, ?_⟩
    · rintro ⟨unicast, member, address, is, isTarget⟩
      exact ⟨address, _, ⟨up, unicast, member, is, rfl⟩, isTarget⟩
    · rintro ⟨address, _, ⟨-, unicast, member, is, rfl⟩, isTarget⟩
      exact ⟨unicast, member, address, is, isTarget⟩
  next down => simp [down]

theorem mem_enumeratePosix {sort : TargetSort} (sorts : Sorts sort)
    (interfaces : Option (List Interface)) (target : DiscoveryTarget) :
    target ∈ enumeratePosix sort interfaces ↔ target = ⟨loopback, loopback⟩ ∨
      ∃ item ∈ interfaces.getD [], ∃ address, item.Has address ∧
        TargetOf address (item.broadcast address) target := by
  rw [enumeratePosix, (finishTargets_spec sorts _).2, mem_foldl_of_adds Interface.mem_add]
  simp

theorem mem_enumerateWindows {sort : TargetSort} (sorts : Sorts sort)
    (adapters : Option (List Adapter)) (target : DiscoveryTarget) :
    target ∈ enumerateWindows sort adapters ↔ target = ⟨loopback, loopback⟩ ∨
      ∃ adapter ∈ adapters.getD [], ∃ address length, adapter.Has address length ∧
        TargetOf address (prefixBroadcast address length) target := by
  rw [enumerateWindows, (finishTargets_spec sorts _).2, mem_foldl_of_adds Adapter.mem_add]
  simp

/-! ### Broadcasts -/

namespace InAddr

theorem ntohl_or (left right : InAddr) : (left.or right).ntohl = left.ntohl ||| right.ntohl := by
  simp only [ntohl, or, UInt8.toBitVec_or, ← BitVec.or_append]

theorem ntohl_not (address : InAddr) : address.not.ntohl = ~~~address.ntohl := by
  simp only [ntohl, not, UInt8.toBitVec_not, ← BitVec.not_append]

theorem htonl_ntohl (address : InAddr) : htonl address.ntohl = address := by
  obtain ⟨a, b, c, d⟩ := address
  simp only [htonl, ntohl, InAddr.mk.injEq, ← UInt8.toBitVec_inj]
  refine ⟨?_, ?_, ?_, ?_⟩
  all_goals
    refine BitVec.eq_of_getLsbD_eq fun index inside => ?_
    simp (disch := omega) only [BitVec.getLsbD_extractLsb', BitVec.getLsbD_append, inside,
      decide_true, Bool.true_and, if_true, if_pos, if_neg, Nat.add_sub_cancel_left, Nat.zero_add]
    try
      congr 1
      omega

theorem ntohl_htonl (number : BitVec 32) : (htonl number).ntohl = number := by
  unfold htonl ntohl
  refine BitVec.eq_of_getLsbD_eq fun index inside => ?_
  have bit : ∀ shift, index - shift < 8 → shift ≤ index →
      (decide (index - shift < 8) && number.getLsbD (shift + (index - shift))) =
        number.getLsbD index := by
    intro shift small below
    rw [decide_eq_true small, Bool.true_and, Nat.add_sub_cancel' below]
  simp only [BitVec.getLsbD_extractLsb', BitVec.getLsbD_append, Nat.sub_sub]
  split_ifs
  · exact bit 0 (by omega) (by omega)
  · exact bit 8 (by omega) (by omega)
  · exact bit 16 (by omega) (by omega)
  · exact bit 24 (by omega) (by omega)

theorem ntohl_inj {left right : InAddr} : left.ntohl = right.ntohl ↔ left = right := by
  refine ⟨fun same => ?_, fun same => by rw [same]⟩
  rw [← htonl_ntohl left, same, htonl_ntohl]

end InAddr

/-- The mask covers the bits of the prefix. -/
theorem getLsbD_prefixMask {length index : Nat} (inside : index < 32) :
    (prefixMask length).getLsbD index = decide (32 - length ≤ index) := by
  unfold prefixMask
  split
  next none =>
    rw [none, decide_eq_false (by omega)]
    exact BitVec.getLsbD_zero
  next some =>
    have ones : (0xFFFFFFFF#32) = BitVec.allOnes 32 := rfl
    rw [BitVec.getLsbD_shiftLeft, ones, BitVec.getLsbD_allOnes, decide_eq_true inside,
      decide_eq_true (by omega : index - (32 - length) < 32), Bool.true_and, Bool.and_true,
      ← decide_not, decide_eq_decide, not_lt]

/-- The network bits are those of the address, all others are set. -/
theorem getLsbD_prefixBroadcast (address : InAddr) {length index : Nat} (inside : index < 32) :
    (prefixBroadcast address length).ntohl.getLsbD index =
      (decide (index < 32 - length) || address.ntohl.getLsbD index) := by
  rw [prefixBroadcast, InAddr.ntohl_htonl, BitVec.getLsbD_or, BitVec.getLsbD_and,
    BitVec.getLsbD_not, getLsbD_prefixMask inside, decide_eq_true inside]
  by_cases host : index < 32 - length
  · rw [decide_eq_true host, decide_eq_false (not_le.mpr host)]
    simp
  · rw [decide_eq_false host, decide_eq_true (not_lt.mp host)]
    simp

/-- The broadcast that POSIX computes from the mask of a prefix is the one of Windows. -/
theorem or_not_prefixMask (address : InAddr) (length : Nat) :
    address.or (InAddr.htonl (prefixMask length)).not = prefixBroadcast address length := by
  rw [← InAddr.ntohl_inj]
  refine BitVec.eq_of_getLsbD_eq fun index inside => ?_
  rw [getLsbD_prefixBroadcast address inside, InAddr.ntohl_or, InAddr.ntohl_not,
    InAddr.ntohl_htonl, BitVec.getLsbD_or, BitVec.getLsbD_not, getLsbD_prefixMask inside,
    decide_eq_true inside, Bool.true_and, ← decide_not, decide_eq_decide.mpr not_le, Bool.or_comm]

/-- Both addresses have the same network bits. -/
def SameNetwork (length : Nat) (first second : InAddr) : Prop :=
  ∀ index < 32, 32 - length ≤ index →
    first.ntohl.getLsbD index = second.ntohl.getLsbD index

/-- A network and its directed broadcast determine each other. -/
theorem prefixBroadcast_eq_iff (first second : InAddr) (length : Nat) :
    prefixBroadcast first length = prefixBroadcast second length ↔
      SameNetwork length first second := by
  rw [← InAddr.ntohl_inj]
  constructor
  · intro same index inside network
    have bit := congrArg (BitVec.getLsbD · index) same
    simp only [getLsbD_prefixBroadcast _ inside, decide_eq_false (not_lt.mpr network),
      Bool.false_or] at bit
    exact bit
  · intro network
    refine BitVec.eq_of_getLsbD_eq fun index inside => ?_
    rw [getLsbD_prefixBroadcast first inside, getLsbD_prefixBroadcast second inside]
    by_cases host : index < 32 - length
    · rw [decide_eq_true host, Bool.true_or, Bool.true_or]
    · rw [network index inside (not_lt.mp host)]

/-! ### Both platforms -/

/-- The address texts of these targets are read back. -/
def Addressable (targets : List DiscoveryTarget) : Prop :=
  ∀ target ∈ targets, parseIpv4 target.bindAddress ≠ none ∧ parseIpv4 target.destination ≠ none

theorem TargetOf.addressable {address broadcast : InAddr} {target : DiscoveryTarget}
    (isTarget : TargetOf address broadcast target) :
    parseIpv4 target.bindAddress ≠ none ∧ parseIpv4 target.destination ≠ none := by
  have printed : ∀ address : InAddr, parseIpv4 address.ipv4String ≠ none := by
    intro address
    rw [InAddr.ipv4String, parseIpv4_dottedQuad]
    exact Option.some_ne_none _
  obtain ⟨bind, destination⟩ := isTarget
  refine ⟨bind ▸ printed address, ?_⟩
  rcases destination with directed | limited
  · exact directed ▸ printed broadcast
  · rw [limited]
    decide

theorem addressable_of_mem {targets : List DiscoveryTarget}
    (each : ∀ target ∈ targets, target = ⟨loopback, loopback⟩ ∨
      ∃ address broadcast, TargetOf address broadcast target) : Addressable targets := by
  intro target member
  rcases each target member with rfl | ⟨address, broadcast, isTarget⟩
  · decide
  · exact isTarget.addressable

/-- The list of targets is exact on both platforms. It ascends, so no target stands in it twice;
it holds the loopback target and for every address of an interface that is up the directed and
the limited broadcast, and nothing else; every text in it is an address; and it depends neither
on the sort nor on the order or the repetition of what the system lists, on Windows neither of the
adapters nor of the addresses inside one. -/
theorem discoveryTargets_exact {sort other : TargetSort} (sorts : Sorts sort)
    (sortsToo : Sorts other) :
    (∀ interfaces, Ascending (enumeratePosix sort interfaces) ∧
      Addressable (enumeratePosix sort interfaces) ∧
      (∀ target, target ∈ enumeratePosix sort interfaces ↔ target = ⟨loopback, loopback⟩ ∨
        ∃ item ∈ interfaces.getD [], ∃ address, item.Has address ∧
          TargetOf address (item.broadcast address) target) ∧
      ∀ others, (∀ item, item ∈ interfaces.getD [] ↔ item ∈ others) →
        enumeratePosix other (some others) = enumeratePosix sort interfaces) ∧
    ∀ adapters, Ascending (enumerateWindows sort adapters) ∧
      Addressable (enumerateWindows sort adapters) ∧
      (∀ target, target ∈ enumerateWindows sort adapters ↔ target = ⟨loopback, loopback⟩ ∨
        ∃ adapter ∈ adapters.getD [], ∃ address length, adapter.Has address length ∧
          TargetOf address (prefixBroadcast address length) target) ∧
      ∀ others, (∀ address length, (∃ adapter ∈ adapters.getD [], adapter.Has address length) ↔
          ∃ adapter ∈ others, adapter.Has address length) →
        enumerateWindows other (some others) = enumerateWindows sort adapters := by
  refine ⟨fun interfaces => ⟨(finishTargets_spec sorts _).1, ?_,
    mem_enumeratePosix sorts interfaces, fun others same => ?_⟩,
    fun adapters => ⟨(finishTargets_spec sorts _).1, ?_,
    mem_enumerateWindows sorts adapters, fun others same => ?_⟩⟩
  · refine addressable_of_mem fun target member => ?_
    refine ((mem_enumeratePosix sorts interfaces target).mp member).imp_right ?_
    rintro ⟨item, -, address, -, isTarget⟩
    exact ⟨address, _, isTarget⟩
  · refine (finishTargets_spec sortsToo _).1.ext (finishTargets_spec sorts _).1 fun target => ?_
    change target ∈ enumeratePosix other (some others) ↔ target ∈ enumeratePosix sort interfaces
    rw [mem_enumeratePosix sortsToo, mem_enumeratePosix sorts]
    simp only [same, Option.getD_some]
  · refine addressable_of_mem fun target member => ?_
    refine ((mem_enumerateWindows sorts adapters target).mp member).imp_right ?_
    rintro ⟨adapter, -, address, length, -, isTarget⟩
    exact ⟨address, _, isTarget⟩
  · refine (finishTargets_spec sortsToo _).1.ext (finishTargets_spec sorts _).1 fun target => ?_
    change target ∈ enumerateWindows other (some others) ↔ target ∈ enumerateWindows sort adapters
    rw [mem_enumerateWindows sortsToo, mem_enumerateWindows sorts, Option.getD_some]
    refine or_congr_right ⟨?_, ?_⟩
    · rintro ⟨adapter, member, address, length, has, isTarget⟩
      obtain ⟨twin, listed, hasToo⟩ := (same address length).mpr ⟨adapter, member, has⟩
      exact ⟨twin, listed, address, length, hasToo, isTarget⟩
    · rintro ⟨adapter, member, address, length, has, isTarget⟩
      obtain ⟨twin, listed, hasToo⟩ := (same address length).mp ⟨adapter, member, has⟩
      exact ⟨twin, listed, address, length, hasToo, isTarget⟩

/-- An interface with the mask of a prefix, and no other broadcast than the one of its network. -/
def Interface.Prefixed (item : Interface) (address : InAddr) (length : Nat) : Prop :=
  item.Has address ∧ item.netmask = some (.htonl (prefixMask length)) ∧
    ∀ broadcast ∈ item.broadaddr, broadcast = prefixBroadcast address length

theorem Interface.Prefixed.broadcast_eq {item : Interface} {address : InAddr} {length : Nat}
    (prefixed : item.Prefixed address length) :
    item.broadcast address = prefixBroadcast address length := by
  obtain ⟨-, mask, only⟩ := prefixed
  unfold Interface.broadcast
  cases given : item.broadaddr with
  | some broadcast => exact only broadcast given
  | none =>
    rw [mask]
    exact or_not_prefixMask address length

/-- Both platforms call the same targets. Where every IPv4 interface that is up has the mask of a
prefix and, if the system gives it a broadcast address, the one of that prefix, and both systems
list the same addresses with the same prefixes, in any order and grouping, the two branches return
the same list; and the directed broadcasts of two hosts are the same exactly if the hosts are on
one network. A loopback interface whose broadcast address is its own, as Linux has it, is outside
of this. -/
theorem discoveryTargets_agree {sort other : TargetSort} (sorts : Sorts sort)
    (sortsToo : Sorts other) (interfaces : List Interface) (adapters : List Adapter)
    (masked : ∀ item ∈ interfaces, ∀ address, item.Has address →
      ∃ length ≤ 32, item.Prefixed address length)
    (same : ∀ address, ∀ length ≤ 32, (∃ item ∈ interfaces, item.Prefixed address length) ↔
      ∃ adapter ∈ adapters, adapter.Has address length) :
    enumeratePosix sort (some interfaces) = enumerateWindows other (some adapters) ∧
      ∀ first second length, prefixBroadcast first length = prefixBroadcast second length ↔
        SameNetwork length first second := by
  refine ⟨?_, prefixBroadcast_eq_iff⟩
  refine (finishTargets_spec sorts _).1.ext (finishTargets_spec sortsToo _).1 fun target => ?_
  change target ∈ enumeratePosix sort (some interfaces) ↔
    target ∈ enumerateWindows other (some adapters)
  rw [mem_enumeratePosix sorts, mem_enumerateWindows sortsToo, Option.getD_some, Option.getD_some]
  refine or_congr_right ⟨?_, ?_⟩
  · rintro ⟨item, member, address, has, isTarget⟩
    obtain ⟨length, short, prefixed⟩ := masked item member address has
    obtain ⟨adapter, listed, hasToo⟩ := (same address length short).mp ⟨item, member, prefixed⟩
    exact ⟨adapter, listed, address, length, hasToo, prefixed.broadcast_eq ▸ isTarget⟩
  · rintro ⟨adapter, listed, address, length, has, isTarget⟩
    obtain ⟨item, member, prefixed⟩ :=
      (same address length has.length_le).mpr ⟨adapter, listed, has⟩
    exact ⟨item, member, address, prefixed.1, prefixed.broadcast_eq.symm ▸ isTarget⟩

/-- A host in 10.1.0.0/16, as both systems list it. -/
def officeInterfaces : List Interface :=
  [⟨some (.inet ⟨10, 1, 2, 3⟩), true, none, some ⟨255, 255, 0, 0⟩⟩,
    ⟨some .other, true, none, none⟩, ⟨none, true, none, none⟩]

def officeAdapters : List Adapter :=
  [⟨false, [⟨some (.inet ⟨172, 16, 0, 9⟩), 24⟩]⟩,
    ⟨true, [⟨some .other, 64⟩, ⟨some (.inet ⟨10, 1, 2, 3⟩), 16⟩]⟩]

theorem mem_officeInterfaces {item : Interface} (member : item ∈ officeInterfaces)
    {address : InAddr} (has : item.Has address) :
    address = ⟨10, 1, 2, 3⟩ ∧ item = ⟨some (.inet ⟨10, 1, 2, 3⟩), true, none,
      some ⟨255, 255, 0, 0⟩⟩ := by
  obtain ⟨-, is⟩ := has
  simp only [officeInterfaces, List.mem_cons, List.not_mem_nil, or_false] at member
  rcases member with rfl | rfl | rfl
  · cases is
    exact ⟨rfl, rfl⟩
  · cases is
  · cases is

theorem mem_officeAdapters {adapter : Adapter} (member : adapter ∈ officeAdapters)
    {address : InAddr} {length : Nat} (has : adapter.Has address length) :
    address = ⟨10, 1, 2, 3⟩ ∧ length = 16 := by
  obtain ⟨up, unicast, inside, is, rfl⟩ := has
  simp only [officeAdapters, List.mem_cons, List.not_mem_nil, or_false] at member
  rcases member with rfl | rfl
  · cases up
  · simp only [List.mem_cons, List.not_mem_nil, or_false] at inside
    rcases inside with rfl | rfl
    · cases is
    · cases is
      exact ⟨rfl, rfl⟩

theorem prefixed_office : Interface.Prefixed
    ⟨some (.inet ⟨10, 1, 2, 3⟩), true, none, some ⟨255, 255, 0, 0⟩⟩ ⟨10, 1, 2, 3⟩ 16 :=
  ⟨⟨rfl, rfl⟩, by decide, fun _ never => by cases never⟩

/-- The directed broadcast of the host is one of its targets. -/
theorem discoveryTargets_exact_office :
    (⟨ascii "10.1.2.3", ascii "10.1.255.255"⟩ : DiscoveryTarget) ∈
      enumeratePosix Selection.mergeSort (some officeInterfaces) :=
  (((discoveryTargets_exact mergeSort_sorts mergeSort_sorts).1 (some officeInterfaces)).2.2.1
    ⟨ascii "10.1.2.3", ascii "10.1.255.255"⟩).mpr
      (.inr ⟨_, List.mem_cons_self, ⟨10, 1, 2, 3⟩, ⟨rfl, rfl⟩, by decide, .inl (by decide)⟩)

/-- Both branches list the same targets for the host. -/
theorem discoveryTargets_agree_office :
    enumeratePosix Selection.mergeSort (some officeInterfaces) =
      enumerateWindows Selection.mergeSort (some officeAdapters) := by
  refine (discoveryTargets_agree mergeSort_sorts mergeSort_sorts officeInterfaces officeAdapters
    (fun item member address has => ?_) fun address length short => ⟨?_, ?_⟩).1
  · obtain ⟨rfl, rfl⟩ := mem_officeInterfaces member has
    exact ⟨16, by decide, prefixed_office⟩
  · rintro ⟨item, member, has, mask, -⟩
    obtain ⟨rfl, rfl⟩ := mem_officeInterfaces member has
    have only : ∀ length ≤ 32, some (⟨255, 255, 0, 0⟩ : InAddr) =
        some (.htonl (prefixMask length)) → length = 16 := by decide
    obtain rfl := only length short mask
    exact ⟨_, List.mem_cons_of_mem _ List.mem_cons_self, rfl, _,
      List.mem_cons_of_mem _ List.mem_cons_self, rfl, by decide⟩
  · rintro ⟨adapter, member, has⟩
    obtain ⟨rfl, rfl⟩ := mem_officeAdapters member has
    exact ⟨_, List.mem_cons_self, prefixed_office⟩

end HyperLink
