/-
This file is `src/session.cpp` over an arbitrary transport: what a session does
with the transport it owns, and any number of sessions that are constructed,
used, moved and destroyed in any order.

A session owns its transport, so the transport is part of the session's state
and moves with it. Calls on the transport that matter outside the session are
logged. What the log says about a transport is then compared with the flag of
the session that holds it.
-/

import HyperLink.AutoConfig
import HyperLink.Runs
import Mathlib.Logic.Equiv.Basic

namespace HyperLink

/-- The exceptions of the library, with their messages. -/
inductive Exception where
  | invalidArgument (message : Bytes)
  | logicError (message : Bytes)
  | runtimeError (message : Bytes)
  deriving DecidableEq, Repr

inductive UsbSpeed where
  | unknown
  | lowSpeed
  | fullSpeed
  | highSpeed
  | superSpeed
  | superSpeedPlus
  | usb4_20Gbps
  | usb4_40Gbps
  | usb4_80Gbps
  deriving DecidableEq, Repr

structure PeerInfo where
  id : Bytes
  displayName : Bytes
  vendorId : UInt16 := 0
  productId : UInt16 := 0
  usbSpeed : UsbSpeed := .unknown
  theoreticalBitsPerSecond : UInt64 := 0
  supportsHighSpeed : Bool := false
  supportsSuperSpeed : Bool := false
  deriving DecidableEq, Repr

/-- The virtual functions of `Transport`, on the state of one transport, and what a transport
is made from. In each call the outside makes a choice. `receive_into` is given the size of the
buffer and answers with the bytes it put there. -/
structure Transport (Made Self Choice : Type) where
  make : Made → Self
  discover : Self → AutoConfigOptions → Choice → Except Exception (List PeerInfo) × Self
  connect : Self → PeerInfo → NegotiatedConfig → Choice → Except Exception Unit × Self
  send : Self → Bytes → Choice → Except Exception Nat × Self
  receive : Self → Nat → Choice → Except Exception Bytes × Self
  receiveInto : Self → Nat → Choice → Except Exception Bytes × Self
  close : Self → Choice → Self

/-- A transport on the heap: which one it is, and its state. -/
structure Held (Self : Type) where
  id : Nat
  self : Self
  deriving DecidableEq

structure Session (Self : Type) where
  transport : Option (Held Self)
  connected : Bool := false
  deriving DecidableEq

/-- The calls on transports that are logged. A connection is logged when the call returns. -/
inductive Event where
  | connected (id : Nat)
  | closed (id : Nat)
  | deleted (id : Nat)
  deriving DecidableEq, Repr

inductive Returned where
  | nothing
  | peers (peers : List PeerInfo)
  | count (count : Nat)
  | bytes (bytes : Bytes)
  deriving DecidableEq, Repr

/-- How a call on a session ends. A null dereference has no defined continuation; the state
is left as it was. A call on a session that does not exist cannot be made. -/
inductive CallOutcome where
  | returned (value : Returned)
  | threw (exception : Exception)
  | nullDereference
  | absent
  deriving DecidableEq, Repr

def CallOutcome.of {Value : Type} (wrap : Value → Returned) : Except Exception Value → CallOutcome
  | .ok value => .returned (wrap value)
  | .error exception => .threw exception

def notConnected : Exception := .logicError (ascii "Session is not connected")

namespace Session

variable {Made Self Choice Value : Type}

/-- A call through `transport_`. -/
def call (session : Session Self) (wrap : Value → Returned)
    (method : Self → Except Exception Value × Self) : CallOutcome × Session Self :=
  match session.transport with
  | none => (.nullDereference, session)
  | some held =>
      (.of wrap (method held.self).1,
        { session with transport := some { held with self := (method held.self).2 } })

/-- A call that a session without a connection refuses. -/
def callConnected (session : Session Self) (wrap : Value → Returned)
    (method : Self → Except Exception Value × Self) : CallOutcome × Session Self :=
  if session.connected then session.call wrap method else (.threw notConnected, session)

variable (interface : Transport Made Self Choice)

def discover (session : Session Self) (options : AutoConfigOptions) (choice : Choice) :
    CallOutcome × Session Self :=
  match validate options with
  | some error => (.threw (.invalidArgument error), session)
  | none => session.call .peers fun self => interface.discover self options choice

/-- The outcome of `connect`, what it logs and the session after it. -/
def connect (session : Session Self) (peer : PeerInfo)
    (localOptions peerOptions : AutoConfigOptions) (sessionName : Bytes) (choice : Choice) :
    CallOutcome × List Event × Session Self :=
  match negotiate localOptions peerOptions sessionName with
  | .error error => (.threw (.invalidArgument error), [], session)
  | .ok config =>
      match session.transport with
      | none => (.nullDereference, [], session)
      | some held =>
          match interface.connect held.self peer config choice with
          | (.error exception, self) =>
              (.threw exception, [],
                { session with transport := some { held with self := self } })
          | (.ok _, self) =>
              (.returned .nothing, [.connected held.id],
                { transport := some { held with self := self }, connected := true })

def send (session : Session Self) (payload : Bytes) (choice : Choice) :
    CallOutcome × Session Self :=
  session.callConnected .count fun self => interface.send self payload choice

def receive (session : Session Self) (maxBytes : Nat) (choice : Choice) :
    CallOutcome × Session Self :=
  session.callConnected .bytes fun self => interface.receive self maxBytes choice

def receiveInto (session : Session Self) (size : Nat) (choice : Choice) :
    CallOutcome × Session Self :=
  session.callConnected .bytes fun self => interface.receiveInto self size choice

def close (session : Session Self) (choice : Choice) : List Event × Session Self :=
  match session.transport, session.connected with
  | some held, true =>
      ([.closed held.id],
        { transport := some { held with self := interface.close held.self choice },
          connected := false })
  | _, _ => ([], session)

/-- The pointer deletes what it holds. -/
def release (session : Session Self) : List Event × Session Self :=
  match session.transport with
  | some held => ([.deleted held.id], { session with transport := none })
  | none => ([], session)

end Session

/-- The sessions that exist by name, the number of transports made so far, and the log, the
latest call first. -/
structure Sessions (Self : Type) where
  sessions : Nat → Option (Session Self)
  created : Nat
  log : List Event

inductive Operation (Made Choice : Type) where
  | construct (name : Nat) (transport : Option Made)
  | discover (name : Nat) (options : AutoConfigOptions) (choice : Choice)
  | connect (name : Nat) (peer : PeerInfo) (localOptions peerOptions : AutoConfigOptions)
      (sessionName : Bytes) (choice : Choice)
  | send (name : Nat) (payload : Bytes) (choice : Choice)
  | receive (name : Nat) (maxBytes : Nat) (choice : Choice)
  | receiveInto (name : Nat) (size : Nat) (choice : Choice)
  | close (name : Nat) (choice : Choice)
  | moveConstruct (name other : Nat)
  | moveAssign (name other : Nat) (choice : Choice)
  | destroy (name : Nat) (choice : Choice)

namespace Sessions

variable {Made Self Choice : Type}

def initial : Sessions Self where
  sessions _ := none
  created := 0
  log := []

def put (world : Sessions Self) (name : Nat) (session : Option (Session Self))
    (events : List Event) : Sessions Self :=
  { world with
    sessions := Function.update world.sessions name session
    log := events ++ world.log }

/-- A call on a session that logs nothing. -/
def on (world : Sessions Self) (name : Nat) (method : Session Self → CallOutcome × Session Self) :
    CallOutcome × Sessions Self :=
  match world.sessions name with
  | none => (.absent, world)
  | some session => ((method session).1, world.put name (some (method session).2) [])

/-- A session's transport is closed and deleted, and the session holds none. -/
def vacate (interface : Transport Made Self Choice) (world : Sessions Self) (name : Nat)
    (session : Session Self) (choice : Choice) : Sessions Self :=
  let closed := session.close interface choice
  let released := closed.2.release
  (world.put name (some closed.2) closed.1).put name (some released.2) released.1

def perform (interface : Transport Made Self Choice) (world : Sessions Self) :
    Operation Made Choice → CallOutcome × Sessions Self
  | .construct name transport =>
      match world.sessions name, transport with
      | some _, _ => (.absent, world)
      | none, none =>
          (.threw (.invalidArgument (ascii "Session requires a transport")), world)
      | none, some made =>
          (.returned .nothing,
            { world.put name (some { transport := some ⟨world.created, interface.make made⟩ }) []
              with
              created := world.created + 1 })
  | .discover name options choice =>
      world.on name fun session => session.discover interface options choice
  | .connect name peer localOptions peerOptions sessionName choice =>
      match world.sessions name with
      | none => (.absent, world)
      | some session =>
          match session.connect interface peer localOptions peerOptions sessionName choice with
          | (outcome, events, session) => (outcome, world.put name (some session) events)
  | .send name payload choice =>
      world.on name fun session => session.send interface payload choice
  | .receive name maxBytes choice =>
      world.on name fun session => session.receive interface maxBytes choice
  | .receiveInto name size choice =>
      world.on name fun session => session.receiveInto interface size choice
  | .close name choice =>
      match world.sessions name with
      | none => (.absent, world)
      | some session =>
          (.returned .nothing, world.put name (some (session.close interface choice).2)
            (session.close interface choice).1)
  | .moveConstruct name other =>
      -- The defaulted constructor moves the pointer and copies the flag.
      match world.sessions name, world.sessions other with
      | none, some source =>
          (.returned .nothing, (world.put name (some source) []).put other
            (some { source with transport := none }) [])
      | _, _ => (.absent, world)
  | .moveAssign name other choice =>
      match world.sessions name, world.sessions other with
      | some session, some source =>
          if name = other then (.returned .nothing, world)
          else
            (.returned .nothing, ((world.vacate interface name session choice).put name
              (some source) []).put other (some { transport := none, connected := false }) [])
      | _, _ => (.absent, world)
  | .destroy name choice =>
      match world.sessions name with
      | none => (.absent, world)
      | some session =>
          (.returned .nothing, (world.vacate interface name session choice).put name none [])

def next (interface : Transport Made Self Choice) (world : Sessions Self)
    (operation : Operation Made Choice) : Sessions Self :=
  (world.perform interface operation).2

end Sessions

/-! ### What a call does to its session -/

namespace Session

variable {Made Self Choice Value : Type}

/-- Which transport the session holds. -/
def heldId (session : Session Self) : Option Nat := session.transport.map Held.id

/-- What happens to a session under what is logged: it keeps its transport and its flag, or
its transport is connected, closed or deleted. -/
inductive Change : Session Self → List Event → Session Self → Prop where
  | quiet {session later : Session Self} (same : later.heldId = session.heldId)
      (flag : later.connected = session.connected) : Change session [] later
  | connects {session later : Session Self} {id : Nat} (held : session.heldId = some id)
      (same : later.heldId = some id) (flag : later.connected = true) :
      Change session [.connected id] later
  | closes {session later : Session Self} {id : Nat} (held : session.heldId = some id)
      (open_ : session.connected = true) (same : later.heldId = some id)
      (flag : later.connected = false) : Change session [.closed id] later
  | deletes {session later : Session Self} {id : Nat} (held : session.heldId = some id)
      (shut : session.connected = false) (gone : later.heldId = none)
      (flag : later.connected = false) : Change session [.deleted id] later

theorem call_change (session : Session Self) (wrap : Value → Returned)
    (method : Self → Except Exception Value × Self) :
    Change session [] (session.call wrap method).2 := by
  unfold call
  split
  · exact .quiet rfl rfl
  · rename_i held holds
    exact .quiet (by simp [heldId, holds]) rfl

theorem callConnected_change (session : Session Self) (wrap : Value → Returned)
    (method : Self → Except Exception Value × Self) :
    Change session [] (session.callConnected wrap method).2 := by
  unfold callConnected
  split
  · exact call_change session wrap method
  · exact .quiet rfl rfl

variable (interface : Transport Made Self Choice)

theorem discover_change (session : Session Self) (options : AutoConfigOptions)
    (choice : Choice) : Change session [] (session.discover interface options choice).2 := by
  unfold discover
  split
  · exact .quiet rfl rfl
  · exact call_change session _ _

theorem connect_change (session : Session Self) (peer : PeerInfo)
    (localOptions peerOptions : AutoConfigOptions) (sessionName : Bytes) (choice : Choice) :
    Change session
      (session.connect interface peer localOptions peerOptions sessionName choice).2.1
      (session.connect interface peer localOptions peerOptions sessionName choice).2.2 := by
  unfold connect
  split
  · exact .quiet rfl rfl
  · split
    · exact .quiet rfl rfl
    · rename_i held holds
      split
      · exact .quiet (by simp [heldId, holds]) rfl
      · exact .connects (by simp [heldId, holds]) rfl rfl

theorem close_change (session : Session Self) (choice : Choice) :
    Change session (session.close interface choice).1 (session.close interface choice).2 := by
  unfold close
  split
  · rename_i held holds flag
    exact .closes (by simp [heldId, holds]) flag rfl rfl
  · exact .quiet rfl rfl

/-- A session whose flag is right is not connected after `close`. -/
theorem close_connected {session : Session Self}
    (whole : session.connected = true → session.heldId ≠ none) (choice : Choice) :
    (session.close interface choice).2.connected = false := by
  unfold close
  split
  · rfl
  · rename_i other
    cases flag : session.connected with
    | false => rfl
    | true =>
      cases holds : session.transport with
      | none => exact absurd (by simp [heldId, holds]) (whole flag)
      | some held => exact (other held holds flag).elim

theorem release_change {session : Session Self} (shut : session.connected = false) :
    Change session session.release.1 session.release.2 := by
  unfold release
  split
  · rename_i held holds
    exact .deletes (by simp [heldId, holds]) shut rfl shut
  · exact .quiet rfl rfl

theorem release_heldId (session : Session Self) : session.release.2.heldId = none := by
  unfold release
  split
  · rfl
  · rename_i holds
    simp [heldId, holds]

theorem release_connected (session : Session Self) :
    session.release.2.connected = session.connected := by
  unfold release
  split <;> rfl

end Session

/-! ### The log and the flags -/

/-- The last logged connection of a transport has not been closed since. -/
def pending (id : Nat) : List Event → Bool
  | [] => false
  | .connected other :: log => other = id || pending id log
  | .closed other :: log => other ≠ id && pending id log
  | .deleted _ :: log => pending id log

namespace Sessions

variable {Made Self Choice : Type} {world : Sessions Self} {name other : Nat}

def holds (world : Sessions Self) (name : Nat) : Option Nat :=
  (world.sessions name).bind Session.heldId

def flag (world : Sessions Self) (name : Nat) : Bool :=
  (world.sessions name).any Session.connected

theorem holds_of_session {session : Session Self} (here : world.sessions name = some session) :
    world.holds name = session.heldId := by
  simp [holds, here]

theorem flag_of_session {session : Session Self} (here : world.sessions name = some session) :
    world.flag name = session.connected := by
  simp [flag, here]

theorem sessions_put (world : Sessions Self) (name : Nat) (session : Option (Session Self))
    (events : List Event) :
    (world.put name session events).sessions = Function.update world.sessions name session := rfl

@[simp]
theorem holds_put (world : Sessions Self) (name : Nat) (session : Option (Session Self))
    (events : List Event) :
    (world.put name session events).holds =
      Function.update world.holds name (session.bind Session.heldId) := by
  funext other
  by_cases same : other = name
  · subst same
    simp [holds, put]
  · simp [holds, put, same]

@[simp]
theorem flag_put (world : Sessions Self) (name : Nat) (session : Option (Session Self))
    (events : List Event) :
    (world.put name session events).flag =
      Function.update world.flag name (session.any Session.connected) := by
  funext other
  by_cases same : other = name
  · subst same
    simp [flag, put]
  · simp [flag, put, same]

@[simp]
theorem log_put (world : Sessions Self) (name : Nat) (session : Option (Session Self))
    (events : List Event) : (world.put name session events).log = events ++ world.log := rfl

@[simp]
theorem created_put (world : Sessions Self) (name : Nat) (session : Option (Session Self))
    (events : List Event) : (world.put name session events).created = world.created := rfl

/-- No transport is held twice, and the ones held have been made. This needs no care: a
pointer that is moved leaves nothing behind. -/
structure Owned (world : Sessions Self) : Prop where
  unique : ∀ name other id, world.holds name = some id → world.holds other = some id →
    name = other
  bounded : ∀ name id, world.holds name = some id → id < world.created

/-- The flags are right: only a session that holds a transport is connected, and the
connected transports are those held by a connected session. -/
structure Sound (world : Sessions Self) : Prop extends Owned world where
  whole : ∀ name, world.flag name = true → world.holds name ≠ none
  tracked : ∀ id, pending id world.log = true ↔
    ∃ name, world.holds name = some id ∧ world.flag name = true

theorem sound_initial : (initial : Sessions Self).Sound where
  unique := by
    intro name other id held
    cases held
  bounded := by
    intro name id held
    cases held
  whole := by
    intro name connected
    cases connected
  tracked := by
    intro id
    simp [initial, pending, flag]

/-- Only who holds what, the flags and the log matter. -/
theorem Sound.congr {later : Sessions Self} (sound : world.Sound)
    (holds : later.holds = world.holds) (flag : later.flag = world.flag)
    (created : later.created = world.created) (log : later.log = world.log) : later.Sound where
  unique := by
    rw [holds]
    exact sound.unique
  bounded := by
    rw [holds, created]
    exact sound.bounded
  whole := by
    rw [holds, flag]
    exact sound.whole
  tracked := by
    rw [holds, flag, log]
    exact sound.tracked

section change

variable {session later : Session Self} {id : Nat}

/-- A change of the flag alone. -/
theorem Sound.reflag {event : Event} (sound : world.Sound)
    (here : world.sessions name = some session) (held : session.heldId = some id)
    (same : later.heldId = some id)
    (tracked : ∀ wanted, pending wanted (event :: world.log) = true ↔
      ∃ other, world.holds other = some wanted ∧
        Function.update world.flag name later.connected other = true) :
    (world.put name (some later) [event]).Sound := by
  have mine : world.holds name = some id := (holds_of_session here).trans held
  have holds : (world.put name (some later) [event]).holds = world.holds := by
    rw [holds_put, Option.bind_some, same, ← mine, Function.update_eq_self]
  refine ⟨⟨by rw [holds]; exact sound.unique, by rw [holds]; exact sound.bounded⟩, ?_, ?_⟩
  · intro other connected
    rw [holds]
    by_cases own : other = name
    · rw [own, mine]
      simp
    · rw [flag_put, Function.update_of_ne own] at connected
      exact sound.whole other connected
  · intro wanted
    rw [holds, flag_put]
    exact tracked wanted

theorem Sound.connects (sound : world.Sound) (here : world.sessions name = some session)
    (held : session.heldId = some id) (same : later.heldId = some id)
    (flag : later.connected = true) : (world.put name (some later) [.connected id]).Sound := by
  have mine : world.holds name = some id := (holds_of_session here).trans held
  refine sound.reflag here held same ?_
  intro wanted
  simp only [pending, Bool.or_eq_true, decide_eq_true_eq, sound.tracked, flag]
  constructor
  · rintro (rfl | ⟨other, holds, connected⟩)
    · exact ⟨name, mine, Function.update_self ..⟩
    · by_cases own : other = name
      · exact ⟨name, own ▸ holds, Function.update_self ..⟩
      · exact ⟨other, holds, by rwa [Function.update_of_ne own]⟩
  · rintro ⟨other, holds, connected⟩
    by_cases own : other = name
    · rw [own, mine] at holds
      exact .inl (Option.some.inj holds)
    · rw [Function.update_of_ne own] at connected
      exact .inr ⟨other, holds, connected⟩

theorem Sound.closes (sound : world.Sound) (here : world.sessions name = some session)
    (held : session.heldId = some id) (same : later.heldId = some id)
    (flag : later.connected = false) : (world.put name (some later) [.closed id]).Sound := by
  have mine : world.holds name = some id := (holds_of_session here).trans held
  refine sound.reflag here held same ?_
  intro wanted
  simp only [pending, Bool.and_eq_true, decide_eq_true_eq, sound.tracked, flag]
  constructor
  · rintro ⟨different, other, holds, connected⟩
    have notOwn : other ≠ name := by
      rintro rfl
      rw [mine] at holds
      exact different (Option.some.inj holds)
    exact ⟨other, holds, by rwa [Function.update_of_ne notOwn]⟩
  · rintro ⟨other, holds, connected⟩
    have notOwn : other ≠ name := by
      rintro rfl
      rw [Function.update_self] at connected
      cases connected
    rw [Function.update_of_ne notOwn] at connected
    refine ⟨?_, other, holds, connected⟩
    rintro rfl
    exact notOwn (sound.unique _ _ _ holds mine)

theorem Sound.deletes (sound : world.Sound) (here : world.sessions name = some session)
    (shut : session.connected = false) (gone : later.heldId = none)
    (flag : later.connected = false) : (world.put name (some later) [.deleted id]).Sound := by
  have flagged := flag_of_session here
  have flags : (world.put name (some later) [.deleted id]).flag = world.flag := by
    rw [flag_put, Option.any_some, flag, ← shut, ← flagged, Function.update_eq_self]
  have holds : ∀ other wanted,
      (world.put name (some later) [.deleted id]).holds other = some wanted →
        world.holds other = some wanted := by
    intro other wanted holdsLater
    rw [holds_put, Option.bind_some, gone] at holdsLater
    by_cases own : other = name
    · rw [own, Function.update_self] at holdsLater
      cases holdsLater
    · rwa [Function.update_of_ne own] at holdsLater
  have notOwn : ∀ other, world.flag other = true → other ≠ name := by
    rintro other connected rfl
    rw [flagged, shut] at connected
    cases connected
  refine ⟨⟨?_, ?_⟩, ?_, ?_⟩
  · intro first second wanted firstHolds secondHolds
    exact sound.unique _ _ wanted (holds _ _ firstHolds) (holds _ _ secondHolds)
  · intro other wanted holdsLater
    exact sound.bounded _ _ (holds _ _ holdsLater)
  · intro other connected
    rw [flags] at connected
    rw [holds_put, Function.update_of_ne (notOwn other connected)]
    exact sound.whole other connected
  · intro wanted
    rw [flags, log_put, List.singleton_append, pending, sound.tracked]
    constructor
    · rintro ⟨other, holdsOther, connected⟩
      refine ⟨other, ?_, connected⟩
      rw [holds_put, Function.update_of_ne (notOwn other connected)]
      exact holdsOther
    · rintro ⟨other, holdsLater, connected⟩
      exact ⟨other, holds _ _ holdsLater, connected⟩

/-- A session takes part in a change of its own. -/
theorem Sound.put {events : List Event} (sound : world.Sound)
    (here : world.sessions name = some session) (change : session.Change events later) :
    (world.put name (some later) events).Sound := by
  have held := holds_of_session here
  have flagged := flag_of_session here
  cases change with
  | quiet same flag =>
    refine sound.congr ?_ ?_ rfl rfl
    · rw [holds_put, Option.bind_some, same, ← held, Function.update_eq_self]
    · rw [flag_put, Option.any_some, flag, ← flagged, Function.update_eq_self]
  | connects held same flag => exact sound.connects here held same flag
  | closes held _ same flag => exact sound.closes here held same flag
  | deletes _ shut gone flag => exact sound.deletes here shut gone flag

end change

section moves

variable {session source : Session Self} (interface : Transport Made Self Choice)

/-- What is closed and deleted leaves an empty session. -/
theorem Sound.vacate (sound : world.Sound) (here : world.sessions name = some session)
    (choice : Choice) :
    (world.vacate interface name session choice).Sound ∧
      (world.vacate interface name session choice).holds name = none ∧
      (world.vacate interface name session choice).flag name = false := by
  have whole : session.connected = true → session.heldId ≠ none := by
    intro connected
    rw [← flag_of_session here] at connected
    rw [← holds_of_session here]
    exact sound.whole name connected
  have shut := Session.close_connected interface whole choice
  refine ⟨?_, ?_, ?_⟩
  · exact (sound.put here (session.close_change interface choice)).put
      (Function.update_self ..) (Session.release_change shut)
  · rw [Sessions.vacate, holds_put, Function.update_self, Option.bind_some,
      Session.release_heldId]
  · rw [Sessions.vacate, flag_put, Function.update_self, Option.any_some,
      Session.release_connected, shut]

theorem vacate_sessions (distinct : name ≠ other) (choice : Choice) :
    (world.vacate interface name session choice).sessions other = world.sessions other := by
  simp [Sessions.vacate, Sessions.put, distinct.symm]

/-- The content of a session moves to an empty one. -/
theorem Sound.transfer (sound : world.Sound) (vacant : world.holds name = none)
    (shut : world.flag name = false) (there : world.sessions other = some source)
    (distinct : name ≠ other) :
    ((world.put name (some source) []).put other
      (some { transport := none, connected := false }) []).Sound := by
  have held := holds_of_session there
  have flagged := flag_of_session there
  -- Names are exchanged: what the one held, the other holds.
  have holds : ((world.put name (some source) []).put other
      (some { transport := none, connected := false }) []).holds =
        world.holds ∘ Equiv.swap name other := by
    rw [holds_put, holds_put, Option.bind_some, Option.bind_some, ← held,
      Equiv.comp_swap_eq_update, Function.update_comm distinct, vacant]
    rfl
  have flags : ((world.put name (some source) []).put other
      (some { transport := none, connected := false }) []).flag =
        world.flag ∘ Equiv.swap name other := by
    rw [flag_put, flag_put, Option.any_some, Option.any_some, ← flagged,
      Equiv.comp_swap_eq_update, Function.update_comm distinct, shut]
  refine ⟨⟨?_, ?_⟩, ?_, ?_⟩
  · intro first second id firstHolds secondHolds
    rw [holds] at firstHolds secondHolds
    exact (Equiv.swap name other).injective (sound.unique _ _ _ firstHolds secondHolds)
  · intro third id holdsThird
    rw [holds] at holdsThird
    exact sound.bounded _ _ holdsThird
  · intro third connected
    rw [flags] at connected
    rw [holds]
    exact sound.whole _ connected
  · intro id
    rw [holds, flags, log_put, log_put, List.nil_append, List.nil_append, sound.tracked]
    constructor
    · rintro ⟨third, holdsThird, connected⟩
      refine ⟨Equiv.swap name other third, ?_, ?_⟩
      · rw [Function.comp_apply, Equiv.swap_apply_self, holdsThird]
      · rw [Function.comp_apply, Equiv.swap_apply_self, connected]
    · rintro ⟨third, holdsThird, connected⟩
      exact ⟨_, holdsThird, connected⟩

/-- A new session holds a new transport. -/
theorem Sound.construct (sound : world.Sound) (free : world.sessions name = none) (self : Self) :
    ({ world.put name (some { transport := some ⟨world.created, self⟩ }) [] with
      created := world.created + 1 } : Sessions Self).Sound := by
  have empty : world.flag name = false := by
    simp [flag, free]
  have flags : (world.put name (some { transport := some ⟨world.created, self⟩ }) []).flag =
      world.flag := by
    rw [flag_put, Option.any_some, ← empty, Function.update_eq_self]
  have holds : ∀ other id,
      (world.put name (some { transport := some ⟨world.created, self⟩ }) []).holds other = some id →
        (other = name ∧ id = world.created) ∨ (other ≠ name ∧ world.holds other = some id) := by
    intro other id holdsLater
    rw [holds_put] at holdsLater
    by_cases own : other = name
    · rw [own, Function.update_self] at holdsLater
      exact .inl ⟨own, (Option.some.inj holdsLater).symm⟩
    · rw [Function.update_of_ne own] at holdsLater
      exact .inr ⟨own, holdsLater⟩
  have notOwn : ∀ other, world.flag other = true → other ≠ name := by
    rintro other connected rfl
    rw [empty] at connected
    cases connected
  refine ⟨⟨?_, ?_⟩, ?_, ?_⟩
  · intro first second id firstHolds secondHolds
    rcases holds _ _ firstHolds with ⟨isFirst, new⟩ | ⟨-, old⟩
    · rcases holds _ _ secondHolds with ⟨isSecond, -⟩ | ⟨-, old⟩
      · exact isFirst.trans isSecond.symm
      · exact absurd (sound.bounded _ _ old) (by omega)
    · rcases holds _ _ secondHolds with ⟨-, new⟩ | ⟨-, oldToo⟩
      · exact absurd (sound.bounded _ _ old) (by omega)
      · exact sound.unique _ _ _ old oldToo
  · intro other id holdsLater
    rcases holds _ _ holdsLater with ⟨-, new⟩ | ⟨-, old⟩
    · exact new ▸ Nat.lt_succ_self _
    · exact (sound.bounded _ _ old).trans (Nat.lt_succ_self _)
  · intro other connected
    change (world.put name _ []).flag other = true at connected
    rw [flags] at connected
    show (world.put name _ []).holds other ≠ none
    rw [holds_put, Function.update_of_ne (notOwn other connected)]
    exact sound.whole other connected
  · intro id
    show pending id world.log = true ↔ ∃ other, (world.put name _ []).holds other = some id ∧
      (world.put name _ []).flag other = true
    rw [flags, sound.tracked]
    constructor
    · rintro ⟨other, holdsOther, connected⟩
      refine ⟨other, ?_, connected⟩
      rw [holds_put, Function.update_of_ne (notOwn other connected)]
      exact holdsOther
    · rintro ⟨other, holdsLater, connected⟩
      rcases holds _ _ holdsLater with ⟨own, -⟩ | ⟨-, old⟩
      · exact absurd own (notOwn other connected)
      · exact ⟨other, old, connected⟩

theorem Sound.on (sound : world.Sound) {method : Session Self → CallOutcome × Session Self}
    (change : ∀ session, Session.Change session [] (method session).2) :
    (world.on name method).2.Sound := by
  unfold Sessions.on
  split
  · exact sound
  · rename_i session here
    exact sound.put here (change session)

/-- The one step that breaks the flags: a session is constructed from a connected one. -/
def MovesConnected (world : Sessions Self) : Operation Made Choice → Prop
  | .moveConstruct name other => world.sessions name = none ∧ world.flag other = true
  | _ => False

theorem Sound.next (sound : world.Sound) {operation : Operation Made Choice}
    (spared : ¬ world.MovesConnected operation) : (world.next interface operation).Sound := by
  unfold Sessions.next
  cases operation with
  | construct name transport =>
    simp only [perform]
    split
    · exact sound
    · exact sound
    · rename_i made free
      exact sound.construct free (interface.make made)
  | discover name options choice =>
    exact sound.on fun session => session.discover_change interface options choice
  | connect name peer localOptions peerOptions sessionName choice =>
    simp only [perform]
    split
    · exact sound
    · rename_i session here
      exact sound.put here (session.connect_change interface peer localOptions peerOptions
        sessionName choice)
  | send name payload choice => exact sound.on fun session => session.callConnected_change _ _
  | receive name maxBytes choice => exact sound.on fun session => session.callConnected_change _ _
  | receiveInto name size choice => exact sound.on fun session => session.callConnected_change _ _
  | close name choice =>
    simp only [perform]
    split
    · exact sound
    · rename_i session here
      exact sound.put here (session.close_change interface choice)
  | moveConstruct name other =>
    simp only [perform]
    split
    · rename_i source free there
      have shut : source.connected = false := by
        rw [← flag_of_session there]
        exact Bool.eq_false_iff.mpr fun connected => spared ⟨free, connected⟩
      have distinct : name ≠ other := by
        rintro rfl
        rw [free] at there
        cases there
      rw [shut]
      exact sound.transfer (by simp [holds, free]) (by simp [flag, free]) there distinct
    · exact sound
  | moveAssign name other choice =>
    simp only [perform]
    split
    · rename_i session source here there
      split
      · exact sound
      · rename_i distinct
        obtain ⟨vacated, vacant, shut⟩ := sound.vacate interface here choice
        exact vacated.transfer vacant shut
          ((vacate_sessions interface distinct choice).trans there) distinct
    · exact sound
  | destroy name choice =>
    simp only [perform]
    split
    · exact sound
    · rename_i session here
      obtain ⟨vacated, vacant, shut⟩ := sound.vacate interface here choice
      refine vacated.congr ?_ ?_ rfl rfl
      · rw [holds_put, Option.bind_none, ← vacant, Function.update_eq_self]
      · rw [flag_put, Option.any_none, ← shut, Function.update_eq_self]

end moves

/-! ### What holds of every session -/

section every

variable (interface : Transport Made Self Choice)

/-- A call on a session of this name, and the session after it. -/
inductive Called (name : Nat) (session : Session Self) :
    Operation Made Choice → Session Self → Prop where
  | discover (options : AutoConfigOptions) (choice : Choice) :
      Called name session (.discover name options choice)
        (session.discover interface options choice).2
  | connect (peer : PeerInfo) (localOptions peerOptions : AutoConfigOptions)
      (sessionName : Bytes) (choice : Choice) :
      Called name session (.connect name peer localOptions peerOptions sessionName choice)
        (session.connect interface peer localOptions peerOptions sessionName choice).2.2
  | send (payload : Bytes) (choice : Choice) :
      Called name session (.send name payload choice) (session.send interface payload choice).2
  | receive (maxBytes : Nat) (choice : Choice) :
      Called name session (.receive name maxBytes choice)
        (session.receive interface maxBytes choice).2
  | receiveInto (size : Nat) (choice : Choice) :
      Called name session (.receiveInto name size choice)
        (session.receiveInto interface size choice).2
  | close (choice : Choice) :
      Called name session (.close name choice) (session.close interface choice).2

variable {good : Session Self → Prop}

theorem all_put (all : ∀ name session, world.sessions name = some session → good session)
    {later : Option (Session Self)} (fine : ∀ session, later = some session → good session)
    (name : Nat) (events : List Event) :
    ∀ other session, (world.put name later events).sessions other = some session →
      good session := by
  intro other session there
  by_cases own : other = name
  · rw [own, sessions_put, Function.update_self] at there
    exact fine session there
  · rw [sessions_put, Function.update_of_ne own] at there
    exact all other session there

theorem all_on (all : ∀ name session, world.sessions name = some session → good session)
    {method : Session Self → CallOutcome × Session Self} (name : Nat)
    (fine : ∀ session, world.sessions name = some session → good (method session).2) :
    ∀ other session, (world.on name method).2.sessions other = some session → good session := by
  unfold Sessions.on
  split
  · exact all
  · rename_i session here
    refine all_put all ?_ name _
    rintro later ⟨rfl⟩
    exact fine session here

/-- Nothing is asked of what `vacate` leaves: it is overwritten at once. -/
theorem all_vacate (all : ∀ name session, world.sessions name = some session → good session)
    {name : Nat} {session : Session Self} {choice : Choice} {later : Option (Session Self)}
    (fine : ∀ session, later = some session → good session) :
    ∀ other session',
      ((world.vacate interface name session choice).put name later []).sessions other =
        some session' → good session' := by
  intro other session' there
  by_cases own : other = name
  · rw [own, sessions_put, Function.update_self] at there
    exact fine session' there
  · rw [sessions_put, Function.update_of_ne own, vacate_sessions interface (Ne.symm own)] at there
    exact all other session' there

/-- What holds of every session is kept if it holds of new and of empty sessions and every
call keeps it. -/
theorem all_next (all : ∀ name session, world.sessions name = some session → good session)
    {operation : Operation Made Choice}
    (made : ∀ id from_, good { transport := some ⟨id, interface.make from_⟩ })
    (empty : ∀ connected, good { transport := none, connected := connected })
    (called : ∀ name session later, world.sessions name = some session →
      Called interface name session operation later → good later) :
    ∀ name session, (world.next interface operation).sessions name = some session →
      good session := by
  unfold Sessions.next
  cases operation with
  | construct name transport =>
    simp only [perform]
    split
    · exact all
    · exact all
    · rename_i from_ free
      refine all_put all ?_ name []
      rintro later ⟨rfl⟩
      exact made _ _
  | discover name options choice =>
    exact all_on all name fun session here => called name session _ here (.discover ..)
  | connect name peer localOptions peerOptions sessionName choice =>
    simp only [perform]
    split
    · exact all
    · rename_i session here
      refine all_put all ?_ name _
      rintro later ⟨rfl⟩
      exact called name session _ here (.connect ..)
  | send name payload choice =>
    exact all_on all name fun session here => called name session _ here (.send ..)
  | receive name maxBytes choice =>
    exact all_on all name fun session here => called name session _ here (.receive ..)
  | receiveInto name size choice =>
    exact all_on all name fun session here => called name session _ here (.receiveInto ..)
  | close name choice =>
    simp only [perform]
    split
    · exact all
    · rename_i session here
      refine all_put all ?_ name _
      rintro later ⟨rfl⟩
      exact called name session _ here (.close ..)
  | moveConstruct name other =>
    simp only [perform]
    split
    · rename_i source free there
      refine all_put (all_put all ?_ name _) ?_ other _
      · rintro later ⟨rfl⟩
        exact all other source there
      · rintro later ⟨rfl⟩
        exact empty _
    · exact all
  | moveAssign name other choice =>
    simp only [perform]
    split
    · rename_i session source here there
      split
      · exact all
      · refine all_put (all_vacate interface all ?_) ?_ other _
        · rintro later ⟨rfl⟩
          exact all other source there
        · rintro later ⟨rfl⟩
          exact empty _
    · exact all
  | destroy name choice =>
    simp only [perform]
    split
    · exact all
    · refine all_vacate interface all ?_
      rintro later ⟨⟩

end every

/-! ### A closed transport -/

section later

variable (interface : Transport Made Self Choice)

/-- The operation connects the transport. -/
def Reconnects (id : Nat) (world : Sessions Self) (operation : Operation Made Choice) : Prop :=
  ∃ name peer localOptions peerOptions sessionName choice,
    operation = .connect name peer localOptions peerOptions sessionName choice ∧
      world.holds name = some id ∧ (world.perform interface operation).1 = .returned .nothing

/-- A change that does not connect the transport leaves its session unconnected. -/
theorem unconnected_of_change {id : Nat} {session later : Session Self}
    {events : List Event} (change : session.Change events later) (other : events ≠ [.connected id])
    (shut : session.heldId = some id → session.connected = false)
    (held : later.heldId = some id) : later.connected = false := by
  cases change with
  | quiet same flag => rw [flag, shut (same.symm.trans held)]
  | connects before same flag =>
    rw [same] at held
    injection held with held
    exact absurd (congrArg (fun id => [Event.connected id]) held) other
  | closes _ _ _ flag => exact flag
  | deletes _ _ _ flag => exact flag

/-- Only a successful `connect` sets the flag of the session that holds a transport. -/
theorem unconnected_next {id : Nat} {operation : Operation Made Choice}
    (unconnected : ∀ name session, world.sessions name = some session →
      session.heldId = some id → session.connected = false)
    (spared : ¬ Reconnects interface id world operation) :
    ∀ name session, (world.next interface operation).sessions name = some session →
      session.heldId = some id → session.connected = false := by
  refine @all_next Made Self Choice world interface
    (fun session => session.heldId = some id → session.connected = false) unconnected operation
    (fun _ _ _ => rfl) (fun _ held => (by cases held)) ?_
  intro name session later here called
  have shut := unconnected name session here
  cases called with
  | discover options choice =>
    exact unconnected_of_change (session.discover_change interface options choice) (by simp) shut
  | connect peer localOptions peerOptions sessionName choice =>
    refine unconnected_of_change (session.connect_change interface peer localOptions peerOptions
      sessionName choice) ?_ shut
    intro logged
    refine spared ⟨name, peer, localOptions, peerOptions, sessionName, choice, rfl, ?_, ?_⟩
    · rw [holds_of_session here]
      have change := session.connect_change interface peer localOptions peerOptions sessionName
        choice
      rw [logged] at change
      cases change with
      | connects held => exact held
    · simp only [perform, here]
      unfold Session.connect at logged ⊢
      split at logged
      · cases logged
      · split at logged
        · cases logged
        · split at logged
          · cases logged
          · rfl
  | send payload choice =>
    exact unconnected_of_change (session.callConnected_change _ _) (by simp) shut
  | receive maxBytes choice =>
    exact unconnected_of_change (session.callConnected_change _ _) (by simp) shut
  | receiveInto size choice =>
    exact unconnected_of_change (session.callConnected_change _ _) (by simp) shut
  | close choice =>
    refine unconnected_of_change (session.close_change interface choice) ?_ shut
    unfold Session.close
    split <;> simp

end later

/-! ### Closing -/

section closing

variable {session : Session Self} (interface : Transport Made Self Choice)

/-- How often a transport has been closed. -/
def closes (id : Nat) (log : List Event) : Nat := log.count (.closed id)

/-- The operation closes, assigns over or destroys the connected session that holds the
transport. -/
def Ends (world : Sessions Self) (id : Nat) : Operation Made Choice → Prop
  | .close name _ => world.holds name = some id ∧ world.flag name = true
  | .destroy name _ => world.holds name = some id ∧ world.flag name = true
  | .moveAssign name other _ =>
      world.holds name = some id ∧ world.flag name = true ∧ name ≠ other ∧
        world.sessions other ≠ none
  | _ => False

/-- A session's own `close` reaches the transport exactly if the session is connected. -/
theorem closes_close (here : world.sessions name = some session) (choice : Choice) (id : Nat) :
    (world.holds name = some id ∧ world.flag name = true →
      closes id (session.close interface choice).1 = 1) ∧
    (¬ (world.holds name = some id ∧ world.flag name = true) →
      closes id (session.close interface choice).1 = 0) := by
  rw [holds_of_session here, flag_of_session here]
  unfold Session.close
  split
  · rename_i held holds flag
    simp only [Session.heldId, holds, flag, Option.map_some, Option.some.injEq, and_true, closes]
    refine ⟨fun same => by simp [same], fun different => by simp [different]⟩
  · rename_i other
    refine ⟨fun ⟨holds, flag⟩ => ?_, fun _ => rfl⟩
    cases held : session.transport with
    | none => simp [Session.heldId, held] at holds
    | some transport => exact (other transport held flag).elim

theorem closes_release (session : Session Self) (id : Nat) : closes id session.release.1 = 0 := by
  unfold Session.release closes
  split <;> simp

theorem closes_append (id : Nat) (events log : List Event) :
    closes id (events ++ log) = closes id events + closes id log :=
  List.count_append

theorem closes_vacate (choice : Choice) (id : Nat) :
    closes id (world.vacate interface name session choice).log =
      closes id (session.close interface choice).1 + closes id world.log := by
  rw [Sessions.vacate, log_put, log_put, closes_append, closes_append, closes_release, zero_add]

theorem closes_connect (session : Session Self) (peer : PeerInfo)
    (localOptions peerOptions : AutoConfigOptions) (sessionName : Bytes) (choice : Choice)
    (id : Nat) :
    closes id
      (session.connect interface peer localOptions peerOptions sessionName choice).2.1 = 0 := by
  unfold Session.connect closes
  split
  · rfl
  · split
    · rfl
    · split <;> simp

theorem log_on (method : Session Self → CallOutcome × Session Self) :
    (world.on name method).2.log = world.log := by
  unfold Sessions.on
  split <;> rfl

/-- A transport is closed once by the operation that ends its session, and by no other. -/
theorem closes_next (world : Sessions Self) (id : Nat) (operation : Operation Made Choice) :
    (world.Ends id operation →
      closes id (world.next interface operation).log = closes id world.log + 1) ∧
    (¬ world.Ends id operation →
      closes id (world.next interface operation).log = closes id world.log) := by
  unfold Sessions.next
  cases operation with
  | construct name transport =>
    refine ⟨False.elim, fun _ => ?_⟩
    simp only [perform]
    split <;> rfl
  | discover name options choice =>
    exact ⟨False.elim, fun _ => congrArg _ (log_on _)⟩
  | connect name peer localOptions peerOptions sessionName choice =>
    refine ⟨False.elim, fun _ => ?_⟩
    simp only [perform]
    split
    · rfl
    · rw [log_put, closes_append, closes_connect, zero_add]
  | send name payload choice => exact ⟨False.elim, fun _ => congrArg _ (log_on _)⟩
  | receive name maxBytes choice => exact ⟨False.elim, fun _ => congrArg _ (log_on _)⟩
  | receiveInto name size choice => exact ⟨False.elim, fun _ => congrArg _ (log_on _)⟩
  | close name choice =>
    simp only [perform]
    split
    · rename_i free
      exact ⟨fun ⟨holds, _⟩ => by simp [Sessions.holds, free] at holds, fun _ => rfl⟩
    · rename_i session here
      obtain ⟨once, never⟩ := closes_close interface here choice id
      rw [log_put, closes_append]
      exact ⟨fun ends => by rw [once ends]; exact Nat.add_comm _ _,
        fun spared => by rw [never spared, zero_add]⟩
  | moveConstruct name other =>
    refine ⟨False.elim, fun _ => ?_⟩
    simp only [perform]
    split <;> rfl
  | moveAssign name other choice =>
    simp only [perform]
    split
    · rename_i session source here there
      obtain ⟨once, never⟩ := closes_close interface here choice id
      split
      · rename_i same
        exact ⟨fun ⟨_, _, distinct, _⟩ => absurd same distinct, fun _ => rfl⟩
      · rename_i distinct
        rw [log_put, log_put, List.nil_append, List.nil_append, closes_vacate]
        refine ⟨fun ⟨holds, flag, _⟩ => ?_, fun spared => ?_⟩
        · rw [once ⟨holds, flag⟩]
          exact Nat.add_comm _ _
        · rw [never fun ⟨holds, flag⟩ => spared ⟨holds, flag, distinct, by simp [there]⟩, zero_add]
    · rename_i notBoth
      refine ⟨fun ⟨holds, _, _, present⟩ => ?_, fun _ => rfl⟩
      cases here : world.sessions name with
      | none => simp [Sessions.holds, here] at holds
      | some session =>
        cases there : world.sessions other with
        | none => exact absurd there present
        | some source => exact (notBoth session source here there).elim
  | destroy name choice =>
    simp only [perform]
    split
    · rename_i free
      exact ⟨fun ⟨holds, _⟩ => by simp [Sessions.holds, free] at holds, fun _ => rfl⟩
    · rename_i session here
      obtain ⟨once, never⟩ := closes_close interface here choice id
      rw [log_put, List.nil_append, closes_vacate]
      exact ⟨fun ends => by rw [once ends]; exact Nat.add_comm _ _,
        fun spared => by rw [never spared, zero_add]⟩

end closing

/-! ### Every run -/

section runs

variable (interface : Transport Made Self Choice)

/-- The call reached the transport of a connected session, or was refused. -/
def Served {Value : Type} (session : Session Self) (wrap : Value → Returned)
    (method : Self → Except Exception Value × Self) (outcome : CallOutcome) : Prop :=
  (∃ held, session.transport = some held ∧ session.connected = true ∧
      outcome = .of wrap (method held.self).1) ∨
    (session.connected = false ∧ outcome = .threw notConnected)

/-- What a user of the sessions may rely on in a state: a connected session has a transport,
so its calls reach one or are refused; the connected transports are those held by a connected
session; and an operation closes a transport once if it ends that session, else not at all. -/
structure Consistent (world : Sessions Self) : Prop where
  whole : ∀ name session, world.sessions name = some session → session.connected = true →
    session.transport ≠ none
  send : ∀ name session payload choice, world.sessions name = some session →
    Served session .count (fun self => interface.send self payload choice)
      (world.perform interface (.send name payload choice)).1
  receive : ∀ name session maxBytes choice, world.sessions name = some session →
    Served session .bytes (fun self => interface.receive self maxBytes choice)
      (world.perform interface (.receive name maxBytes choice)).1
  receiveInto : ∀ name session size choice, world.sessions name = some session →
    Served session .bytes (fun self => interface.receiveInto self size choice)
      (world.perform interface (.receiveInto name size choice)).1
  tracked : ∀ id, pending id world.log = true ↔
    ∃ name, world.holds name = some id ∧ world.flag name = true
  closed : ∀ id operation,
    (world.Ends id operation →
      closes id (world.next interface operation).log = closes id world.log + 1) ∧
    (¬ world.Ends id operation →
      closes id (world.next interface operation).log = closes id world.log)

/-- A call on a session with a right flag reaches the transport or is refused. -/
theorem served_on {Value : Type} {session : Session Self} (wrap : Value → Returned)
    (method : Self → Except Exception Value × Self) (here : world.sessions name = some session)
    (whole : session.connected = true → session.transport ≠ none) :
    Served session wrap method
      (world.on name fun session => session.callConnected wrap method).1 := by
  simp only [Sessions.on, here]
  unfold Session.callConnected
  split
  · rename_i connected
    unfold Session.call
    split
    · rename_i missing
      exact absurd missing (whole connected)
    · rename_i held holds
      exact .inl ⟨held, holds, connected, rfl⟩
  · rename_i refused
    exact .inr ⟨Bool.eq_false_iff.mpr refused, rfl⟩

theorem Sound.consistent (sound : world.Sound) : world.Consistent interface := by
  have whole : ∀ name session, world.sessions name = some session →
      session.connected = true → session.transport ≠ none := by
    intro name session here connected missing
    rw [← flag_of_session here] at connected
    refine sound.whole name connected ?_
    rw [holds_of_session here, Session.heldId, missing]
    rfl
  exact {
    whole := whole
    send := fun name session payload choice here => served_on _ _ here (whole name session here)
    receive := fun name session maxBytes choice here =>
      served_on _ _ here (whole name session here)
    receiveInto := fun name session size choice here =>
      served_on _ _ here (whole name session here)
    tracked := sound.tracked
    closed := closes_next interface world }

/-- A session constructed from a connected one leaves it connected without a transport. -/
theorem left_of_movesConnected {operation : Operation Made Choice}
    (moved : world.MovesConnected operation) :
    ∃ name, (world.next interface operation).sessions name =
      some { transport := none, connected := true } := by
  cases operation with
  | moveConstruct name other =>
    obtain ⟨free, connected⟩ := moved
    refine ⟨other, ?_⟩
    cases there : world.sessions other with
    | none => simp [flag, there] at connected
    | some source =>
      rw [flag_of_session there] at connected
      simp [next, perform, free, there, Sessions.put, connected]
  | _ => exact moved.elim

theorem not_consistent_of_movesConnected {operation : Operation Made Choice}
    (moved : world.MovesConnected operation) :
    ¬ (world.next interface operation).Consistent interface := by
  intro consistent
  obtain ⟨name, left⟩ := left_of_movesConnected interface moved
  exact consistent.whole name _ left rfl rfl

/-- The sessions are consistent along a run exactly if none is constructed from a connected
one. -/
theorem consistent_iff (operations : List (Operation Made Choice)) :
    Runs.Along (Sessions.next interface) (Sessions.Consistent interface) initial operations ↔
      Runs.Meets (Sessions.next interface) (fun world operation => ¬ world.MovesConnected operation)
        initial operations :=
  Runs.along_iff_meets sound_initial (fun _ _ sound spared => sound.next interface spared)
    (fun _ sound => sound.consistent interface)
    (fun _ _ _ moved => not_consistent_of_movesConnected interface (not_not.mp moved)) operations

end runs

end Sessions

/-! ### A connected session is moved -/

/-- The transport of the session tests: whether it is connected and the bytes sent. -/
structure FakeTransport where
  connected : Bool := false
  connectedPeer : Bytes := []
  packetBytes : UInt32 := 0
  sentBytes : Nat := 0
  deriving DecidableEq, Repr

def fakeTransport : Transport Unit FakeTransport Unit where
  make _ := {}
  discover self _ _ := (.ok [{
    id := ascii "peer-1"
    displayName := ascii "Test Peer"
    supportsHighSpeed := true
    supportsSuperSpeed := true }], self)
  connect self peer config _ := (.ok (), { self with
    connected := true
    connectedPeer := peer.id
    packetBytes := config.packetBytes })
  send self payload _ :=
    (.ok payload.length, { self with sentBytes := self.sentBytes + payload.length })
  receive self maxBytes _ := (.ok (List.replicate maxBytes 0x2A), self)
  receiveInto self size _ := (.ok (List.replicate size 0x2A), self)
  close self _ := { self with connected := false }

/-- A session is constructed, connected and moved into a new one. -/
def movedWhileConnected : List (Operation Unit Unit) :=
  [.construct 0 (some ()),
    .connect 0 { id := ascii "peer-1", displayName := ascii "Test Peer" } {} {}
      (ascii "session-test") (),
    .moveConstruct 1 0]

/-- The session moved from stays connected without a transport, and its `send` dereferences
null. -/
theorem movedWhileConnected_dereferences :
    ¬ Runs.Along (Sessions.next fakeTransport) (Sessions.Consistent fakeTransport)
        Sessions.initial movedWhileConnected ∧
      ((Runs.after (Sessions.next fakeTransport) Sessions.initial movedWhileConnected).perform
        fakeTransport (.send 0 [1] ())).1 = .nullDereference := by
  refine ⟨fun along => ?_, rfl⟩
  exact (along _ List.prefix_rfl).whole 0 ⟨none, true⟩ rfl rfl rfl

end HyperLink
