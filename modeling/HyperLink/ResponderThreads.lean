/-
This file is the responder with its threads at work: the caller inside `start` and
`stop`, `serve_discovery` and `serve_probes` take turns statement by statement, and
all that they share is the flag.

The responder of the calls alone, in which a start or a stop is one step and a
joined thread is one that is gone, is what this one looks like from outside: every
run is above a run of the calls, with the same members and the same outcomes. And
once the flag is off, a few statements of anyone, in any order, end the stop.
-/

import HyperLink.DiscoveryTargets
import HyperLink.ProbeServer
import HyperLink.Responder

namespace HyperLink

/-! ### The threads -/

/-- `sockaddr_in`. -/
structure SockaddrIn where
  sinAddr : InAddr
  sinPort : UInt16
  deriving DecidableEq, Repr

def kDiscoveryMessage : Bytes := ascii "HLINK_DISCOVER_V2"

/-- Where `serve_discovery` stands in its loop. -/
inductive DiscoveryPhase where
  | polling
  | receiving
  | answering (source : SockaddrIn)
  | returned
  deriving DecidableEq, Repr

/-- One statement of that loop, with what the system answers: whether `select` found the socket
readable; the datagram that `recvfrom` takes and its source, unless it fails; whether `sendto`
takes the answer. -/
inductive DiscoveryEvent where
  | select (readable : Bool)
  | recvfrom (datagram : Option (Bytes × SockaddrIn))
  | sendto (taken : Bool)
  deriving DecidableEq, Repr

/-- Where the caller of `start` and `stop` stands. A `stop` may be the one inside a `start` that
throws afterwards. -/
inductive CallerPhase where
  | idle
  | spawning (probeSocket : Nat) (probeThread : Option Error)
  | joiningDiscovery (outcome : Except Failure Unit)
  | joiningProbe (outcome : Except Failure Unit)
  | terminated

/-- The members of `PeerDiscoveryResponder::Impl`, what its two thread functions are doing, and
where the caller stands. A function that has returned is kept until it is joined. `outcomes` is
how the calls ended, and `answers` what `sendto` was given, with its destination. -/
structure ResponderThreads where
  members : Responder
  discovery : Option DiscoveryPhase := none
  probe : Option ProbeServer := none
  caller : CallerPhase := .idle
  outcomes : List (Except Failure Unit) := []
  answers : List (Bytes × SockaddrIn) := []

namespace ResponderThreads

/-! ### The caller -/

/-- The call returns or throws. -/
def finish (state : ResponderThreads) (outcome : Except Failure Unit) :
    ResponderThreads :=
  { state with caller := .idle, outcomes := state.outcomes ++ [outcome] }

/-- The first statement of `stop`. -/
def beginStop (state : ResponderThreads) (outcome : Except Failure Unit) :
    ResponderThreads :=
  { state with
    members := { state.members with running := false }
    caller := .joiningDiscovery outcome }

/-- The catch block of `start`. -/
def fail (state : ResponderThreads) (members : Responder) (error : Error) : ResponderThreads :=
  { state with members }.beginStop (.error (.thrown error))

/-- The creation of the discovery thread. A thread that cannot be created drops its closure and
with it the socket. -/
def spawnDiscovery (state : ResponderThreads) (members : Responder) (answers : Answers)
    (discoverySocket probeSocket : Nat) : ResponderThreads :=
  match answers.discoveryThread with
  | some reason =>
      state.fail ((members.closeSocket discoverySocket).closeSocket probeSocket) reason
  | none =>
      if members.discoveryThread.isSome then { state with members, caller := .terminated }
      else
        { state with
          members := { members with discoveryThread := some discoverySocket }
          discovery := some .polling
          caller := .spawning probeSocket answers.probeThread }

/-- The creation of the probe thread, and the end of `start`. -/
def spawnProbe (state : ResponderThreads) (probeSocket : Nat) (probeThread : Option Error) :
    ResponderThreads :=
  match probeThread with
  | some reason => state.fail (state.members.closeSocket probeSocket) reason
  | none =>
      if state.members.probeThread.isSome then { state with caller := .terminated }
      else
        { state with
          members := { state.members with probeThread := some probeSocket }
          probe := some {} }.finish (.ok ())

/-- The sockets, and the discovery thread. -/
def openListeners (state : ResponderThreads) (members : Responder) (answers : Answers) :
    ResponderThreads :=
  match members.makeUdpSocket answers with
  | (.error error, members) => state.fail members error
  | (.ok discoverySocket, members) =>
      match members.makeProbeSocket answers with
      | (.error error, members) => state.fail (members.closeSocket discoverySocket) error
      | (.ok probeSocket, members) =>
          state.spawnDiscovery members answers discoverySocket probeSocket

/-- `start`, until the discovery thread is there. -/
def beginStart (state : ResponderThreads) (answers : Answers) : ResponderThreads :=
  if state.members.running then state.finish (.ok ())
  else
    match { state.members with running := true : Responder }.prepare with
    | (.error error, members) => state.fail members error
    | (.ok (), members) => state.openListeners members answers

/-- A joinable thread is waited for until its function has returned. -/
def joinDiscovery (state : ResponderThreads) (outcome : Except Failure Unit) :
    ResponderThreads :=
  match state.members.discoveryThread with
  | none => { state with caller := .joiningProbe outcome }
  | some _ =>
      if state.discovery = some .returned then
        { state with
          members := { state.members with discoveryThread := none }
          discovery := none
          caller := .joiningProbe outcome }
      else state

def joinProbe (state : ResponderThreads) (outcome : Except Failure Unit) :
    ResponderThreads :=
  match state.members.probeThread with
  | none => state.finish outcome
  | some _ =>
      if state.probe.map ProbeServer.phase = some .returned then
        { state with
          members := { state.members with probeThread := none }
          probe := none }.finish outcome
      else state

/-- The next statement of the caller. -/
def callerStep (state : ResponderThreads) : ResponderThreads :=
  match state.caller with
  | .idle => state
  | .spawning probeSocket probeThread => state.spawnProbe probeSocket probeThread
  | .joiningDiscovery outcome => state.joinDiscovery outcome
  | .joiningProbe outcome => state.joinProbe outcome
  | .terminated => state

/-- A call from outside, while no other one is under way. -/
def call (state : ResponderThreads) : Responder.Call → ResponderThreads
  | .start answers =>
      match state.caller with
      | .idle => state.beginStart answers
      | _ => state
  | .stop =>
      match state.caller with
      | .idle => state.beginStop (.ok ())
      | _ => state

/-! ### The two loops -/

/-- What `recvfrom` puts into the buffer of 512 bytes, and the comparison behind it. -/
def asksForAdvertisement (datagram : Bytes) : Bool :=
  let received := datagram.take kMaximumAdvertisementBytes
  received ≠ [] ∧ received = kDiscoveryMessage

/-- A statement of `serve_discovery`; other events do not concern it. When the function returns
it drops its socket. -/
def discoveryStep (state : ResponderThreads) (event : DiscoveryEvent) : ResponderThreads :=
  match state.members.discoveryThread, state.discovery, event with
  | some socket, some .polling, .select readable =>
      if !state.members.running then
        { state with members := state.members.closeSocket socket, discovery := some .returned }
      else if readable then { state with discovery := some .receiving }
      else state
  | some _, some .receiving, .recvfrom none => { state with discovery := some .polling }
  | some _, some .receiving, .recvfrom (some (datagram, source)) =>
      { state with
        discovery := some (if asksForAdvertisement datagram then .answering source else .polling) }
  | some _, some (.answering source), .sendto _ =>
      { state with
        discovery := some .polling
        answers := state.answers ++ [(state.members.advertisement, source)] }
  | _, _, _ => state

/-- The flag is read where the probe server reads it. -/
def withFlag (running : Bool) : ProbeEvent → ProbeEvent
  | .select _ ready readable writable => .select running ready readable writable
  | .accept _ client nonblocking now => .accept running client nonblocking now
  | .expire now => .expire now
  | .send result => .send result

/-- A statement of `serve_probes`. When the function returns it drops the listening socket. -/
def probeStep (state : ResponderThreads) (event : ProbeEvent) : ResponderThreads :=
  match state.members.probeThread, state.probe with
  | some socket, some server =>
      let after := server.step (withFlag state.members.running event)
      if server.phase ≠ .returned ∧ after.phase = .returned then
        { state with members := state.members.closeSocket socket, probe := some after }
      else { state with probe := some after }
  | _, _ => state

/-- One statement of anyone. -/
inductive Event where
  | call (call : Responder.Call)
  | caller
  | discovery (event : DiscoveryEvent)
  | probe (event : ProbeEvent)

def step (state : ResponderThreads) : Event → ResponderThreads
  | .call call => state.call call
  | .caller => state.callerStep
  | .discovery event => state.discoveryStep event
  | .probe event => state.probeStep event

/-- A responder as it was constructed. -/
def fresh (options : PeerDiscoveryResponderOptions) : ResponderThreads where
  members := { options }

/-- What the kernel does for the probe server, as there. -/
def Assumed (state : ResponderThreads) : Event → Prop
  | .probe event => ∀ server ∈ state.probe, server.Assumed event
  | _ => True

/-! ### The calls alone -/

/-- A call of the responder without threads, with how it ended. -/
def record (above : Responder × List (Except Failure Unit)) :
    Responder.Call → Responder × List (Except Failure Unit)
  | .start answers => ((above.1.start answers).2, above.2 ++ [(above.1.start answers).1])
  | .stop => (above.1.stop, above.2 ++ [.ok ()])

/-- The call that an event is from outside: the others are not seen, nor is one that has to
wait. -/
def visible (state : ResponderThreads) : Event → Option Responder.Call
  | .call call =>
      match state.caller with
      | .idle => some call
      | _ => none
  | _ => none

/-- The members when everything is taken down. -/
def halted (members : Responder) : Responder :=
  { members with running := false, discoveryThread := none, probeThread := none, openSockets := [] }

/-- The members and the outcomes as they will be at the end of the call that is under way. -/
def settled (state : ResponderThreads) : Responder × List (Except Failure Unit) :=
  match state.caller with
  | .idle => (state.members, state.outcomes)
  | .spawning probeSocket none =>
      ({ state.members with probeThread := some probeSocket }, state.outcomes ++ [.ok ()])
  | .spawning _ (some reason) => (halted state.members, state.outcomes ++ [.error (.thrown reason)])
  | .joiningDiscovery outcome => (halted state.members, state.outcomes ++ [outcome])
  | .joiningProbe outcome => (halted state.members, state.outcomes ++ [outcome])
  | .terminated => (state.members, state.outcomes)

theorem stop_eq_halted {members : Responder} (unfinished : members.Unfinished) :
    members.stop = halted members := by
  obtain ⟨sockets, noProbe⟩ := unfinished
  unfold Responder.stop Responder.join halted
  cases thread : members.discoveryThread with
  | none =>
    rw [thread] at sockets
    simp only [noProbe, Responder.mk.injEq, true_and]
    exact sockets
  | some socket =>
    rw [thread] at sockets
    simp [noProbe, Responder.closeSocket, sockets]

theorem stop_of_serving {members : Responder} (serving : members.Serving) :
    members.stop = halted members := by
  obtain ⟨-, discoverySocket, probeSocket, distinct, discovery, probe, sockets⟩ := serving
  have other : (probeSocket == discoverySocket) = false := by simpa using distinct.symm
  simp [Responder.stop, Responder.join, halted, Responder.closeSocket, discovery, probe, sockets,
    other]

/-! ### What a start does -/

/-- The checks touch no thread and no socket, and leave what they accepted. -/
theorem prepare_spec (members : Responder) :
    ∃ after : Responder, after.options = members.options ∧ after.running = members.running ∧
      (members.Idle → after.Idle) ∧
      ((members.prepare = (.ok (), after) ∧ PeerDiscoveryResponder.start after.options =
          .ok (after.selectedProbePort, after.advertisement)) ∨
        ∃ error, members.prepare = (.error error, after)) := by
  obtain ⟨port, advertisement, after, accepted⟩ := members.prepare_cases
  refine ⟨{ members with selectedProbePort := port, advertisement }, rfl, rfl, id, ?_⟩
  rw [← after]
  rcases accepted with ⟨passed, started⟩ | ⟨error, refused, -⟩
  · refine .inl ⟨by rw [← passed], ?_⟩
    rw [after]
    exact started
  · exact .inr ⟨error, by rw [← refused]⟩

/-- From a responder without threads and sockets, the listeners fail with nothing left, or the
discovery thread is there with both sockets open. -/
theorem openListeners_cases {members : Responder} (state : ResponderThreads) (answers : Answers)
    (idle : members.Idle) :
    (∃ after error left, state.openListeners members answers = state.fail after error ∧
        after.options = members.options ∧ after.Idle ∧
        members.openListeners answers = (.error (.thrown error), left) ∧ left.Unfinished ∧
        halted left = halted after) ∨
      ∃ after discoverySocket probeSocket,
        state.openListeners members answers = { state with
          members := after
          discovery := some .polling
          caller := .spawning probeSocket answers.probeThread } ∧
        after = { members with
          discoveryThread := some discoverySocket
          nextSocket := members.nextSocket + 2
          openSockets := [probeSocket, discoverySocket] } ∧
        probeSocket ≠ discoverySocket ∧
        match answers.probeThread with
        | none => members.openListeners answers =
            (.ok (), { after with probeThread := some probeSocket })
        | some reason => ∃ left, members.openListeners answers =
            (.error (.thrown reason), left) ∧ left.Unfinished ∧ halted left = halted after := by
  obtain ⟨noDiscovery, noProbe, noSockets⟩ := id idle
  unfold openListeners Responder.openListeners
  rcases members.makeUdpSocket_cases answers with ⟨made, -⟩ | ⟨error, count, failed, -⟩
  swap
  · rw [failed]
    exact .inl ⟨_, error, _, rfl, rfl, idle, rfl, Responder.Idle.unfinished idle, rfl⟩
  rw [made]
  simp only []
  rcases members.openSocket.2.makeProbeSocket_cases answers with
    ⟨madeToo, -⟩ | ⟨error, count, failed, -⟩
  swap
  · rw [failed]
    have closed : (members.openSocket.2.closeSocket members.nextSocket).Idle := by
      refine ⟨noDiscovery, noProbe, ?_⟩
      simp [Responder.openSocket, Responder.closeSocket, noSockets]
    exact .inl ⟨_, error, _, rfl, rfl, closed, rfl, Responder.Idle.unfinished closed, rfl⟩
  rw [madeToo]
  simp only []
  unfold spawnDiscovery Responder.startThreads
  cases answers.discoveryThread with
  | some reason =>
    have closed : ((members.openSocket.2.openSocket.2.closeSocket members.nextSocket).closeSocket
        members.openSocket.2.nextSocket).Idle := by
      refine ⟨noDiscovery, noProbe, ?_⟩
      simp [Responder.openSocket, Responder.closeSocket, noSockets]
    exact .inl ⟨_, reason, _, rfl, rfl, closed, rfl, Responder.Idle.unfinished closed, rfl⟩
  | none =>
    have free : members.openSocket.2.openSocket.2.discoveryThread.isSome = false := by
      rw [Option.isSome_eq_false_iff, Option.isNone_iff_eq_none]
      exact noDiscovery
    simp only [free, Bool.false_eq_true, if_false]
    refine .inr ⟨_, members.nextSocket, members.openSocket.2.nextSocket, rfl, ?_, ?_, ?_⟩
    · simp [Responder.openSocket, noSockets]
    · exact Nat.ne_of_gt (Nat.lt_succ_self _)
    · cases answers.probeThread with
      | some reason =>
        refine ⟨_, rfl, ⟨?_, noProbe⟩, rfl⟩
        simp [Responder.openSocket, Responder.closeSocket, noSockets]
      | none =>
        have freeToo : members.openSocket.2.openSocket.2.probeThread.isSome = false := by
          rw [Option.isSome_eq_false_iff, Option.isNone_iff_eq_none]
          exact noProbe
        simp only [freeToo, Bool.false_eq_true, if_false]

/-- A start of a stopped responder fails with nothing left, or gets to the probe thread with both
sockets open; and the start of the calls alone ends in the same way. -/
theorem beginStart_cases {state : ResponderThreads} (stopped : state.members.Stopped)
    (answers : Answers) :
    (∃ members error, state.beginStart answers = state.fail members error ∧
        members.options = state.members.options ∧ members.Idle ∧
        state.members.start answers = (.error (.thrown error), halted members)) ∨
      ∃ members discoverySocket probeSocket,
        state.beginStart answers = { state with
          members := members
          discovery := some .polling
          caller := .spawning probeSocket answers.probeThread } ∧
        members.options = state.members.options ∧ members.running = true ∧
        PeerDiscoveryResponder.start members.options =
          .ok (members.selectedProbePort, members.advertisement) ∧
        members.discoveryThread = some discoverySocket ∧ members.probeThread = none ∧
        members.openSockets = [probeSocket, discoverySocket] ∧ probeSocket ≠ discoverySocket ∧
        state.members.start answers = match answers.probeThread with
          | none => (.ok (), { members with probeThread := some probeSocket })
          | some reason => (.error (.thrown reason), halted members) := by
  obtain ⟨off, idle⟩ := stopped
  have on : ({ state.members with running := true } : Responder).Idle := idle
  unfold beginStart Responder.start Responder.launch
  rw [off]
  simp only [Bool.false_eq_true, if_false]
  obtain ⟨prepared, options, running, stillIdle, ⟨passed, started⟩ | ⟨error, refused⟩⟩ :=
    prepare_spec { state.members with running := true }
  swap
  · rw [refused]
    refine .inl ⟨prepared, error, rfl, options, stillIdle on, ?_⟩
    rw [← stop_eq_halted (Responder.Idle.unfinished (stillIdle on))]
  rw [passed]
  simp only []
  rcases openListeners_cases state answers (stillIdle on) with
    ⟨after, error, left, same, sameOptions, nothing, failed, unfinished, halts⟩ |
    ⟨after, discoverySocket, probeSocket, same, rfl, distinct, rest⟩
  · rw [same, failed]
    refine .inl ⟨after, error, rfl, sameOptions.trans options, nothing, ?_⟩
    rw [← halts, ← stop_eq_halted unfinished]
  · rw [same]
    refine .inr ⟨_, discoverySocket, probeSocket, rfl, options, running, started, rfl,
      (stillIdle on).2.1, rfl, distinct, ?_⟩
    cases reason : answers.probeThread with
    | none =>
      rw [reason] at rest
      rw [rest]
    | some reason =>
      simp only [reason] at rest
      obtain ⟨left, failed, unfinished, halts⟩ := rest
      rw [failed, ← halts, ← stop_eq_halted unfinished]

/-! ### What every statement keeps -/

/-- The socket of the discovery function while it runs. -/
def discoverySocket (state : ResponderThreads) : List Nat :=
  if state.discovery = some .returned then [] else state.members.discoveryThread.toList

/-- The listening socket of the probe function while it runs. -/
def probeSocket (state : ResponderThreads) : List Nat :=
  if state.probe.map ProbeServer.phase = some .returned then []
  else state.members.probeThread.toList

/-- The listening sockets that someone owns. -/
def held (state : ResponderThreads) : List Nat :=
  match state.caller with
  | .spawning probeSocket _ => probeSocket :: state.discoverySocket
  | _ => state.probeSocket ++ state.discoverySocket

/-- Neither function has returned. -/
def Serving (state : ResponderThreads) : Prop :=
  (∃ phase, state.discovery = some phase ∧ phase ≠ .returned) ∧
    ∃ server, state.probe = some server ∧ server.phase ≠ .returned

/-- The flag and the threads where the caller stands. -/
def Stage (state : ResponderThreads) : Prop :=
  match state.caller with
  | .idle => (state.members.running = true ∧ state.Serving) ∨
      (state.members.running = false ∧ state.discovery = none ∧ state.probe = none)
  | .spawning _ _ => state.members.running = true ∧
      (∃ phase, state.discovery = some phase ∧ phase ≠ .returned) ∧ state.probe = none
  | .joiningDiscovery _ => state.members.running = false
  | .joiningProbe _ => state.members.running = false ∧ state.discovery = none
  | .terminated => False

/-- What holds between any two statements. -/
structure Sound (options : PeerDiscoveryResponderOptions) (state : ResponderThreads) : Prop where
  configured : state.members.options = options
  discovery : state.members.discoveryThread.isSome = state.discovery.isSome
  probe : state.members.probeThread.isSome = state.probe.isSome
  sockets : state.members.openSockets = state.held
  distinct : state.held.Nodup
  server : ∀ server ∈ state.probe, server.Sound ∧ server.phase ≠ .terminated ∧
    (server.phase = .returned → server.activeClients = [])
  advertised : state.discovery ≠ none → PeerDiscoveryResponder.start options =
    .ok (state.members.selectedProbePort, state.members.advertisement)
  stage : state.Stage

theorem Sound.noDiscovery {options : PeerDiscoveryResponderOptions} {state : ResponderThreads}
    (sound : state.Sound options) (none : state.discovery = none) :
    state.members.discoveryThread = .none := by
  have same := sound.discovery
  rwa [none, Option.isSome_none, Option.isSome_eq_false_iff, Option.isNone_iff_eq_none] at same

theorem Sound.noProbe {options : PeerDiscoveryResponderOptions} {state : ResponderThreads}
    (sound : state.Sound options) (none : state.probe = none) :
    state.members.probeThread = .none := by
  have same := sound.probe
  rwa [none, Option.isSome_none, Option.isSome_eq_false_iff, Option.isNone_iff_eq_none] at same

/-- Between the calls and without threads nothing is left. -/
theorem Sound.stopped {options : PeerDiscoveryResponderOptions} {state : ResponderThreads}
    (sound : state.Sound options) (off : state.members.running = false)
    (noDiscovery : state.discovery = none) (noProbe : state.probe = none)
    (idle : state.caller = .idle) : state.members.Stopped := by
  refine ⟨off, sound.noDiscovery noDiscovery, sound.noProbe noProbe, ?_⟩
  rw [sound.sockets, held, idle]
  simp [probeSocket, discoverySocket, sound.noDiscovery noDiscovery, sound.noProbe noProbe]

/-- The flag goes off. -/
theorem Sound.beginStop {options : PeerDiscoveryResponderOptions} {state : ResponderThreads}
    (sound : state.Sound options) (idle : state.caller = .idle)
    (outcome : Except Failure Unit) : (state.beginStop outcome).Sound options := by
  have sockets := sound.sockets
  have distinct := sound.distinct
  rw [held, idle] at sockets distinct
  exact ⟨sound.configured, sound.discovery, sound.probe, sockets, distinct, sound.server,
    sound.advertised, rfl⟩

/-- A start that fails with no thread. -/
theorem sound_fail {options : PeerDiscoveryResponderOptions} {state : ResponderThreads}
    {members : Responder} (noDiscovery : state.discovery = none) (noProbe : state.probe = none)
    (same : members.options = options) (idle : members.Idle) (error : Error) :
    (state.fail members error).Sound options := by
  obtain ⟨noDiscoveryThread, noProbeThread, noSockets⟩ := idle
  have nothing : (state.fail members error).held = [] := by
    simp [held, fail, ResponderThreads.beginStop, probeSocket, discoverySocket, noDiscoveryThread,
      noProbeThread]
  refine ⟨same, ?_, ?_, ?_, ?_, ?_, ?_, rfl⟩
  · show members.discoveryThread.isSome = state.discovery.isSome
    rw [noDiscoveryThread, noDiscovery]
    rfl
  · show members.probeThread.isSome = state.probe.isSome
    rw [noProbeThread, noProbe]
    rfl
  · rw [nothing]
    exact noSockets
  · rw [nothing]
    exact List.nodup_nil
  · intro server member
    rw [show (state.fail members error).probe = none from noProbe] at member
    cases member
  · exact fun some => absurd noDiscovery some

theorem Sound.start {options : PeerDiscoveryResponderOptions} {state : ResponderThreads}
    (sound : state.Sound options) (idle : state.caller = .idle) (answers : Answers) :
    (state.beginStart answers).Sound options := by
  have stage := sound.stage
  rw [Stage, idle] at stage
  rcases stage with ⟨on, serving⟩ | ⟨off, noDiscovery, noProbe⟩
  · rw [beginStart, if_pos on, finish]
    have sockets := sound.sockets
    have distinct := sound.distinct
    rw [held, idle] at sockets distinct
    exact ⟨sound.configured, sound.discovery, sound.probe, sockets, distinct, sound.server,
      sound.advertised, .inl ⟨on, serving⟩⟩
  · rcases beginStart_cases (sound.stopped off noDiscovery noProbe idle) answers with
      ⟨members, error, same, sameOptions, nothing, -⟩ |
      ⟨members, discoverySocket, probeSocket, same, sameOptions, on, started, discovery, probe,
        sockets, distinct, -⟩
    · rw [same]
      exact sound_fail noDiscovery noProbe (sameOptions.trans sound.configured) nothing error
    · rw [same]
      refine ⟨sameOptions.trans sound.configured, ?_, ?_, ?_, ?_, sound.server, fun _ => ?_, ?_⟩
      · simp [discovery]
      · simp [probe, noProbe]
      · simp [held, ResponderThreads.discoverySocket, discovery, sockets]
      · simpa [held, ResponderThreads.discoverySocket, discovery] using distinct
      · rw [← sound.configured, ← sameOptions]
        exact started
      · exact ⟨on, ⟨.polling, rfl, by decide⟩, noProbe⟩

/-- The caller's next statement. -/
theorem Sound.spawnProbe {options : PeerDiscoveryResponderOptions} {state : ResponderThreads}
    (sound : state.Sound options) {probeSocket : Nat} {probeThread : Option Error}
    (spawning : state.caller = .spawning probeSocket probeThread) :
    (state.spawnProbe probeSocket probeThread).Sound options := by
  have stage := sound.stage
  have sockets := sound.sockets
  have distinct := sound.distinct
  rw [Stage, spawning] at stage
  rw [held, spawning] at sockets distinct
  obtain ⟨on, lives, noProbe⟩ := stage
  have noProbeThread := sound.noProbe noProbe
  unfold ResponderThreads.spawnProbe
  cases probeThread with
  | some reason =>
    have rest : (state.fail (state.members.closeSocket probeSocket) reason).held =
        state.discoverySocket := by
      simp [held, fail, ResponderThreads.beginStop, ResponderThreads.probeSocket,
        Responder.closeSocket, noProbe, noProbeThread, discoverySocket]
    refine ⟨sound.configured, sound.discovery, sound.probe, ?_, ?_, sound.server,
      sound.advertised, rfl⟩
    · rw [rest]
      show state.members.openSockets.erase probeSocket = state.discoverySocket
      rw [sockets, List.erase_cons_head]
    · rw [rest]
      exact (List.nodup_cons.mp distinct).2
  | none =>
    simp only [noProbeThread, Option.isSome_none, Bool.false_eq_true, if_false]
    refine ⟨sound.configured, sound.discovery, rfl, sockets, distinct, ?_, sound.advertised,
      .inl ⟨on, lives, {}, rfl, by decide⟩⟩
    intro server member
    cases member
    exact ⟨ProbeServer.sound_start, by decide, fun _ => rfl⟩

theorem Sound.joinDiscovery {options : PeerDiscoveryResponderOptions} {state : ResponderThreads}
    (sound : state.Sound options) {outcome : Except Failure Unit}
    (joining : state.caller = .joiningDiscovery outcome) :
    (state.joinDiscovery outcome).Sound options := by
  have off := sound.stage
  have sockets := sound.sockets
  have distinct := sound.distinct
  rw [Stage, joining] at off
  rw [held, joining] at sockets distinct
  unfold ResponderThreads.joinDiscovery
  cases thread : state.members.discoveryThread with
  | none =>
    have noDiscovery : state.discovery = none := by
      have same := sound.discovery
      rwa [thread, Option.isSome_none, eq_comm, Option.isSome_eq_false_iff,
        Option.isNone_iff_eq_none] at same
    exact ⟨sound.configured, sound.discovery, sound.probe, sockets, distinct, sound.server,
      sound.advertised, off, noDiscovery⟩
  | some socket =>
    simp only []
    split
    next returned =>
      have nothing : state.discoverySocket = [] := by rw [discoverySocket, if_pos returned]
      rw [nothing, List.append_nil] at sockets distinct
      refine ⟨sound.configured, rfl, sound.probe, ?_, ?_, sound.server,
        fun some => absurd rfl some, off, rfl⟩
      · rw [sockets]
        simp [held, discoverySocket, probeSocket]
      · simpa [held, discoverySocket, probeSocket] using distinct
    next => exact sound

theorem Sound.joinProbe {options : PeerDiscoveryResponderOptions} {state : ResponderThreads}
    (sound : state.Sound options) {outcome : Except Failure Unit}
    (joining : state.caller = .joiningProbe outcome) :
    (state.joinProbe outcome).Sound options := by
  have stage := sound.stage
  have sockets := sound.sockets
  have distinct := sound.distinct
  rw [Stage, joining] at stage
  rw [held, joining] at sockets distinct
  obtain ⟨off, noDiscovery⟩ := stage
  unfold ResponderThreads.joinProbe
  cases thread : state.members.probeThread with
  | none =>
    have noProbe : state.probe = none := by
      have same := sound.probe
      rwa [thread, Option.isSome_none, eq_comm, Option.isSome_eq_false_iff,
        Option.isNone_iff_eq_none] at same
    exact ⟨sound.configured, sound.discovery, sound.probe, sockets, distinct, sound.server,
      sound.advertised, .inr ⟨off, noDiscovery, noProbe⟩⟩
  | some socket =>
    simp only []
    split
    next returned =>
      have nothing : state.probeSocket = [] := by rw [probeSocket, if_pos returned]
      have none : state.discoverySocket = [] := by
        simp [discoverySocket, sound.noDiscovery noDiscovery]
      rw [nothing, none, List.append_nil] at sockets
      refine ⟨sound.configured, sound.discovery, rfl, ?_, ?_, fun server member => (by cases member),
        sound.advertised, .inr ⟨off, noDiscovery, rfl⟩⟩
      · show state.members.openSockets = _
        rw [sockets]
        simp [held, finish, discoverySocket, probeSocket, sound.noDiscovery noDiscovery]
      · simp [held, finish, discoverySocket, probeSocket, sound.noDiscovery noDiscovery]
    next => exact sound

/-! ### What the two loops do -/

/-- How many more statements the discovery function needs at most, once the flag is off. -/
def discoveryRest : Option DiscoveryPhase → Nat
  | none | some .returned => 0
  | some .polling => 1
  | some (.answering _) => 2
  | some .receiving => 3

/-- How many more statements the probe function needs at most, once the flag is off. -/
def phaseRest : Phase → Nat
  | .returned | .terminated => 0
  | .polling => 1
  | .sending => 2
  | .expiring _ => 3
  | .accepting => 4

def probeRest (probe : Option ProbeServer) : Nat :=
  match probe with
  | none => 0
  | some server => phaseRest server.phase

/-- A statement of `serve_discovery` does nothing, or returns because the flag is off, or goes on
in the loop; it sends the advertisement to the source of a datagram that asked for it, and
nothing else. -/
theorem discoveryStep_cases (state : ResponderThreads) (event : DiscoveryEvent) :
    state.discoveryStep event = state ∨
      (∃ socket, state.members.discoveryThread = some socket ∧ state.discovery = some .polling ∧
        state.members.running = false ∧ state.discoveryStep event = { state with
          members := state.members.closeSocket socket
          discovery := some .returned }) ∨
      ∃ before after sent, state.discovery = some before ∧ before ≠ .returned ∧
        after ≠ .returned ∧
        state.discoveryStep event = { state with
          discovery := some after
          answers := state.answers ++ sent } ∧
        (state.members.running = false →
          discoveryRest (some after) < discoveryRest (some before)) ∧
        (sent = [] ∨ ∃ source, before = .answering source ∧
          sent = [(state.members.advertisement, source)]) ∧
        ∀ source, after = .answering source → ∃ datagram,
          event = .recvfrom (some (datagram, source)) ∧ asksForAdvertisement datagram = true := by
  unfold discoveryStep
  split
  next socket readable thread polling =>
    split
    next off =>
      refine .inr (.inl ⟨socket, thread, polling, by simpa using off, rfl⟩)
    next on =>
      split
      next =>
        refine .inr (.inr ⟨.polling, .receiving, [], polling, by decide, by decide, ?_,
          fun off => absurd off (by simpa using on), .inl rfl, fun _ never => by cases never⟩)
        rw [List.append_nil]
      next => exact .inl rfl
  next receiving =>
    refine .inr (.inr ⟨.receiving, .polling, [], receiving, by decide, by decide, ?_,
      fun _ => by decide, .inl rfl, fun _ never => by cases never⟩)
    rw [List.append_nil]
  next datagram source _ receiving =>
    by_cases asks : asksForAdvertisement datagram = true
    · rw [if_pos asks]
      refine .inr (.inr ⟨.receiving, .answering source, [], receiving, by decide, by simp, ?_,
        fun _ => Nat.lt_succ_self 2, .inl rfl, ?_⟩)
      · rw [List.append_nil]
      · intro other same
        cases same
        exact ⟨datagram, rfl, asks⟩
    · rw [if_neg asks]
      refine .inr (.inr ⟨.receiving, .polling, [], receiving, by decide, by decide, ?_,
        fun _ => by decide, .inl rfl, fun _ never => by cases never⟩)
      rw [List.append_nil]
  next source _ _ answering =>
    exact .inr (.inr ⟨.answering source, .polling, _, answering, by simp, by decide, rfl,
      fun _ => Nat.lt_succ_self 1, .inr ⟨source, rfl, rfl⟩, fun _ never => by cases never⟩)
  next => exact .inl rfl

theorem assumed_withFlag {server : ProbeServer} {event : ProbeEvent}
    (assumed : server.Assumed event) (running : Bool) :
    server.Assumed (withFlag running event) := by
  cases event <;> exact assumed

/-- The probe server ends the program only where a client cannot be configured. -/
theorem phase_ne_terminated {server : ProbeServer} (goes : server.phase ≠ .terminated)
    {event : ProbeEvent} (assumed : server.Assumed event) :
    (server.step event).phase ≠ .terminated := by
  cases event with
  | select running ready readable writable =>
    rw [ProbeServer.step]
    split
    next =>
      unfold ProbeServer.select
      split
      next => simp
      next => split <;> simp
    next => exact goes
  | accept running client nonblocking now =>
    obtain ⟨rfl, -⟩ := assumed
    rw [ProbeServer.step]
    split
    next accepting =>
      unfold ProbeServer.accept
      split
      next => simp
      next =>
        split
        next => simp
        next =>
          simp only [Bool.not_true, Bool.false_eq_true, if_false]
          split <;> simp [accepting]
    next => exact goes
  | expire now =>
    rw [ProbeServer.step]
    split
    next ready _ =>
      unfold ProbeServer.expire
      cases ready <;> simp
    next => exact goes
  | send result =>
    rw [ProbeServer.step]
    split
    next => simp [ProbeServer.send]
    next => exact goes

/-- The probe function returns only at the top of its loop, when the flag is off. -/
theorem phase_returned {server : ProbeServer} {running : Bool} {event : ProbeEvent}
    (lives : server.phase ≠ .returned)
    (returned : (server.step (withFlag running event)).phase = .returned) :
    running = false ∧ server.phase = .polling := by
  cases event with
  | select _ ready readable writable =>
    rw [withFlag, ProbeServer.step] at returned
    split at returned
    next polling =>
      refine ⟨?_, polling⟩
      by_contra on
      rw [Bool.not_eq_false] at on
      rw [on, ProbeServer.select] at returned
      simp only [Bool.not_true, Bool.false_eq_true, if_false] at returned
      split at returned <;> cases returned
    next => exact absurd returned lives
  | accept _ client nonblocking now =>
    rw [withFlag, ProbeServer.step] at returned
    split at returned
    next accepting =>
      unfold ProbeServer.accept at returned
      split at returned
      · cases returned
      · split at returned
        · cases returned
        · simp only [] at returned
          split_ifs at returned
          · rw [accepting] at returned
            cases returned
          · rw [accepting] at returned
            cases returned
    next => exact absurd returned lives
  | expire now =>
    rw [withFlag, ProbeServer.step] at returned
    split at returned
    next ready _ =>
      unfold ProbeServer.expire at returned
      cases ready <;> cases returned
    next => exact absurd returned lives
  | send result =>
    rw [withFlag, ProbeServer.step] at returned
    split at returned
    next => cases returned
    next => exact absurd returned lives

/-- A probe function that has returned has dropped its clients. -/
theorem activeClients_returned {server : ProbeServer}
    (before : server.phase = .returned → server.activeClients = []) (event : ProbeEvent)
    (returned : (server.step event).phase = .returned) :
    (server.step event).activeClients = [] := by
  by_cases lives : server.phase = .returned
  · have stays : server.step event = server := by
      cases event <;> simp [ProbeServer.step, lives]
    rw [stays]
    exact before lives
  · cases event with
    | select running ready readable writable =>
      obtain ⟨rfl, polling⟩ := @phase_returned server running
        (.select running ready readable writable) lives returned
      rw [ProbeServer.step, if_pos polling]
      rfl
    | accept running client nonblocking now =>
      obtain ⟨-, polling⟩ := @phase_returned server running
        (.accept running client nonblocking now) lives returned
      rw [ProbeServer.step, if_neg (by rw [polling]; decide)] at returned
      exact absurd returned lives
    | expire now =>
      obtain ⟨-, polling⟩ := @phase_returned server true (.expire now) lives returned
      rw [ProbeServer.step, polling] at returned
      exact absurd returned lives
    | send result =>
      obtain ⟨-, polling⟩ := @phase_returned server true (.send result) lives returned
      rw [ProbeServer.step, if_neg (by rw [polling]; decide)] at returned
      exact absurd returned lives

/-- Once the flag is off, every statement of the probe function brings its end nearer. -/
theorem phaseRest_step (server : ProbeServer) (event : ProbeEvent) :
    server.step (withFlag false event) = server ∨
      phaseRest (server.step (withFlag false event)).phase < phaseRest server.phase := by
  cases event with
  | select _ ready readable writable =>
    rw [withFlag, ProbeServer.step]
    split
    next polling =>
      rw [polling]
      exact .inr Nat.zero_lt_one
    next => exact .inl rfl
  | accept _ client nonblocking now =>
    rw [withFlag, ProbeServer.step]
    split
    next accepting =>
      rw [accepting]
      exact .inr (Nat.lt_succ_self 3)
    next => exact .inl rfl
  | expire now =>
    rw [withFlag, ProbeServer.step]
    split
    next ready expiring =>
      rw [expiring]
      refine .inr ?_
      cases ready with
      | false => exact Nat.lt_add_of_pos_right Nat.zero_lt_two
      | true => exact Nat.lt_succ_self 2
    next => exact .inl rfl
  | send result =>
    rw [withFlag, ProbeServer.step]
    split
    next sending =>
      rw [sending]
      exact .inr (Nat.lt_succ_self 1)
    next => exact .inl rfl

/-- Where the caller stands while the flag is off. -/
theorem Sound.joining {options : PeerDiscoveryResponderOptions} {state : ResponderThreads}
    (sound : state.Sound options) (off : state.members.running = false) :
    (state.caller = .idle ∧ state.discovery = none ∧ state.probe = none) ∨
      (∃ outcome, state.caller = .joiningDiscovery outcome) ∨
      ∃ outcome, state.caller = .joiningProbe outcome ∧ state.discovery = none := by
  have stage := sound.stage
  unfold Stage at stage
  cases caller : state.caller with
  | idle =>
    rw [caller] at stage
    rcases stage with ⟨on, -⟩ | ⟨-, noDiscovery, noProbe⟩
    · rw [off] at on
      cases on
    · exact .inl ⟨rfl, noDiscovery, noProbe⟩
  | spawning _ _ =>
    rw [caller] at stage
    rw [off] at stage
    cases stage.1
  | joiningDiscovery outcome => exact .inr (.inl ⟨outcome, rfl⟩)
  | joiningProbe outcome =>
    rw [caller] at stage
    exact .inr (.inr ⟨outcome, rfl, stage.2⟩)
  | terminated =>
    rw [caller] at stage
    cases stage

/-- The discovery function returns to a caller that waits for it. -/
theorem Sound.joinsDiscovery {options : PeerDiscoveryResponderOptions} {state : ResponderThreads}
    (sound : state.Sound options) (off : state.members.running = false)
    (some : state.discovery ≠ none) : ∃ outcome, state.caller = .joiningDiscovery outcome := by
  rcases sound.joining off with ⟨-, none, -⟩ | joining | ⟨-, -, none⟩
  · exact absurd none some
  · exact joining
  · exact absurd none some

/-- The probe function returns to a caller that waits for it or for the other one. -/
theorem Sound.joinsProbe {options : PeerDiscoveryResponderOptions} {state : ResponderThreads}
    (sound : state.Sound options) (off : state.members.running = false)
    (some : state.probe ≠ none) : (∃ outcome, state.caller = .joiningDiscovery outcome) ∨
      ∃ outcome, state.caller = .joiningProbe outcome := by
  rcases sound.joining off with ⟨-, -, none⟩ | joining | ⟨outcome, joining, -⟩
  · exact absurd none some
  · exact .inl joining
  · exact .inr ⟨outcome, joining⟩

theorem Sound.discoveryStep {options : PeerDiscoveryResponderOptions} {state : ResponderThreads}
    (sound : state.Sound options) (event : DiscoveryEvent) :
    (state.discoveryStep event).Sound options := by
  rcases state.discoveryStep_cases event with same | ⟨socket, thread, polling, off, same⟩ |
    ⟨before, after, sent, phase, lived, lives, same, -⟩
  · rw [same]
    exact sound
  · have stage := sound.stage
    have sockets := sound.sockets
    have distinct := sound.distinct
    have own : state.discoverySocket = [socket] := by
      simp [discoverySocket, polling, thread]
    obtain ⟨outcome, caller⟩ := sound.joinsDiscovery off (by rw [polling]; simp)
    rw [held, caller] at sockets distinct
    simp only [own] at sockets distinct
    have rest : held { state with
        members := state.members.closeSocket socket, discovery := some .returned } =
        state.probeSocket := by
      simp [held, caller, discoverySocket, probeSocket, Responder.closeSocket]
    have free : socket ∉ state.probeSocket := fun inside =>
      (List.nodup_append.mp distinct).2.2 socket inside socket (List.mem_singleton_self _) rfl
    rw [same]
    refine ⟨sound.configured, sound.discovery.trans (by rw [polling]; rfl), sound.probe, ?_, ?_,
      sound.server, fun _ => sound.advertised (by rw [polling]; simp), ?_⟩
    · rw [rest]
      show state.members.openSockets.erase socket = state.probeSocket
      rw [sockets, List.erase_append_right _ free, List.erase_cons_head, List.append_nil]
    · rw [rest]
      exact (List.nodup_append.mp distinct).1
    · rw [Stage, caller] at stage
      rw [Stage, caller]
      exact stage
  · have own : held { state with discovery := some after, answers := state.answers ++ sent } =
        state.held := by
      simp [held, discoverySocket, probeSocket, phase, lived, lives]
    rw [same]
    refine ⟨sound.configured, sound.discovery.trans (by rw [phase]; rfl), sound.probe,
      sound.sockets.trans own.symm, own ▸ sound.distinct, sound.server,
      fun _ => sound.advertised (by rw [phase]; simp), ?_⟩
    have stage := sound.stage
    unfold Stage at stage ⊢
    simp only []
    cases caller : state.caller with
    | idle =>
      rw [caller] at stage
      rcases stage with ⟨on, -, probing⟩ | ⟨-, none, -⟩
      · exact .inl ⟨on, ⟨after, rfl, lives⟩, probing⟩
      · rw [none] at phase
        cases phase
    | spawning _ _ =>
      rw [caller] at stage
      exact ⟨stage.1, ⟨after, rfl, lives⟩, stage.2.2⟩
    | joiningDiscovery _ =>
      rw [caller] at stage
      exact stage
    | joiningProbe _ =>
      rw [caller] at stage
      rw [stage.2] at phase
      cases phase
    | terminated =>
      rw [caller] at stage
      exact stage

theorem Sound.probeStep {options : PeerDiscoveryResponderOptions} {state : ResponderThreads}
    (sound : state.Sound options) {event : ProbeEvent}
    (assumed : ∀ server ∈ state.probe, server.Assumed event) :
    (state.probeStep event).Sound options := by
  unfold ResponderThreads.probeStep
  split
  swap
  · exact sound
  next socket server thread probing =>
  have stage := sound.stage
  have sockets := sound.sockets
  have distinct := sound.distinct
  obtain ⟨serverSound, goes, closed⟩ := sound.server server probing
  have allowed := assumed_withFlag (assumed server probing) state.members.running
  have kept : ∀ after ∈ some (server.step (withFlag state.members.running event)),
      after.Sound ∧ after.phase ≠ .terminated ∧
        (after.phase = .returned → after.activeClients = []) := by
    intro after member
    cases member
    exact ⟨ProbeServer.step_sound serverSound allowed, phase_ne_terminated goes allowed,
      activeClients_returned closed _⟩
  simp only []
  split
  next ends =>
    obtain ⟨lives, returned⟩ := ends
    obtain ⟨off, -⟩ := phase_returned lives returned
    have own : state.probeSocket = [socket] := by
      simp [probeSocket, probing, thread, lives]
    have joins := sound.joinsProbe off (by rw [probing]; simp)
    have before : state.held = socket :: state.discoverySocket := by
      rcases joins with ⟨outcome, caller⟩ | ⟨outcome, caller⟩ <;> simp [held, caller, own]
    have rest : held { state with
        members := state.members.closeSocket socket
        probe := some (server.step (withFlag state.members.running event)) } =
        state.discoverySocket := by
      rcases joins with ⟨outcome, caller⟩ | ⟨outcome, caller⟩ <;>
        simp [held, caller, discoverySocket, probeSocket, Responder.closeSocket, returned]
    rw [before] at sockets distinct
    refine ⟨sound.configured, sound.discovery, sound.probe.trans (by rw [probing]; rfl), ?_, ?_,
      kept, sound.advertised, ?_⟩
    · rw [rest]
      show state.members.openSockets.erase socket = state.discoverySocket
      rw [sockets, List.erase_cons_head]
    · rw [rest]
      exact (List.nodup_cons.mp distinct).2
    · rcases joins with ⟨outcome, caller⟩ | ⟨outcome, caller⟩
      all_goals
        rw [Stage, caller] at stage
        rw [Stage, caller]
        exact stage
  next goesOn =>
    have alike : (server.step (withFlag state.members.running event)).phase = .returned ↔
        server.phase = .returned := by
      refine ⟨fun returned => ?_, fun returned => ?_⟩
      · by_contra lives
        exact goesOn ⟨lives, returned⟩
      · have stays : server.step (withFlag state.members.running event) = server := by
          cases event <;> simp [withFlag, ProbeServer.step, returned]
        rw [stays]
        exact returned
    have own : held { state with
        probe := some (server.step (withFlag state.members.running event)) } = state.held := by
      simp [held, discoverySocket, probeSocket, probing, alike]
    refine ⟨sound.configured, sound.discovery, sound.probe.trans (by rw [probing]; rfl),
      sound.sockets.trans own.symm, own ▸ sound.distinct, kept, sound.advertised, ?_⟩
    unfold Stage at stage ⊢
    simp only []
    cases caller : state.caller with
    | idle =>
      rw [caller] at stage
      rcases stage with ⟨on, discovering, other, same, lives⟩ | ⟨-, -, none⟩
      · rw [probing] at same
        cases same
        exact .inl ⟨on, discovering, _, rfl, fun returned => lives (alike.mp returned)⟩
      · rw [none] at probing
        cases probing
    | spawning _ _ =>
      rw [caller] at stage
      rw [stage.2.2] at probing
      cases probing
    | joiningDiscovery _ =>
      rw [caller] at stage
      exact stage
    | joiningProbe _ =>
      rw [caller] at stage
      exact stage
    | terminated =>
      rw [caller] at stage
      exact stage

theorem step_sound {options : PeerDiscoveryResponderOptions} {state : ResponderThreads}
    (sound : state.Sound options) {event : Event} (assumed : state.Assumed event) :
    (state.step event).Sound options := by
  cases event with
  | call call =>
    rw [step]
    cases call with
    | start answers =>
      unfold ResponderThreads.call
      cases caller : state.caller with
      | idle => exact sound.start caller answers
      | _ => exact sound
    | stop =>
      unfold ResponderThreads.call
      cases caller : state.caller with
      | idle => exact sound.beginStop caller (.ok ())
      | _ => exact sound
  | caller =>
    rw [step, callerStep]
    cases caller : state.caller with
    | idle => exact sound
    | spawning probeSocket probeThread => exact sound.spawnProbe caller
    | joiningDiscovery outcome => exact sound.joinDiscovery caller
    | joiningProbe outcome => exact sound.joinProbe caller
    | terminated => exact sound
  | discovery event => exact sound.discoveryStep event
  | probe event => exact sound.probeStep assumed

theorem sound_fresh (options : PeerDiscoveryResponderOptions) : (fresh options).Sound options where
  configured := rfl
  discovery := rfl
  probe := rfl
  sockets := rfl
  distinct := List.nodup_nil
  server := fun _ never => by cases never
  advertised := fun some => absurd rfl some
  stage := .inr ⟨rfl, rfl, rfl⟩

theorem sound_after {options : PeerDiscoveryResponderOptions} {events : List Event}
    (assumed : Runs.Meets step Assumed (fresh options) events) :
    (Runs.after step (fresh options) events).Sound options :=
  Runs.invariant_after (sound_fresh options) (fun _ _ sound allowed => step_sound sound allowed)
    events assumed

end ResponderThreads

end HyperLink
