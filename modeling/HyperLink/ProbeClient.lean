/-
This file is the probe of a candidate: `probe_tcp_receive` of
`src/peer_discovery.cpp` with `wait_for_socket`, which connects to the probe port
without blocking, takes bytes until it has the payload or the peer ends, and
measures the time. Every wait is for what is left until one deadline.

The probe is a machine that takes one statement a step. Whatever the system
answers, it takes no byte beyond the payload, does not wait past the deadline, and
closes its socket on every way out; and once the deadline has passed, it is over
within a few statements.
-/

import HyperLink.Search

namespace HyperLink

/-! ### The probe -/

/-- Where the probe stands. `waiting` is the top of `wait_for_socket`, for writing or for reading,
and `selecting` its `select`. -/
inductive ProbePhase where
  | opening
  | configuring
  | connecting
  | waiting (write : Bool)
  | selecting (write : Bool) (timeout : Timeval)
  | confirming
  | starting
  | receiving
  | measuring
  | returned (received : Nat) (elapsed : Int)
  | thrown (error : Error)
  deriving DecidableEq, Repr

inductive ConnectResult where
  | connected
  | pending
  | failed (reason : Error)
  deriving DecidableEq, Repr

inductive SelectResult where
  | ready
  | timedOut
  | failed (reason : Error)
  deriving DecidableEq, Repr

/-- What `recv` answers; no bytes are the end of the peer's stream. -/
inductive RecvResult where
  | bytes (count : Nat)
  | wouldBlock
  | failed (reason : Error)
  deriving DecidableEq, Repr

/-- One statement of the probe, with what the system answers; for a call that can only fail, its
reason, or none. -/
inductive ProbeClientEvent where
  | socket (failed : Option Error)
  | configure (failed : Option Error)
  | connect (now : Int) (result : ConnectResult)
  | clock (now : Int)
  | select (result : SelectResult)
  | getsockopt (failed : Option Error)
  | recv (result : RecvResult)
  deriving DecidableEq, Repr

/-- The variables of `probe_tcp_receive`, whether its socket is open, and the clock as it was
read last. -/
structure ProbeClient where
  options : PeerDiscoveryOptions
  endpoint : PeerEndpoint
  phase : ProbePhase := .opening
  socketOpen : Bool := false
  deadline : Int := 0
  started : Int := 0
  received : Nat := 0
  clock : Int := 0
  deriving DecidableEq, Repr

def timedOut : Error := ascii "probe timed out"

namespace ProbeClient

/-- An exception, which drops the socket on its way out. -/
def throw (client : ProbeClient) (error : Error) : ProbeClient :=
  { client with phase := .thrown error, socketOpen := false }

def payload (client : ProbeClient) : Nat := client.options.probePayloadBytes.toNat

/-- How much `recv` is asked for. -/
def capacity (client : ProbeClient) : Nat := min (64 * 1024) (client.payload - client.received)

/-- Behind the loop. -/
def finish (client : ProbeClient) : ProbeClient :=
  if client.received = 0 then client.throw (ascii "probe received no data")
  else { client with phase := .measuring }

/-- The condition of the loop. -/
def loop (client : ProbeClient) : ProbeClient :=
  if client.received < client.payload then { client with phase := .waiting false }
  else client.finish

/-- `wait_for_socket`, until its `select`. -/
def wait (client : ProbeClient) (write : Bool) (now : Int) : ProbeClient :=
  let remaining := remainingMicroseconds client.deadline now
  if remaining ≤ 0 then { client with clock := now }.throw timedOut
  else { client with phase := .selecting write (timevalOf remaining), clock := now }

/-- The deadline, and `connect`. -/
def connect (client : ProbeClient) (now : Int) (result : ConnectResult) : ProbeClient :=
  let client := { client with
    deadline := now + nanoseconds client.options.probeTimeout
    clock := now }
  match result with
  | .connected => { client with phase := .starting }
  | .pending => { client with phase := .waiting true }
  | .failed reason => client.throw (ascii "probe connect failed: " ++ reason)

def recv (client : ProbeClient) : RecvResult → ProbeClient
  | .bytes count =>
      if count = 0 then client.finish
      else { client with received := client.received + count }.loop
  | .wouldBlock => client.loop
  | .failed reason => client.throw (ascii "probe receive failed: " ++ reason)

/-- One statement; an event that is not the next one does not concern the probe. When it returns
or throws, its socket is dropped. -/
def step (inetPton : Bytes → Option InAddr) (client : ProbeClient) (event : ProbeClientEvent) :
    ProbeClient :=
  match client.phase, event with
  | .opening, .socket none => { client with phase := .configuring, socketOpen := true }
  | .opening, .socket (some reason) => client.throw (ascii "probe socket failed: " ++ reason)
  | .configuring, .configure none =>
      match ipv4Endpoint inetPton client.endpoint.host client.endpoint.probePort with
      | .ok _ => { client with phase := .connecting }
      | .error error => client.throw error
  | .configuring, .configure (some reason) =>
      client.throw (ascii "could not configure TCP probe: " ++ reason)
  | .connecting, .connect now result => client.connect now result
  | .waiting write, .clock now => client.wait write now
  | .selecting write _, .select .ready =>
      { client with phase := if write then .confirming else .receiving }
  | .selecting _ _, .select .timedOut => client.throw timedOut
  | .selecting _ _, .select (.failed reason) =>
      client.throw (ascii "probe wait failed: " ++ reason)
  | .confirming, .getsockopt none => { client with phase := .starting }
  | .confirming, .getsockopt (some reason) =>
      client.throw (ascii "probe connect failed: " ++ reason)
  | .starting, .clock now => { client with started := now, clock := now }.loop
  | .receiving, .recv result => client.recv result
  | .measuring, .clock now =>
      { client with
        phase := .returned client.received (now - client.started)
        socketOpen := false
        clock := now }
  | _, _ => client

/-- A probe that is called. -/
def called (options : PeerDiscoveryOptions) (endpoint : PeerEndpoint) (now : Int) :
    ProbeClient where
  options
  endpoint
  clock := now

/-- The clock never goes back, and `recv` gives no more than it is asked for. -/
def Allowed (client : ProbeClient) : ProbeClientEvent → Prop
  | .connect now _ | .clock now => client.clock ≤ now
  | .recv (.bytes count) => count ≤ client.capacity
  | _ => True

/-- The statement is the next one of the probe. -/
def Next (client : ProbeClient) (event : ProbeClientEvent) : Prop :=
  match client.phase, event with
  | .opening, .socket _ | .configuring, .configure _ | .connecting, .connect _ _
  | .waiting _, .clock _ | .selecting _ _, .select _ | .confirming, .getsockopt _
  | .starting, .clock _ | .receiving, .recv _ | .measuring, .clock _ => True
  | _, _ => False

instance (client : ProbeClient) : (event : ProbeClientEvent) → Decidable (client.Allowed event)
  | .connect now _ | .clock now => inferInstanceAs (Decidable (client.clock ≤ now))
  | .recv (.bytes count) => inferInstanceAs (Decidable (count ≤ client.capacity))
  | .recv .wouldBlock | .recv (.failed _) | .socket _ | .configure _ | .select _
  | .getsockopt _ => .isTrue trivial

/-- The bytes that a statement takes from the socket. -/
def taken (client : ProbeClient) : ProbeClientEvent → Option Nat
  | .recv (.bytes count) => if client.phase = .receiving then some count else none
  | _ => none

/-- The probe has returned or thrown. -/
def Over (client : ProbeClient) : Prop :=
  match client.phase with
  | .returned _ _ | .thrown _ => True
  | _ => False

/-! ### What every statement keeps -/

/-- The phases in which the socket is open. -/
def Holding (client : ProbeClient) : Prop := client.phase ≠ .opening ∧ ¬ client.Over

/-- What holds of the variables where the probe stands. -/
def Stage (client : ProbeClient) : Prop :=
  match client.phase with
  | .selecting write timeout => (timeout.Valid ∧ 0 < timeout.duration ∧
      client.clock + timeout.duration ≤ client.deadline) ∧
      (write = false → client.received < client.payload ∧ client.started ≤ client.clock)
  | .waiting write => write = false → client.received < client.payload ∧
      client.started ≤ client.clock
  | .receiving => client.received < client.payload ∧ client.started ≤ client.clock
  | .measuring => 0 < client.received ∧ client.started ≤ client.clock
  | .returned received elapsed => received = client.received ∧ 0 < received ∧ 0 ≤ elapsed
  | _ => True

/-- What holds between any two statements. -/
structure Sound (client : ProbeClient) : Prop where
  bounded : client.received ≤ client.payload
  socket : client.socketOpen = true ↔ client.Holding
  stage : client.Stage

theorem Sound.throw {client : ProbeClient} (bounded : client.received ≤ client.payload)
    (error : Error) : (client.throw error).Sound :=
  ⟨bounded, by simp [ProbeClient.throw, Holding, Over], trivial⟩

theorem Sound.finish {client : ProbeClient} (bounded : client.received ≤ client.payload)
    (isOpen : client.socketOpen = true) (later : client.started ≤ client.clock) :
    client.finish.Sound := by
  unfold ProbeClient.finish
  split
  next => exact Sound.throw bounded _
  next some =>
    exact ⟨bounded, by simp [Holding, Over, isOpen], Nat.pos_of_ne_zero some, later⟩

theorem Sound.loop {client : ProbeClient} (bounded : client.received ≤ client.payload)
    (isOpen : client.socketOpen = true) (later : client.started ≤ client.clock) :
    client.loop.Sound := by
  unfold ProbeClient.loop
  split
  next more => exact ⟨bounded, by simp [Holding, Over, isOpen], fun _ => ⟨more, later⟩⟩
  next => exact Sound.finish bounded isOpen later

theorem Sound.wait {client : ProbeClient} (bounded : client.received ≤ client.payload)
    (isOpen : client.socketOpen = true) {write : Bool} {now : Int}
    (onwards : client.clock ≤ now)
    (stage : write = false → client.received < client.payload ∧ client.started ≤ client.clock) :
    (client.wait write now).Sound := by
  unfold ProbeClient.wait
  simp only []
  split
  next => exact @Sound.throw { client with clock := now } bounded _
  next left =>
    rw [not_le] at left
    have early : now ≤ client.deadline := by
      have room := remainingMicroseconds_pos.mp left
      omega
    obtain ⟨valid, inTime, -⟩ := timevalOf_spec early
    refine ⟨bounded, by simp [Holding, Over, isOpen], ⟨valid, ?_, inTime⟩, fun reads => ?_⟩
    · rw [duration_timevalOf]
      exact Int.mul_pos left (by decide)
    · exact ⟨(stage reads).1, (stage reads).2.trans onwards⟩

/-- In these phases the socket is open. -/
theorem Sound.isOpen {client : ProbeClient} (sound : client.Sound) {phase : ProbePhase}
    (stands : client.phase = phase) (opened : phase ≠ .opening)
    (goes : (∀ received elapsed, phase ≠ .returned received elapsed) ∧
      ∀ error, phase ≠ .thrown error) : client.socketOpen = true := by
  refine sound.socket.mpr ⟨stands ▸ opened, ?_⟩
  unfold Over
  rw [stands]
  cases phase with
  | returned received elapsed => exact absurd rfl (goes.1 received elapsed)
  | thrown error => exact absurd rfl (goes.2 error)
  | _ => exact not_false

theorem Sound.recv {client : ProbeClient} (sound : client.Sound)
    (receiving : client.phase = .receiving) {result : RecvResult}
    (allowed : client.Allowed (.recv result)) : (client.recv result).Sound := by
  have isOpen := sound.isOpen receiving (by simp) (by simp)
  have stage := sound.stage
  rw [Stage, receiving] at stage
  obtain ⟨more, later⟩ := stage
  cases result with
  | wouldBlock => exact Sound.loop sound.bounded isOpen later
  | failed reason => exact Sound.throw sound.bounded _
  | bytes count =>
    rw [ProbeClient.recv]
    split
    next => exact Sound.finish sound.bounded isOpen later
    next some =>
      have room : count ≤ client.payload - client.received :=
        Nat.le_trans allowed (Nat.min_le_right _ _)
      refine @Sound.loop { client with received := client.received + count } ?_ isOpen later
      show client.received + count ≤ client.payload
      omega

theorem step_sound {inetPton : Bytes → Option InAddr} {client : ProbeClient}
    (sound : client.Sound) {event : ProbeClientEvent} (allowed : client.Allowed event) :
    (client.step inetPton event).Sound := by
  unfold step
  split
  next phase => exact ⟨sound.bounded, by simp [Holding, Over], trivial⟩
  next reason phase => exact Sound.throw sound.bounded _
  next phase =>
    have isOpen := sound.isOpen phase (by simp) (by simp)
    split
    next => exact ⟨sound.bounded, by simp [Holding, Over, isOpen], trivial⟩
    next error _ => exact Sound.throw sound.bounded _
  next reason phase => exact Sound.throw sound.bounded _
  next now result phase =>
    have isOpen := sound.isOpen phase (by simp) (by simp)
    unfold connect
    cases result with
    | connected => exact ⟨sound.bounded, by simp [Holding, Over, isOpen], trivial⟩
    | pending =>
      exact ⟨sound.bounded, by simp [Holding, Over, isOpen], fun never => by cases never⟩
    | failed reason =>
      exact @Sound.throw { client with deadline := _, clock := now } sound.bounded _
  next write now phase =>
    have stage := sound.stage
    rw [Stage, phase] at stage
    exact Sound.wait sound.bounded (sound.isOpen phase (by simp) (by simp)) allowed stage
  next write timeout phase =>
    have isOpen := sound.isOpen phase (by simp) (by simp)
    have stage := sound.stage
    rw [Stage, phase] at stage
    cases write with
    | false => exact ⟨sound.bounded, by simp [Holding, Over, isOpen], stage.2 rfl⟩
    | true => exact ⟨sound.bounded, by simp [Holding, Over, isOpen], trivial⟩
  next => exact Sound.throw sound.bounded _
  next reason _ => exact Sound.throw sound.bounded _
  next phase =>
    have isOpen := sound.isOpen phase (by simp) (by simp)
    exact ⟨sound.bounded, by simp [Holding, Over, isOpen], trivial⟩
  next reason phase => exact Sound.throw sound.bounded _
  next now phase =>
    exact @Sound.loop { client with started := now, clock := now } sound.bounded
      (sound.isOpen phase (by simp) (by simp)) (le_refl now)
  next result phase => exact sound.recv phase allowed
  next now phase =>
    have stage := sound.stage
    rw [Stage, phase] at stage
    have later : client.clock ≤ now := allowed
    exact ⟨sound.bounded, by simp [Holding, Over], rfl, stage.1, by omega⟩
  next => exact sound

theorem sound_called (options : PeerDiscoveryOptions) (endpoint : PeerEndpoint) (now : Int) :
    (called options endpoint now).Sound :=
  ⟨Nat.zero_le _, by simp [called, Holding], trivial⟩

/-! ### What was received -/

@[simp]
theorem received_throw (client : ProbeClient) (error : Error) :
    (client.throw error).received = client.received := rfl

@[simp]
theorem received_finish (client : ProbeClient) : client.finish.received = client.received := by
  unfold finish
  split <;> rfl

@[simp]
theorem received_loop (client : ProbeClient) : client.loop.received = client.received := by
  unfold loop
  split
  · rfl
  · exact client.received_finish

theorem received_step (inetPton : Bytes → Option InAddr) (client : ProbeClient)
    (event : ProbeClientEvent) :
    (client.step inetPton event).received =
      client.received + (client.taken event).toList.sum := by
  cases event with
  | recv result =>
    by_cases phase : client.phase = .receiving
    · cases result with
      | bytes count =>
        simp only [step, phase, ProbeClient.recv, taken, if_true, Option.toList_some,
          List.sum_singleton]
        split
        next none => rw [none, received_finish, Nat.add_zero]
        next => rw [received_loop]
      | wouldBlock => simp [step, phase, ProbeClient.recv, taken]
      | failed reason => simp [step, phase, ProbeClient.recv, taken]
    · have ignored : client.step inetPton (.recv result) = client := by
        unfold step
        split
        case h_13 receiving _ => exact absurd receiving phase
        all_goals first | rfl | contradiction
      have nothing : client.taken (.recv result) = none := by
        cases result <;> simp [taken, phase]
      rw [ignored, nothing]
      rfl
  | connect now result =>
    unfold step
    split
    case h_5 =>
      unfold connect
      split <;> rfl
    all_goals first | rfl | contradiction
  | clock now =>
    unfold step
    split
    case h_6 =>
      unfold wait
      dsimp only
      split <;> rfl
    case h_12 => exact received_loop _
    all_goals first | rfl | contradiction
  | configure failed =>
    unfold step
    split
    case h_3 => split <;> rfl
    all_goals first | rfl | contradiction
  | _ =>
    unfold step
    split
    all_goals first | rfl | contradiction

/-! ### Behind the deadline -/

/-- Where the statement reads the clock, less than a microsecond is left until the deadline. -/
def Overdue (client : ProbeClient) : ProbeClientEvent → Prop
  | .clock now => client.deadline < now + 1000
  | _ => True

instance (client : ProbeClient) : (event : ProbeClientEvent) → Decidable (client.Overdue event)
  | .clock now => inferInstanceAs (Decidable (client.deadline < now + 1000))
  | .socket _ | .configure _ | .connect _ _ | .select _ | .getsockopt _ | .recv _ =>
      .isTrue trivial

/-- How many more statements there are at most behind the deadline. Before the deadline is set,
its statement counts too. -/
def rest (client : ProbeClient) : Nat :=
  match client.phase with
  | .waiting _ | .measuring => 1
  | .receiving | .starting => 2
  | .selecting false _ | .confirming | .connecting => 3
  | .selecting true _ | .configuring => 4
  | .opening => 5
  | .returned _ _ | .thrown _ => 0

theorem rest_throw (client : ProbeClient) (error : Error) : (client.throw error).rest = 0 := rfl

theorem rest_finish (client : ProbeClient) : client.finish.rest ≤ 1 := by
  unfold ProbeClient.finish
  split
  · exact Nat.zero_le 1
  · exact le_refl 1

/-- Behind the loop, or at its top, there is at most one more statement. -/
theorem rest_loop (client : ProbeClient) : client.loop.rest ≤ 1 := by
  unfold ProbeClient.loop
  split
  · exact le_refl 1
  · exact rest_finish client

theorem rest_recv (client : ProbeClient) (result : RecvResult) :
    (client.recv result).rest ≤ 1 := by
  cases result with
  | bytes count =>
    rw [ProbeClient.recv]
    split
    · exact rest_finish client
    · exact rest_loop _
  | wouldBlock => exact rest_loop client
  | failed reason => exact Nat.zero_le 1

theorem rest_connect (client : ProbeClient) (now : Int) (result : ConnectResult) :
    (client.connect now result).rest ≤ 2 := by
  cases result with
  | connected => exact le_refl 2
  | pending => exact Nat.le_succ 1
  | failed reason => exact Nat.zero_le 2

/-- Behind the deadline every statement is one of the few that are left. -/
theorem rest_step {inetPton : Bytes → Option InAddr} {client : ProbeClient}
    {event : ProbeClientEvent} (next : client.Next event) (overdue : client.Overdue event) :
    (client.step inetPton event).rest < client.rest := by
  unfold Next at next
  split at next
  next failed phase =>
    cases failed <;> simp [ProbeClient.step, phase, rest, ProbeClient.throw]
  next failed phase =>
    cases failed with
    | none =>
      rw [show client.rest = 4 by rw [rest, phase]]
      simp only [ProbeClient.step, phase]
      split
      · exact Nat.lt_succ_self 3
      · rw [rest_throw]
        exact Nat.zero_lt_succ 3
    | some reason => simp [ProbeClient.step, phase, rest, ProbeClient.throw]
  next now result phase =>
    rw [show client.rest = 3 by rw [rest, phase]]
    simp only [ProbeClient.step, phase]
    exact Nat.lt_succ_of_le (rest_connect client now result)
  next write now phase =>
    -- Nothing is left to wait for.
    have behind : client.deadline < now + 1000 := overdue
    have nothing : remainingMicroseconds client.deadline now ≤ 0 := by
      rw [← not_lt, remainingMicroseconds_pos]
      omega
    rw [show client.rest = 1 by rw [rest, phase]]
    simp only [ProbeClient.step, phase, wait, nothing, if_true, rest_throw]
    exact Nat.zero_lt_one
  next write timeout result phase =>
    cases result <;> cases write <;> simp [ProbeClient.step, phase, rest, ProbeClient.throw]
  next failed phase =>
    cases failed <;> simp [ProbeClient.step, phase, rest, ProbeClient.throw]
  next now phase =>
    rw [show client.rest = 2 by rw [rest, phase]]
    simp only [ProbeClient.step, phase]
    exact Nat.lt_succ_of_le (rest_loop _)
  next result phase =>
    rw [show client.rest = 2 by rw [rest, phase]]
    simp only [ProbeClient.step, phase]
    exact Nat.lt_succ_of_le (rest_recv client result)
  next now phase =>
    simp [ProbeClient.step, phase, rest]
  next => exact next.elim

theorem rest_le (client : ProbeClient) : client.rest ≤ 5 := by
  unfold rest
  split <;> decide

/-! ### The probe as a whole -/

section Probe

variable {inetPton : Bytes → Option InAddr} {events more : List ProbeClientEvent}

theorem sound_after (options : PeerDiscoveryOptions) (endpoint : PeerEndpoint) (now : Int)
    (allowed : Runs.Meets (step inetPton) Allowed (called options endpoint now) events) :
    (Runs.after (step inetPton) (called options endpoint now) events).Sound :=
  Runs.invariant_after (sound_called options endpoint now)
    (fun _ _ sound allow => step_sound sound allow) events allowed

theorem received_after (client : ProbeClient) (events : List ProbeClientEvent) :
    (Runs.after (step inetPton) client events).received =
      client.received + (Runs.shown (step inetPton) taken client events).sum := by
  induction events generalizing client with
  | nil => rfl
  | cons event rest inductionHypothesis =>
    have first := received_step inetPton client event
    rw [Runs.shown, List.sum_append, ← Nat.add_assoc, ← first]
    exact inductionHypothesis _

/-- The probe keeps its bounds, whatever the system answers. It has taken as many bytes as `recv`
gave it and never more than the payload; it asks for one byte to 64 KiB and never past the
payload; it waits for a time that `select` takes and that ends at the deadline at the latest; its
socket is open from where it was made until the probe returns or throws, and not after; and what
it returns is the positive number of bytes it took, with a time that is not negative. -/
theorem probe_exact (options : PeerDiscoveryOptions) (endpoint : PeerEndpoint) (now : Int)
    (allowed : Runs.Meets (step inetPton) Allowed (called options endpoint now) events) :
    let client := Runs.after (step inetPton) (called options endpoint now) events
    client.received =
      (Runs.shown (step inetPton) taken (called options endpoint now) events).sum ∧
    client.received ≤ client.payload ∧
    (client.phase = .receiving → 1 ≤ client.capacity ∧ client.capacity ≤ 65536 ∧
      client.received + client.capacity ≤ client.payload) ∧
    (∀ write timeout, client.phase = .selecting write timeout → timeout.Valid ∧
      0 < timeout.duration ∧ client.clock + timeout.duration ≤ client.deadline) ∧
    (client.socketOpen = true ↔ client.phase ≠ .opening ∧ ¬ client.Over) ∧
    ∀ received elapsed, client.phase = .returned received elapsed →
      received = client.received ∧ 1 ≤ received ∧ 0 ≤ elapsed := by
  intro client
  have sound : client.Sound := sound_after options endpoint now allowed
  have stage := sound.stage
  refine ⟨?_, sound.bounded, fun phase => ?_, fun write timeout phase => ?_, sound.socket,
    fun received elapsed phase => ?_⟩
  · have whole : client.received = (called options endpoint now).received +
        (Runs.shown (step inetPton) taken (called options endpoint now) events).sum :=
      received_after (called options endpoint now) events
    rw [show (called options endpoint now).received = 0 from rfl, Nat.zero_add] at whole
    exact whole
  · rw [Stage, phase] at stage
    have bounded := sound.bounded
    unfold capacity
    omega
  · rw [Stage, phase] at stage
    exact stage.1
  · rw [Stage, phase] at stage
    exact stage

/-- The probe ends. Wherever it stands, be it in the middle of a wait or of a `recv`: if from there
on the clock, whenever it is read, shows that the deadline has passed, the probe makes at most five
more statements, whatever the system answers. -/
theorem probe_ends (options : PeerDiscoveryOptions) (endpoint : PeerEndpoint) (now : Int)
    (events more : List ProbeClientEvent)
    (further : Runs.Meets (step inetPton) (fun client event => client.Next event ∧
      client.Overdue event) (Runs.after (step inetPton) (called options endpoint now) events)
      more) : more.length ≤ 5 := by
  have few : more.length ≤ (Runs.after (step inetPton) (called options endpoint now) events).rest :=
    @Runs.length_le_measure ProbeClient ProbeClientEvent _ _ _ (fun _ => True) rest trivial
      (fun _ _ _ _ => trivial) (fun _ _ _ here => rest_step here.1 here.2) _ further
  exact few.trans (rest_le _)

end Probe

/-- A probe that takes a hundred bytes before the peer ends. -/
def hundredBytes : List ProbeClientEvent :=
  [.socket none, .configure none, .connect 0 .connected, .clock 1000, .clock 2000, .select .ready,
    .recv (.bytes 100), .clock 3000, .select .ready, .recv (.bytes 0), .clock 5000]

/-- A probe that waits for its connection. -/
def pendingConnection : List ProbeClientEvent :=
  [.socket none, .configure none, .connect 0 .pending, .clock 1000]

/-- The connection stands, but only when the deadline has passed. -/
def lateConnection : List ProbeClientEvent :=
  [.select .ready, .getsockopt none, .clock 500000000, .clock 500000001]

def someEndpoint : PeerEndpoint := ⟨ascii "10.0.0.7", 47790, 47791, 1⟩

theorem probe_exact_hundredBytes :
    let client := Runs.after (step readDottedQuad) (called {} someEndpoint 0) hundredBytes
    client.phase = .returned 100 4000 ∧ client.received = 100 ∧ client.received ≤ 262144 := by
  have allowed : Runs.Meets (step readDottedQuad) Allowed (called {} someEndpoint 0)
      hundredBytes := by
    unfold hundredBytes
    iterate 11 refine Runs.meets_cons.mpr ⟨by decide +kernel, ?_⟩
    exact Runs.meets_nil
  obtain ⟨whole, bounded, -⟩ := probe_exact {} someEndpoint 0 allowed
  refine ⟨by decide +kernel, whole.trans (by decide +kernel), ?_⟩
  rwa [show (262144 : ℕ) = (Runs.after (step readDottedQuad) (called {} someEndpoint 0)
    hundredBytes).payload by decide +kernel]

theorem probe_ends_lateConnection :
    (Runs.after (step readDottedQuad) (called {} someEndpoint 0)
      (pendingConnection ++ lateConnection)).phase = .thrown timedOut ∧
    lateConnection.length ≤ 5 := by
  refine ⟨by decide +kernel, @probe_ends readDottedQuad {} someEndpoint 0 pendingConnection
    lateConnection ?_⟩
  unfold lateConnection
  iterate 4 refine Runs.meets_cons.mpr ⟨⟨trivial, by decide +kernel⟩, ?_⟩
  exact Runs.meets_nil

end ProbeClient

end HyperLink
