/-
This file is the searching sender: `receive_discovery_replies` of
`src/peer_discovery.cpp`, which calls every target from a socket of its own and
gathers what comes back until the deadline, and `PeerDiscovery`, which makes
candidates of it.

The search is a machine that takes one statement a step, with what the system
answers. A target that cannot be called is passed over, an address that is none
ends the search, and the replies are the datagrams within the limit, in the order
in which they were taken from the sockets.
-/

import HyperLink.AdvertisementGrammar
import HyperLink.ResponderThreads

namespace HyperLink

open Selection

/-! ### Clocks and addresses -/

structure PeerDiscoveryOptions where
  discoveryPort : UInt16 := 47789
  discoveryTimeout : Int := 1500
  probeTimeout : Int := 500
  probePayloadBytes : UInt32 := 256 * 1024
  deriving DecidableEq, Repr

/-- A duration in milliseconds on a clock that counts nanoseconds. -/
def nanoseconds (milliseconds : Int) : Int := milliseconds * 1000000

structure Timeval where
  tvSec : Int
  tvUsec : Int
  deriving DecidableEq, Repr

namespace Timeval

/-- The length of the wait. -/
def duration (timeout : Timeval) : Int := (timeout.tvSec * 1000000 + timeout.tvUsec) * 1000

/-- A wait that `select` takes. -/
def Valid (timeout : Timeval) : Prop :=
  0 ≤ timeout.tvSec ∧ 0 ≤ timeout.tvUsec ∧ timeout.tvUsec < 1000000

end Timeval

/-- What is left until the deadline, cut to microseconds. -/
def remainingMicroseconds (deadline now : Int) : Int := (deadline - now).tdiv 1000

/-- How both loops of the sender fill the timeout of `select`. -/
def timevalOf (remaining : Int) : Timeval where
  tvSec := remaining.tdiv 1000000
  tvUsec := remaining.tmod 1000000

/-- `ipv4_endpoint`, with what `inet_pton` makes of the text. -/
def ipv4Endpoint (inetPton : Bytes → Option InAddr) (host : Bytes) (port : UInt16) :
    Except Error SockaddrIn :=
  match inetPton host with
  | some address => .ok ⟨address, port⟩
  | none => .error (ascii "invalid IPv4 address: " ++ host)

/-! ### The search -/

/-- Where the search stands: before the next target, or the reading of the clock behind the last;
at the top of the loop, or inside it with the readable sockets that are still to be read; in
`select`; or behind the return. -/
inductive SearchPhase where
  | opening (targets : List DiscoveryTarget)
  | collecting (readable : List SockaddrIn)
  | waiting (timeout : Timeval)
  | returned
  | thrown (error : Error)
  deriving DecidableEq, Repr

/-- What the system answers while a target is called: whether there is a socket, the port that
`bind` chose unless it fails, and whether `sendto` takes the message. -/
structure TargetAnswers where
  socket : Bool := true
  bind : Option UInt16
  sendto : Bool := true
  deriving DecidableEq, Repr

/-- One statement of the search: a target, the deadline, the condition of the loop with the
reading of the clock behind it, `select` with the sockets it found readable, if any, and
`recvfrom` with the datagram and the address it came from, unless it fails. -/
inductive SearchEvent where
  | target (answers : TargetAnswers)
  | deadline (now : Int)
  | condition (now again : Int)
  | select (ready : Option (List SockaddrIn))
  | recvfrom (datagram : Option (Bytes × InAddr))
  deriving DecidableEq, Repr

/-- The variables of `receive_discovery_replies`. A socket is the address it is bound to; `calls`
are the messages that were sent, from which socket and to whom. -/
structure Search where
  options : PeerDiscoveryOptions
  phase : SearchPhase
  sockets : List SockaddrIn := []
  calls : List (SockaddrIn × SockaddrIn) := []
  deadline : Int := 0
  replies : List DiscoveryReply := []
  deriving DecidableEq, Repr

namespace Search

/-- The call, with the targets that its provider gives. -/
def begun (options : PeerDiscoveryOptions) (targets : List DiscoveryTarget) : Search where
  options
  phase := .opening targets

/-- A socket that calls its target, behind the checks of both addresses. -/
def callTarget (search : Search) (bind destination : SockaddrIn) (answers : TargetAnswers) :
    Search :=
  match answers.bind with
  | some port =>
      let socket := { bind with sinPort := port }
      if answers.sendto then
        { search with
          sockets := search.sockets ++ [socket]
          calls := search.calls ++ [(socket, destination)] }
      else search
  | none => search

section Steps

variable (inetPton : Bytes → Option InAddr)

/-- One round of the loop over the targets. -/
def openTarget (search : Search) (target : DiscoveryTarget) (answers : TargetAnswers) :
    Except Error Search :=
  if !answers.socket then .ok search
  else do
    let bind ← ipv4Endpoint inetPton target.bindAddress 0
    let destination ← ipv4Endpoint inetPton target.destination search.options.discoveryPort
    return search.callTarget bind destination answers

/-- What is put to the replies of a datagram that was taken from a socket. -/
def gather (datagram : Option (Bytes × InAddr)) : Option DiscoveryReply := do
  let (payload, source) ← datagram
  let message ← receiveReply payload
  return ⟨message, source.ipv4String⟩

/-- The datagram that was taken from a socket. -/
def receive (search : Search) (rest : List SockaddrIn) (datagram : Option (Bytes × InAddr)) :
    Search :=
  { search with phase := .collecting rest, replies := search.replies ++ (gather datagram).toList }

/-- One statement; an event that is not the next one does not concern the search. -/
def step (search : Search) (event : SearchEvent) : Search :=
  match search.phase, event with
  | .opening (target :: rest), .target answers =>
      match search.openTarget inetPton target answers with
      | .ok called => { called with phase := .opening rest }
      | .error error => { search with phase := .thrown error }
  | .opening [], .deadline now =>
      { search with
        phase := .collecting []
        deadline := now + nanoseconds search.options.discoveryTimeout }
  | .collecting [], .condition now again =>
      if search.sockets ≠ [] ∧ now < search.deadline then
        { search with
          phase := .waiting (timevalOf (remainingMicroseconds search.deadline again)) }
      else { search with phase := .returned }
  | .waiting _, .select none => { search with phase := .returned }
  | .waiting _, .select (some ready) =>
      { search with phase := .collecting (search.sockets.filter (· ∈ ready)) }
  | .collecting (_ :: rest), .recvfrom datagram => search.receive rest datagram
  | _, _ => search

end Steps

end Search

/-! ### What is made of the replies -/

section Outcome

variable {Rate : Type}

/-- `PeerDiscovery::discover`, behind the search. -/
def discover [Zero Rate] (replies : List DiscoveryReply) :
    Except Error (List (DiscoveredPeer Rate)) :=
  let candidates := deduplicateCandidates replies
  if candidates = [] then .error noPeerDiscovered else .ok candidates

/-- `selected_tcp_endpoint_for_testing`. -/
def selectedTcpEndpoint (endpoint : TcpEndpoint) (peer : DiscoveredPeer Rate) : TcpEndpoint :=
  { endpoint with host := peer.endpoint.host, port := peer.endpoint.transferPort }

/-- `PeerDiscovery::connect_fastest`, as far as the endpoint to connect to. -/
def connectFastest [LinearOrder Rate] [Zero Rate] (sort : PeerSort Rate)
    (probe : DiscoveredPeer Rate → Except Bytes Rate) (replies : List DiscoveryReply)
    (endpoint : TcpEndpoint) : Except Error TcpEndpoint :=
  (rankCandidates sort probe replies).outcome.map (selectedTcpEndpoint endpoint)

end Outcome

/-! ### Waits -/

/-- The timeout is what is left. -/
theorem duration_timevalOf (remaining : Int) :
    (timevalOf remaining).duration = remaining * 1000 := by
  unfold Timeval.duration timevalOf
  rw [Int.tdiv_mul_add_tmod]

/-- What is left is a microsecond exactly if the deadline is that far away. -/
theorem remainingMicroseconds_pos {deadline now : Int} :
    0 < remainingMicroseconds deadline now ↔ now + 1000 ≤ deadline := by
  unfold remainingMicroseconds
  rcases le_total now deadline with early | late
  · rw [Int.tdiv_eq_ediv_of_nonneg (by omega)]
    omega
  · have turned : deadline - now = -(now - deadline) := by omega
    rw [turned, Int.neg_tdiv, Int.tdiv_eq_ediv_of_nonneg (by omega)]
    omega

/-- `select` takes every time that is not negative. -/
theorem valid_timevalOf {remaining : Int} : (timevalOf remaining).Valid ↔ 0 ≤ remaining := by
  unfold Timeval.Valid timevalOf
  simp only []
  rcases le_or_gt 0 remaining with left | behind
  · rw [Int.tdiv_eq_ediv_of_nonneg left, Int.tmod_eq_emod_of_nonneg left]
    omega
  · have turned : remaining = -(-remaining) := by omega
    rw [turned, Int.neg_tdiv, Int.neg_tmod, Int.tdiv_eq_ediv_of_nonneg (by omega),
      Int.tmod_eq_emod_of_nonneg (by omega)]
    omega

/-- What is left is not negative unless the deadline passed a microsecond ago. -/
theorem remainingMicroseconds_nonneg {deadline now : Int} :
    0 ≤ remainingMicroseconds deadline now ↔ now < deadline + 1000 := by
  unfold remainingMicroseconds
  rcases le_total now deadline with early | late
  · rw [Int.tdiv_eq_ediv_of_nonneg (by omega)]
    omega
  · have turned : deadline - now = -(now - deadline) := by omega
    rw [turned, Int.neg_tdiv, Int.tdiv_eq_ediv_of_nonneg (by omega)]
    omega

/-- A wait that begins before the deadline is one that `select` takes, and it ends less than a
microsecond before the deadline. -/
theorem timevalOf_spec {deadline now : Int} (early : now ≤ deadline) :
    (timevalOf (remainingMicroseconds deadline now)).Valid ∧
      now + (timevalOf (remainingMicroseconds deadline now)).duration ≤ deadline ∧
      deadline < now + (timevalOf (remainingMicroseconds deadline now)).duration + 1000 := by
  have cut : remainingMicroseconds deadline now = (deadline - now) / 1000 :=
    Int.tdiv_eq_ediv_of_nonneg (by omega)
  have still : 0 ≤ (deadline - now) / 1000 := by omega
  rw [duration_timevalOf, cut]
  unfold Timeval.Valid timevalOf
  rw [Int.tdiv_eq_ediv_of_nonneg still, Int.tmod_eq_emod_of_nonneg still]
  simp only []
  omega

/-! ### What a search does -/

namespace Search

variable {inetPton : Bytes → Option InAddr}

/-- The socket that is read next. -/
def reading (search : Search) : Option SockaddrIn :=
  match search.phase with
  | .collecting readable => readable.head?
  | _ => none

/-- The reply that a statement adds. -/
def heard (search : Search) : SearchEvent → Option DiscoveryReply
  | .recvfrom datagram => if search.reading.isSome then gather datagram else none
  | _ => none

/-- The targets that were not called yet. -/
def ahead (search : Search) : List DiscoveryTarget :=
  match search.phase with
  | .opening targets => targets
  | _ => []

/-- A target both of whose texts are those of addresses. -/
def Printed (target : DiscoveryTarget) : Prop :=
  ∃ address destination : InAddr, target = ⟨address.ipv4String, destination.ipv4String⟩

/-- The target of a call. -/
def targetOf (call : SockaddrIn × SockaddrIn) : DiscoveryTarget :=
  ⟨call.1.sinAddr.ipv4String, call.2.sinAddr.ipv4String⟩

/-- A target whose texts are read is passed over, or called from a socket bound to its address. -/
theorem openTarget_cases (reads : ∀ address : InAddr, inetPton address.ipv4String = some address)
    (search : Search) {target : DiscoveryTarget} (printed : Printed target)
    (answers : TargetAnswers) :
    search.openTarget inetPton target answers = .ok search ∨
      ∃ socket destination, destination.sinPort = search.options.discoveryPort ∧
        targetOf (socket, destination) = target ∧
        search.openTarget inetPton target answers = .ok { search with
          sockets := search.sockets ++ [socket]
          calls := search.calls ++ [(socket, destination)] } := by
  obtain ⟨address, destination, rfl⟩ := printed
  unfold openTarget ipv4Endpoint
  cases answers.socket with
  | false => exact .inl rfl
  | true =>
    simp only [Bool.not_true, Bool.false_eq_true, if_false, reads, callTarget]
    cases answers.bind with
    | none => exact .inl rfl
    | some port =>
      cases answers.sendto with
      | false => exact .inl rfl
      | true =>
        exact .inr ⟨⟨address, port⟩, ⟨destination, search.options.discoveryPort⟩, rfl, rfl, rfl⟩

/-- The sockets that are to be read are sockets of the search. -/
def Owns (search : Search) : Prop :=
  ∀ readable, search.phase = .collecting readable → ∀ socket ∈ readable, socket ∈ search.sockets

theorem Owns.step {search : Search} (owns : search.Owns) (event : SearchEvent) :
    (search.step inetPton event).Owns := by
  unfold Search.step
  split
  next target rest answers phase => split <;> exact fun _ => SearchPhase.noConfusion
  next now phase =>
    intro readable same socket member
    cases same
    cases member
  next now again phase => split <;> exact fun _ => SearchPhase.noConfusion
  next timeout phase => exact fun _ => SearchPhase.noConfusion
  next timeout ready phase =>
    intro readable same socket member
    cases same
    exact List.mem_of_mem_filter member
  next socket rest datagram phase =>
    intro readable same other member
    cases same
    exact owns _ phase other (List.mem_cons_of_mem _ member)
  next => exact owns

theorem Owns.reading {search : Search} (owns : search.Owns) {socket : SockaddrIn}
    (reads : socket ∈ search.reading) : socket ∈ search.sockets := by
  unfold Search.reading at reads
  split at reads
  next readable phase => exact owns readable phase socket (List.mem_of_mem_head? reads)
  next => cases reads

/-- What holds between any two statements of a search for these targets. -/
structure Sound (options : PeerDiscoveryOptions) (targets : List DiscoveryTarget)
    (search : Search) : Prop where
  configured : search.options = options
  goes : ∀ error, search.phase ≠ .thrown error
  inOrder : ∃ passed, targets = passed ++ search.ahead ∧
    (search.calls.map targetOf).Sublist passed
  sockets : search.sockets = search.calls.map Prod.fst
  port : ∀ call ∈ search.calls, call.2.sinPort = options.discoveryPort

theorem sound_begun (options : PeerDiscoveryOptions) (targets : List DiscoveryTarget) :
    (begun options targets).Sound options targets where
  configured := rfl
  goes _ := SearchPhase.noConfusion
  inOrder := ⟨[], rfl, List.nil_sublist _⟩
  sockets := rfl
  port := by simp [begun]

theorem Sound.step (reads : ∀ address : InAddr, inetPton address.ipv4String = some address)
    {options : PeerDiscoveryOptions} {targets : List DiscoveryTarget}
    (printed : ∀ target ∈ targets, Printed target) {search : Search}
    (sound : search.Sound options targets) (event : SearchEvent) :
    (search.step inetPton event).Sound options targets := by
  obtain ⟨passed, whole, called⟩ := sound.inOrder
  unfold Search.step
  split
  next target rest answers phase =>
    rw [ahead, phase] at whole
    have inside : target ∈ targets := by simp [whole]
    have onwards : targets = (passed ++ [target]) ++ rest := by simp [whole]
    rcases search.openTarget_cases reads (printed target inside) answers with
      passes | ⟨socket, destination, port, same, calls⟩
    · rw [passes]
      exact ⟨sound.configured, fun _ => SearchPhase.noConfusion,
        ⟨_, onwards, called.trans (List.sublist_append_left _ _)⟩, sound.sockets, sound.port⟩
    · rw [calls]
      refine ⟨sound.configured, fun _ => SearchPhase.noConfusion, ⟨_, onwards, ?_⟩, ?_, ?_⟩
      · rw [List.map_append]
        simpa [same] using called.append_right [target]
      · simp [sound.sockets]
      · intro call member
        rcases List.mem_append.mp member with old | new
        · exact sound.port call old
        · rw [List.mem_singleton.mp new, ← sound.configured]
          exact port
  next now phase =>
    rw [ahead, phase] at whole
    exact ⟨sound.configured, fun _ => SearchPhase.noConfusion, ⟨passed, whole, called⟩,
      sound.sockets, sound.port⟩
  next now again phase =>
    rw [ahead, phase] at whole
    split
    all_goals exact ⟨sound.configured, fun _ => SearchPhase.noConfusion, ⟨passed, whole, called⟩,
      sound.sockets, sound.port⟩
  next timeout phase =>
    rw [ahead, phase] at whole
    exact ⟨sound.configured, fun _ => SearchPhase.noConfusion, ⟨passed, whole, called⟩,
      sound.sockets, sound.port⟩
  next timeout ready phase =>
    rw [ahead, phase] at whole
    exact ⟨sound.configured, fun _ => SearchPhase.noConfusion, ⟨passed, whole, called⟩,
      sound.sockets, sound.port⟩
  next socket rest datagram phase =>
    rw [ahead, phase] at whole
    exact ⟨sound.configured, fun _ => SearchPhase.noConfusion, ⟨passed, whole, called⟩,
      sound.sockets, sound.port⟩
  next => exact sound

theorem sound_after (reads : ∀ address : InAddr, inetPton address.ipv4String = some address)
    (options : PeerDiscoveryOptions) {targets : List DiscoveryTarget}
    (printed : ∀ target ∈ targets, Printed target) (events : List SearchEvent) :
    (Runs.after (step inetPton) (begun options targets) events).Sound options targets :=
  @Runs.invariant_after _ _ _ _ (fun _ _ => True) (Sound options targets)
    (sound_begun options targets) (fun _ event sound _ => sound.step reads printed event) events
    (fun _ _ _ => trivial)

theorem owns_after (options : PeerDiscoveryOptions) (targets : List DiscoveryTarget)
    (events : List SearchEvent) :
    (Runs.after (step inetPton) (begun options targets) events).Owns :=
  @Runs.invariant_after _ _ _ _ (fun _ _ => True) Owns (fun _ => SearchPhase.noConfusion)
    (fun _ event owns _ => owns.step event) events (fun _ _ _ => trivial)

/-- A wait is begun at the top of the loop, from the two readings of the clock there. -/
theorem waiting_step {search : Search} {event : SearchEvent} {timeout : Timeval}
    (waits : (search.step inetPton event).phase = .waiting timeout) :
    search.step inetPton event = search ∨
      ∃ now again, event = .condition now again ∧ search.phase = .collecting [] ∧
        search.sockets ≠ [] ∧ now < search.deadline ∧
        search.step inetPton event = { search with
          phase := .waiting (timevalOf (remainingMicroseconds search.deadline again)) } := by
  unfold Search.step at waits ⊢
  split at waits
  next target rest answers phase => split at waits <;> cases waits
  next now phase => cases waits
  next now again phase =>
    split at waits
    next goes => exact .inr ⟨now, again, rfl, phase, goes.1, goes.2, if_pos goes⟩
    next => cases waits
  next timeout phase => cases waits
  next timeout ready phase => cases waits
  next socket rest datagram phase => cases waits
  next => exact .inl rfl

/-- A search that waits does so since a condition of the loop, and all that came behind it concerned
nothing. -/
theorem waits_after (options : PeerDiscoveryOptions) (targets : List DiscoveryTarget)
    (events : List SearchEvent) {timeout : Timeval}
    (waits : (Runs.after (step inetPton) (begun options targets) events).phase =
      .waiting timeout) :
    ∃ before now again, before ++ [.condition now again] <+: events ∧
      (Runs.after (step inetPton) (begun options targets) before).phase = .collecting [] ∧
      Runs.after (step inetPton) (begun options targets) (before ++ [.condition now again]) =
        Runs.after (step inetPton) (begun options targets) events ∧
      (Runs.after (step inetPton) (begun options targets) events).sockets ≠ [] ∧
      now < (Runs.after (step inetPton) (begun options targets) events).deadline ∧
      timeout = timevalOf (remainingMicroseconds
        (Runs.after (step inetPton) (begun options targets) events).deadline again) := by
  induction events using List.reverseRecOn with
  | nil => cases waits
  | append_singleton events event inductionHypothesis =>
    rw [Runs.after_concat] at waits ⊢
    rcases waiting_step waits with same | ⟨now, again, rfl, phase, some, early, begins⟩
    · rw [same] at waits ⊢
      obtain ⟨before, now, again, inside, rest⟩ := inductionHypothesis waits
      exact ⟨before, now, again, inside.trans (List.prefix_append _ _), rest⟩
    · refine ⟨events, now, again, List.prefix_rfl, phase, Runs.after_concat _ _, ?_⟩
      rw [begins] at waits ⊢
      cases waits
      exact ⟨some, early, rfl⟩

/-! ### What a search hears -/

/-- What is heard is a datagram within the limit, with the address it came from. -/
theorem heard_eq_some {search : Search} {event : SearchEvent} {reply : DiscoveryReply}
    (saw : search.heard event = some reply) :
    ∃ payload source, event = .recvfrom (some (payload, source)) ∧
      reply = ⟨payload, source.ipv4String⟩ ∧ payload ≠ [] ∧ payload.length ≤ 512 := by
  cases event with
  | recvfrom datagram =>
    rw [heard] at saw
    split at saw
    · cases datagram with
      | none => cases saw
      | some datagram =>
        obtain ⟨payload, source⟩ := datagram
        simp only [gather, Option.bind_eq_bind, Option.bind_some] at saw
        obtain ⟨message, received, same⟩ := Option.bind_eq_some_iff.mp saw
        obtain ⟨rfl, more, short⟩ := receiveReply_eq_some_iff.mp received
        exact ⟨message, source, rfl, (Option.some.inj same).symm, more, short⟩
    · cases saw
  | _ => cases saw

theorem reading_of_heard {search : Search} {event : SearchEvent} {reply : DiscoveryReply}
    (saw : search.heard event = some reply) : ∃ socket, socket ∈ search.reading := by
  cases event with
  | recvfrom datagram =>
    rw [heard] at saw
    split at saw
    next reads => exact Option.isSome_iff_exists.mp reads
    next => cases saw
  | _ => cases saw

/-- Opening a target leaves the replies and the sockets that are there. -/
theorem openTarget_ok {search called : Search} {target : DiscoveryTarget}
    {answers : TargetAnswers} (opened : search.openTarget inetPton target answers = .ok called) :
    called.replies = search.replies ∧ search.sockets <+: called.sockets := by
  unfold openTarget at opened
  split at opened
  · cases opened
    exact ⟨rfl, List.prefix_rfl⟩
  · cases bind : ipv4Endpoint inetPton target.bindAddress 0 with
    | error error =>
      rw [bind] at opened
      cases opened
    | ok bind' =>
      rw [bind] at opened
      cases destination : ipv4Endpoint inetPton target.destination
          search.options.discoveryPort with
      | error error =>
        rw [destination] at opened
        cases opened
      | ok destination' =>
        rw [destination] at opened
        cases opened
        unfold callTarget
        split
        · split
          · exact ⟨rfl, List.prefix_append _ _⟩
          · exact ⟨rfl, List.prefix_rfl⟩
        · exact ⟨rfl, List.prefix_rfl⟩

/-- No socket is closed before the search returns. -/
theorem step_sockets (search : Search) (event : SearchEvent) :
    search.sockets <+: (search.step inetPton event).sockets := by
  unfold step
  split
  next target rest answers phase =>
    split
    next called opened => exact (openTarget_ok opened).2
    next => exact List.prefix_rfl
  next => exact List.prefix_rfl
  next => split <;> exact List.prefix_rfl
  all_goals exact List.prefix_rfl

theorem step_replies (search : Search) (event : SearchEvent) :
    (search.step inetPton event).replies = search.replies ++ (search.heard event).toList := by
  cases event with
  | recvfrom datagram =>
    cases phase : search.phase with
    | collecting readable =>
      cases readable with
      | nil => simp [step, heard, reading, phase]
      | cons socket rest => simp [step, heard, reading, phase, receive]
    | _ => simp [step, heard, reading, phase]
  | target answers =>
    refine Eq.trans ?_ (List.append_nil _).symm
    cases phase : search.phase with
    | opening targets =>
      cases targets with
      | nil => simp [step, phase]
      | cons target rest =>
        simp only [step, phase]
        cases opened : search.openTarget inetPton target answers with
        | error error => rfl
        | ok called =>
          have kept : called.replies = search.replies := (openTarget_ok opened).1
          exact kept
    | _ => simp [step, phase]
  | _ =>
    refine Eq.trans ?_ (List.append_nil _).symm
    unfold step
    -- Only the condition of the loop asks anything.
    split
    case h_3 => split <;> rfl
    all_goals first | rfl | contradiction

/-- The replies are what was heard, in order. -/
theorem replies_after (start : Search) (events : List SearchEvent) :
    (Runs.after (step inetPton) start events).replies =
      start.replies ++ Runs.shown (step inetPton) heard start events :=
  @Runs.accumulates_after _ _ _ _ (fun _ _ => True) (fun _ => True) _ _ replies trivial
    (fun _ _ _ _ => trivial) (fun search event _ _ => step_replies search event) events
    (fun _ _ _ => trivial)

end Search

/-! ### The calls of a search -/

theorem TargetOf.printed {address broadcast : InAddr} {target : DiscoveryTarget}
    (isTarget : TargetOf address broadcast target) : Search.Printed target := by
  have all : ascii "255.255.255.255" = (⟨255, 255, 255, 255⟩ : InAddr).ipv4String := by decide
  obtain ⟨bind, directed | limited⟩ := isTarget
  · refine ⟨address, broadcast, ?_⟩
    rw [← bind, ← directed]
  · refine ⟨address, ⟨255, 255, 255, 255⟩, ?_⟩
    rw [← bind, ← all, ← limited]

theorem printed_loopback : Search.Printed ⟨loopback, loopback⟩ :=
  ⟨⟨127, 0, 0, 1⟩, ⟨127, 0, 0, 1⟩, by decide⟩

/-- The targets that a platform lists, from what its system gives. -/
inductive Listed (sort : TargetSort) : List DiscoveryTarget → Prop where
  | posix (interfaces : Option (List Interface)) : Listed sort (enumeratePosix sort interfaces)
  | windows (adapters : Option (List Adapter)) : Listed sort (enumerateWindows sort adapters)

theorem Listed.printed {sort : TargetSort} (sorts : Sorts sort) {targets : List DiscoveryTarget}
    (listed : Listed sort targets) {target : DiscoveryTarget} (member : target ∈ targets) :
    Search.Printed target := by
  cases listed with
  | posix interfaces =>
    rcases (mem_enumeratePosix sorts interfaces target).mp member with
      rfl | ⟨item, -, address, -, isTarget⟩
    · exact printed_loopback
    · exact isTarget.printed
  | windows adapters =>
    rcases (mem_enumerateWindows sorts adapters target).mp member with
      rfl | ⟨adapter, -, address, length, -, isTarget⟩
    · exact printed_loopback
    · exact isTarget.printed

theorem Listed.ascending {sort : TargetSort} (sorts : Sorts sort) {targets : List DiscoveryTarget}
    (listed : Listed sort targets) : Ascending targets := by
  cases listed with
  | posix interfaces => exact (finishTargets_spec sorts _).1
  | windows adapters => exact (finishTargets_spec sorts _).1

/-- A search of the listed targets runs as it should, whatever the system answers. It throws
nothing; its sockets are the ones it called from, each bound to the address of its target; it
calls targets of the list in the order of the list, none twice, on the discovery port; it only
reads sockets of its own; its replies are the datagrams of one to 512 bytes that it took from
them, in that order, each with the address it came from; and it waits only while it has a socket,
behind a reading of the clock before the deadline. The time it waits is from a second reading: if
that one is not past the deadline either, the wait ends within the last microsecond before it, and
`select` takes it unless the second reading is a microsecond or more past the deadline. -/
theorem search_calls {sort : TargetSort} (sorts : Sorts sort)
    {inetPton : Bytes → Option InAddr}
    (reads : ∀ address : InAddr, inetPton address.ipv4String = some address)
    {targets : List DiscoveryTarget} (listed : Listed sort targets)
    (options : PeerDiscoveryOptions) (events : List SearchEvent) :
    let search := Runs.after (Search.step inetPton) (Search.begun options targets) events
    (∀ error, search.phase ≠ .thrown error) ∧
    search.sockets = search.calls.map Prod.fst ∧
    (search.calls.map Search.targetOf).Sublist targets ∧
    (search.calls.map Search.targetOf).Nodup ∧
    (∀ call ∈ search.calls, call.2.sinPort = options.discoveryPort) ∧
    (∀ socket ∈ search.reading, socket ∈ search.sockets) ∧
    search.replies = Runs.shown (Search.step inetPton) Search.heard
      (Search.begun options targets) events ∧
    (∀ reply ∈ search.replies, ∃ before payload source,
      before ++ [.recvfrom (some (payload, source))] <+: events ∧
      reply = ⟨payload, source.ipv4String⟩ ∧ payload ≠ [] ∧ payload.length ≤ 512) ∧
    ∀ timeout, search.phase = .waiting timeout → search.sockets ≠ [] ∧
      ∃ before now again, before ++ [.condition now again] <+: events ∧
        (Runs.after (Search.step inetPton) (Search.begun options targets) before).phase =
          .collecting [] ∧
        Runs.after (Search.step inetPton) (Search.begun options targets)
          (before ++ [.condition now again]) = search ∧
        now < search.deadline ∧ (timeout.Valid ↔ again < search.deadline + 1000) ∧
        (again ≤ search.deadline → again + timeout.duration ≤ search.deadline ∧
          search.deadline < again + timeout.duration + 1000) := by
  intro search
  have printed : ∀ target ∈ targets, Search.Printed target := fun _ => listed.printed sorts
  have sound : search.Sound options targets := Search.sound_after reads options printed events
  obtain ⟨passed, whole, called⟩ := sound.inOrder
  have inList : (search.calls.map Search.targetOf).Sublist targets := by
    rw [whole]
    exact called.trans (List.sublist_append_left _ _)
  have once : targets.Nodup :=
    (listed.ascending sorts).imp fun before same => absurd before (by rw [same]; exact lt_irrefl _)
  have replies : search.replies = Runs.shown (Search.step inetPton) Search.heard
      (Search.begun options targets) events := Search.replies_after _ events
  refine ⟨sound.goes, sound.sockets, inList, inList.nodup once, sound.port, ?_, replies, ?_, ?_⟩
  · exact fun socket reads => (Search.owns_after options targets events).reading reads
  · intro reply member
    rw [replies] at member
    obtain ⟨before, event, inside, saw⟩ := Runs.mem_shown.mp member
    obtain ⟨payload, source, rfl, rfl, more, short⟩ := Search.heard_eq_some saw
    exact ⟨before, payload, source, inside, rfl, more, short⟩
  · intro timeout phase
    obtain ⟨before, now, again, inside, top, whole, some, early, same⟩ :=
      Search.waits_after options targets events phase
    refine ⟨some, before, now, again, inside, top, whole, early, ?_, fun intime => ?_⟩
    · rw [same, valid_timevalOf, remainingMicroseconds_nonneg]
    · rw [same]
      exact (timevalOf_spec intime).2

/-- What `inet_pton` makes of four printed octets. -/
def readDottedQuad (text : Bytes) : Option InAddr :=
  match parseIpv4 text with
  | some [a, b, c, d] => some ⟨.ofNat a, .ofNat b, .ofNat c, .ofNat d⟩
  | _ => none

theorem readDottedQuad_ipv4String (address : InAddr) :
    readDottedQuad address.ipv4String = some address := by
  rw [readDottedQuad, InAddr.ipv4String, parseIpv4_dottedQuad]
  simp

/-- A host that lists no interfaces. Its search calls the host itself, hears a datagram and waits
again. -/
def lonelyEvents : List SearchEvent :=
  [.target { bind := some 50000 }, .deadline 0, .condition 10 20,
    .select (some [⟨⟨127, 0, 0, 1⟩, 50000⟩]), .recvfrom (some (ascii "HLINK", ⟨127, 0, 0, 1⟩)),
    .condition 30 40]

/-- The host calls only itself, and the wait it is in is one that ends in time. -/
theorem search_calls_lonely :
    let search := Runs.after (Search.step readDottedQuad)
      (Search.begun {} (enumeratePosix Selection.mergeSort none)) lonelyEvents
    (search.calls.map Search.targetOf).Sublist (enumeratePosix Selection.mergeSort none) ∧
      ∀ timeout, search.phase = .waiting timeout → search.sockets ≠ [] := by
  obtain ⟨-, -, called, -, -, -, -, -, waits⟩ := search_calls mergeSort_sorts
    readDottedQuad_ipv4String (.posix none) {} lonelyEvents
  exact ⟨called, fun timeout phase => (waits timeout phase).1⟩

end HyperLink
