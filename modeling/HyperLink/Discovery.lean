/-
This file is about a network in which any number of receivers answer and any
number of senders search, all at their own pace. Datagrams may be lost, doubled,
late or out of order, and anyone may send anything to anyone, but a receiver's
host sends to a searching socket only what its responder sends or what another
search calls.

A responder answers every request once, with what it was configured to. So a peer
found at a receiver's address is that receiver as it was configured, and what the
sender makes of it leads to the ports on which the receiver listens.
-/

import HyperLink.ResponderShutdown
import HyperLink.Search

namespace HyperLink

open Selection

/-! ### What a responder answers -/

/-- The buffer of a request is long enough to tell it from any longer datagram. -/
theorem asksForAdvertisement_iff {datagram : Bytes} :
    ResponderThreads.asksForAdvertisement datagram = true ↔ datagram = kDiscoveryMessage := by
  have short : kDiscoveryMessage.length = 17 := by decide
  unfold ResponderThreads.asksForAdvertisement
  rw [decide_eq_true_eq]
  constructor
  · rintro ⟨-, same⟩
    have length := congrArg List.length same
    rw [List.length_take, short, kMaximumAdvertisementBytes] at length
    rwa [List.take_of_length_le (by rw [kMaximumAdvertisementBytes]; omega)] at same
  · rintro rfl
    decide

namespace ResponderThreads

/-- The sender of a request that a statement takes from the socket. -/
def request (state : ResponderThreads) : Event → Option SockaddrIn
  | .discovery (.recvfrom (some (datagram, source))) =>
      if state.members.discoveryThread.isSome ∧ state.discovery = some .receiving ∧
        datagram = kDiscoveryMessage then some source
      else none
  | _ => none

theorem request_eq_some {state : ResponderThreads} {event : Event} {source : SockaddrIn}
    (saw : state.request event = some source) :
    event = .discovery (.recvfrom (some (kDiscoveryMessage, source))) ∧
      state.discovery = some .receiving := by
  unfold request at saw
  split at saw
  · split at saw
    next asks =>
      cases saw
      exact ⟨by rw [asks.2.2], asks.2.1⟩
    next => cases saw
  · cases saw

/-- The request that was taken and is not answered yet. -/
def pending (state : ResponderThreads) : List SockaddrIn :=
  match state.discovery with
  | some (.answering source) => [source]
  | _ => []

/-- Whom was answered, and who is next. -/
def answered (state : ResponderThreads) : List SockaddrIn :=
  state.answers.map Prod.snd ++ state.pending

theorem answered_congr {state other : ResponderThreads} (answers : other.answers = state.answers)
    (pending : other.pending = state.pending) : other.answered = state.answered := by
  rw [answered, answered, answers, pending]

theorem pending_eq_nil {state : ResponderThreads}
    (none : ∀ source, state.discovery ≠ some (.answering source)) : state.pending = [] := by
  unfold pending
  split
  next source answering => exact absurd answering (none source)
  next => rfl

/-- A call answers nobody and forgets no request. -/
theorem quiet_call {options : PeerDiscoveryResponderOptions} {state : ResponderThreads}
    (sound : state.Sound options) (call : Responder.Call) :
    (state.call call).answers = state.answers ∧ (state.call call).pending = state.pending := by
  cases call with
  | start answers =>
    unfold ResponderThreads.call
    cases caller : state.caller with
    | idle =>
      have stage := sound.stage
      rw [Stage, caller] at stage
      simp only []
      rcases stage with ⟨on, -⟩ | ⟨off, noDiscovery, noProbe⟩
      · rw [beginStart, if_pos on]
        exact ⟨rfl, rfl⟩
      · have nothing : state.pending = [] := pending_eq_nil (by simp [noDiscovery])
        rcases beginStart_cases (sound.stopped off noDiscovery noProbe caller) answers with
          ⟨members, error, same, -⟩ | ⟨members, discoverySocket, probeSocket, same, -⟩
        · rw [same]
          exact ⟨rfl, rfl⟩
        · rw [same]
          exact ⟨rfl, nothing.symm⟩
    | _ => exact ⟨rfl, rfl⟩
  | stop =>
    unfold ResponderThreads.call
    cases state.caller <;> exact ⟨rfl, rfl⟩

theorem quiet_callerStep (state : ResponderThreads) :
    state.callerStep.answers = state.answers ∧ state.callerStep.pending = state.pending := by
  unfold callerStep
  split
  next => exact ⟨rfl, rfl⟩
  next probeSocket probeThread caller =>
    unfold spawnProbe
    split
    · exact ⟨rfl, rfl⟩
    · split <;> exact ⟨rfl, rfl⟩
  next outcome caller =>
    unfold joinDiscovery
    split
    next => exact ⟨rfl, rfl⟩
    next =>
      split
      next returned =>
        refine ⟨rfl, ?_⟩
        rw [pending_eq_nil (by simp), pending_eq_nil (by simp [returned])]
      next => exact ⟨rfl, rfl⟩
  next outcome caller =>
    unfold joinProbe
    split
    · exact ⟨rfl, rfl⟩
    · split <;> exact ⟨rfl, rfl⟩
  next => exact ⟨rfl, rfl⟩

theorem quiet_probeStep (state : ResponderThreads) (event : ProbeEvent) :
    (state.probeStep event).answers = state.answers ∧
      (state.probeStep event).pending = state.pending := by
  unfold probeStep
  split
  · dsimp only
    split <;> exact ⟨rfl, rfl⟩
  · exact ⟨rfl, rfl⟩

theorem answered_discoveryStep (state : ResponderThreads) (event : DiscoveryEvent) :
    (state.discoveryStep event).answered =
      state.answered ++ (state.request (.discovery event)).toList := by
  cases event with
  | select readable =>
    refine Eq.trans ?_ (List.append_nil _).symm
    unfold discoveryStep
    split
    next socket readable thread polling same =>
      have nothing : state.pending = [] := pending_eq_nil (by simp [polling])
      split
      · exact answered_congr rfl nothing.symm
      · split
        · exact answered_congr rfl nothing.symm
        · rfl
    all_goals first | rfl | contradiction
  | sendto taken =>
    refine Eq.trans ?_ (List.append_nil _).symm
    unfold discoveryStep
    split
    case h_4 answering _ => simp [answered, pending, answering]
    all_goals first | rfl | contradiction
  | recvfrom datagram =>
    by_cases receives : state.members.discoveryThread.isSome ∧ state.discovery = some .receiving
    · obtain ⟨thread, receiving⟩ := receives
      obtain ⟨socket, thread⟩ := Option.isSome_iff_exists.mp thread
      have nothing : state.pending = [] := pending_eq_nil (by simp [receiving])
      cases datagram with
      | none =>
        simp only [discoveryStep, thread, receiving, request, Option.toList_none, List.append_nil]
        exact answered_congr rfl nothing.symm
      | some datagram =>
        obtain ⟨payload, source⟩ := datagram
        simp only [discoveryStep, request, thread, receiving, Option.isSome_some, true_and,
          answered, nothing, List.append_nil, asksForAdvertisement_iff]
        split <;> simp [pending]
    · have ignored : state.discoveryStep (.recvfrom datagram) = state := by
        unfold discoveryStep
        split
        case h_2 thread receiving _ =>
          exact absurd ⟨by rw [thread, Option.isSome_some], receiving⟩ receives
        case h_3 thread receiving _ =>
          exact absurd ⟨by rw [thread, Option.isSome_some], receiving⟩ receives
        all_goals first | rfl | contradiction
      have unasked : state.request (.discovery (.recvfrom datagram)) = none := by
        cases datagram with
        | none => rfl
        | some datagram => exact if_neg fun asks => receives ⟨asks.1, asks.2.1⟩
      rw [ignored, unasked, Option.toList_none, List.append_nil]

/-- Whom was answered grows by the requests. -/
theorem answered_step {options : PeerDiscoveryResponderOptions} {state : ResponderThreads}
    (sound : state.Sound options) (event : Event) :
    (state.step event).answered = state.answered ++ (state.request event).toList := by
  have quiet : ∀ other : ResponderThreads, other.answers = state.answers ∧
      other.pending = state.pending → other.answered = state.answered ++ [] := fun other same =>
    (answered_congr same.1 same.2).trans (List.append_nil _).symm
  cases event with
  | call call => exact quiet _ (quiet_call sound call)
  | caller => exact quiet _ (quiet_callerStep state)
  | discovery event => exact answered_discoveryStep state event
  | probe event => exact quiet _ (quiet_probeStep state event)

/-- What is answered is the advertisement, to the sender of the request. -/
theorem answers_step {options : PeerDiscoveryResponderOptions} {state : ResponderThreads}
    (sound : state.Sound options) (event : Event) :
    (state.step event).answers = state.answers ∨ ∃ source,
      state.discovery = some (.answering source) ∧
        (state.step event).answers = state.answers ++ [(state.members.advertisement, source)] := by
  cases event with
  | call call => exact .inl (quiet_call sound call).1
  | caller => exact .inl (quiet_callerStep state).1
  | probe event => exact .inl (quiet_probeStep state event).1
  | discovery event =>
    rw [step]
    rcases state.discoveryStep_cases event with same | ⟨socket, -, -, -, same⟩ |
      ⟨before, after, sent, phase, -, -, same, -, nothing | ⟨source, rfl, rfl⟩, -⟩
    · rw [same]
      exact .inl rfl
    · rw [same]
      exact .inl rfl
    · rw [same, nothing, List.append_nil]
      exact .inl rfl
    · rw [same]
      exact .inr ⟨source, phase, rfl⟩

/-- The advertisement that `start` makes of these options. -/
def Advertises (options : PeerDiscoveryResponderOptions) (advertisement : Bytes) : Prop :=
  ∃ probePort, PeerDiscoveryResponder.start options = .ok (probePort, advertisement)

section Answers

variable {options : PeerDiscoveryResponderOptions} {events : List Event}

theorem advertised_after (assumed : Runs.Meets step Assumed (fresh options) events) :
    ∀ answer ∈ (Runs.after step (fresh options) events).answers, Advertises options answer.1 := by
  have kept := @Runs.invariant_after _ _ step (fresh options) Assumed
    (fun state => state.Sound options ∧ ∀ answer ∈ state.answers, Advertises options answer.1)
    ⟨sound_fresh options, by simp [fresh]⟩
  refine (kept ?_ events assumed).2
  rintro state event ⟨sound, advertised⟩ allowed
  refine ⟨step_sound sound allowed, ?_⟩
  rcases answers_step sound event with same | ⟨source, answering, same⟩
  · rw [same]
    exact advertised
  · rw [same]
    intro answer member
    rcases List.mem_append.mp member with old | new
    · exact advertised answer old
    · rw [List.mem_singleton.mp new]
      exact ⟨_, sound.advertised (by simp [answering])⟩

theorem answered_after (assumed : Runs.Meets step Assumed (fresh options) events) :
    (Runs.after step (fresh options) events).answered =
      Runs.shown step request (fresh options) events :=
  @Runs.accumulates_after _ _ step (fresh options) Assumed (fun state => state.Sound options) _
    request answered (sound_fresh options) (fun _ _ sound allowed => step_sound sound allowed)
    (fun _ event sound _ => answered_step sound event) events assumed

end Answers

/-- A responder answers the requests one by one and nothing else, whatever is called and however
its threads take turns. What it gave to `sendto`, be it that the call failed, is one advertisement
for each request that its discovery thread took from the socket, in the order in which it took them,
to the sender of the request, and at most the last request is still to be answered; a request is a
datagram that is exactly the message; and every advertisement is the one that `start` makes of the
options. -/
theorem answers_requests (options : PeerDiscoveryResponderOptions) (events : List Event)
    (assumed : Runs.Meets step Assumed (fresh options) events) :
    let state := Runs.after step (fresh options) events
    (∃ waiting, waiting.length ≤ 1 ∧ state.answers.map Prod.snd ++ waiting =
      Runs.shown step request (fresh options) events) ∧
    (∀ answer ∈ state.answers, ∃ probePort, PeerDiscoveryResponder.start options =
      .ok (probePort, answer.1)) ∧
    ∀ answer ∈ state.answers, ∃ before,
      before ++ [.discovery (.recvfrom (some (kDiscoveryMessage, answer.2)))] <+: events ∧
      (Runs.after step (fresh options) before).discovery = some .receiving := by
  intro state
  have whole := answered_after assumed
  refine ⟨⟨state.pending, ?_, whole⟩, advertised_after assumed, fun answer member => ?_⟩
  · unfold pending
    split <;> simp
  · have asked : answer.2 ∈ Runs.shown step request (fresh options) events := by
      rw [← whole]
      exact List.mem_append_left _ (List.mem_map_of_mem member)
    obtain ⟨before, event, inside, saw⟩ := Runs.mem_shown.mp asked
    obtain ⟨rfl, receiving⟩ := request_eq_some saw
    exact ⟨before, inside, receiving⟩

/-- One request, answered while the responder is being stopped. -/
theorem answers_requests_asked :
    Runs.shown step request (fresh {}) (askedAndStopped ++ answeredAndJoined) = [asker] ∧
      ∃ waiting, waiting.length ≤ 1 ∧
        (Runs.after step (fresh {}) (askedAndStopped ++ answeredAndJoined)).answers.map Prod.snd ++
          waiting = [asker] := by
  have asked : Runs.shown step request (fresh {}) (askedAndStopped ++ answeredAndJoined) =
      [asker] := by decide +kernel
  have whole := (answers_requests {} (askedAndStopped ++ answeredAndJoined)
    (assumed_of_noAccept (by simp [askedAndStopped, answeredAndJoined]) _)).1
  rw [asked] at whole
  exact ⟨asked, whole⟩

end ResponderThreads

/-! ### The network -/

/-- The responders and the searches of a network. -/
structure LocalNetwork (Node Searcher : Type) where
  nodes : Node → ResponderThreads
  searches : Searcher → Search

/-- One statement of a responder or of a search. -/
inductive LocalEvent (Node Searcher : Type) where
  | node (node : Node) (event : ResponderThreads.Event)
  | search (searcher : Searcher) (event : SearchEvent)

namespace LocalNetwork

variable {Node Searcher : Type}

/-- A network in which no responder was started and no search has called a target. -/
def begun (options : Node → PeerDiscoveryResponderOptions)
    (calls : Searcher → PeerDiscoveryOptions × List DiscoveryTarget) :
    LocalNetwork Node Searcher where
  nodes node := ResponderThreads.fresh (options node)
  searches searcher := Search.begun (calls searcher).1 (calls searcher).2

/-- Where a datagram can come from that a search takes from its socket: a responder on a host
with that address sent it there, another search called there, or no responder's host has that
address. -/
inductive Arrives (address : Node → InAddr → Prop) (network : LocalNetwork Node Searcher)
    (socket : SockaddrIn) (payload : Bytes) (source : InAddr) : Prop where
  | answer (node : Node) (host : address node source)
      (sent : (payload, socket) ∈ (network.nodes node).answers)
  | call (same : payload = kDiscoveryMessage)
  | stranger (elsewhere : ∀ node, ¬ address node source)

theorem Arrives.mono {address : Node → InAddr → Prop}
    {network later : LocalNetwork Node Searcher}
    {socket : SockaddrIn} {payload : Bytes} {source : InAddr}
    (arrives : Arrives address network socket payload source)
    (grows : ∀ node, (network.nodes node).answers ⊆ (later.nodes node).answers) :
    Arrives address later socket payload source := by
  cases arrives with
  | answer node host sent => exact .answer node host (grows node sent)
  | call same => exact .call same
  | stranger elsewhere => exact .stranger elsewhere

/-- What the kernels and the hosts do. A datagram may arrive late, twice or never. -/
def Allowed (address : Node → InAddr → Prop) (network : LocalNetwork Node Searcher) :
    LocalEvent Node Searcher → Prop
  | .node node event => (network.nodes node).Assumed event
  | .search searcher (.recvfrom (some (payload, source))) =>
      ∀ socket ∈ (network.searches searcher).reading, Arrives address network socket payload source
  | .search _ _ => True

/-- Where a reply of a search came from. -/
def Traced (address : Node → InAddr → Prop) (network : LocalNetwork Node Searcher)
    (search : Search) (reply : DiscoveryReply) : Prop :=
  ∃ payload source socket, reply = ⟨payload, source.ipv4String⟩ ∧ socket ∈ search.sockets ∧
    Arrives address network socket payload source

/-- What holds between any two statements of a network. -/
structure Sound (address : Node → InAddr → Prop) (options : Node → PeerDiscoveryResponderOptions)
    (network : LocalNetwork Node Searcher) : Prop where
  nodes : ∀ node, (network.nodes node).Sound (options node)
  owns : ∀ searcher, (network.searches searcher).Owns
  traced : ∀ searcher, ∀ reply ∈ (network.searches searcher).replies,
    Traced address network (network.searches searcher) reply

theorem sound_begun (address : Node → InAddr → Prop)
    (options : Node → PeerDiscoveryResponderOptions)
    (calls : Searcher → PeerDiscoveryOptions × List DiscoveryTarget) :
    (begun options calls).Sound address options where
  nodes node := ResponderThreads.sound_fresh (options node)
  owns _ _ := SearchPhase.noConfusion
  traced _ _ never := by cases never

section Steps

variable [DecidableEq Node] [DecidableEq Searcher]

def step (inetPton : Bytes → Option InAddr) (network : LocalNetwork Node Searcher) :
    LocalEvent Node Searcher → LocalNetwork Node Searcher
  | .node node event =>
      { network with
        nodes := Function.update network.nodes node ((network.nodes node).step event) }
  | .search searcher event =>
      { network with
        searches := Function.update network.searches searcher
          ((network.searches searcher).step inetPton event) }

/-- The statements of one responder. -/
def nodeEvent (node : Node) : LocalEvent Node Searcher → Option ResponderThreads.Event
  | .node other event => if other = node then some event else none
  | .search _ _ => none

/-- The statements of one search. -/
def searchEvent (searcher : Searcher) : LocalEvent Node Searcher → Option SearchEvent
  | .node _ _ => none
  | .search other event => if other = searcher then some event else none

variable {inetPton : Bytes → Option InAddr}

@[simp]
theorem nodes_self (network : LocalNetwork Node Searcher) (node : Node)
    (event : ResponderThreads.Event) :
    (step inetPton network (.node node event)).nodes node = (network.nodes node).step event :=
  Function.update_self _ _ _

theorem nodes_of_ne (network : LocalNetwork Node Searcher) {node other : Node}
    (different : other ≠ node) (event : ResponderThreads.Event) :
    (step inetPton network (.node node event)).nodes other = network.nodes other :=
  Function.update_of_ne different _ _

@[simp]
theorem searches_self (network : LocalNetwork Node Searcher) (searcher : Searcher)
    (event : SearchEvent) :
    (step inetPton network (.search searcher event)).searches searcher =
      (network.searches searcher).step inetPton event :=
  Function.update_self _ _ _

theorem searches_of_ne (network : LocalNetwork Node Searcher) {searcher other : Searcher}
    (different : other ≠ searcher) (event : SearchEvent) :
    (step inetPton network (.search searcher event)).searches other = network.searches other :=
  Function.update_of_ne different _ _

theorem nodes_step (node : Node) (network : LocalNetwork Node Searcher)
    (event : LocalEvent Node Searcher) :
    (step inetPton network event).nodes node =
      Runs.after ResponderThreads.step (network.nodes node) (nodeEvent node event).toList := by
  cases event with
  | node other event =>
    by_cases same : other = node
    · subst same
      rw [nodes_self, nodeEvent, if_pos rfl]
      rfl
    · rw [nodes_of_ne network (Ne.symm same), nodeEvent, if_neg same]
      rfl
  | search searcher event => rfl

theorem searches_step (searcher : Searcher) (network : LocalNetwork Node Searcher)
    (event : LocalEvent Node Searcher) :
    (step inetPton network event).searches searcher =
      Runs.after (Search.step inetPton) (network.searches searcher)
        (searchEvent searcher event).toList := by
  cases event with
  | node node event => rfl
  | search other event =>
    by_cases same : other = searcher
    · subst same
      rw [searches_self, searchEvent, if_pos rfl]
      rfl
    · rw [searches_of_ne network (Ne.symm same), searchEvent, if_neg same]
      rfl

section Runs

variable {address : Node → InAddr → Prop} {options : Node → PeerDiscoveryResponderOptions}
  {calls : Searcher → PeerDiscoveryOptions × List DiscoveryTarget}
  {events : List (LocalEvent Node Searcher)}

/-- A responder of the network runs on its own. -/
theorem node_after (node : Node) :
    (Runs.after (step inetPton) (begun options calls) events).nodes node =
      Runs.after ResponderThreads.step (ResponderThreads.fresh (options node))
        (events.filterMap (nodeEvent node)) :=
  @Runs.component_after _ _ (step inetPton) (begun options calls) _ _
    (fun network => network.nodes node) ResponderThreads.step (nodeEvent node)
    (nodes_step node) events

/-- So does a search. -/
theorem search_after (searcher : Searcher) :
    (Runs.after (step inetPton) (begun options calls) events).searches searcher =
      Runs.after (Search.step inetPton) (Search.begun (calls searcher).1 (calls searcher).2)
        (events.filterMap (searchEvent searcher)) :=
  @Runs.component_after _ _ (step inetPton) (begun options calls) _ _
    (fun network => network.searches searcher) (Search.step inetPton) (searchEvent searcher)
    (searches_step searcher) events

theorem node_assumed (allowed : Runs.Meets (step inetPton) (Allowed address)
    (begun options calls) events) (node : Node) :
    Runs.Meets ResponderThreads.step ResponderThreads.Assumed
      (ResponderThreads.fresh (options node)) (events.filterMap (nodeEvent node)) := by
  refine @Runs.Meets.component _ _ (step inetPton) (begun options calls) (Allowed address) _ _
    (fun network => network.nodes node) ResponderThreads.step (nodeEvent node)
    ResponderThreads.Assumed (nodes_step node) ?_ events allowed
  intro network event move allow own
  cases event with
  | node other event =>
    rw [nodeEvent] at own
    split at own
    next same =>
      cases own
      exact same ▸ allow
    next => cases own
  | search searcher event => cases own

/-- A responder takes back no answer. -/
theorem answers_subset {own : PeerDiscoveryResponderOptions} {state : ResponderThreads}
    (sound : state.Sound own) (event : ResponderThreads.Event) :
    state.answers ⊆ (state.step event).answers := by
  rcases ResponderThreads.answers_step sound event with same | ⟨source, -, same⟩
  · rw [same]
    exact List.Subset.refl _
  · rw [same]
    exact List.subset_append_left _ _

theorem Sound.node {network : LocalNetwork Node Searcher} (sound : network.Sound address options)
    (node : Node) {event : ResponderThreads.Event} (assumed : (network.nodes node).Assumed event) :
    (step inetPton network (.node node event)).Sound address options := by
  have grows : ∀ other, (network.nodes other).answers ⊆
      ((step inetPton network (.node node event)).nodes other).answers := by
    intro other
    by_cases same : other = node
    · subst same
      rw [nodes_self]
      exact answers_subset (sound.nodes other) event
    · rw [nodes_of_ne network same]
      exact List.Subset.refl _
  refine ⟨fun other => ?_, sound.owns, fun searcher reply member => ?_⟩
  · by_cases same : other = node
    · subst same
      rw [nodes_self]
      exact ResponderThreads.step_sound (sound.nodes other) assumed
    · rw [nodes_of_ne network same]
      exact sound.nodes other
  · obtain ⟨payload, source, socket, made, own, arrives⟩ := sound.traced searcher reply member
    exact ⟨payload, source, socket, made, own, arrives.mono grows⟩

theorem Sound.search {network : LocalNetwork Node Searcher} (sound : network.Sound address options)
    (searcher : Searcher) {event : SearchEvent}
    (allowed : Allowed address network (.search searcher event)) :
    (step inetPton network (.search searcher event)).Sound address options := by
  have still : ∀ {socket : SockaddrIn} {payload : Bytes} {source : InAddr},
      Arrives address network socket payload source →
        Arrives address (step inetPton network (.search searcher event)) socket payload source :=
    fun arrives => arrives.mono fun _ => List.Subset.refl _
  refine ⟨sound.nodes, fun other => ?_, fun other reply member => ?_⟩
  · by_cases same : other = searcher
    · subst same
      rw [searches_self]
      exact (sound.owns other).step event
    · rw [searches_of_ne network same]
      exact sound.owns other
  · by_cases same : other = searcher
    swap
    · rw [searches_of_ne network same] at member ⊢
      obtain ⟨payload, source, socket, made, own, arrives⟩ := sound.traced other reply member
      exact ⟨payload, source, socket, made, own, still arrives⟩
    subst same
    rw [searches_self] at member ⊢
    have kept := @Search.step_sockets inetPton (network.searches other) event
    rw [Search.step_replies] at member
    rcases List.mem_append.mp member with old | new
    · obtain ⟨payload, source, socket, made, own, arrives⟩ := sound.traced other reply old
      exact ⟨payload, source, socket, made, kept.subset own, still arrives⟩
    · rw [Option.mem_toList] at new
      obtain ⟨payload, source, rfl, made, -⟩ := Search.heard_eq_some new
      obtain ⟨socket, reads⟩ := Search.reading_of_heard new
      exact ⟨payload, source, socket, made, kept.subset ((sound.owns other).reading reads),
        still (allowed socket reads)⟩

theorem sound_after (allowed : Runs.Meets (step inetPton) (Allowed address)
    (begun options calls) events) :
    (Runs.after (step inetPton) (begun options calls) events).Sound address options := by
  refine Runs.invariant_after (sound_begun address options calls) ?_ events allowed
  intro network event sound allow
  cases event with
  | node node event => exact sound.node node allow
  | search searcher event => exact sound.search searcher allow

end Runs

end Steps

end LocalNetwork

/-! ### What a search finds -/

theorem parsePeerAdvertisement_call {Rate : Type} [Zero Rate] (source : Bytes) :
    (parsePeerAdvertisement kDiscoveryMessage source : Option (DiscoveredPeer Rate)) = none := by
  have other : ¬ kAdvertisementPrefix <+: kDiscoveryMessage := by decide
  unfold parsePeerAdvertisement
  rw [if_pos (.inr (.inl other))]

theorem parseIpv4_ipv4String (address : InAddr) : parseIpv4 address.ipv4String ≠ none := by
  rw [InAddr.ipv4String, parseIpv4_dottedQuad]
  exact Option.some_ne_none _

theorem ipv4String_injective : Function.Injective InAddr.ipv4String := by
  intro left right same
  have read := readDottedQuad_ipv4String left
  rw [same, readDottedQuad_ipv4String] at read
  exact (Option.some.inj read).symm

/-- A peer that is the receiver with these options at this address. A sender that adopts it has
the ports on which the receiver listens. -/
structure IsReceiver {Rate : Type} (options : PeerDiscoveryResponderOptions) (source : InAddr)
    (peer : DiscoveredPeer Rate) : Prop where
  endpoint : ∃ probePort, selectProbePort options = .ok probePort ∧
    peer.endpoint =
      ⟨source.ipv4String, options.transferPort, probePort, options.parallelStreams⟩
  name : peer.displayName = options.displayName
  address : peer.sourceAddress = source.ipv4String
  adopted : ∀ sender receiver : Options, receiver.port = options.transferPort →
    receiver.parallel = options.parallelStreams →
    ∃ effective, adoptPeer sender peer = .ok effective ∧
      effective.host = source.ipv4String ∧ SamePorts effective receiver

/-- An advertisement is read back as the receiver that made it. -/
theorem parsePeerAdvertisement_advertises {Rate : Type} [Zero Rate]
    {options : PeerDiscoveryResponderOptions} {advertisement : Bytes}
    (advertises : ResponderThreads.Advertises options advertisement) (source : InAddr) :
    ∃ peer : DiscoveredPeer Rate,
      parsePeerAdvertisement advertisement source.ipv4String = some peer ∧
        IsReceiver options source peer := by
  obtain ⟨probePort, started⟩ := advertises
  obtain ⟨startable, selected, rfl, short⟩ := start_ok started
  obtain ⟨nonzero, -, -⟩ := selectProbePort_ok startable selected
  refine ⟨_, parsePeerAdvertisement_made startable nonzero short (parseIpv4_ipv4String source),
    ⟨probePort, selected, rfl⟩, rfl, rfl, fun sender receiver port parallel => ?_⟩
  exact ⟨_, adoptPeer_startable startable sender rfl rfl, rfl,
    samePorts port.symm parallel.symm startable.fits⟩

theorem IsReceiver.rated {Rate : Type} {options : PeerDiscoveryResponderOptions}
    {source : InAddr} {peer : DiscoveredPeer Rate} (receiver : IsReceiver options source peer)
    (rate : Rate) : IsReceiver options source { peer with measuredBytesPerSecond := rate } :=
  ⟨receiver.endpoint, receiver.name, receiver.address, receiver.adopted⟩

namespace LocalNetwork

section Found

variable {Node Searcher Rate : Type} [DecidableEq Node] [DecidableEq Searcher]
  {inetPton : Bytes → Option InAddr} {address : Node → InAddr → Prop}
  {options : Node → PeerDiscoveryResponderOptions}
  {calls : Searcher → PeerDiscoveryOptions × List DiscoveryTarget}
  {events : List (LocalEvent Node Searcher)}

/-- A peer of a search is at an address that no responder's host has, or it is a receiver on such
a host, which took a request from a socket of the search. -/
def Found (address : Node → InAddr → Prop) (options : Node → PeerDiscoveryResponderOptions)
    (events : List (LocalEvent Node Searcher)) (search : Search) (peer : DiscoveredPeer Rate) :
    Prop :=
  ∃ source : InAddr, peer.sourceAddress = source.ipv4String ∧
    ((∀ node, ¬ address node source) ∨ ∃ node socket, address node source ∧
      IsReceiver (options node) source peer ∧ socket ∈ search.sockets ∧
      socket ∈ Runs.shown ResponderThreads.step ResponderThreads.request
        (ResponderThreads.fresh (options node)) (events.filterMap (nodeEvent node)))

/-- A reply that parses gives a peer as described. -/
theorem found_of_parsed [Zero Rate] (allowed : Runs.Meets (step inetPton) (Allowed address)
    (begun options calls) events) {searcher : Searcher} {reply : DiscoveryReply}
    (heard : reply ∈ ((Runs.after (step inetPton) (begun options calls) events).searches
      searcher).replies)
    {peer : DiscoveredPeer Rate}
    (parsed : parsePeerAdvertisement reply.message reply.source = some peer) :
    Found address options events
      ((Runs.after (step inetPton) (begun options calls) events).searches searcher) peer := by
  have sound := sound_after allowed
  obtain ⟨payload, source, socket, rfl, own, arrives⟩ := sound.traced searcher reply heard
  obtain ⟨-, -, _, _, _, _, -, -, -, -, -, carries⟩ :=
    (parsePeerAdvertisement_eq_some_iff _ _ _).mp parsed
  refine ⟨source, carries.sourceAddress, ?_⟩
  cases arrives with
  | stranger elsewhere => exact .inl elsewhere
  | call same =>
    rw [same, parsePeerAdvertisement_call] at parsed
    cases parsed
  | answer node host sent =>
    have assumed := node_assumed allowed node
    rw [node_after] at sent
    obtain ⟨made, read, receiver⟩ := @parsePeerAdvertisement_advertises Rate _ _ _
      (ResponderThreads.advertised_after assumed _ sent) source
    rw [show parsePeerAdvertisement payload source.ipv4String = some peer from parsed] at read
    cases read
    refine .inr ⟨node, socket, host, receiver, own, ?_⟩
    rw [← ResponderThreads.answered_after assumed]
    exact List.mem_append_left _ (List.mem_map_of_mem sent)

theorem discover_ok [Zero Rate] {replies : List DiscoveryReply}
    {peers : List (DiscoveredPeer Rate)} : discover replies = .ok peers ↔
      candidatesOf Rate replies ≠ [] ∧ peers = candidatesOf Rate replies := by
  unfold discover
  rw [deduplicateCandidates_eq]
  simp only []
  split
  next none => exact iff_of_false (fun never => by cases never) fun both => both.1 none
  next some => exact ⟨fun same => ⟨some, (Except.ok.inj same).symm⟩, fun both => by rw [both.2]⟩

theorem found_of_candidate [Zero Rate]
    (allowed : Runs.Meets (step inetPton) (Allowed address) (begun options calls) events)
    {searcher : Searcher} {peer : DiscoveredPeer Rate}
    (candidate : peer ∈ candidatesOf Rate
      ((Runs.after (step inetPton) (begun options calls) events).searches searcher).replies) :
    Found address options events
      ((Runs.after (step inetPton) (begun options calls) events).searches searcher) peer := by
  obtain ⟨reply, heard, parsed⟩ :=
    List.mem_filterMap.mp (mem_of_mem_keepFirst candidateKey candidate)
  exact found_of_parsed allowed heard parsed

omit [DecidableEq Searcher] in
theorem Found.rated {search : Search} {peer : DiscoveredPeer Rate}
    (found : Found address options events search peer) (rate : Rate) :
    Found address options events search { peer with measuredBytesPerSecond := rate } := by
  obtain ⟨source, same, elsewhere | ⟨node, socket, host, receiver, own, asked⟩⟩ := found
  · exact ⟨source, same, .inl elsewhere⟩
  · exact ⟨source, same, .inr ⟨node, socket, host, receiver.rated rate, own, asked⟩⟩

/-- Who is found at a receiver's address is that receiver. Whatever is lost, doubled, late or out
of order, whatever other hosts send, and however many receivers are started and stopped and
senders search meanwhile: the peers of a search have different endpoints, and each one at the
address of a responder's host is a receiver there as it was configured, which took a request from
the address of a socket of this search; a sender that adopts it connects to the ports on which the
receiver listens. The same holds of the peer that is chosen, whatever the probes measure. A request
says no more of its search than this address, which a search before this one may have had. -/
theorem discover_genuine [LinearOrder Rate] [Zero Rate]
    (allowed : Runs.Meets (step inetPton) (Allowed address) (begun options calls) events)
    (searcher : Searcher) :
    let search := (Runs.after (step inetPton) (begun options calls) events).searches searcher
    (∀ peers : List (DiscoveredPeer Rate), discover search.replies = .ok peers →
      peers ≠ [] ∧ (peers.map candidateKey).Nodup ∧
      ∀ peer ∈ peers, Found address options events search peer) ∧
    ∀ (sort : PeerSort Rate) (probe : DiscoveredPeer Rate → Except Bytes Rate), Sorts sort →
      ∀ peer, (rankCandidates sort probe search.replies).outcome = .ok peer →
        Found address options events search peer ∧
        ∀ endpoint, connectFastest sort probe search.replies endpoint =
          .ok { endpoint with host := peer.sourceAddress, port := peer.endpoint.transferPort } := by
  intro search
  refine ⟨fun peers discovered => ?_, fun sort probe sorts peer chosen => ?_⟩
  · obtain ⟨some, rfl⟩ := discover_ok.mp discovered
    exact ⟨some, nodup_map_keepFirst candidateKey [] _,
      fun peer member => found_of_candidate allowed member⟩
  · obtain ⟨candidate, rate, best, rfl⟩ := (outcome_eq_ok_iff sorts).mp chosen
    refine ⟨(found_of_candidate allowed best.member).rated rate, fun endpoint => ?_⟩
    rw [connectFastest, chosen]
    have host := (source_of_candidate best.member).1
    rw [← host]
    rfl

/-- A datagram that parses is within the limit. -/
theorem receiveReply_of_parsed [Zero Rate] {message source : Bytes} {peer : DiscoveredPeer Rate}
    (parsed : parsePeerAdvertisement message source = some peer) :
    receiveReply message = some message := by
  obtain ⟨short, -, _, _, _, _, whole, -⟩ := (parsePeerAdvertisement_eq_some_iff _ _ _).mp parsed
  refine receiveReply_eq_some_iff.mpr ⟨rfl, ?_, short⟩
  rw [whole]
  exact List.append_ne_nil_of_left_ne_nil (by decide) _

/-- What a search took from its socket stays among its replies. -/
theorem mem_replies_of_reading {before rest : List (LocalEvent Node Searcher)}
    {searcher : Searcher} {payload message : Bytes} {source : InAddr} {socket : SockaddrIn}
    (reading : ((Runs.after (step inetPton) (begun options calls) before).searches
      searcher).reading = some socket)
    (received : receiveReply payload = some message) :
    (⟨message, source.ipv4String⟩ : DiscoveryReply) ∈
      ((Runs.after (step inetPton) (begun options calls)
        (before ++ .search searcher (.recvfrom (some (payload, source))) :: rest)).searches
          searcher).replies := by
  rw [search_after] at reading ⊢
  have own : searchEvent searcher (.search searcher (.recvfrom (some (payload, source))) :
      LocalEvent Node Searcher) = some (.recvfrom (some (payload, source))) := if_pos rfl
  rw [Search.replies_after, List.filterMap_append, List.filterMap_cons_some own]
  refine List.mem_append_right _ (Runs.mem_shown.mpr
    ⟨before.filterMap (searchEvent searcher), .recvfrom (some (payload, source)), ?_, ?_⟩)
  · exact ⟨rest.filterMap (searchEvent searcher), by simp⟩
  · rw [Search.heard, reading, if_pos Option.isSome_some]
    simp [Search.gather, received]

/-- Who answers in time is found. If a search takes from its socket what a responder sent there,
then, whatever else happens, it discovers a peer with the endpoint that the responder advertises,
and where the address is only this host's, the peer is this receiver; and if its probe succeeds,
a peer is chosen that is at least as fast. -/
theorem discover_heard [LinearOrder Rate] [Zero Rate]
    {before rest : List (LocalEvent Node Searcher)} {searcher : Searcher} {node : Node}
    {payload : Bytes} {source : InAddr} {socket : SockaddrIn}
    (allowed : Runs.Meets (step inetPton) (Allowed address) (begun options calls)
      (before ++ .search searcher (.recvfrom (some (payload, source))) :: rest))
    (reading : ((Runs.after (step inetPton) (begun options calls) before).searches
      searcher).reading = some socket)
    (sent : (payload, socket) ∈
      ((Runs.after (step inetPton) (begun options calls) before).nodes node).answers)
    (host : address node source) :
    let search := (Runs.after (step inetPton) (begun options calls)
      (before ++ .search searcher (.recvfrom (some (payload, source))) :: rest)).searches searcher
    ∃ probePort, PeerDiscoveryResponder.start (options node) = .ok (probePort, payload) ∧
    ∃ peers : List (DiscoveredPeer Rate), discover search.replies = .ok peers ∧
    ∃ peer ∈ peers,
      candidateKey peer = (source.ipv4String, (options node).transferPort, probePort) ∧
      ((∀ other, address other source → other = node) → IsReceiver (options node) source peer) ∧
      ∀ (sort : PeerSort Rate) (probe : DiscoveredPeer Rate → Except Bytes Rate), Sorts sort →
        ∀ rate, probe peer = .ok rate →
          ∃ winner, (rankCandidates sort probe search.replies).outcome = .ok winner ∧
            rate ≤ winner.measuredBytesPerSecond := by
  intro search
  have assumed := node_assumed (allowed.of_prefix (List.prefix_append _ _)) node
  rw [node_after] at sent
  obtain ⟨probePort, started⟩ := ResponderThreads.advertised_after assumed _ sent
  refine ⟨probePort, started, ?_⟩
  obtain ⟨made, parsed, receiver⟩ :=
    @parsePeerAdvertisement_advertises Rate _ _ _ ⟨probePort, started⟩ source
  have heard : (⟨payload, source.ipv4String⟩ : DiscoveryReply) ∈ search.replies :=
    mem_replies_of_reading reading (receiveReply_of_parsed parsed)
  have among : made ∈ parsedPeers search.replies := List.mem_filterMap.mpr ⟨_, heard, parsed⟩
  obtain ⟨peer, candidate, key⟩ : ∃ peer ∈ candidatesOf Rate search.replies,
      candidateKey peer = candidateKey made := exists_mem_keepFirst candidateKey among
  have own : candidateKey peer = (source.ipv4String, (options node).transferPort, probePort) := by
    obtain ⟨port, selected, endpoint⟩ := receiver.endpoint
    rw [(start_ok started).2.1] at selected
    cases selected
    rw [key, candidateKey, endpoint]
  refine ⟨candidatesOf Rate search.replies, discover_ok.mpr ⟨List.ne_nil_of_mem candidate, rfl⟩,
    peer, candidate, own, fun only => ?_, fun sort probe sorts rate probed => ?_⟩
  · obtain ⟨other, same, found⟩ := found_of_candidate allowed candidate
    have here : other = source := by
      have hostOf := (source_of_candidate candidate).1.symm.trans (congrArg Prod.fst own)
      exact ipv4String_injective (same.symm.trans hostOf)
    subst here
    rcases found with elsewhere | ⟨owner, _, there, is, -⟩
    · exact absurd host (elsewhere node)
    · exact only owner there ▸ is
  · rcases @outcome_cases _ _ _ sort probe search.replies sorts with
      ⟨nothing, -⟩ | ⟨-, failed, -⟩ | ⟨winner, measured, best, outcome⟩
    · rw [nothing] at candidate
      cases candidate
    · obtain ⟨reason, thrown⟩ := failed peer candidate
      rw [probed] at thrown
      cases thrown
    · refine ⟨_, outcome, ?_⟩
      rcases best.fastest peer candidate rate probed with less | ⟨same, -⟩
      · exact le_of_lt less
      · exact le_of_eq same

end Found

/-! ### A small network -/

/-- The advertisement of a receiver with the default options. -/
def defaultAdvertisement : Bytes := ascii "HLINK_PEER_V2 47790 47791 1 hyperlink-peer"

/-- The only receiver's host has one address. -/
def onlyHost (_ : Unit) (source : InAddr) : Prop := source = ⟨10, 0, 0, 7⟩

def oneTarget : PeerDiscoveryOptions × List DiscoveryTarget :=
  ({}, [⟨ascii "10.0.0.9", ascii "10.0.0.255"⟩])

/-- A receiver starts, a search calls it, and it answers. -/
def calledAndAnswered : List (LocalEvent Unit Unit) :=
  [.node () (.call (.start ResponderThreads.calm)), .node () .caller,
    .search () (.target { bind := some 50000 }), .node () (.discovery (.select true)),
    .node () (.discovery (.recvfrom (some (kDiscoveryMessage, ResponderThreads.asker)))),
    .node () (.discovery (.sendto true)), .search () (.deadline 0), .search () (.condition 1 2),
    .search () (.select (some [ResponderThreads.asker]))]

/-- The answer is taken, and nothing else comes. -/
def heardAndReturned : List (LocalEvent Unit Unit) :=
  [.search () (.recvfrom (some (defaultAdvertisement, ⟨10, 0, 0, 7⟩))),
    .search () (.condition 3 4), .search () (.select none)]

theorem reading_small :
    ((Runs.after (step readDottedQuad) (begun (fun _ => {}) fun _ => oneTarget)
      calledAndAnswered).searches ()).reading = some ResponderThreads.asker := by
  decide +kernel

theorem sent_small : (defaultAdvertisement, ResponderThreads.asker) ∈
    ((Runs.after (step readDottedQuad) (begun (fun _ => {}) fun _ => oneTarget)
      calledAndAnswered : LocalNetwork Unit Unit).nodes ()).answers := by
  decide +kernel

theorem allowed_small : Runs.Meets (step readDottedQuad) (Allowed onlyHost)
    (begun (fun _ => {}) fun _ => oneTarget) (calledAndAnswered ++ heardAndReturned) := by
  unfold calledAndAnswered heardAndReturned
  iterate 9 refine Runs.meets_cons.mpr ⟨trivial, ?_⟩
  refine Runs.meets_cons.mpr ⟨fun socket reads => ?_, ?_⟩
  · cases reading_small.symm.trans reads
    exact .answer () rfl sent_small
  · iterate 2 refine Runs.meets_cons.mpr ⟨trivial, ?_⟩
    exact Runs.meets_nil

/-- The search finds the receiver at its address. -/
theorem discover_genuine_small :
    ∃ peer : DiscoveredPeer Nat,
      discover ((Runs.after (step readDottedQuad) (begun (fun _ => {}) fun _ => oneTarget)
        (calledAndAnswered ++ heardAndReturned) : LocalNetwork Unit Unit).searches ()).replies =
          .ok [peer] ∧
      Found onlyHost (fun _ => {}) (calledAndAnswered ++ heardAndReturned)
        ((Runs.after (step readDottedQuad) (begun (fun _ => {}) fun _ => oneTarget)
          (calledAndAnswered ++ heardAndReturned)).searches ()) peer := by
  have discovered : discover ((Runs.after (step readDottedQuad)
      (begun (fun _ => {}) fun _ => oneTarget)
        (calledAndAnswered ++ heardAndReturned) : LocalNetwork Unit Unit).searches ()).replies =
      .ok [(⟨⟨ascii "10.0.0.7", 47790, 47791, 1⟩, ascii "hyperlink-peer", ascii "10.0.0.7", 0⟩ :
        DiscoveredPeer Nat)] := by decide +kernel
  exact ⟨_, discovered,
    ((discover_genuine allowed_small ()).1 _ discovered).2.2 _ List.mem_cons_self⟩

/-- The answer that was taken is among the peers. -/
theorem discover_heard_small :
    ∃ peers : List (DiscoveredPeer Nat),
      discover ((Runs.after (step readDottedQuad) (begun (fun _ => {}) fun _ => oneTarget)
        (calledAndAnswered ++ heardAndReturned) : LocalNetwork Unit Unit).searches ()).replies =
          .ok peers ∧
      ∃ peer ∈ peers, IsReceiver {} ⟨10, 0, 0, 7⟩ peer := by
  obtain ⟨-, -, peers, discovered, peer, member, -, is, -⟩ :=
    @discover_heard Unit Unit Nat _ _ readDottedQuad onlyHost (fun _ => {}) (fun _ => oneTarget) _ _
      calledAndAnswered _ () () defaultAdvertisement ⟨10, 0, 0, 7⟩ _ allowed_small reading_small
      sent_small rfl
  exact ⟨peers, discovered, peer, member, is fun _ _ => rfl⟩

end LocalNetwork

end HyperLink
