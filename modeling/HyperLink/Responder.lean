/-
This file is about `PeerDiscoveryResponder::Impl`: `start` opens two sockets and
two threads in stages that can fail one by one, after its flag is already set,
and `stop` takes everything down again.

Each stage leaves other sockets and threads behind. Whatever fails, in whatever
sequence of calls, the responder is afterwards serving, with both threads and
their two sockets, or stopped, with none, and a start fails only for a reason of
its own.
-/

import HyperLink.Advertisement
import HyperLink.Runs

namespace HyperLink

/-! ### The responder -/

/-- `PeerDiscoveryResponder::Impl`, with the sockets that it opened and did not close, each
named by its number in the order of opening. A joinable thread is the socket its function
owns. -/
structure Responder where
  options : PeerDiscoveryResponderOptions
  selectedProbePort : UInt16 := 0
  advertisement : Bytes := []
  running : Bool := false
  discoveryThread : Option Nat := none
  probeThread : Option Nat := none
  nextSocket : Nat := 0
  openSockets : List Nat := []
  deriving DecidableEq, Repr

/-- What the system answers during one call of `start`: for each step that can fail, the text
of its error, or none; and whether `inet_pton` accepts an address. -/
structure Answers where
  inetPton : Bytes → Bool
  udpSocket : Option Error := none
  udpBind : Option Error := none
  tcpSocket : Option Error := none
  tcpBind : Option Error := none
  tcpListen : Option Error := none
  setNonblocking : Option Error := none
  discoveryThread : Option Error := none
  probeThread : Option Error := none

/-- A failed start throws. Assigning to a thread that is still joinable ends the program. -/
inductive Failure where
  | thrown (error : Error)
  | terminated
  deriving DecidableEq, Repr

namespace Responder

/-- `::socket`, and the handle that owns the result. -/
def openSocket (self : Responder) : Nat × Responder :=
  (self.nextSocket, { self with
    nextSocket := self.nextSocket + 1
    openSockets := self.nextSocket :: self.openSockets })

/-- The destructor of a handle. -/
def closeSocket (self : Responder) (socket : Nat) : Responder :=
  { self with openSockets := self.openSockets.erase socket }

/-- The checks of `start` before its first socket. The probe port and the advertisement are
members, set on the way. -/
def prepare (self : Responder) : Except Error Unit × Responder :=
  let options := self.options
  if options.transferPort = 0 ∨ options.probePort = 0 ∨ options.discoveryPort = 0 ∨
      options.parallelStreams = 0 ∨ options.displayName = [] then
    (.error (ascii "invalid peer discovery responder options"), self)
  else if lastTransferPort options > 65535 then
    (.error (ascii "transfer port plus parallel stream count exceeds 65535"), self)
  else
    match selectProbePort options with
    | .error error => (.error error, { self with selectedProbePort := options.probePort })
    | .ok port =>
        let advertisement := makeAdvertisement options port
        let self := { self with selectedProbePort := port, advertisement }
        if advertisement.length > kMaximumAdvertisementBytes then
          (.error (ascii "peer discovery advertisement exceeds 512 bytes"), self)
        else (.ok (), self)

/-- `ipv4_endpoint`, as far as it can throw. -/
def ipv4Endpoint (answers : Answers) (host : Bytes) : Option Error :=
  if answers.inetPton host then none else some (ascii "invalid IPv4 address: " ++ host)

/-- Open a socket, and give its handle away unless a later step throws. -/
def makeSocket (self : Responder) (socketFailed laterFailed : Option Error) :
    Except Error Nat × Responder :=
  match socketFailed with
  | some error => (.error error, self)
  | none =>
      let (socket, self) := self.openSocket
      match laterFailed with
      | some error => (.error error, self.closeSocket socket)
      | none => (.ok socket, self)

def makeUdpSocket (self : Responder) (answers : Answers) : Except Error Nat × Responder :=
  self.makeSocket
    (answers.udpSocket.map fun reason => ascii "discovery responder socket failed: " ++ reason)
    ((ipv4Endpoint answers self.options.bindHost).or
      (answers.udpBind.map fun reason => ascii "discovery responder bind failed: " ++ reason))

def makeProbeSocket (self : Responder) (answers : Answers) : Except Error Nat × Responder :=
  self.makeSocket
    (answers.tcpSocket.map fun reason => ascii "probe responder socket failed: " ++ reason)
    ((ipv4Endpoint answers self.options.bindHost).or
      (((answers.tcpBind.or answers.tcpListen).map fun reason =>
          ascii "probe responder bind failed: " ++ reason).or
        (answers.setNonblocking.map fun reason =>
          ascii "could not configure TCP probe: " ++ reason)))

/-- The threads of `start`. A thread that cannot be created drops its closure and with it the
socket. -/
def startThreads (self : Responder) (answers : Answers) (discoverySocket probeSocket : Nat) :
    Except Failure Unit × Responder :=
  match answers.discoveryThread with
  | some reason =>
      (.error (.thrown reason), (self.closeSocket discoverySocket).closeSocket probeSocket)
  | none =>
      if self.discoveryThread.isSome then (.error .terminated, self)
      else
        let self := { self with discoveryThread := some discoverySocket }
        match answers.probeThread with
        | some reason => (.error (.thrown reason), self.closeSocket probeSocket)
        | none =>
            if self.probeThread.isSome then (.error .terminated, self)
            else (.ok (), { self with probeThread := some probeSocket })

/-- The sockets and the threads of `start`. -/
def openListeners (self : Responder) (answers : Answers) : Except Failure Unit × Responder :=
  match self.makeUdpSocket answers with
  | (.error error, self) => (.error (.thrown error), self)
  | (.ok discoverySocket, self) =>
      match self.makeProbeSocket answers with
      | (.error error, self) => (.error (.thrown error), self.closeSocket discoverySocket)
      | (.ok probeSocket, self) => self.startThreads answers discoverySocket probeSocket

/-- The body of the try block of `start`. -/
def launch (self : Responder) (answers : Answers) : Except Failure Unit × Responder :=
  match self.prepare with
  | (.error error, self) => (.error (.thrown error), self)
  | (.ok (), self) => self.openListeners answers

/-- Join a thread if it is joinable: its function returns, because the flag is off, and drops
its socket. -/
def join (self : Responder) (thread : Option Nat) : Responder :=
  match thread with
  | none => self
  | some socket => self.closeSocket socket

def stop (self : Responder) : Responder :=
  let self := { self with running := false }
  let self := { self.join self.discoveryThread with discoveryThread := none }
  { self.join self.probeThread with probeThread := none }

def start (self : Responder) (answers : Answers) : Except Failure Unit × Responder :=
  if self.running then (.ok (), self)
  else
    match { self with running := true : Responder }.launch answers with
    | (.ok (), self) => (.ok (), self)
    | (.error (.thrown error), self) => (.error (.thrown error), self.stop)
    | (.error .terminated, self) => (.error .terminated, self)

/-- One call from outside. -/
inductive Call where
  | start (answers : Answers)
  | stop

def step (self : Responder) : Call → Responder
  | .start answers => (self.start answers).2
  | .stop => self.stop

/-! ### What each stage leaves behind -/

/-- Nothing runs and nothing is held. -/
def Stopped (self : Responder) : Prop :=
  self.running = false ∧ self.discoveryThread = none ∧ self.probeThread = none ∧
    self.openSockets = []

/-- Both threads run, and the only open sockets are theirs. -/
def Serving (self : Responder) : Prop :=
  self.running = true ∧ ∃ discoverySocket probeSocket, discoverySocket ≠ probeSocket ∧
    self.discoveryThread = some discoverySocket ∧ self.probeThread = some probeSocket ∧
    self.openSockets = [probeSocket, discoverySocket]

/-- Nothing fails while the discovery socket is made. -/
def UdpReady (answers : Answers) (host : Bytes) : Prop :=
  answers.udpSocket = none ∧ answers.inetPton host = true ∧ answers.udpBind = none

/-- Nothing fails while the probe socket is made. -/
def ProbeReady (answers : Answers) (host : Bytes) : Prop :=
  answers.tcpSocket = none ∧ answers.inetPton host = true ∧ answers.tcpBind = none ∧
    answers.tcpListen = none ∧ answers.setNonblocking = none

/-- Nothing fails while the sockets and the threads are made. -/
def ListenersReady (answers : Answers) (host : Bytes) : Prop :=
  UdpReady answers host ∧ ProbeReady answers host ∧
    answers.discoveryThread = none ∧ answers.probeThread = none

/-- No step of a start has a reason to fail. -/
def Unobstructed (options : PeerDiscoveryResponderOptions) (answers : Answers) : Prop :=
  (∃ prepared, PeerDiscoveryResponder.start options = .ok prepared) ∧
    ListenersReady answers options.bindHost

/-- The checks touch only the two members they compute, and accept what `start` accepts. -/
theorem prepare_cases (self : Responder) : ∃ port advertisement,
    self.prepare.2 = { self with selectedProbePort := port, advertisement } ∧
      ((self.prepare.1 = .ok () ∧
          PeerDiscoveryResponder.start self.options = .ok (port, advertisement)) ∨
        ∃ error, self.prepare.1 = .error error ∧
          PeerDiscoveryResponder.start self.options = .error error) := by
  unfold prepare PeerDiscoveryResponder.start
  simp only []
  split
  · exact ⟨_, _, rfl, .inr ⟨_, rfl, rfl⟩⟩
  · split
    · exact ⟨_, _, rfl, .inr ⟨_, rfl, rfl⟩⟩
    · cases selectProbePort self.options with
      | error error => exact ⟨_, _, rfl, .inr ⟨_, rfl, rfl⟩⟩
      | ok port =>
        simp only [bind, Except.bind]
        split
        · exact ⟨_, _, rfl, .inr ⟨_, rfl, rfl⟩⟩
        · exact ⟨_, _, rfl, .inl ⟨rfl, rfl⟩⟩

/-- A handle that goes out of scope leaves no socket behind. -/
theorem closeSocket_openSocket (self : Responder) :
    self.openSocket.2.closeSocket self.openSocket.1 =
      { self with nextSocket := self.nextSocket + 1 } := by
  simp [openSocket, closeSocket]

/-- A socket is made if nothing fails, else none is left. -/
theorem makeSocket_cases (self : Responder) (socketFailed laterFailed : Option Error) :
    (self.makeSocket socketFailed laterFailed = (.ok self.nextSocket, self.openSocket.2) ∧
        socketFailed = none ∧ laterFailed = none) ∨
      ∃ error count, self.makeSocket socketFailed laterFailed =
          (.error error, { self with nextSocket := count }) ∧
        ¬ (socketFailed = none ∧ laterFailed = none) := by
  cases socketFailed with
  | some error => exact .inr ⟨error, self.nextSocket, rfl, fun ready => nomatch ready.1⟩
  | none =>
    cases laterFailed with
    | none => exact .inl ⟨rfl, rfl, rfl⟩
    | some error =>
      refine .inr ⟨error, self.nextSocket + 1, ?_, fun ready => nomatch ready.2⟩
      rw [← closeSocket_openSocket]
      rfl

theorem ipv4Endpoint_eq_none {answers : Answers} {host : Bytes} :
    ipv4Endpoint answers host = none ↔ answers.inetPton host = true := by
  simp [ipv4Endpoint]

theorem makeUdpSocket_cases (self : Responder) (answers : Answers) :
    (self.makeUdpSocket answers = (.ok self.nextSocket, self.openSocket.2) ∧
        UdpReady answers self.options.bindHost) ∨
      ∃ error count, self.makeUdpSocket answers =
          (.error error, { self with nextSocket := count }) ∧
        ¬ UdpReady answers self.options.bindHost := by
  have cases_ := makeSocket_cases self
    (answers.udpSocket.map fun reason => ascii "discovery responder socket failed: " ++ reason)
    ((ipv4Endpoint answers self.options.bindHost).or
      (answers.udpBind.map fun reason => ascii "discovery responder bind failed: " ++ reason))
  rw [Option.map_eq_none_iff, Option.or_eq_none_iff, Option.map_eq_none_iff,
    ipv4Endpoint_eq_none] at cases_
  exact cases_

theorem makeProbeSocket_cases (self : Responder) (answers : Answers) :
    (self.makeProbeSocket answers = (.ok self.nextSocket, self.openSocket.2) ∧
        ProbeReady answers self.options.bindHost) ∨
      ∃ error count, self.makeProbeSocket answers =
          (.error error, { self with nextSocket := count }) ∧
        ¬ ProbeReady answers self.options.bindHost := by
  have cases_ := makeSocket_cases self
    (answers.tcpSocket.map fun reason => ascii "probe responder socket failed: " ++ reason)
    ((ipv4Endpoint answers self.options.bindHost).or
      (((answers.tcpBind.or answers.tcpListen).map fun reason =>
          ascii "probe responder bind failed: " ++ reason).or
        (answers.setNonblocking.map fun reason =>
          ascii "could not configure TCP probe: " ++ reason)))
  simp only [Option.map_eq_none_iff, Option.or_eq_none_iff, ipv4Endpoint_eq_none, and_assoc]
    at cases_
  exact cases_

/-- What a start that throws may leave: a discovery thread with its socket. -/
def Unfinished (self : Responder) : Prop :=
  self.openSockets = self.discoveryThread.toList ∧ self.probeThread = none

/-- Stopping takes away whatever a failed start left. -/
theorem Unfinished.stop {self : Responder} (unfinished : self.Unfinished) : self.stop.Stopped := by
  obtain ⟨sockets, noProbe⟩ := unfinished
  unfold Responder.stop join
  cases thread : self.discoveryThread with
  | none =>
    rw [thread] at sockets
    simp only [noProbe]
    exact ⟨rfl, rfl, rfl, sockets⟩
  | some socket =>
    rw [thread] at sockets
    simp only [noProbe, closeSocket]
    refine ⟨rfl, rfl, rfl, ?_⟩
    rw [sockets]
    simp

theorem Serving.stop {self : Responder} (serving : self.Serving) : self.stop.Stopped := by
  obtain ⟨-, discoverySocket, probeSocket, distinct, discovery, probe, sockets⟩ := serving
  have other : (probeSocket == discoverySocket) = false := by simpa using distinct.symm
  simp [Stopped, Responder.stop, join, closeSocket, discovery, probe, sockets, other]

theorem options_stop (self : Responder) : self.stop.options = self.options := by
  unfold Responder.stop join
  cases self.discoveryThread <;> cases self.probeThread <;> rfl

/-- A responder without threads and sockets. -/
def Idle (self : Responder) : Prop :=
  self.discoveryThread = none ∧ self.probeThread = none ∧ self.openSockets = []

theorem Idle.unfinished {self : Responder} (idle : self.Idle) : self.Unfinished := by
  obtain ⟨noDiscovery, noProbe, noSockets⟩ := idle
  refine ⟨?_, noProbe⟩
  rw [noSockets, noDiscovery]
  rfl

/-- The two threads, from the two sockets. -/
theorem startThreads_cases {self : Responder} (answers : Answers)
    (noDiscovery : self.discoveryThread = none) (noProbe : self.probeThread = none)
    {discoverySocket probeSocket : Nat} (distinct : discoverySocket ≠ probeSocket)
    (sockets : self.openSockets = [probeSocket, discoverySocket]) :
    (self.startThreads answers discoverySocket probeSocket = (.ok (), { self with
        discoveryThread := some discoverySocket, probeThread := some probeSocket }) ∧
        answers.discoveryThread = none ∧ answers.probeThread = none) ∨
      ∃ error after, self.startThreads answers discoverySocket probeSocket =
          (.error (.thrown error), after) ∧
        ¬ (answers.discoveryThread = none ∧ answers.probeThread = none) ∧
        after.options = self.options ∧ after.Unfinished := by
  unfold startThreads
  cases answers.discoveryThread with
  | some reason =>
    refine .inr ⟨reason, _, rfl, by simp, rfl, ?_, noProbe⟩
    have other : (probeSocket == discoverySocket) = false := by simpa using distinct.symm
    simp [closeSocket, sockets, noDiscovery, other]
  | none =>
    cases answers.probeThread with
    | some reason =>
      refine .inr ⟨reason, { self with discoveryThread := some discoverySocket }.closeSocket
        probeSocket, by simp [noDiscovery], by simp, rfl, ?_, noProbe⟩
      simp [closeSocket, sockets]
    | none =>
      refine .inl ⟨?_, rfl, rfl⟩
      simp [noDiscovery, noProbe]

/-- The sockets and the threads, from a responder that has none. -/
theorem openListeners_cases {self : Responder} (answers : Answers) (idle : self.Idle) :
    (∃ after, self.openListeners answers = (.ok (), after) ∧
        ListenersReady answers self.options.bindHost ∧
        after.options = self.options ∧ (self.running = true → after.Serving)) ∨
      ∃ error after, self.openListeners answers = (.error (.thrown error), after) ∧
        ¬ ListenersReady answers self.options.bindHost ∧
        after.options = self.options ∧ after.Unfinished := by
  obtain ⟨noDiscovery, noProbe, noSockets⟩ := id idle
  unfold openListeners
  rcases self.makeUdpSocket_cases answers with ⟨made, udp⟩ | ⟨error, count, failed, notReady⟩
  swap
  · rw [failed]
    exact .inr ⟨error, _, rfl, fun ready => notReady ready.1, rfl, idle.unfinished⟩
  rw [made]
  simp only []
  rcases self.openSocket.2.makeProbeSocket_cases answers with
    ⟨madeToo, probe⟩ | ⟨error, count, failed, notReady⟩
  swap
  · rw [failed]
    refine .inr ⟨error, _, rfl, fun ready => notReady ready.2.1, rfl, ?_, noProbe⟩
    simp [closeSocket, openSocket, noSockets, noDiscovery]
  rw [madeToo]
  simp only []
  rcases self.openSocket.2.openSocket.2.startThreads_cases answers noDiscovery noProbe
      (Nat.ne_of_lt (Nat.lt_succ_self self.nextSocket)) (by simp [openSocket, noSockets]) with
    ⟨running, ready⟩ | ⟨error, after, failed, notReady, same, unfinished⟩
  · rw [show self.openSocket.2.nextSocket = self.nextSocket + 1 from rfl, running]
    refine .inl ⟨_, rfl, ⟨udp, probe, ready⟩, rfl, fun isRunning => ⟨isRunning, ?_⟩⟩
    refine ⟨self.nextSocket, self.nextSocket + 1, by omega, rfl, rfl, ?_⟩
    simp [openSocket, noSockets]
  · rw [show self.openSocket.2.nextSocket = self.nextSocket + 1 from rfl, failed]
    exact .inr ⟨error, after, rfl, fun ready => notReady ready.2.2, same, unfinished⟩

/-- From a responder without threads and sockets, the try block gets both threads or throws. -/
theorem launch_cases {self : Responder} (answers : Answers) (idle : self.Idle) :
    (∃ after, self.launch answers = (.ok (), after) ∧ Unobstructed self.options answers ∧
        after.options = self.options ∧ (self.running = true → after.Serving)) ∨
      ∃ error after, self.launch answers = (.error (.thrown error), after) ∧
        ¬ Unobstructed self.options answers ∧ after.options = self.options ∧
        after.Unfinished := by
  obtain ⟨port, advertisement, members, accepted⟩ := self.prepare_cases
  unfold launch Unobstructed
  rw [← Prod.mk.eta (p := self.prepare), members]
  rcases accepted with ⟨passed, started⟩ | ⟨error, refused, started⟩
  · rw [passed, started]
    rcases @openListeners_cases { self with selectedProbePort := port, advertisement } answers
        idle with ⟨after, done, ready, same⟩ | ⟨error, after, failed, notReady, same⟩
    · exact .inl ⟨after, done, ⟨⟨_, rfl⟩, ready⟩, same⟩
    · exact .inr ⟨error, after, failed, fun ready => notReady ready.2, same⟩
  · rw [refused, started]
    exact .inr ⟨error, _, rfl, by simp, rfl, idle.unfinished⟩

/-! ### Every sequence of calls -/

/-- What every call keeps. -/
def Settled (options : PeerDiscoveryResponderOptions) (self : Responder) : Prop :=
  self.options = options ∧ (self.Serving ∨ self.Stopped)

/-- All that a start does: nothing while it runs; else it serves, or it throws for a reason of
its own and is stopped as before. -/
theorem start_cases {options : PeerDiscoveryResponderOptions} {self : Responder}
    (settled : self.Settled options) (answers : Answers) :
    (self.Serving ∧ self.start answers = (.ok (), self)) ∨
      (self.Stopped ∧ Unobstructed options answers ∧ ∃ after,
        self.start answers = (.ok (), after) ∧ after.options = options ∧ after.Serving) ∨
      (self.Stopped ∧ ¬ Unobstructed options answers ∧ ∃ error after,
        self.start answers = (.error (.thrown error), after) ∧ after.options = options ∧
          after.Stopped) := by
  obtain ⟨rfl, serving | stopped⟩ := settled
  · refine .inl ⟨serving, ?_⟩
    rw [start, if_pos serving.1]
  · obtain ⟨notRunning, idle⟩ := id stopped
    rw [start, if_neg (by rw [notRunning]; decide)]
    rcases @launch_cases { self with running := true } answers idle with
      ⟨after, done, ready, same, serving⟩ | ⟨error, after, failed, notReady, same, unfinished⟩
    · rw [done]
      exact .inr (.inl ⟨stopped, ready, after, rfl, same, serving rfl⟩)
    · rw [failed]
      exact .inr (.inr ⟨stopped, notReady, error, after.stop, rfl, after.options_stop.trans same,
        unfinished.stop⟩)

theorem step_settled {options : PeerDiscoveryResponderOptions} {self : Responder} (call : Call)
    (settled : self.Settled options) : (self.step call).Settled options := by
  cases call with
  | stop =>
    refine ⟨self.options_stop.trans settled.1, .inr ?_⟩
    rcases settled.2 with serving | stopped
    · exact serving.stop
    · exact (Idle.unfinished stopped.2).stop
  | start answers =>
    rw [step]
    rcases start_cases settled answers with ⟨-, same⟩ | ⟨-, -, after, same, options, serving⟩ |
      ⟨-, -, error, after, same, options, stopped⟩
    · rw [same]
      exact settled
    · rw [same]
      exact ⟨options, .inl serving⟩
    · rw [same]
      exact ⟨options, .inr stopped⟩

/-- After any calls the responder serves or is stopped. -/
theorem settled_after (options : PeerDiscoveryResponderOptions) (calls : List Call) :
    (Runs.after step { options } calls).Settled options := by
  have anyCall : Runs.Meets step (fun _ _ => True) { options } calls := fun _ _ _ => trivial
  refine Runs.invariant_after ⟨rfl, .inr ⟨rfl, rfl, rfl, rfl⟩⟩ ?_ calls anyCall
  intro self call settled _
  exact step_settled call settled

/-- Start and stop are restartable and leave nothing behind. After any calls, whatever failed in
them, the flag is on when both threads are joinable and off when none is; without the flag no
listener is open; and a further start does nothing to a responder that runs, throws only from a
stopped responder and leaves it stopped, never meets a joinable thread, and succeeds exactly if
it has no reason of its own to fail. -/
theorem responder_restartable (options : PeerDiscoveryResponderOptions) (calls : List Call) :
    let self := Runs.after step { options } calls
    (self.running = true ↔ self.discoveryThread.isSome ∧ self.probeThread.isSome) ∧
      (self.running = false ↔ self.discoveryThread = none ∧ self.probeThread = none) ∧
      (self.running = false → self.openSockets = []) ∧
      ∀ answers, (self.running = true → self.start answers = (.ok (), self)) ∧
        (∀ failure after, self.start answers = (.error failure, after) →
          (∃ error, failure = .thrown error) ∧ self.Stopped ∧ after.Stopped) ∧
        ((self.start answers).1 = .ok () ↔
          self.running = true ∨ Unobstructed options answers) ∧
        ((self.start answers).1 = .ok () → (self.start answers).2.Serving) := by
  intro self
  have settled : self.Settled options := settled_after options calls
  refine ⟨?_, ?_, ?_, fun answers => ?_⟩
  · rcases settled.2 with ⟨running, _, _, -, discovery, probe, -⟩ | ⟨stopped, discovery, probe, -⟩
    · simp [running, discovery, probe]
    · simp [stopped, discovery]
  · rcases settled.2 with ⟨running, _, _, -, discovery, probe, -⟩ | ⟨stopped, discovery, probe, -⟩
    · simp [running, discovery]
    · simp [stopped, discovery, probe]
  · intro off
    rcases settled.2 with serving | stopped
    · rw [serving.1] at off
      cases off
    · exact stopped.2.2.2
  · rcases start_cases settled answers with ⟨serving, same⟩ |
      ⟨stopped, ready, after, same, -, serving⟩ | ⟨stopped, notReady, error, after, same, -, halted⟩
    · simp [same, serving, serving.1]
    · simp [same, ready, stopped.1, serving]
    · simp [same, notReady, stopped.1]
      exact ⟨stopped, halted⟩

end Responder

end HyperLink
