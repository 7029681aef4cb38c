/-
This file is `src/network_transport.cpp` under `src/session.cpp`: a TCP transport
takes one or two sockets in stages that can fail one by one, and a session that
owns it decides by its own flag whether closing reaches the transport.

A session that is not connected must therefore hold a transport without sockets.
This fails in one place. A server that listens and then fails to accept throws
with its listening socket open, and the session, not connected, will not close
it.
-/

import HyperLink.Options
import HyperLink.Advertisement
import HyperLink.Session

namespace HyperLink

inductive TcpMode where
  | client
  | server
  deriving DecidableEq, Repr

/-- A socket handle holds a descriptor, or none when it is invalid. -/
structure TcpTransport where
  mode : TcpMode
  endpoint : TcpEndpoint
  dataSocket : Option Nat := none
  listenSocket : Option Nat := none
  deriving DecidableEq, Repr

/-- What the system calls answer for one resolved address. -/
structure Attempt where
  socket : Option Nat
  bind : Bool
  listen : Bool
  connect : Bool
  deriving DecidableEq, Repr

/-- What the system answers during one call on the transport: the resolved addresses or the
resolver's complaint, the accepted socket, how many bytes each `send` takes (none when it
fails), what `recv` delivers (`none` when it fails), and the text of the last error. -/
structure Network where
  resolved : Except Bytes (List Attempt)
  accepted : Option Nat
  sent : Nat → Nat
  received : Option Bytes
  lastSocketError : Bytes

/-- The socket of an address that can be connected to. -/
def Attempt.connected (attempt : Attempt) : Option Nat :=
  match attempt.socket with
  | none => none
  | some socket => if attempt.connect then some socket else none

/-- The socket of an address that can be listened on. -/
def Attempt.listening (attempt : Attempt) : Option Nat :=
  match attempt.socket with
  | none => none
  | some socket =>
      if attempt.bind then if attempt.listen then some socket else none else none

/-- The first address that gives a socket. -/
def openSocket (network : Network) (attempt : Attempt → Option Nat) (complaint : Bytes) :
    Except Exception Nat :=
  match network.resolved with
  | .error message => .error (.runtimeError (ascii "getaddrinfo failed: " ++ message))
  | .ok attempts =>
      match attempts.findSome? attempt with
      | some socket => .ok socket
      | none => .error (.runtimeError (complaint ++ network.lastSocketError))

def connectSocket (network : Network) : Except Exception Nat :=
  openSocket network Attempt.connected (ascii "connect failed: ")

def listenSocket (network : Network) : Except Exception Nat :=
  openSocket network Attempt.listening (ascii "listen failed: ")

namespace TcpTransport

def discover (self : TcpTransport) : List PeerInfo :=
  let address := self.endpoint.host ++ ascii ":" ++ toDecimal self.endpoint.port.toNat
  let display := match self.mode with
    | .client => ascii "TCP peer " ++ address
    | .server => ascii "TCP listener " ++ address
  [{ id := display
     displayName := display
     supportsHighSpeed := true
     supportsSuperSpeed := true }]

def connect (self : TcpTransport) (network : Network) : Except Exception Unit × TcpTransport :=
  match self.mode with
  | .client =>
      match connectSocket network with
      | .error exception => (.error exception, self)
      | .ok socket => (.ok (), { self with dataSocket := some socket })
  | .server =>
      match HyperLink.listenSocket network with
      | .error exception => (.error exception, self)
      | .ok socket =>
          match network.accepted with
          | none =>
              (.error (.runtimeError (ascii "accept failed: " ++ network.lastSocketError)),
                { self with listenSocket := some socket })
          | some accepted =>
              (.ok (), { self with listenSocket := some socket, dataSocket := some accepted })

def notConnected : Exception := .logicError (ascii "TCP transport is not connected")

/-- The loop of `send`, at its `call`-th system call. -/
def sendLoop (network : Network) (size remaining call : Nat) : Except Exception Nat :=
  if remaining = 0 then .ok size
  else
    let result := min (network.sent call) (min remaining (1024 * 1024))
    if result = 0 then .error (.runtimeError (ascii "send failed: " ++ network.lastSocketError))
    else sendLoop network size (remaining - result) (call + 1)
termination_by remaining

def send (self : TcpTransport) (payload : Bytes) (network : Network) : Except Exception Nat :=
  match self.dataSocket with
  | none => .error notConnected
  | some _ => sendLoop network payload.length payload.length 0

def receiveInto (self : TcpTransport) (size : Nat) (network : Network) : Except Exception Bytes :=
  match self.dataSocket with
  | none => .error notConnected
  | some _ =>
      match network.received with
      | none => .error (.runtimeError (ascii "receive failed: " ++ network.lastSocketError))
      | some bytes => .ok (bytes.take size)

def close (self : TcpTransport) : TcpTransport :=
  { self with dataSocket := none, listenSocket := none }

/-- The transport owns no open socket. -/
def Idle (self : TcpTransport) : Prop := self.dataSocket = none ∧ self.listenSocket = none

end TcpTransport

/-- `make_tcp_client_transport` and `make_tcp_server_transport`, and the virtual functions. -/
def tcp : Transport (TcpMode × TcpEndpoint) TcpTransport Network where
  make from_ := { mode := from_.1, endpoint := from_.2 }
  discover self _ _ := (.ok self.discover, self)
  connect self _ _ network := self.connect network
  send self payload network := (self.send payload network, self)
  receive self maxBytes network := (self.receiveInto maxBytes network, self)
  receiveInto self size network := (self.receiveInto size network, self)
  close self _ := self.close

/-! ### Sockets of unconnected sessions -/

namespace Sessions

variable {world : Sessions TcpTransport} {name : Nat}

/-- No session that is not connected holds a transport with a socket. -/
def Tidy (world : Sessions TcpTransport) : Prop :=
  ∀ name session, world.sessions name = some session →
    ∀ held, session.transport = some held → session.connected = false → held.self.Idle

/-- The one step that leaves a socket behind: a session that is not connected connects as a
server, which listens and does not get to accept. -/
def AcceptFails (world : Sessions TcpTransport) :
    Operation (TcpMode × TcpEndpoint) Network → Prop
  | .connect name _ localOptions peerOptions sessionName network =>
      ∃ session held config socket, world.sessions name = some session ∧
        session.connected = false ∧ session.transport = some held ∧ held.self.mode = .server ∧
        negotiate localOptions peerOptions sessionName = .ok config ∧
        listenSocket network = .ok socket ∧ network.accepted = none
  | _ => False

theorem tidy_initial : (initial : Sessions TcpTransport).Tidy := by
  intro name session here
  cases here

/-- A call that leaves the transport as it is leaves the session as it is. -/
theorem call_eq_self {Value : Type} (session : Session TcpTransport) (wrap : Value → Returned)
    {method : TcpTransport → Except Exception Value × TcpTransport}
    (same : ∀ self, (method self).2 = self) : (session.call wrap method).2 = session := by
  cases session with
  | mk transport connected =>
    cases transport with
    | none => rfl
    | some held => simp [Session.call, same]

theorem callConnected_eq_self {Value : Type} (session : Session TcpTransport)
    (wrap : Value → Returned) {method : TcpTransport → Except Exception Value × TcpTransport}
    (same : ∀ self, (method self).2 = self) : (session.callConnected wrap method).2 = session := by
  unfold Session.callConnected
  split
  · exact call_eq_self session wrap same
  · rfl

/-- A failed `connect` leaves an idle transport idle, unless the server failed to accept. -/
theorem idle_of_connect_throws {self : TcpTransport} {network : Network} {exception : Exception}
    (idle : self.Idle) (throws : (self.connect network).1 = .error exception)
    (spared : ¬ (self.mode = .server ∧ (∃ socket, listenSocket network = .ok socket) ∧
      network.accepted = none)) : (self.connect network).2.Idle := by
  unfold TcpTransport.connect at throws ⊢
  split
  · rename_i client
    rw [client] at throws
    split
    · exact idle
    · rename_i socket opened
      rw [opened] at throws
      cases throws
  · rename_i server
    rw [server] at throws
    split
    · exact idle
    · rename_i socket opened
      rw [opened] at throws
      split
      · rename_i refused
        exact absurd ⟨server, ⟨socket, opened⟩, refused⟩ spared
      · rename_i accepted given
        rw [given] at throws
        cases throws

theorem Tidy.next (tidy : world.Tidy) {operation : Operation (TcpMode × TcpEndpoint) Network}
    (spared : ¬ world.AcceptFails operation) : (world.next tcp operation).Tidy := by
  refine @all_next _ _ _ world tcp
    (fun session => ∀ held, session.transport = some held → session.connected = false →
      held.self.Idle) tidy operation ?_ ?_ ?_
  · intro id from_ held made _
    injection made with made
    rw [← made]
    exact ⟨rfl, rfl⟩
  · intro connected held missing
    cases missing
  · intro name session later here called
    have fine := tidy name session here
    cases called with
    | discover options network =>
      unfold Session.discover
      split
      · exact fine
      · rw [call_eq_self session _ fun _ => rfl]
        exact fine
    | connect peer localOptions peerOptions sessionName network =>
      unfold Session.connect
      split
      · exact fine
      · rename_i config agreed
        split
        · exact fine
        · rename_i held holds
          split
          · rename_i exception self thrown
            intro later isLater shut
            injection isLater with isLater
            rw [← isLater]
            change TcpTransport.connect held.self network = _ at thrown
            have idle := @idle_of_connect_throws held.self network exception
              (fine held holds shut) (congrArg Prod.fst thrown)
              (fun ⟨server, ⟨socket, listening⟩, refused⟩ => spared
                ⟨session, held, config, socket, here, shut, holds, server, agreed, listening,
                  refused⟩)
            rw [thrown] at idle
            exact idle
          · intro later _ shut
            cases shut
    | send payload network =>
      unfold Session.send
      rw [callConnected_eq_self session _ fun _ => rfl]
      exact fine
    | receive maxBytes network =>
      unfold Session.receive
      rw [callConnected_eq_self session _ fun _ => rfl]
      exact fine
    | receiveInto size network =>
      unfold Session.receiveInto
      rw [callConnected_eq_self session _ fun _ => rfl]
      exact fine
    | close network =>
      unfold Session.close
      split
      · intro held isHeld _
        injection isHeld with isHeld
        rw [← isHeld]
        exact ⟨rfl, rfl⟩
      · exact fine

/-! ### What closing releases -/

/-- Every `send` and every `receive` on this session throws a logic error. -/
def Refuses (world : Sessions TcpTransport) (name : Nat) : Prop :=
  ∀ payload size network,
    (∃ message, (world.perform tcp (.send name payload network)).1 =
      .threw (.logicError message)) ∧
    (∃ message, (world.perform tcp (.receive name size network)).1 =
      .threw (.logicError message)) ∧
    (∃ message, (world.perform tcp (.receiveInto name size network)).1 =
      .threw (.logicError message))

/-- Closing any session in this state releases everything: its transport owns no socket, and
until that transport is connected again the session that holds it refuses to send and to
receive. So does a session that holds no transport. -/
structure Releases (world : Sessions TcpTransport) : Prop where
  sockets : ∀ name session held network, world.sessions name = some session →
    session.transport = some held →
    ∃ self, (world.next tcp (.close name network)).sessions name =
      some { transport := some ⟨held.id, self⟩, connected := false } ∧ self.Idle
  later : ∀ name id network operations, world.holds name = some id →
    Runs.Meets (Sessions.next tcp) (fun state operation => ¬ Reconnects tcp id state operation)
      (world.next tcp (.close name network)) operations →
    ∀ other, (Runs.after (Sessions.next tcp) (world.next tcp (.close name network))
      operations).holds other = some id →
    Refuses (Runs.after (Sessions.next tcp) (world.next tcp (.close name network)) operations)
      other
  empty : ∀ name session, world.sessions name = some session → session.transport = none →
    Refuses world name

theorem refuses_of_unconnected {session : Session TcpTransport}
    (here : world.sessions name = some session) (shut : session.connected = false) :
    Refuses world name := by
  have refused : ∀ {Value : Type} (wrap : Value → Returned) method,
      (world.on name fun session => session.callConnected wrap method).1 = .threw notConnected := by
    intro Value wrap method
    simp [Sessions.on, here, Session.callConnected, shut]
  exact fun payload size network => ⟨⟨_, refused _ _⟩, ⟨_, refused _ _⟩, ⟨_, refused _ _⟩⟩

theorem close_eq {session : Session TcpTransport} {held : Held TcpTransport}
    (here : world.sessions name = some session) (holds : session.transport = some held)
    (tidy : world.Tidy) (network : Network) :
    ∃ self, (world.next tcp (.close name network)).sessions name =
      some { transport := some ⟨held.id, self⟩, connected := false } ∧ self.Idle := by
  cases flag : session.connected with
  | true =>
    refine ⟨held.self.close, ?_, rfl, rfl⟩
    simp [Sessions.next, perform, here, Session.close, holds, flag, sessions_put, tcp]
  | false =>
    refine ⟨held.self, ?_, tidy name session here held holds flag⟩
    simp only [Sessions.next, perform, here, Session.close, holds, flag, sessions_put,
      Function.update_self]
    cases session
    simp_all

/-- Closing releases everything in every state where the flags are right and no unconnected
session holds a socket. -/
theorem releases_of_tidy (sound : world.Sound) (tidy : world.Tidy) : world.Releases where
  sockets name session held network here holds := close_eq here holds tidy network
  later := by
    intro name id network operations held meets
    -- The session just closed is the only one that holds the transport.
    have unconnected : ∀ other session,
        (world.next tcp (.close name network)).sessions other = some session →
          session.heldId = some id → session.connected = false := by
      intro other session there heldLater
      cases here : world.sessions name with
      | none => simp [Sessions.holds, here] at held
      | some before =>
        rw [holds_of_session here] at held
        simp only [Sessions.next, perform, here, sessions_put] at there
        by_cases own : other = name
        · rw [own, Function.update_self] at there
          injection there with there
          rw [← there]
          exact Session.close_connected tcp (fun _ => by rw [held]; simp) network
        · rw [Function.update_of_ne own] at there
          have same := sound.unique other name id ((holds_of_session there).trans heldLater)
            ((holds_of_session here).trans held)
          exact absurd same own
    have lasting := @Runs.invariant_after _ _ (Sessions.next tcp) _ _
      (fun state => ∀ other session, state.sessions other = some session →
        session.heldId = some id → session.connected = false) unconnected
      (fun state operation kept spared => unconnected_next tcp kept spared) operations meets
    intro other heldLater
    cases there : (Runs.after (Sessions.next tcp) (world.next tcp (.close name network))
        operations).sessions other with
    | none => simp [Sessions.holds, there] at heldLater
    | some session =>
      rw [holds_of_session there] at heldLater
      exact refuses_of_unconnected there (lasting other session there heldLater)
  empty := by
    intro name session here missing
    refine refuses_of_unconnected here (Bool.eq_false_iff.mpr fun connected => ?_)
    refine sound.whole name ((flag_of_session here).trans connected) ?_
    rw [holds_of_session here, Session.heldId, missing]
    rfl

/-- After the server failed to accept, closing its session leaves the listening socket open. -/
theorem not_releases_of_acceptFails {operation : Operation (TcpMode × TcpEndpoint) Network}
    (fails : world.AcceptFails operation) : ¬ (world.next tcp operation).Releases := by
  intro releases
  cases operation with
  | connect name peer localOptions peerOptions sessionName network =>
    obtain ⟨session, held, config, socket, here, shut, holds, server, agreed, listening,
      refused⟩ := fails
    have there : (world.next tcp (.connect name peer localOptions peerOptions sessionName
        network)).sessions name = some { transport := some ⟨held.id,
          { held.self with listenSocket := some socket }⟩, connected := false } := by
      simp [Sessions.next, perform, here, Session.connect, agreed, holds, tcp,
        TcpTransport.connect, server, listening, refused, sessions_put, shut]
    obtain ⟨self, closed, -, idle⟩ := releases.sockets name _ _ network there rfl
    simp only [Sessions.next, perform, Session.close] at closed there
    rw [there] at closed
    simp only [sessions_put, Function.update_self, Option.some.injEq, Session.mk.injEq,
      Held.mk.injEq, and_true, true_and] at closed
    rw [← closed] at idle
    cases idle
  | _ => exact fails

/-- The session moved from dereferences null instead of refusing. -/
theorem not_releases_of_movesConnected {operation : Operation (TcpMode × TcpEndpoint) Network}
    (moved : world.MovesConnected operation) : ¬ (world.next tcp operation).Releases := by
  intro releases
  obtain ⟨name, left⟩ := left_of_movesConnected tcp moved
  obtain ⟨⟨message, refused⟩, -⟩ := releases.empty name _ left rfl [] 0
    ⟨.ok [], none, fun _ => 0, none, []⟩
  simp [perform, Sessions.on, left, Session.send, Session.callConnected, Session.call] at refused

/-- Closing releases everything in every state of a run exactly if no unconnected server
failed to accept and no session was constructed from a connected one. -/
theorem releases_iff (operations : List (Operation (TcpMode × TcpEndpoint) Network)) :
    Runs.Along (Sessions.next tcp) Sessions.Releases initial operations ↔
      Runs.Meets (Sessions.next tcp)
        (fun world operation => ¬ world.AcceptFails operation ∧ ¬ world.MovesConnected operation)
        initial operations := by
  refine @Runs.along_iff_meets _ _ (Sessions.next tcp) initial _ Sessions.Releases
    (fun world => world.Sound ∧ world.Tidy) ⟨sound_initial, tidy_initial⟩ ?_ ?_ ?_ operations
  · rintro world operation ⟨sound, tidy⟩ ⟨accepts, spared⟩
    exact ⟨sound.next tcp spared, tidy.next accepts⟩
  · rintro world ⟨sound, tidy⟩
    exact releases_of_tidy sound tidy
  · rintro world operation - broken
    rw [not_and_or, not_not, not_not] at broken
    rcases broken with fails | moved
    · exact not_releases_of_acceptFails fails
    · exact not_releases_of_movesConnected moved

end Sessions

/-! ### A server that does not get to accept -/

/-- The server listens on descriptor 3 and `accept` fails. -/
def interrupted : Network where
  resolved := .ok [⟨some 3, true, true, true⟩]
  accepted := none
  sent _ := 0
  received := none
  lastSocketError := ascii "Interrupted system call"

def failedServer : List (Operation (TcpMode × TcpEndpoint) Network) :=
  [.construct 0 (some (.server, ⟨ascii "127.0.0.1", 47777, 0, 0⟩)),
    .connect 0 { id := [], displayName := [] } {} {} (ascii "hyperlink-file") interrupted]

/-- The session is closed and its transport still listens. -/
theorem failedServer_keeps_listening :
    ¬ Runs.Along (Sessions.next tcp) Sessions.Releases Sessions.initial failedServer := by
  intro along
  obtain ⟨self, closed, -, idle⟩ := (along _ List.prefix_rfl).sockets 0
    ⟨some ⟨0, ⟨.server, ⟨ascii "127.0.0.1", 47777, 0, 0⟩, none, some 3⟩⟩, false⟩ _ interrupted
    rfl rfl
  have kept : ((Runs.after (Sessions.next tcp) Sessions.initial failedServer).next tcp
      (.close 0 interrupted)).sessions 0 =
        some ⟨some ⟨0, ⟨.server, ⟨ascii "127.0.0.1", 47777, 0, 0⟩, none, some 3⟩⟩, false⟩ := rfl
  rw [kept] at closed
  injection closed with closed
  injection closed with closed
  injection closed with closed
  injection closed with _ closed
  rw [← closed] at idle
  cases idle

end HyperLink
