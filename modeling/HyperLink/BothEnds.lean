/-
This file puts the two ends of a parallel transfer together: the sending threads
and the receiving threads, joined by one connection for each stream. The threads
of both ends run in any order, and anything may fail at any time: a read or a
`send` of the sender, a call of the receiver on its files, a connection. The
sender may also be killed.

Of a connection it is only assumed that it is one: what it gives is what was put
on it, in order, and it ends without an error only when its sender is done with it
and all of it was given. Then the results of the two ends say together what
neither says alone: if both report success, the transfer is exact.
-/

import HyperLink.LiveSender
import HyperLink.EndOfStream
import HyperLink.CleanTransfer
import HyperLink.Runs

namespace HyperLink

open Threads FileSystem

namespace Live

/-! ### Two ends and their connections -/

/-- The threads of the sender, each with what it owns, and those of the receiver. -/
structure Link (streams : Nat) where
  senders : Config (Fin streams) SendCall SendReply StreamResult (Fin streams → SendStream)
  receivers : LiveConfig streams
  killed : Bool := false

/-- A thread of the sender or of the receiver takes its next step, or the sender is killed. -/
inductive LinkEvent (streams : Nat) where
  | send (stream : Fin streams) (choice : SendChoice)
  | receive (stream : Fin streams) (choice : Choice)
  | kill
  deriving DecidableEq

namespace Link

variable {streams : Nat}

def step (source : Path → Option Node) (link : Link streams) : LinkEvent streams → Link streams
  | .send stream choice =>
      if link.killed then link
      else { link with
        senders := link.senders.stepEach (Config.own (serve source)) (stream, choice) }
  | .receive stream choice =>
      { link with receivers := link.receivers.stepLive perform (stream, choice) }
  | .kill => { link with killed := true }

/-- What the sender has put on a connection, and what the receiver was given of it. -/
def wire (link : Link streams) (stream : Fin streams) : Bytes := (link.senders.world stream).wire

def given (link : Link streams) (stream : Fin streams) : Bytes :=
  link.receivers.world.given stream

/-- The sender will put nothing more on a connection. -/
def Silent (link : Link streams) (stream : Fin streams) : Prop :=
  link.killed = true ∨ (link.senders.world stream).phase = .closed

/-- What a connection may give to a thread that reads from it. -/
def Gives (link : Link streams) (stream : Fin streams) (bytes : Bytes) : Prop :=
  link.given stream ++ bytes <+: link.wire stream ∧
    (bytes = [] → link.given stream = link.wire stream ∧ link.Silent stream)

/-- What a call may be given: a thread that reads, what the connection gives, or an exception;
one that connects waits for its sender, or the call throws. -/
def Arrives (link : Link streams) (stream : Fin streams) :
    SessionCall ⊕ Call → Except Bytes Bytes → Prop
  | .inl .connect, .ok _ => (link.senders.world stream).phase ≠ .waiting
  | .inl (.receiveInto size), .ok bytes =>
      link.receivers.world.phase stream ≠ .closed → link.Gives stream (bytes.take size)
  | _, _ => True

/-- What the connections let happen. -/
def Allowed (link : Link streams) : LinkEvent streams → Prop
  | .receive stream choice =>
      match link.receivers.threads stream with
      | .call request _ => link.Arrives stream request choice.arrival
      | .done _ => True
  | _ => True

instance decidableSilent (link : Link streams) (stream : Fin streams) :
    Decidable (link.Silent stream) :=
  inferInstanceAs (Decidable (_ ∨ _))

instance decidableGives (link : Link streams) (stream : Fin streams) (bytes : Bytes) :
    Decidable (link.Gives stream bytes) :=
  inferInstanceAs (Decidable (_ ∧ _))

instance decidableArrives (link : Link streams) (stream : Fin streams) :
    (request : SessionCall ⊕ Call) → (arrival : Except Bytes Bytes) →
      Decidable (link.Arrives stream request arrival)
  | .inl .connect, .ok _ => inferInstanceAs (Decidable (_ ≠ _))
  | .inl (.receiveInto _), .ok _ => inferInstanceAs (Decidable (_ → _))
  | .inl .connect, .error _ => isTrue trivial
  | .inl (.receiveInto _), .error _ => isTrue trivial
  | .inr _, _ => isTrue trivial

instance decidableAllowed (link : Link streams) : (event : LinkEvent streams) →
    Decidable (link.Allowed event)
  | .receive stream choice =>
      match same : link.receivers.threads stream with
      | .call request _ => decidable_of_iff (link.Arrives stream request choice.arrival)
          (by simp only [Allowed, same])
      | .done _ => isTrue (by simp only [Allowed, same])
  | .send _ _ => isTrue trivial
  | .kill => isTrue trivial

/-- The calls of the receiver on its file system are permitted to go as they do. -/
def Permits (permitted : Fault → Call → World → Prop) (link : Link streams) :
    LinkEvent streams → Prop
  | .receive stream choice =>
      Config.Permits LiveWorld.receiver Choice.fault permitted link.receivers (stream, choice)
  | _ => True

instance decidablePermits {permitted : Fault → Call → World → Prop}
    [∀ fault request world, Decidable (permitted fault request world)] (link : Link streams) :
    (event : LinkEvent streams) → Decidable (link.Permits permitted event)
  | .receive stream choice =>
      match same : link.receivers.threads stream with
      | .call (.inr request) _ =>
          decidable_of_iff (permitted choice.fault request link.receivers.world.receiver)
            (by simp only [Permits, Config.Permits, same])
      | .call (.inl _) _ => isTrue (by simp only [Permits, Config.Permits, same])
      | .done _ => isTrue (by simp only [Permits, Config.Permits, same])
  | .send _ _ => isTrue trivial
  | .kill => isTrue trivial

/-- A transfer that begins. -/
def start (programs : Fin streams → Program SendCall SendReply StreamResult) (options : Options)
    (rounds : Nat) (fs : FileSystem) : Link streams where
  senders := ⟨fun _ => {}, programs⟩
  receivers := Live.start options rounds fs

/-! ### What holds at every moment -/

/-- A connection has given a first part of what was put on it, and all of it where it ended. -/
def Delivers (link : Link streams) (stream : Fin streams) (standing : Standing) : Prop :=
  standing.2.1 <+: link.wire stream ∧ (standing.1 = .closed → standing.2.2 = false →
    standing.2.1 = link.wire stream ∧ link.Silent stream)

/-- The invariant: both ends keep their contracts, and the connections deliver. -/
structure Sound (source : Path → Option Node) (sent : Fin streams → Sent) (rounds : Nat)
    (link : Link streams) : Prop where
  sends : link.senders.EachMeets (serve source) (fun _ _ _ => True)
    (fun stream sending => sending.wire <+: (sent stream).bytes) (fun stream => Ended (sent stream))
  attests : Attests rounds link.receivers
  delivers : ∀ stream, link.Delivers stream (link.receivers.world.standing stream)

variable {source : Path → Option Node} {sent : Fin streams → Sent} {rounds : Nat}

theorem sound_start {programs : Fin streams → Program SendCall SendReply StreamResult}
    (sends : ∀ stream, Sending source (sent stream).bytes (programs stream)
      (Ended (sent stream)) {}) (options : Options) (fs : FileSystem) :
    (start programs options rounds fs).Sound source sent rounds := by
  refine ⟨fun stream => ⟨List.nil_prefix, sends stream⟩, attests_start fs,
    fun stream => ⟨List.nil_prefix, fun never => ?_⟩⟩
  cases never

/-- Only something is added to a wire, and nothing to that of a closed connection. -/
def Adds (before after : SendStream) : Prop :=
  before.wire <+: after.wire ∧
    (before.phase = .closed → after.wire = before.wire ∧ after.phase = .closed)

theorem Adds.refl (stream : SendStream) : Adds stream stream :=
  ⟨List.prefix_rfl, fun closed => ⟨rfl, closed⟩⟩

/-- What a call of a sender does to its connection. -/
theorem serve_adds (choice : SendChoice) (request : SendCall) (stream : SendStream) :
    Adds stream (serve source choice request stream).2 := by
  cases request with
  | openInput path =>
    rcases serve_openInput_cases choice path stream with refused | ⟨content, mode, -, opened⟩
    · rw [refused]
      exact Adds.refl stream
    · rw [opened]
      exact Adds.refl stream
  | seekInput offset =>
    simp only [serve]
    split <;> exact Adds.refl stream
  | readInput size =>
    simp only [serve]
    split
    · exact Adds.refl stream
    · split <;> exact Adds.refl stream
  | readSymlink path =>
    rcases serve_readSymlink_cases choice path stream with refused | ⟨target, -, read⟩
    · rw [refused]
      exact Adds.refl stream
    · rw [read]
      exact Adds.refl stream
  | connect =>
    simp only [serve]
    split
    · rename_i waiting
      refine ⟨?_, fun closed => ?_⟩
      · split <;> exact List.prefix_rfl
      · rw [waiting] at closed
        cases closed
    · exact Adds.refl stream
  | send payload =>
    simp only [serve]
    split
    · exact Adds.refl stream
    · rename_i connected
      refine ⟨?_, fun closed => absurd closed ?_⟩
      · split <;> exact List.prefix_append _ _
      · rw [not_not.mp connected]
        exact fun never => by cases never
  | close => exact ⟨List.prefix_rfl, fun _ => ⟨rfl, rfl⟩⟩

/-- What a step of a sender does to the connections. -/
theorem senders_adds (link : Link streams) (stream other : Fin streams) (choice : SendChoice) :
    Adds (link.senders.world other)
      ((link.senders.stepEach (Config.own (serve source)) (stream, choice)).world other) := by
  unfold Config.stepEach
  cases program : link.senders.threads stream with
  | done result =>
    rw [Config.step_of_done _ program]
    exact Adds.refl _
  | call request next =>
    rw [Config.step_of_call _ program]
    by_cases picked : other = stream
    · subst picked
      simp only [Config.own, Function.update_self]
      exact serve_adds choice request _
    · simp only [Config.own, Function.update_of_ne picked]
      exact Adds.refl _

theorem Sound.send {link : Link streams} (sound : link.Sound source sent rounds)
    (stream : Fin streams) (choice : SendChoice) :
    (link.step source (.send stream choice)).Sound source sent rounds := by
  by_cases killed : link.killed = true
  · simp only [step, if_pos killed]
    exact sound
  simp only [step, if_neg killed]
  refine ⟨sound.sends.step _ fun _ _ _ => trivial, sound.attests, fun other =>
    ⟨(sound.delivers other).1.trans (senders_adds link stream other choice).1,
      fun closed fine => ?_⟩⟩
  · obtain ⟨whole, silent⟩ := (sound.delivers other).2 closed fine
    have ended : (link.senders.world other).phase = .closed := silent.resolve_left killed
    obtain ⟨same, still⟩ := (@senders_adds _ source link stream other choice).2 ended
    exact ⟨whole.trans same.symm, .inr still⟩

theorem Sound.kill {link : Link streams} (sound : link.Sound source sent rounds) :
    (link.step source .kill).Sound source sent rounds :=
  ⟨sound.sends, sound.attests, fun stream => ⟨(sound.delivers stream).1, fun closed fine =>
    ⟨((sound.delivers stream).2 closed fine).1, .inl rfl⟩⟩⟩

/-- What a step of a receiving thread does to its connection. -/
theorem delivers_step {link : Link streams} {stream : Fin streams} {choice : Choice}
    (allowed : link.Allowed (.receive stream choice)) (other : Fin streams)
    (delivers : link.Delivers other (link.receivers.world.standing other)) :
    link.Delivers other
      ((link.receivers.stepLive perform (stream, choice)).world.standing other) := by
  unfold Config.stepLive
  cases program : link.receivers.threads stream with
  | done result =>
    rw [Config.step_of_done (perform stream) program]
    exact delivers
  | call request next =>
    rw [Config.step_of_call (perform stream) program]
    by_cases same : other = stream
    swap
    · rw [standing_of_ne same choice request link.receivers.world]
      exact delivers
    subst same
    simp only [Allowed, program] at allowed
    rcases request with (_ | size) | request
    · rw [standing_perform]
      cases (perform other choice (.inl .connect) link.receivers.world).1 with
      | error text => exact ⟨delivers.1, fun _ never => by cases never⟩
      | ok _ =>
        refine ⟨delivers.1, fun closed => delivers.2 ?_⟩
        simp only [look] at closed
        split at closed
        · cases closed
        · exact closed
    · by_cases closed : link.receivers.world.phase other = .closed
      · simp only [perform, if_pos closed]
        exact delivers
      cases arrival : choice.arrival with
      | error text =>
        simp only [perform, if_neg closed, arrival, LiveWorld.standing, LiveWorld.fail,
          Function.update_self]
        exact ⟨delivers.1, fun _ never => by cases never⟩
      | ok bytes =>
        simp only [perform, if_neg closed, arrival, LiveWorld.standing, LiveWorld.give,
          Function.update_self]
        rw [arrival] at allowed
        obtain ⟨more, ended⟩ := allowed closed
        refine ⟨more, fun last _ => ?_⟩
        by_cases nothing : bytes.take size = []
        · obtain ⟨whole, silent⟩ := ended nothing
          rw [nothing, List.append_nil]
          exact ⟨whole, silent⟩
        · rw [if_neg nothing] at last
          cases last
    · exact delivers

theorem Sound.receive {link : Link streams} (sound : link.Sound source sent rounds)
    {stream : Fin streams} {choice : Choice} (allowed : link.Allowed (.receive stream choice)) :
    (link.step source (.receive stream choice)).Sound source sent rounds :=
  ⟨sound.sends, sound.attests.stepLive _, fun other =>
    delivers_step allowed other (sound.delivers other)⟩

/-- The invariant holds after every run. -/
theorem sound_after {link : Link streams} (sound : link.Sound source sent rounds)
    {events : List (LinkEvent streams)} (allowed : Runs.Meets (step source) Allowed link events) :
    (Runs.after (step source) link events).Sound source sent rounds := by
  refine Runs.invariant_after sound (fun link event sound allow => ?_) events allowed
  cases event with
  | send stream choice => exact sound.send stream choice
  | receive stream choice => exact sound.receive allow
  | kill => exact sound.kill

/-! ### What the results say -/

/-- What was given was sent, and what was sent is what the sender has to send. -/
theorem Sound.prefixes {link : Link streams} (sound : link.Sound source sent rounds)
    (stream : Fin streams) :
    link.given stream <+: link.wire stream ∧ link.wire stream <+: (sent stream).bytes :=
  ⟨(sound.delivers stream).1, (sound.sends stream).1⟩

/-- Where both threads of a stream have ended without an error, everything has arrived. -/
theorem Sound.delivered {link : Link streams} (sound : link.Sound source sent rounds)
    {stream : Fin streams} (few : (sent stream).bytes.length < rounds)
    {outcome result : StreamResult} (sending : link.senders.threads stream = .done outcome)
    (clean : outcome.error = none) (receiving : link.receivers.threads stream = .done result)
    (fine : result.error = none) :
    outcome = (sent stream).result ∧ link.given stream = (sent stream).bytes ∧
      link.receivers.world.failed stream = false := by
  obtain ⟨given, sends⟩ := sound.prefixes stream
  obtain ⟨same, whole, -⟩ := sound.sends.ended sending clean
  have short := (given.trans sends).length_le
  obtain ⟨closed, quiet⟩ := sound.attests.ended receiving fine
    (Nat.lt_of_le_of_lt short few)
  obtain ⟨all, -⟩ := (sound.delivers stream).2 closed quiet
  exact ⟨same, all.trans whole, quiet⟩

/-- The receiver's part of a run. -/
def received : LinkEvent streams → Option (Fin streams × Choice)
  | .receive stream choice => some (stream, choice)
  | _ => none

theorem receivers_step (source : Path → Option Node) (link : Link streams)
    (event : LinkEvent streams) : (step source link event).receivers =
      Runs.after (Config.stepLive perform) link.receivers (received event).toList := by
  cases event with
  | send stream choice =>
    simp only [step]
    split <;> rfl
  | receive stream choice => rfl
  | kill => rfl

/-- The receiver of a run is a receiver that runs on live connections. -/
theorem receivers_after (link : Link streams) (events : List (LinkEvent streams)) :
    (Runs.after (step source) link events).receivers =
      link.receivers.runLive perform (events.filterMap received) :=
  @Runs.component_after _ _ (step source) link _ _ Link.receivers (Config.stepLive perform)
    received (receivers_step source) events

/-- What is permitted to the receiver of a run is permitted to the receiver alone. -/
theorem permits_received {permitted : Fault → Call → World → Prop} {link : Link streams}
    {events : List (LinkEvent streams)}
    (permits : Runs.Meets (step source) (Permits permitted) link events) :
    Runs.Meets (Config.stepLive perform)
      (Config.Permits LiveWorld.receiver Choice.fault permitted) link.receivers
      (events.filterMap received) := by
  refine @Runs.Meets.component _ _ (step source) link (Permits permitted) _ _ Link.receivers
    (Config.stepLive perform) received _ (receivers_step source) ?_ _ permits
  rintro link (⟨stream, choice⟩ | ⟨stream, choice⟩ | _) move allows ⟨⟩
  exact allows

end Link

end Live

end HyperLink
