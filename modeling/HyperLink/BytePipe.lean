/-
This file is the byte pipe of `TcpTransport` in `src/network_transport.cpp`: one
party sends payloads, the other one reads buffers with `receive_exact` of
`examples/file_transfer.cpp`, and the two take turns in any order.

The system's `send` takes any number of bytes from one to all that it is offered,
its `recv` gives any number from one to all that is there, and both can fail. What
was taken stands on the wire in the order in which it was taken, and `recv` gives
nothing only behind the last byte of a stream that was closed. A party that an
exception leaves does not go on. The results of the calls are noted in the pipe as
they return, so that a run shows them.
-/

import HyperLink.TcpTransport
import HyperLink.Interleaving

namespace HyperLink

open Threads

namespace BytePipe

/-! ### The system -/

/-- The system calls of both parties, and the notes of what `send` and `receive_exact`
returned. -/
inductive Call where
  | send (chunk : Bytes)
  | recv (size : Nat)
  | close
  | noteSent (outcome : Except Exception Nat)
  | noteReceived (outcome : Except Exception Bytes)

/-- `send` answers with a number and the text of the last error, `recv` with bytes or with that
text. -/
abbrev Reply : Call → Type
  | .send _ => Int × Bytes
  | .recv _ => Except Bytes Bytes
  | .close => Unit
  | .noteSent _ => Unit
  | .noteReceived _ => Unit

/-- What the system does with a call: move so many bytes, or fail with a text. -/
inductive Choice where
  | moves (count : Nat)
  | fails (lastSocketError : Bytes)
  deriving DecidableEq, Repr

/-- The connection: all bytes that `send` took, how many of them `recv` gave, and whether the
sender has closed it. `failure` is the number of the `receive_exact` during which `recv`
failed. -/
structure Pipe where
  wire : Bytes := []
  read : Nat := 0
  closed : Bool := false
  failure : Option Nat := none
  sent : List (Except Exception Nat) := []
  received : List (Except Exception Bytes) := []

/-- The bytes that `recv` gives of those that are there. -/
def Pipe.given (pipe : Pipe) (count size : Nat) : Bytes :=
  (pipe.wire.drop pipe.read).take (min (max 1 count) size)

def perform (choice : Choice) : (request : Call) → Pipe → Reply request × Pipe
  | .send chunk, pipe =>
      match choice with
      | .moves count =>
          let taken := min (max 1 count) chunk.length
          ((taken, []), { pipe with wire := pipe.wire ++ chunk.take taken })
      | .fails lastSocketError => ((-1, lastSocketError), pipe)
  | .recv size, pipe =>
      match choice with
      | .moves count =>
          let bytes := pipe.given count size
          (.ok bytes, { pipe with read := pipe.read + bytes.length })
      | .fails lastSocketError =>
          (.error lastSocketError, { pipe with failure := some pipe.received.length })
  | .close, pipe => ((), { pipe with closed := true })
  | .noteSent outcome, pipe => ((), { pipe with sent := pipe.sent ++ [outcome] })
  | .noteReceived outcome, pipe => ((), { pipe with received := pipe.received ++ [outcome] })

/-- `recv` waits until there is a byte, or the end of the stream. -/
def allowed (choice : Choice) : Call → Pipe → Prop
  | .recv _, pipe =>
      match choice with
      | .moves _ => pipe.read < pipe.wire.length ∨ pipe.closed = true
      | .fails _ => True
  | _, _ => True

instance decidableAllowed (choice : Choice) :
    (request : Call) → (pipe : Pipe) → Decidable (allowed choice request pipe)
  | .recv _, pipe =>
      match choice with
      | .moves _ => inferInstanceAs (Decidable (pipe.read < pipe.wire.length ∨ pipe.closed = true))
      | .fails _ => isTrue trivial
  | .send _, _ => isTrue trivial
  | .close, _ => isTrue trivial
  | .noteSent _, _ => isTrue trivial
  | .noteReceived _, _ => isTrue trivial

/-! ### The parties -/

/-- The loop of `send`. -/
def sendLoop (payload : Bytes) (sent : Nat) : Program Call Reply (Except Exception Nat) :=
  if sent < payload.length then
    let remaining := payload.length - sent
    let chunk := min remaining (1024 * 1024)
    .call (.send ((payload.drop sent).take chunk)) fun reply =>
      if reply.1 ≤ 0 then .done (.error (.runtimeError (ascii "send failed: " ++ reply.2)))
      else sendLoop payload (sent + reply.1.toNat)
  else .done (.ok sent)
termination_by payload.length - sent
decreasing_by omega

def send (self : TcpTransport) (payload : Bytes) :
    Program Call Reply (Except Exception Nat) :=
  match self.dataSocket with
  | none => .done (.error TcpTransport.notConnected)
  | some _ => sendLoop payload 0

/-- The POSIX branch of `receive_into`, with the bytes that it puts into a buffer of the size. -/
def receiveInto (self : TcpTransport) (size : Nat) :
    Program Call Reply (Except Exception Bytes) :=
  match self.dataSocket with
  | none => .done (.error TcpTransport.notConnected)
  | some _ => .call (.recv size) fun
      | .error lastSocketError =>
          .done (.error (.runtimeError (ascii "receive failed: " ++ lastSocketError)))
      | .ok bytes => .done (.ok bytes)

/-- The loop of `receive_exact` behind the bytes that are in the buffer. -/
def receiveExactLoop (self : TcpTransport) (size : Nat) (buffer : Bytes) :
    Program Call Reply (Except Exception Bytes) :=
  if buffer.length < size then
    (receiveInto self (size - buffer.length)).bind fun
      | .error exception => .done (.error exception)
      | .ok [] => .done (.error (.runtimeError
          (ascii "connection closed before expected bytes arrived")))
      | .ok (byte :: bytes) => receiveExactLoop self size (buffer ++ byte :: bytes)
  else .done (.ok buffer)
termination_by size - buffer.length
decreasing_by simp; omega

def receiveExact (self : TcpTransport) (size : Nat) :
    Program Call Reply (Except Exception Bytes) :=
  receiveExactLoop self size []

/-- One `send` after the other. At the end, or where one throws, the socket is closed. -/
def sendEach (self : TcpTransport) : List Bytes → Program Call Reply Unit
  | [] => Program.invoke Call.close
  | payload :: rest => (send self payload).bind fun outcome =>
      .call (.noteSent outcome) fun _ =>
        match outcome with
        | .error _ => Program.invoke Call.close
        | .ok _ => sendEach self rest

/-- One `receive_exact` after the other, until one throws. -/
def receiveEach (self : TcpTransport) : List Nat → Program Call Reply Unit
  | [] => .done ()
  | size :: rest => (receiveExact self size).bind fun outcome =>
      .call (.noteReceived outcome) fun _ =>
        match outcome with
        | .error _ => .done ()
        | .ok _ => receiveEach self rest

inductive Party where
  | sender
  | receiver
  deriving DecidableEq, Repr

/-- Two connected transports, one to send some payloads and one to fill buffers of some sizes. -/
def start (sender receiver : TcpTransport) (payloads : List Bytes) (sizes : List Nat) :
    Config Party Call Reply Unit Pipe where
  world := {}
  threads
    | .sender => sendEach sender payloads
    | .receiver => receiveEach receiver sizes

/-! ### One party alone -/

/-- The answers of one network, at its `call`-th `send`. -/
def answer (network : Network) : (request : Call) → Nat → Reply request × Nat
  | .send chunk, call =>
      let result := min (network.sent call) chunk.length
      ((result, network.lastSocketError), call + 1)
  | .recv size, call =>
      match network.received with
      | none => (.error network.lastSocketError, call)
      | some bytes => (.ok (bytes.take size), call)
  | .close, call => ((), call)
  | .noteSent _, call => ((), call)
  | .noteReceived _, call => ((), call)

theorem run_sendLoop (network : Network) (payload : Bytes) {sent : Nat}
    (inside : sent ≤ payload.length) (call : Nat) :
    ((sendLoop payload sent).run (answer network) call).1 =
      TcpTransport.sendLoop network payload.length (payload.length - sent) call := by
  induction rest : payload.length - sent using Nat.strong_induction_on
    generalizing sent call with
  | _ missing inductionHypothesis =>
  unfold sendLoop TcpTransport.sendLoop
  by_cases more : sent < payload.length
  · have left : ¬ missing = 0 := by omega
    have offered : ((payload.drop sent).take (min (payload.length - sent) (1024 * 1024))).length =
        min missing (1024 * 1024) := by
      rw [List.length_take, List.length_drop, rest, min_eq_left]
      omega
    rw [if_pos more, if_neg left]
    simp only [Program.run_call, answer, offered]
    set result := min (network.sent call) (min missing (1024 * 1024)) with taken
    by_cases none : result = 0
    · rw [if_pos none, if_pos (by omega)]
      rfl
    · rw [if_neg none, if_neg (by omega)]
      have shorter : payload.length - (sent + (result : Int).toNat) = missing - result := by
        rw [Int.toNat_natCast, ← rest, Nat.sub_sub]
      exact inductionHypothesis (missing - result) (by omega) (by omega) (call + 1) shorter
  · rw [if_neg more, if_pos (by omega), Program.run_done, le_antisymm inside (not_lt.mp more)]

/-- Against the answers of one network, the calls return what the transport's functions do. -/
theorem run_transport (network : Network) (self : TcpTransport) (payload : Bytes) (size : Nat) :
    ((send self payload).run (answer network) 0).1 = self.send payload network ∧
      ((receiveInto self size).run (answer network) 0).1 = self.receiveInto size network := by
  unfold send receiveInto TcpTransport.send TcpTransport.receiveInto
  cases self.dataSocket with
  | none => exact ⟨rfl, rfl⟩
  | some socket =>
    refine ⟨run_sendLoop network payload (Nat.zero_le _) 0, ?_⟩
    simp only [Program.run_call, answer]
    cases network.received with
    | none => rfl
    | some bytes => rfl

/-! ### What the pipe promises -/

/-- The wire holds a front of the payloads, all of each one whose `send` has returned, and every
buffer that was filled holds the bytes behind those of the earlier buffers. A `receive_exact`
throws if `recv` fails in it or the stream ends before its buffer is full, and only then. -/
structure Exact (payloads : List Bytes) (sizes : List Nat) (pipe : Pipe) : Prop where
  onWire : pipe.wire <+: payloads.flatten
  sent : ∀ index count, pipe.sent[index]? = some (.ok count) →
    ∃ payload, payloads[index]? = some payload ∧ count = payload.length ∧
      (payloads.take (index + 1)).flatten <+: pipe.wire
  received : ∀ index buffer, pipe.received[index]? = some (.ok buffer) →
    ∃ size, sizes[index]? = some size ∧ buffer.length = size ∧
      buffer <+: pipe.wire.drop (sizes.take index).sum
  thrown : ∀ index outcome, pipe.received[index]? = some outcome →
    ((∃ exception, outcome = .error exception) ↔ pipe.failure = some index ∨
      pipe.closed = true ∧ pipe.wire.length < (sizes.take (index + 1)).sum)

/-- What holds in between: nothing is read that is not there, and full buffers were read. -/
structure Sound (payloads : List Bytes) (sizes : List Nat) (pipe : Pipe) : Prop
    extends Exact payloads sizes pipe where
  within : pipe.read ≤ pipe.wire.length
  filled : ∀ index buffer, pipe.received[index]? = some (.ok buffer) →
    (sizes.take (index + 1)).sum ≤ pipe.read
  failing : ∀ index, pipe.failure = some index → index ≤ pipe.received.length

/-- What a party may count on, whatever the other one does. The sender's part of the pipe is the
wire, the receiver's part what it has read, and a closed stream does not grow. -/
def rely : Party → Pipe → Pipe → Prop
  | .sender, before, after =>
      after.wire = before.wire ∧ after.closed = before.closed ∧ after.sent = before.sent
  | .receiver, before, after =>
      (before.wire <+: after.wire ∧
        (before.closed = true → after.closed = true ∧ after.wire = before.wire)) ∧
      after.read = before.read ∧ after.failure = before.failure ∧
      after.received = before.received

def guarantee : Party → Pipe → Pipe → Prop
  | .sender => rely .receiver
  | .receiver => rely .sender

theorem rely_refl (party : Party) (pipe : Pipe) : rely party pipe pipe := by
  cases party with
  | sender => exact ⟨rfl, rfl, rfl⟩
  | receiver => exact ⟨⟨List.prefix_rfl, fun closed => ⟨closed, rfl⟩⟩, rfl, rfl, rfl⟩

theorem rely_trans (party : Party) (first second third : Pipe) (one : rely party first second)
    (other : rely party second third) : rely party first third := by
  cases party with
  | sender => exact ⟨other.1.trans one.1, other.2.1.trans one.2.1, other.2.2.trans one.2.2⟩
  | receiver =>
    obtain ⟨⟨grows, ends⟩, read, failure, received⟩ := one
    obtain ⟨⟨growsToo, endsToo⟩, readToo, failureToo, receivedToo⟩ := other
    refine ⟨⟨grows.trans growsToo, fun closed => ?_⟩, readToo.trans read,
      failureToo.trans failure, receivedToo.trans received⟩
    obtain ⟨stays, same⟩ := ends closed
    exact ⟨(endsToo stays).1, (endsToo stays).2.trans same⟩

theorem compatible (thread other : Party) (different : thread ≠ other) (before after : Pipe)
    (respects : guarantee other before after) : rely thread before after := by
  cases thread with
  | sender =>
    cases other with
    | sender => exact absurd rfl different
    | receiver => exact respects
  | receiver =>
    cases other with
    | sender => exact respects
    | receiver => exact absurd rfl different

/-- A contract of a party. -/
abbrev Fulfils (payloads : List Bytes) (sizes : List Nat) (party : Party) {Result : Type}
    (post : Result → Pipe → Prop) (program : Program Call Reply Result) (pipe : Pipe) : Prop :=
  program.Meets perform allowed (Sound payloads sizes) (rely party) (guarantee party) post pipe

/-- A note is one of the earlier notes or the last one. -/
theorem noted_or_last {Note : Type} {notes : List Note} {last note : Note} {index : Nat}
    (found : (notes ++ [last])[index]? = some note) :
    notes[index]? = some note ∨ index = notes.length ∧ last = note := by
  rw [List.getElem?_append] at found
  split at found
  · exact Or.inl found
  · rename_i behind
    obtain ⟨first, same⟩ := List.getElem?_eq_some_iff.mp found
    have last : index = notes.length :=
      le_antisymm (Nat.sub_eq_zero_iff_le.mp (Nat.lt_one_iff.mp first)) (not_lt.mp behind)
    exact Or.inr ⟨last, by simpa using same⟩

/-! ### The sender -/

section Sender

variable {payloads : List Bytes} {sizes : List Nat} {pipe : Pipe}

/-- More bytes on an open wire leave everything as it was promised. -/
theorem Sound.grow (sound : Sound payloads sizes pipe) (isOpen : pipe.closed = false)
    {bytes : Bytes} (front : pipe.wire ++ bytes <+: payloads.flatten) :
    Sound payloads sizes { pipe with wire := pipe.wire ++ bytes } := by
  refine ⟨⟨front, fun index count returned => ?_, fun index buffer returned => ?_,
    fun index outcome returned => ?_⟩, ?_, sound.filled, sound.failing⟩
  · obtain ⟨payload, listed, size, onWire⟩ := sound.sent index count returned
    exact ⟨payload, listed, size, onWire.trans (List.prefix_append _ _)⟩
  · obtain ⟨size, listed, full, holds⟩ := sound.received index buffer returned
    refine ⟨size, listed, full, holds.trans ?_⟩
    rw [List.drop_append]
    exact List.prefix_append _ _
  · rw [sound.thrown index outcome returned]
    simp [isOpen]
  · show pipe.read ≤ (pipe.wire ++ bytes).length
    rw [List.length_append]
    exact sound.within.trans (Nat.le_add_right _ _)

/-- A buffer that was filled was on the wire. -/
theorem Sound.not_short (sound : Sound payloads sizes pipe) {index : Nat} {buffer : Bytes}
    (returned : pipe.received[index]? = some (.ok buffer)) :
    ¬ pipe.wire.length < (sizes.take (index + 1)).sum :=
  not_lt.mpr ((sound.filled index buffer returned).trans sound.within)

theorem Sound.close (sound : Sound payloads sizes pipe) :
    Sound payloads sizes { pipe with closed := true } := by
  refine ⟨⟨sound.onWire, sound.sent, sound.received, fun index outcome returned => ?_⟩,
    sound.within, sound.filled, sound.failing⟩
  have same := sound.thrown index outcome returned
  constructor
  · intro thrown
    exact (same.mp thrown).imp_right fun ended => ⟨rfl, ended.2⟩
  · rintro (failed | ⟨-, short⟩)
    · exact same.mpr (Or.inl failed)
    · cases outcome with
      | error exception => exact ⟨exception, rfl⟩
      | ok buffer => exact absurd short (sound.not_short returned)

/-- The sender's part of the pipe while it is open. -/
structure Stands (wire : Bytes) (sent : List (Except Exception Nat)) (pipe : Pipe) : Prop where
  wire : pipe.wire = wire
  isOpen : pipe.closed = false
  sent : pipe.sent = sent

theorem Stands.stable {wire : Bytes} {sent : List (Except Exception Nat)} {later : Pipe}
    (stands : Stands wire sent pipe) (step : rely .sender pipe later) : Stands wire sent later :=
  ⟨step.1.trans stands.wire, step.2.1.trans stands.isOpen, step.2.2.trans stands.sent⟩

theorem Stands.note {wire : Bytes} {sent : List (Except Exception Nat)}
    (stands : Stands wire sent pipe) (outcome : Except Exception Nat) :
    Stands wire (sent ++ [outcome]) { pipe with sent := pipe.sent ++ [outcome] } :=
  ⟨stands.wire, stands.isOpen, by rw [stands.sent]⟩

/-- A `send` that returns has sent its payload, and one that throws a part of it. -/
def SendEnds (before : List Bytes) (payload : Bytes) (sent : List (Except Exception Nat)) :
    Except Exception Nat → Pipe → Prop
  | .ok count, pipe =>
      count = payload.length ∧ Stands (before.flatten ++ payload) sent pipe
  | .error _, pipe => ∃ wire, Stands wire sent pipe

theorem SendEnds.stable {before : List Bytes} {payload : Bytes}
    {sent : List (Except Exception Nat)} {outcome : Except Exception Nat} {later : Pipe}
    (ends : SendEnds before payload sent outcome pipe) (step : rely .sender pipe later) :
    SendEnds before payload sent outcome later := by
  cases outcome with
  | ok count => exact ⟨ends.1, ends.2.stable step⟩
  | error exception =>
    obtain ⟨wire, stands⟩ := ends
    exact ⟨wire, stands.stable step⟩

variable {before rest : List Bytes} {payload : Bytes} {log : List (Except Exception Nat)}

/-- The loop goes on behind the bytes that the system has taken, and nowhere else. -/
theorem sendLoop_fulfils (whole : payloads = before ++ payload :: rest) {sent : Nat}
    (inside : sent ≤ payload.length)
    (stands : Stands (before.flatten ++ payload.take sent) log pipe) :
    Fulfils payloads sizes .sender (SendEnds before payload log) (sendLoop payload sent)
      pipe := by
  induction left : payload.length - sent using Nat.strong_induction_on generalizing sent pipe
    with
  | _ missing inductionHypothesis =>
  unfold sendLoop
  split
  · rename_i more
    intro later step sound choice permitted
    have now := stands.stable step
    cases choice with
    | fails lastSocketError =>
      refine ⟨sound, rely_refl .receiver later, ?_⟩
      have failed : (-1 : Int) ≤ 0 := by decide
      show Fulfils payloads sizes .sender _ (if (-1 : Int) ≤ 0 then _ else _) later
      rw [if_pos failed]
      exact Program.Meets.done fun last interference _ => ⟨_, now.stable interference⟩
    | moves count =>
      set chunk := min (payload.length - sent) (1024 * 1024) with chunkSize
      set taken := min (max 1 count) ((payload.drop sent).take chunk).length with takenSize
      have offered : ((payload.drop sent).take chunk).length = chunk := by
        rw [List.length_take, List.length_drop]
        omega
      have positive : 0 < taken := by omega
      have fits : taken ≤ chunk := by omega
      have wire : later.wire ++ ((payload.drop sent).take chunk).take taken =
          before.flatten ++ payload.take (sent + taken) := by
        rw [now.wire, List.append_assoc, List.take_take, min_eq_left fits, List.take_add]
      have front : later.wire ++ ((payload.drop sent).take chunk).take taken <+:
          payloads.flatten := by
        rw [wire, whole, List.flatten_append, List.flatten_cons, List.prefix_append_right_inj]
        exact (List.take_prefix _ _).trans (List.prefix_append _ _)
      refine ⟨sound.grow now.isOpen front, ⟨⟨List.prefix_append _ _, fun closed => ?_⟩, rfl, rfl,
        rfl⟩, ?_⟩
      · exact absurd (now.isOpen.symm.trans closed) Bool.false_ne_true
      · have goesOn : ¬ (taken : Int) ≤ 0 := by omega
        show Fulfils payloads sizes .sender _ (if (taken : Int) ≤ 0 then _ else _) _
        rw [if_neg goesOn]
        show Fulfils payloads sizes .sender _ (sendLoop payload (sent + taken)) _
        exact inductionHypothesis _ (by omega) (by omega) ⟨wire, now.isOpen, now.sent⟩ rfl
  · rename_i all
    have done : sent = payload.length := le_antisymm inside (not_lt.mp all)
    rw [done, List.take_length] at stands
    exact Program.Meets.done fun later step _ => ⟨done, stands.stable step⟩

theorem close_fulfils {wire : Bytes} (stands : Stands wire log pipe) :
    Fulfils payloads sizes .sender (fun _ _ => True) (Program.invoke Call.close) pipe := by
  intro later step sound choice permitted
  have now := stands.stable step
  refine ⟨sound.close, ⟨⟨List.prefix_rfl, fun closed => ?_⟩, rfl, rfl, rfl⟩,
    Program.Meets.done fun _ _ _ => trivial⟩
  exact absurd (now.isOpen.symm.trans closed) Bool.false_ne_true

/-- The note of a `send` that returned is true. -/
theorem Sound.noteSent (sound : Sound payloads sizes pipe)
    (whole : payloads = before ++ payload :: rest) (counted : log.length = before.length)
    {outcome : Except Exception Nat} (ends : SendEnds before payload log outcome pipe) :
    Sound payloads sizes { pipe with sent := pipe.sent ++ [outcome] } := by
  have noted : pipe.sent = log := by
    cases outcome with
    | ok count => exact ends.2.sent
    | error exception => exact ends.choose_spec.sent
  refine ⟨⟨sound.onWire, fun index count returned => ?_, sound.received, sound.thrown⟩,
    sound.within, sound.filled, sound.failing⟩
  rcases noted_or_last returned with earlier | ⟨rfl, rfl⟩
  · exact sound.sent index count earlier
  · obtain ⟨size, stands⟩ := ends
    rw [noted, counted]
    refine ⟨payload, ?_, size, ?_⟩
    · rw [whole, List.getElem?_append_right le_rfl, Nat.sub_self]
      rfl
    · have front : (before ++ payload :: rest).take (before.length + 1) = before ++ [payload] := by
        rw [List.append_cons, List.take_left' (by simp)]
      rw [stands.wire, whole, front, List.flatten_append, List.flatten_singleton]

/-- The payloads go out in order, up to the first that throws. -/
theorem sendEach_fulfils {self : TcpTransport} (connected : self.dataSocket ≠ none)
    {later : List Bytes} (whole : payloads = before ++ later)
    (counted : log.length = before.length) (stands : Stands before.flatten log pipe) :
    Fulfils payloads sizes .sender (fun _ _ => True) (sendEach self later) pipe := by
  obtain ⟨socket, isOpen⟩ := Option.ne_none_iff_exists'.mp connected
  induction later generalizing before log pipe with
  | nil => exact close_fulfils stands
  | cons payload rest inductionHypothesis =>
    have start : Stands (before.flatten ++ payload.take 0) log pipe := by
      rw [List.take_zero, List.append_nil]
      exact stands
    have sending := @sendLoop_fulfils payloads sizes pipe before rest payload log whole 0
      (Nat.zero_le _) start
    unfold sendEach send
    rw [isOpen]
    refine Program.Meets.bind (rely_refl .sender) (sending.weaken fun outcome now _ ends => ?_)
    intro last step sound choice permitted
    have still := ends.stable step
    refine ⟨sound.noteSent whole counted still, ⟨⟨List.prefix_rfl, fun closed => ⟨closed, rfl⟩⟩,
      rfl, rfl, rfl⟩, ?_⟩
    cases outcome with
    | error exception =>
      obtain ⟨wire, stands⟩ := still
      exact close_fulfils (stands.note (.error exception))
    | ok count =>
      have further : payloads = before ++ [payload] ++ rest := by
        rw [whole, List.append_assoc, List.singleton_append]
      have another : (log ++ [Except.ok count]).length = (before ++ [payload]).length := by
        rw [List.length_append, List.length_append, counted]
        rfl
      refine inductionHypothesis further another ?_
      rw [List.flatten_append, List.flatten_singleton]
      exact still.2.note (.ok count)

end Sender

/-! ### The receiver -/

section Receiver

variable {payloads : List Bytes} {sizes : List Nat} {pipe : Pipe}

/-- The receiver's part of the pipe while no `recv` has failed: what it has read, in buffers and
behind them. -/
structure Holds (base : Nat) (buffer : Bytes) (received : List (Except Exception Bytes))
    (pipe : Pipe) : Prop where
  front : buffer <+: pipe.wire.drop base
  read : pipe.read = base + buffer.length
  failure : pipe.failure = none
  received : pipe.received = received

theorem Holds.stable {base : Nat} {buffer : Bytes} {received : List (Except Exception Bytes)}
    {later : Pipe} (holds : Holds base buffer received pipe)
    (step : rely .receiver pipe later) : Holds base buffer received later := by
  obtain ⟨⟨⟨more, grown⟩, -⟩, read, failure, same⟩ := step
  refine ⟨holds.front.trans ?_, read.trans holds.read, failure.trans holds.failure,
    same.trans holds.received⟩
  rw [← grown, List.drop_append]
  exact List.prefix_append _ _

/-- What is there behind the buffer. -/
theorem Holds.drop_read {base : Nat} {buffer : Bytes} {received : List (Except Exception Bytes)}
    (holds : Holds base buffer received pipe) :
    pipe.wire.drop base = buffer ++ pipe.wire.drop pipe.read := by
  obtain ⟨rest, split⟩ := holds.front
  rw [holds.read, ← List.drop_drop, ← split, List.drop_left]

/-- A `receive_exact` that returns has filled its buffer with the next bytes. If one throws,
`recv` has failed in it, or the stream has ended. -/
def ReceiveEnds (base size : Nat) (received : List (Except Exception Bytes)) :
    Except Exception Bytes → Pipe → Prop
  | .ok buffer, pipe => buffer.length = size ∧ Holds base buffer received pipe
  | .error _, pipe => pipe.received = received ∧
      (pipe.failure = some received.length ∨
        pipe.closed = true ∧ pipe.wire.length < base + size)

theorem ReceiveEnds.stable {base size : Nat} {received : List (Except Exception Bytes)}
    {outcome : Except Exception Bytes} {later : Pipe}
    (ends : ReceiveEnds base size received outcome pipe) (step : rely .receiver pipe later) :
    ReceiveEnds base size received outcome later := by
  cases outcome with
  | ok buffer => exact ⟨ends.1, ends.2.stable step⟩
  | error exception =>
    obtain ⟨⟨-, stays⟩, -, failure, same⟩ := step
    refine ⟨same.trans ends.1, ends.2.imp failure.trans fun ended => ?_⟩
    obtain ⟨closed, wire⟩ := stays ended.1
    rw [wire]
    exact ⟨closed, ended.2⟩

/-- Reading moves only the receiver's mark. -/
theorem Sound.advance (sound : Sound payloads sizes pipe) {count : Nat}
    (inside : pipe.read + count ≤ pipe.wire.length) :
    Sound payloads sizes { pipe with read := pipe.read + count } :=
  ⟨⟨sound.onWire, sound.sent, sound.received, sound.thrown⟩, inside,
    fun index buffer returned =>
      (sound.filled index buffer returned).trans (Nat.le_add_right _ _), sound.failing⟩

/-- The receiver fails in a call that is not noted yet. -/
theorem Sound.fail (sound : Sound payloads sizes pipe) (fine : pipe.failure = none) :
    Sound payloads sizes { pipe with failure := some pipe.received.length } := by
  refine ⟨⟨sound.onWire, sound.sent, sound.received, fun index outcome returned => ?_⟩,
    sound.within, sound.filled, fun index same => (Option.some.inj same).ge⟩
  have earlier : index < pipe.received.length := (List.getElem?_eq_some_iff.mp returned).1
  rw [sound.thrown index outcome returned, fine]
  simp [earlier.ne']

/-- What `recv` gives is the front of what is there. -/
theorem given_prefix (pipe : Pipe) (count size : Nat) :
    pipe.given count size <+: pipe.wire.drop pipe.read :=
  List.take_prefix _ _

theorem length_given_le (pipe : Pipe) (count size : Nat) :
    (pipe.given count size).length ≤ size :=
  (List.length_take_le _ _).trans (min_le_right _ _)

/-- Where `recv` may answer, it gives nothing only at the end of the stream. -/
theorem ended_of_given_nil {count size : Nat} (wanted : 0 < size)
    (permitted : pipe.read < pipe.wire.length ∨ pipe.closed = true)
    (nothing : pipe.given count size = []) :
    pipe.closed = true ∧ pipe.wire.length ≤ pipe.read := by
  have missing : pipe.wire.length ≤ pipe.read := by
    rcases List.take_eq_nil_iff.mp nothing with zero | empty
    · omega
    · exact List.drop_eq_nil_iff.mp empty
  exact ⟨permitted.resolve_left (not_lt.mpr missing), missing⟩

theorem Holds.advance {base : Nat} {buffer bytes : Bytes}
    {received : List (Except Exception Bytes)} (holds : Holds base buffer received pipe)
    (next : bytes <+: pipe.wire.drop pipe.read) :
    Holds base (buffer ++ bytes) received { pipe with read := pipe.read + bytes.length } := by
  refine ⟨?_, ?_, holds.failure, holds.received⟩
  · rw [holds.drop_read]
    exact List.prefix_append_right_inj buffer |>.mpr next
  · show pipe.read + bytes.length = _
    rw [holds.read, List.length_append, add_assoc]

variable {self : TcpTransport} {base size : Nat} {log : List (Except Exception Bytes)}

/-- The loop fills the buffer behind the bytes that it has, with the bytes that come next. -/
theorem receiveExactLoop_fulfils (connected : self.dataSocket ≠ none) {buffer : Bytes}
    (short : buffer.length ≤ size) (holds : Holds base buffer log pipe) :
    Fulfils payloads sizes .receiver (ReceiveEnds base size log)
      (receiveExactLoop self size buffer) pipe := by
  obtain ⟨socket, isOpen⟩ := Option.ne_none_iff_exists'.mp connected
  induction left : size - buffer.length using Nat.strong_induction_on generalizing buffer pipe
    with
  | _ missing inductionHypothesis =>
  unfold receiveExactLoop
  split
  · rename_i more
    unfold receiveInto
    rw [isOpen]
    simp only [Program.bind_call]
    intro later step sound choice permitted
    have now := holds.stable step
    cases choice with
    | fails lastSocketError =>
      refine ⟨sound.fail now.failure, ⟨rfl, rfl, rfl⟩, Program.Meets.done fun last after _ => ?_⟩
      refine ReceiveEnds.stable ?_ after
      have failed : some later.received.length = some log.length := by rw [now.received]
      exact ⟨now.received, Or.inl failed⟩
    | moves count =>
      have next := given_prefix later count (size - buffer.length)
      have fits := length_given_le later count (size - buffer.length)
      have inside : later.read + (later.given count (size - buffer.length)).length ≤
          later.wire.length := by
        have bound := next.length_le
        rw [List.length_drop] at bound
        have within := sound.within
        omega
      refine ⟨sound.advance inside, ⟨rfl, rfl, rfl⟩, ?_⟩
      have advanced := now.advance next
      simp only [perform]
      cases given : later.given count (size - buffer.length) with
      | nil =>
        obtain ⟨closed, ended⟩ := ended_of_given_nil (Nat.sub_pos_of_lt more) permitted given
        refine Program.Meets.done fun last after _ => ReceiveEnds.stable ?_ after
        refine ⟨now.received, Or.inr ⟨closed, ?_⟩⟩
        have read := now.read
        show later.wire.length < base + size
        omega
      | cons byte bytes =>
        rw [given] at fits advanced
        simp only [List.length_cons] at fits
        refine inductionHypothesis _ ?_ ?_ advanced rfl
        · rw [List.length_append, List.length_cons]
          omega
        · rw [List.length_append, List.length_cons]
          omega
  · rename_i full
    exact Program.Meets.done fun later step _ =>
      ⟨le_antisymm short (not_lt.mp full), holds.stable step⟩

variable {before rest : List Nat}

/-- The note of a `receive_exact` that returned is true. -/
theorem Sound.noteReceived (sound : Sound payloads sizes pipe)
    (whole : sizes = before ++ size :: rest) (counted : log.length = before.length)
    {outcome : Except Exception Bytes}
    (ends : ReceiveEnds before.sum size log outcome pipe) :
    Sound payloads sizes { pipe with received := pipe.received ++ [outcome] } := by
  have noted : pipe.received = log := by
    cases outcome with
    | ok buffer => exact ends.2.received
    | error exception => exact ends.1
  have listed : sizes[before.length]? = some size := by
    rw [whole, List.getElem?_append_right le_rfl, Nat.sub_self]
    rfl
  have base : (sizes.take before.length).sum = before.sum := by
    rw [whole, List.take_left]
  have next : (sizes.take (before.length + 1)).sum = before.sum + size := by
    rw [whole, List.append_cons, List.take_left' (by simp), List.sum_append, List.sum_singleton]
  refine ⟨⟨sound.onWire, sound.sent, fun index buffer returned => ?_,
    fun index result returned => ?_⟩, sound.within, fun index buffer returned => ?_,
    fun index failed => ?_⟩
  · rcases noted_or_last returned with earlier | ⟨rfl, rfl⟩
    · exact sound.received index buffer earlier
    · rw [noted, counted, base]
      exact ⟨size, listed, ends.1, ends.2.front⟩
  · rcases noted_or_last returned with earlier | ⟨rfl, rfl⟩
    · exact sound.thrown index result earlier
    · rw [noted, counted, next]
      cases outcome with
      | error exception =>
        refine iff_of_true ⟨exception, rfl⟩ ?_
        rw [← counted]
        exact ends.2
      | ok buffer =>
        refine iff_of_false (fun never => by obtain ⟨_, never⟩ := never; cases never) ?_
        rintro (failed | ⟨-, short⟩)
        · exact absurd (ends.2.failure.symm.trans failed) (by simp)
        · have read := ends.2.read
          rw [ends.1] at read
          exact absurd sound.within (not_le.mpr (read ▸ short))
  · rcases noted_or_last returned with earlier | ⟨rfl, rfl⟩
    · exact sound.filled index buffer earlier
    · rw [noted, counted, next, ← ends.1]
      exact ends.2.read.ge
  · rw [List.length_append]
    exact (sound.failing index failed).trans (Nat.le_add_right _ _)

/-- The buffers are filled in order, up to the first that throws. -/
theorem receiveEach_fulfils (connected : self.dataSocket ≠ none) {later : List Nat}
    (whole : sizes = before ++ later) (counted : log.length = before.length)
    (holds : Holds before.sum [] log pipe) :
    Fulfils payloads sizes .receiver (fun _ _ => True) (receiveEach self later) pipe := by
  induction later generalizing before log pipe with
  | nil => exact Program.Meets.done fun _ _ _ => trivial
  | cons size rest inductionHypothesis =>
    refine Program.Meets.bind (rely_refl .receiver)
      ((receiveExactLoop_fulfils connected (Nat.zero_le size) holds).weaken
        fun outcome now _ ends => ?_)
    intro last step sound choice permitted
    have still := ends.stable step
    refine ⟨sound.noteReceived whole counted still, ⟨rfl, rfl, rfl⟩, ?_⟩
    cases outcome with
    | error exception => exact Program.Meets.done fun _ _ _ => trivial
    | ok buffer =>
      obtain ⟨full, stands⟩ := still
      have further : sizes = before ++ [size] ++ rest := by
        rw [whole, List.append_assoc, List.singleton_append]
      have another : (log ++ [Except.ok buffer]).length = (before ++ [size]).length := by
        rw [List.length_append, List.length_append, counted]
        rfl
      refine inductionHypothesis further another ⟨List.nil_prefix, ?_, stands.failure, ?_⟩
      · rw [List.sum_append, List.sum_singleton, ← full]
        exact stands.read
      · show last.received ++ [.ok buffer] = _
        rw [stands.received]

end Receiver

/-! ### Runs -/

/-- The pipe is exact at every moment of every run: whatever part of its offer `send` takes,
whatever part of what is there `recv` gives, whenever one of them fails, and in whatever order
the parties take turns. -/
theorem pipe_exact (sender receiver : TcpTransport)
    (connected : sender.dataSocket ≠ none ∧ receiver.dataSocket ≠ none) (payloads : List Bytes)
    (sizes : List Nat) (schedule : List (Party × Choice))
    (admissible : (start sender receiver payloads sizes).Admissible perform allowed schedule) :
    Exact payloads sizes ((start sender receiver payloads sizes).run perform schedule).world := by
  have begun : Sound payloads sizes {} :=
    ⟨⟨List.nil_prefix, by simp, by simp, by simp⟩, le_rfl, by simp, by simp⟩
  have meet : (start sender receiver payloads sizes).AllMeet perform allowed
      (Sound payloads sizes) rely guarantee fun _ _ _ => True := by
    refine ⟨begun, fun party => ?_⟩
    cases party with
    | sender =>
      have whole : payloads = [] ++ payloads := rfl
      exact sendEach_fulfils connected.1 whole List.length_nil ⟨rfl, rfl, rfl⟩
    | receiver =>
      have whole : sizes = [] ++ sizes := rfl
      exact receiveEach_fulfils connected.2 whole List.length_nil
        ⟨List.nil_prefix, rfl, rfl, rfl⟩
  exact (meet.run rely_refl rely_trans compatible schedule admissible).1.toExact

/-- A transport with a socket. -/
def connected : TcpTransport where
  mode := .client
  endpoint := ⟨ascii "127.0.0.1", 9000, 0, 0⟩
  dataSocket := some 3

/-- Two bytes go out and come in one by one, and then `recv` fails. -/
def byteByByte : List (Party × Choice) :=
  [(.sender, .moves 1), (.receiver, .moves 9), (.sender, .moves 0), (.sender, .moves 0),
    (.receiver, .moves 0), (.receiver, .moves 0), (.receiver, .fails (ascii "reset"))]

theorem pipe_exact_byteByByte :
    Exact [ascii "ab", ascii "c"] [2, 1]
      ((start connected connected [ascii "ab", ascii "c"] [2, 1]).run perform byteByByte).world :=
  pipe_exact connected connected (by decide) [ascii "ab", ascii "c"] [2, 1] byteByByte
    (by decide +kernel)

end BytePipe

end HyperLink
