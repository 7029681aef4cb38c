/-
This file shows what it means that a receiving thread ends without an error: its
connection has come to an end of stream, and no call on it has thrown. So the
thread's result is evidence about its connection, which the two ends of a transfer
then put together.

The only other way out of the record loop is its bound, and every record costs at
least one byte of the stream.
-/

import HyperLink.Evidence
import HyperLink.LiveTransfer

namespace HyperLink

open Threads

namespace Live

/-! ### What a thread sees of its connection -/

/-- A connection as the answers leave it: its phase, the bytes given so far, and whether a call
has thrown. -/
abbrev Standing : Type := Phase × Bytes × Bool

/-- The standing of a connection after a reply. -/
def look : Standing → (request : SessionCall ⊕ Call) → Returns Answer Reply request → Standing
  | standing, .inl .connect, .ok () =>
      (if standing.1 = .waiting then .connected else standing.1, standing.2)
  | standing, .inl .connect, .error _ => (.closed, standing.2.1, true)
  | standing, .inl (.receiveInto _), .ok bytes =>
      (if bytes = [] then .closed else .connected, standing.2.1 ++ bytes, standing.2.2)
  | standing, .inl (.receiveInto _), .error _ => (.closed, standing.2.1, true)
  | standing, .inr _, _ => standing

/-- The world keeps what its thread has seen. -/
theorem standing_perform {streams : Nat} (stream : Fin streams) (choice : Choice)
    (request : SessionCall ⊕ Call) (world : LiveWorld streams) :
    (perform stream choice request world).2.standing stream =
      look (world.standing stream) request (perform stream choice request world).1 := by
  rcases request with (_ | size) | request
  · simp only [perform, LiveWorld.standing]
    split
    · rename_i waiting
      cases choice.arrival <;> simp [LiveWorld.fail, look, waiting]
    · rename_i waiting
      simp [look, waiting]
  · simp only [perform, LiveWorld.standing]
    split
    · rename_i closed
      simp [look, closed]
    · cases choice.arrival <;> simp [LiveWorld.fail, LiveWorld.give, look]
  · rfl

/-! ### What code leaves -/

section Leaves

variable {Value Other : Type}

/-- Code that returns has not seen a call throw, and its connection stands in `post`. -/
def Sees (code : Code Value) (post : Value → Standing → Standing → Prop) : Prop :=
  ∀ (bytes : UInt64) (standing : Standing), standing.2.2 = false →
    (code bytes).Leaves look (fun outcome later => ∀ value, outcome.1 = .ok value →
      later.2.2 = false ∧ post value standing later) standing

/-- The connection has given at least so many more bytes. -/
def Longer (least : Nat) (standing later : Standing) : Prop :=
  standing.2.1.length + least ≤ later.2.1.length

theorem sees_pure {post : Value → Standing → Standing → Prop} {value : Value}
    (holds : ∀ standing, post value standing standing) : Sees (pure value : Code Value) post := by
  rintro bytes standing fine _ ⟨⟩
  exact ⟨fine, holds standing⟩

theorem sees_fail (error : Error) (post : Value → Standing → Standing → Prop) :
    Sees (Code.fail error : Code Value) post := by
  rintro bytes standing fine _ ⟨⟩

theorem sees_check (outcome : Except Error Value) :
    Sees (Code.check outcome : Code Value) fun _ => Longer 0 := by
  rintro bytes standing fine value -
  exact ⟨fine, Nat.le_refl _⟩

/-- Code that does not ask leaves the connection as it stands. -/
theorem sees_lift (code : Receiver Value) : Sees (Code.lift code) fun _ => Longer 0 := by
  intro bytes standing fine
  unfold Code.lift
  generalize code ⟨⟨[], []⟩, bytes⟩ = program
  induction program with
  | done result =>
    intro value _
    exact ⟨fine, Nat.le_refl _⟩
  | call request next inductionHypothesis => exact fun reply => inductionHypothesis reply

/-- The sequencing rule. -/
theorem Sees.bind {middle : Value → Standing → Standing → Prop}
    {post : Other → Standing → Standing → Prop} {code : Code Value}
    {continuation : Value → Code Other} (first : Sees code middle)
    (second : ∀ value, Sees (continuation value) fun other standing later =>
      ∀ before, middle value before standing → post other before later) :
    Sees (code >>= continuation) post := by
  intro bytes standing fine
  refine Program.Leaves.bind ((first bytes standing fine).weaken fun outcome between returned => ?_)
  obtain ⟨reply, counted⟩ := outcome
  cases reply with
  | error error =>
    rintro _ ⟨⟩
  | ok value =>
    obtain ⟨still, holds⟩ := returned value rfl
    refine (second value counted between still).weaken fun outcome later ended other same => ?_
    obtain ⟨last, each⟩ := ended other same
    exact ⟨last, each standing holds⟩

theorem Sees.weaken {post weaker : Value → Standing → Standing → Prop} {code : Code Value}
    (sees : Sees code post)
    (implies : ∀ value standing later, post value standing later → weaker value standing later) :
    Sees code weaker :=
  fun bytes standing fine => (sees bytes standing fine).weaken fun _ later ended value same =>
    ⟨(ended value same).1, implies value standing later (ended value same).2⟩

/-- A part that takes nothing back, and what follows it. -/
theorem Sees.grow {code : Code Value} {continuation : Value → Code Other} {least : Nat}
    (first : Sees code fun _ => Longer 0)
    (second : ∀ value, Sees (continuation value) fun _ => Longer least) :
    Sees (code >>= continuation) fun _ => Longer least := by
  refine first.bind fun value => (second value).weaken fun _ standing later more before some => ?_
  unfold Longer at some more ⊢
  omega

theorem sees_connectSession : Sees connectSession fun _ => Longer 0 := by
  intro bytes standing fine reply
  cases reply with
  | error text =>
    rintro _ ⟨⟩
  | ok _ =>
    rintro _ ⟨⟩
    exact ⟨fine, Nat.le_refl _⟩

/-- `receive_into` gives bytes, or has come to the end of the stream. -/
theorem sees_receiveInto (size : Nat) : Sees (receiveInto size) fun bytes standing later =>
    Longer bytes.length standing later ∧ (bytes = [] → later.1 = .closed) := by
  intro bytes standing fine reply
  cases reply with
  | error text =>
    rintro _ ⟨⟩
  | ok chunk =>
    rintro _ ⟨⟩
    refine ⟨fine, ?_, fun none => if_pos none⟩
    simp only [Longer, look, List.length_append]
    exact Nat.le_refl _

theorem sees_receiveExactLoop (missing : Nat) (received : Bytes) :
    Sees (receiveExactLoop missing received) fun _ => Longer 0 := by
  induction missing using Nat.strong_induction_on generalizing received with
  | _ missing inductionHypothesis =>
    rw [receiveExactLoop]
    split
    · exact sees_pure fun _ => Nat.le_refl _
    · refine Sees.grow ((sees_receiveInto missing).weaken fun _ _ _ more => ?_) fun chunk => ?_
      · have longer := more.1
        unfold Longer at longer ⊢
        omega
      · cases chunk with
        | nil => exact sees_fail _ _
        | cons byte bytes => exact inductionHypothesis _ (by omega) _

theorem sees_receiveTextPayload (payloadSize : UInt64) :
    Sees (receiveTextPayload payloadSize) fun _ => Longer 0 := by
  unfold receiveTextPayload
  split
  · exact sees_fail _ _
  · exact sees_receiveExactLoop _ _

/-- The header loop ends at the end of the stream, or has got its bytes. -/
theorem sees_receiveHeaderBytes (missing : Nat) (received : Bytes) :
    Sees (receiveHeaderBytes missing received) fun header standing later =>
      (header = none → later.1 = .closed) ∧ (header ≠ none → Longer missing standing later) := by
  induction missing using Nat.strong_induction_on generalizing received with
  | _ missing inductionHypothesis =>
    rw [receiveHeaderBytes]
    split
    · rename_i complete
      subst complete
      refine sees_pure fun _ => ⟨fun never => ?_, fun _ => Nat.le_refl _⟩
      cases never
    · refine (sees_receiveInto missing).bind fun chunk => ?_
      cases chunk with
      | nil =>
        by_cases first : received = []
        · rw [if_pos first]
          intro bytes standing fine value same
          cases same
          exact ⟨fine, fun before ended => ⟨fun _ => ended.2 rfl, fun never => absurd rfl never⟩⟩
        · rw [if_neg first]
          exact sees_fail _ _
      | cons byte bytes =>
        refine (inductionHypothesis (missing - (bytes.length + 1)) (by omega) _).weaken
          fun header standing later holds before longer => ⟨holds.1, fun some => ?_⟩
        have given := longer.1
        have more := holds.2 some
        unfold Longer at given more ⊢
        rw [List.length_cons] at given
        omega

/-- A header costs bytes, and only the end of the stream gives none. -/
theorem sees_receiveHeaderOptional : Sees receiveHeaderOptional fun header standing later =>
    (header = none → later.1 = .closed) ∧ (header ≠ none → Longer 1 standing later) := by
  refine (sees_receiveHeaderBytes kHeaderBytes []).bind fun header => ?_
  cases header with
  | none =>
    intro bytes standing fine value same
    cases same
    exact ⟨fine, fun before ended => ⟨fun _ => ended.1 rfl, fun never => absurd rfl never⟩⟩
  | some header =>
    have rest : Sees (do
        let incoming ← Code.check (decodeHeader header)
        let nameBytes ← receiveExact incoming.nameSize.toNat
        return some { incoming with fileName := nameBytes } : Code (Option IncomingHeader))
        fun value standing later => value ≠ none ∧ Longer 0 standing later := by
      refine (sees_check _).bind fun incoming => ?_
      refine (sees_receiveExactLoop _ _).bind fun name => ?_
      refine sees_pure fun standing between more before longer => ⟨Option.some_ne_none _, ?_⟩
      unfold Longer at more longer ⊢
      omega
    refine rest.weaken fun value standing later holds before longer => ⟨fun none => ?_, fun _ => ?_⟩
    · exact absurd none holds.1
    · have given := longer.2 (Option.some_ne_none _)
      have more := holds.2
      unfold Longer at given more ⊢
      rw [kHeaderBytes] at given
      omega

theorem sees_receivePayload (closed : Error) (counted : Bool) (output : Handle)
    (position missing : Nat) :
    Sees (receivePayload closed counted output position missing) fun _ => Longer 0 := by
  induction missing using Nat.strong_induction_on generalizing position with
  | _ missing inductionHypothesis =>
    rw [receivePayload]
    split
    · exact sees_pure fun _ => Nat.le_refl _
    · refine Sees.grow ((sees_receiveInto _).weaken fun _ _ _ more => ?_) fun chunk => ?_
      · have longer := more.1
        unfold Longer at longer ⊢
        omega
      split
      · exact sees_fail _ _
      · refine (sees_lift _).grow fun written => ?_
        split
        · exact (sees_lift _).grow fun _ => inductionHypothesis _ (by omega) _
        · exact sees_fail _ _

theorem sees_receiveDirectoryFile (outputPath : Path) (incoming : IncomingHeader) :
    Sees (receiveDirectoryFile outputPath incoming) fun _ => Longer 0 := by
  refine (sees_lift _).grow fun made => ?_
  cases made with
  | error errno => exact sees_fail _ _
  | ok _ =>
    refine (sees_lift _).grow fun opened => ?_
    cases opened with
    | none => exact sees_fail _ _
    | some output =>
      refine (sees_receivePayload _ _ _ _ _).grow fun _ => (sees_lift _).grow fun _ => ?_
      exact (sees_lift _).grow fun _ => sees_pure fun _ => Nat.le_refl _

theorem sees_receivePart (options : Options) (incoming : IncomingHeader) :
    Sees (receivePart options incoming) fun _ => Longer 0 := by
  refine (sees_check _).grow fun fileName => ?_
  split
  · exact sees_fail _ _
  refine (sees_lift _).grow fun prepared => (sees_check _).grow fun outputPath =>
    (sees_lift _).grow fun opened => ?_
  cases opened with
  | none => exact sees_fail _ _
  | some output =>
    simp only []
    split
    · exact sees_fail _ _
    · exact sees_receivePayload _ _ _ _ _

/-- A record takes nothing back. -/
theorem sees_receiveRecord (options : Options) (incoming : IncomingHeader) :
    Sees (receiveRecord options incoming) fun _ => Longer 0 := by
  unfold receiveRecord
  split
  · exact (sees_check _).grow fun relative => sees_lift _
  · exact (sees_check _).grow fun relative => (sees_lift _).grow fun _ =>
      (sees_receiveTextPayload _).grow fun target => (sees_lift _).grow fun _ => sees_lift _
  · exact (sees_check _).grow fun relative => sees_receiveDirectoryFile _ _
  · exact sees_receivePart _ _
  · exact sees_receivePart _ _
  · exact sees_fail _ _

/-- The record loop ends at the end of the stream, or after a byte for every round. -/
theorem sees_receiveRecords (options : Options) (rounds : Nat) :
    Sees (receiveRecords options rounds) fun _ standing later =>
      later.1 = .closed ∨ Longer rounds standing later := by
  induction rounds with
  | zero => exact sees_pure fun _ => .inr (Nat.le_refl _)
  | succ rounds inductionHypothesis =>
    refine sees_receiveHeaderOptional.bind fun header => ?_
    cases header with
    | none => exact sees_pure fun standing before ended => .inl (ended.1 rfl)
    | some incoming =>
      refine (sees_receiveRecord options incoming).bind fun _ => ?_
      refine inductionHypothesis.weaken fun _ standing later ends between more before header => ?_
      refine ends.imp_right fun rest => ?_
      have cost := header.2 (Option.some_ne_none _)
      unfold Longer at more rest cost ⊢
      omega

/-- A thread that ends without an error has seen no call throw, and has come to the end of its
stream, or read a byte for every round. -/
theorem leaves_receiveFilePart (options : Options) (rounds : Nat) :
    (receiveFilePart options rounds).Leaves look (fun result standing => result.error = none →
      standing.2.2 = false ∧ (standing.1 = .closed ∨ rounds ≤ standing.2.1.length))
      (.waiting, [], false) := by
  refine Program.Leaves.bind ?_
  have sees : Sees (connectSession >>= fun _ => receiveRecords options rounds : Code Unit)
      fun _ standing later => later.1 = .closed ∨ Longer rounds standing later := by
    refine sees_connectSession.bind fun _ => ?_
    refine (sees_receiveRecords options rounds).weaken fun _ standing later ends before more => ?_
    refine ends.imp_right fun rest => ?_
    unfold Longer at more rest ⊢
    omega
  refine (sees 0 (.waiting, [], false) rfl).weaken fun outcome standing returned clean => ?_
  obtain ⟨reply, bytes⟩ := outcome
  cases reply with
  | error error => cases clean
  | ok value =>
    obtain ⟨fine, ends⟩ := returned value rfl
    refine ⟨fine, ends.imp_right fun longer => ?_⟩
    rwa [Longer, List.length_nil, Nat.zero_add] at longer

end Leaves

/-! ### Runs -/

section Runs

variable {streams : Nat} {options : Options} {rounds : Nat}

/-- What every thread will leave, from where its connection stands. -/
def Attests (rounds : Nat) (config : LiveConfig streams) : Prop :=
  ∀ stream, (config.threads stream).Leaves look (fun result standing => result.error = none →
    standing.2.2 = false ∧ (standing.1 = .closed ∨ rounds ≤ standing.2.1.length))
    (config.world.standing stream)

theorem attests_start (fs : FileSystem) :
    Attests rounds (start options rounds fs : LiveConfig streams) :=
  fun _ => leaves_receiveFilePart options rounds

theorem Attests.stepLive {config : LiveConfig streams} (attests : Attests rounds config)
    (pick : Fin streams × Choice) : Attests rounds (config.stepLive perform pick) :=
  Config.leaves_stepEach standing_perform
    (fun _ _ choice request world different => standing_of_ne different choice request world)
    pick attests

/-- A thread that has ended without an error, over a stream with fewer bytes than rounds, has
seen the end of the stream. -/
theorem Attests.ended {config : LiveConfig streams} (attests : Attests rounds config)
    {stream : Fin streams} {result : StreamResult}
    (ended : config.threads stream = .done result) (clean : result.error = none)
    (few : (config.world.given stream).length < rounds) :
    config.world.phase stream = .closed ∧ config.world.failed stream = false := by
  have last := attests stream
  rw [ended] at last
  obtain ⟨fine, closed | long⟩ := last clean
  · exact ⟨closed, fine⟩
  · exact absurd few (Nat.not_lt.mpr long)

end Runs

end Live

end HyperLink
