/-
This file is about parallel transfers while they happen. The receiving threads run
on connections that are still being filled: the environment decides at every
`receive_into` whether bytes arrive and which, whether the stream ends, or whether
the call throws, and how all of this is interleaved with the threads' work on the
file system.

Every such run is a run of threads that knew from the start what would arrive. So
what the earlier files say about connections with known contents holds of live
ones, with what had been given to a stream in the place of what it would deliver.
-/

import HyperLink.LiveReceiver

namespace HyperLink

open Threads FileSystem

namespace Live

/-! ### Live connections -/

/-- Where the connection of a stream stands. -/
inductive Phase where
  | waiting
  | connected
  | closed
  deriving DecidableEq, Repr

/-- The world of the receiver with the connections: the bytes each has given so far, and whether
one of its calls has thrown. -/
structure LiveWorld (streams : Nat) where
  receiver : World
  phase : Fin streams → Phase := fun _ => .waiting
  given : Fin streams → Bytes := fun _ => []
  failed : Fin streams → Bool := fun _ => false

/-- What the environment does: to a call on the file system, and to a call on a connection,
which gives bytes or throws. No bytes are the end of the stream. -/
structure Choice where
  fault : Fault := .none
  arrival : Except Bytes Bytes := .ok []
  deriving DecidableEq

variable {streams : Nat}

/-- A connection that has given bytes, or ended. -/
def LiveWorld.give (world : LiveWorld streams) (stream : Fin streams) (bytes : Bytes) :
    LiveWorld streams :=
  { world with
    phase := Function.update world.phase stream (if bytes = [] then .closed else .connected)
    given := Function.update world.given stream (world.given stream ++ bytes) }

/-- A connection that has thrown. -/
def LiveWorld.fail (world : LiveWorld streams) (stream : Fin streams) : LiveWorld streams :=
  { world with
    phase := Function.update world.phase stream .closed
    failed := Function.update world.failed stream true }

/-- One call of the thread of a stream. A connection that has ended or thrown gives nothing
more. -/
def perform (stream : Fin streams) (choice : Choice) :
    (request : SessionCall ⊕ Call) → LiveWorld streams →
      Returns Answer Reply request × LiveWorld streams
  | .inl .connect, world =>
      if world.phase stream = .waiting then
        match choice.arrival with
        | .ok _ => (.ok (), { world with
            phase := Function.update world.phase stream .connected })
        | .error text => (.error text, world.fail stream)
      else (.ok (), world)
  | .inl (.receiveInto size), world =>
      if world.phase stream = .closed then (.ok [], world)
      else
        match choice.arrival with
        | .ok bytes => (.ok (bytes.take size), world.give stream (bytes.take size))
        | .error text => (.error text, world.fail stream)
  | .inr request, world =>
      ((HyperLink.perform choice.fault request world.receiver).1,
        { world with receiver := (HyperLink.perform choice.fault request world.receiver).2 })

/-- A parallel receive that waits for its connections. -/
def start (options : Options) (rounds : Nat) (fs : FileSystem) :
    Config (Fin streams) (SessionCall ⊕ Call) (Returns Answer Reply) StreamResult
      (LiveWorld streams) where
  world := { receiver := ⟨fs, {}, none, []⟩ }
  threads _ := receiveFilePart options rounds

/-! ### What will have arrived -/

/-- An answer put before those that follow it. -/
def push : (ask : SessionCall) → Answer ask → Incoming → Incoming
  | .connect, .ok (), later => later
  | .connect, .error text, _ => { Incoming.ended with refused := some text }
  | .receiveInto _, .ok [], _ => .ended
  | .receiveInto _, .ok (byte :: bytes), later =>
      { later with connection := ⟨byte :: bytes ++ later.connection.remaining,
          (bytes.length + 1) :: later.connection.fragments⟩ }
  | .receiveInto _, .error text, _ => { Incoming.ended with failure := some text }

/-- Bytes that fit the buffer are read back as they were given. -/
theorem receiveInto_given {size : Nat} {bytes : Bytes} (some : bytes ≠ [])
    (fits : bytes.length ≤ size) (later : Connection) :
    (Connection.mk (bytes ++ later.remaining) (bytes.length :: later.fragments)).receiveInto size =
      (bytes, later) := by
  have positive := List.length_pos_iff.mpr some
  have count : min size (max 1 bytes.length) = bytes.length := by omega
  simp only [Connection.receiveInto, count, List.take_left', List.drop_left']

@[simp]
theorem receiveInto_nothing (size : Nat) :
    (Connection.mk [] []).receiveInto size = ([], ⟨[], []⟩) := by
  simp [Connection.receiveInto]

abbrev LiveConfig (streams : Nat) : Type :=
  Config (Fin streams) (SessionCall ⊕ Call) (Returns Answer Reply) StreamResult (LiveWorld streams)

/-- What a foretold source has to do with the run it comes from. -/
structure Foretells (stream : Fin streams) (final now : LiveWorld streams) (source : Incoming) :
    Prop where
  closed : now.phase stream = .closed → source = .ended
  connected : now.phase stream = .connected → source.refused = none
  refused : source.refused ≠ none → source.connection.remaining = []
  given : final.given stream = now.given stream ++ source.connection.remaining
  failed : source.failure ≠ none ∨ source.refused ≠ none ∨ now.failed stream = true →
    final.failed stream = true

/-- Where a connection stands: the part of the world that its answers change. -/
def LiveWorld.standing (world : LiveWorld streams) (stream : Fin streams) : Phase × Bytes × Bool :=
  (world.phase stream, world.given stream, world.failed stream)

theorem Foretells.of_standing {stream : Fin streams} {final now later : LiveWorld streams}
    {source : Incoming} (same : later.standing stream = now.standing stream)
    (foretells : Foretells stream final later source) : Foretells stream final now source := by
  simp only [LiveWorld.standing, Prod.mk.injEq] at same
  obtain ⟨phase, given, failed⟩ := same
  refine ⟨?_, ?_, foretells.refused, ?_, ?_⟩
  · rw [← phase]
    exact foretells.closed
  · rw [← phase]
    exact foretells.connected
  · rw [← given]
    exact foretells.given
  · rw [← failed]
    exact foretells.failed

/-- The answers to one stream are no business of the others. -/
theorem standing_of_ne {stream other : Fin streams} (different : stream ≠ other) (choice : Choice)
    (request : SessionCall ⊕ Call) (world : LiveWorld streams) :
    (perform other choice request world).2.standing stream = world.standing stream := by
  rcases request with (_ | size) | request
  · simp only [perform]
    split
    · cases choice.arrival <;> simp [LiveWorld.standing, LiveWorld.fail, different]
    · rfl
  · simp only [perform]
    split
    · rfl
    · cases choice.arrival <;>
        simp [LiveWorld.standing, LiveWorld.fail, LiveWorld.give, different]
  · rfl

/-- An answer is what was foretold of it. -/
theorem foretells_asked (stream : Fin streams) (choice : Choice) (ask : SessionCall)
    {final world : LiveWorld streams} {later : Incoming}
    (foretells : Foretells stream final (perform stream choice (.inl ask) world).2 later) :
    Foretells stream final world (push ask (perform stream choice (.inl ask) world).1 later) ∧
      pull ask (push ask (perform stream choice (.inl ask) world).1 later) =
        ((perform stream choice (.inl ask) world).1, later) := by
  cases ask with
  | connect =>
    simp only [perform] at foretells ⊢
    by_cases waiting : world.phase stream = .waiting
    swap
    · simp only [if_neg waiting, push] at foretells ⊢
      refine ⟨foretells, ?_⟩
      have unrefused : later.refused = none := by
        cases phase : world.phase stream with
        | waiting => exact absurd phase waiting
        | connected => exact foretells.connected phase
        | closed => exact congrArg Incoming.refused (foretells.closed phase)
      simp only [pull, unrefused]
    cases arrival : choice.arrival with
    | ok bytes =>
      simp only [if_pos waiting, arrival, push] at foretells ⊢
      have unrefused : later.refused = none := foretells.connected (by simp)
      refine ⟨⟨fun never => ?_, fun never => ?_, fun refused => absurd unrefused refused,
        foretells.given, foretells.failed⟩, by simp only [pull, unrefused]⟩
      all_goals
        rw [waiting] at never
        cases never
    | error text =>
      simp only [if_pos waiting, arrival, push] at foretells ⊢
      have nothing : later = .ended := foretells.closed (by simp [LiveWorld.fail])
      subst nothing
      refine ⟨⟨fun never => ?_, fun never => ?_, fun _ => rfl, foretells.given, fun _ => ?_⟩, rfl⟩
      · rw [waiting] at never
        cases never
      · rw [waiting] at never
        cases never
      · exact foretells.failed (Or.inr (Or.inr (by simp [LiveWorld.fail])))
  | receiveInto size =>
    simp only [perform] at foretells ⊢
    by_cases closed : world.phase stream = .closed
    · simp only [if_pos closed, push] at foretells ⊢
      have nothing := foretells.closed closed
      subst nothing
      exact ⟨foretells, by simp [pull, Incoming.ended]⟩
    cases arrival : choice.arrival with
    | ok bytes =>
      simp only [if_neg closed, arrival] at foretells ⊢
      have fits : (bytes.take size).length ≤ size := List.length_take_le _ _
      generalize bytes.take size = taken at foretells fits ⊢
      cases taken with
      | nil =>
        have nothing : later = .ended := foretells.closed (by simp [LiveWorld.give])
        subst nothing
        refine ⟨⟨fun never => absurd never closed, fun _ => rfl, fun never => absurd rfl never,
          ?_, foretells.failed⟩, by simp [pull, push, Incoming.ended]⟩
        simpa [LiveWorld.give, push] using foretells.given
      | cons byte taken =>
        have unrefused : later.refused = none := foretells.connected (by simp [LiveWorld.give])
        refine ⟨⟨fun never => absurd never closed, fun _ => unrefused,
          fun never => absurd unrefused never, ?_, foretells.failed⟩, ?_⟩
        · simpa [LiveWorld.give, push] using foretells.given
        · have read := receiveInto_given (List.cons_ne_nil byte taken) fits later.connection
          rw [List.length_cons] at read
          simp only [push, pull, read]
    | error text =>
      simp only [if_neg closed, arrival, push] at foretells ⊢
      have nothing : later = .ended := foretells.closed (by simp [LiveWorld.fail])
      subst nothing
      refine ⟨⟨fun never => absurd never closed, fun _ => rfl, fun never => absurd rfl never,
        foretells.given, fun _ => ?_⟩, by simp [pull, Incoming.ended]⟩
      exact foretells.failed (Or.inr (Or.inr (by simp [LiveWorld.fail])))

/-- A step that answers nothing to a stream leaves its connection as it stands. -/
theorem standing_stepLive {stream : Fin streams} {pick : Fin streams × Choice}
    {config : LiveConfig streams}
    (quiet : ∀ ask next, config.threads stream = .call (.inl ask) next → stream ≠ pick.1) :
    (config.stepLive perform pick).world.standing stream = config.world.standing stream := by
  unfold Config.stepLive
  cases program : config.threads pick.1 with
  | done result => rw [Config.step_of_done (perform pick.1) program]
  | call request next =>
    rw [Config.step_of_call (perform pick.1) program]
    by_cases same : stream = pick.1
    · subst same
      cases request with
      | inl ask => exact absurd rfl (quiet ask next program)
      | inr request => rfl
    · exact standing_of_ne same pick.2 request config.world

/-- The foretold source of a stream, and that it gives every answer. -/
theorem foretells_run (stream : Fin streams) (schedule : List (Fin streams × Choice))
    (config : LiveConfig streams) :
    Foretells stream (config.runLive perform schedule).world config.world
      (config.foretold perform .ended push schedule stream) := by
  refine Config.foretold_induction (fun pick config later quiet foretells => ?_)
    (fun choice ask world later foretells => ?_) schedule config
      ⟨fun _ => rfl, fun _ => rfl, fun never => absurd rfl never, (List.append_nil _).symm,
        fun failed => by simpa [Incoming.ended] using failed⟩
  · exact foretells.of_standing (standing_stepLive quiet)
  · exact (foretells_asked stream choice ask foretells).1

theorem consistent_run (schedule : List (Fin streams × Choice)) (config : LiveConfig streams) :
    config.Consistent perform pull .ended push schedule := by
  induction schedule generalizing config with
  | nil => trivial
  | cons pick rest inductionHypothesis =>
    refine ⟨fun ask next running => ?_, inductionHypothesis _⟩
    have later := foretells_run pick.1 rest (config.stepLive perform pick)
    have moved : config.stepLive perform pick = _ :=
      Config.step_of_call (perform pick.1) running
    rw [moved] at later ⊢
    exact (foretells_asked pick.1 pick.2 ask later).2

/-! ### The thread of a stream -/

/-- The result of a stream does not depend on the bound of its record loop, once that is large
enough. -/
theorem result_receiveRecords (options : Options) (rounds more : Nat) (state : StreamState)
    (enough : state.connection.remaining.length ≤ rounds) (further : rounds ≤ more) :
    ((HyperLink.receiveRecords options rounds state).bind fun outcome =>
        .done (StreamResult.ofOutcome outcome)) =
      (HyperLink.receiveRecords options more state).bind fun outcome =>
        .done (StreamResult.ofOutcome outcome) := by
  induction rounds generalizing more state with
  | zero =>
    have ended := List.length_eq_zero_iff.mp (Nat.le_zero.mp enough)
    obtain ⟨last, same, ends⟩ := @receiveRecords_ended options more state ended
    rw [ends]
    simp only [HyperLink.receiveRecords, Receiver.pure_apply, Program.bind_done,
      StreamResult.ofOutcome, same]
  | succ rounds inductionHypothesis =>
    obtain ⟨more, rfl⟩ : ∃ fewer, more = fewer + 1 := ⟨more - 1, by omega⟩
    have bytes := forget_receiveHeaderOptional state.connection
    cases read : HyperLink.receiveHeaderOptional state.connection with
    | error error =>
      simp only [HyperLink.receiveRecords, Receiver.bind_apply, Receiver.read_of_error read,
        Program.bind_done, Receiver.andThen_error]
    | ok pair =>
      obtain ⟨header, rest⟩ := pair
      rw [read, forget_ok] at bytes
      simp only [HyperLink.receiveRecords, Receiver.bind_apply, Receiver.read_of_ok read,
        Program.bind_done, Receiver.andThen_ok]
      cases header with
      | none => rfl
      | some incoming =>
        simp only [Receiver.bind_apply, Program.bind_assoc]
        refine Program.EndsOnlyIn.bind_congr
          (takes_receiveRecord options incoming ⟨rest, state.bytes⟩) fun outcome took => ?_
        obtain ⟨reply, last⟩ := outcome
        cases reply with
        | error error => rfl
        | ok value =>
          obtain ⟨-, left⟩ := took value rfl
          have shorter : last.connection.remaining.length ≤ rounds := by
            have whole := congrArg List.length (encoded_of_headerOptionalOf bytes.symm).1
            rw [List.length_append, List.length_append, length_makeHeader, kHeaderBytes] at whole
            rw [show last.connection.remaining = _ from left, List.length_drop]
            simp only at *
            omega
          exact inductionHypothesis more last shorter (by omega)

/-- How the results of a stream on a live connection and on its foretold one compare: they are
the same, unless the live one failed; then they count the same bytes. -/
def Matches (failed : Prop) (live plain : StreamResult) : Prop :=
  plain = live ∨ failed ∧ live.error ≠ none ∧ plain.bytes = live.bytes

/-- The thread of a stream follows the one that knows what will arrive. -/
theorem follows_receiveFilePart (options : Options) {rounds : Nat} {incoming : Incoming}
    (enough : incoming.connection.remaining.length ≤ rounds)
    (alone : incoming.refused ≠ none → incoming.connection.remaining = []) :
    (receiveFilePart options rounds).Follows pull
      (fun live _ plain => Matches (incoming.failure ≠ none ∨ incoming.refused ≠ none) live plain)
      incoming (HyperLink.receiveFilePart options incoming.connection) := by
  unfold receiveFilePart HyperLink.receiveFilePart
  rw [result_receiveRecords options _ rounds ⟨incoming.connection, 0⟩ le_rfl enough]
  show Program.Follows pull _ (Program.call (.inl .connect) _) incoming _
  simp only [Program.Follows, pull]
  cases refused : incoming.refused with
  | some text =>
    -- No connection: the other thread sees an empty one.
    obtain ⟨last, same, ends⟩ := @receiveRecords_ended options rounds ⟨incoming.connection, 0⟩
      (alone (by rw [refused]; exact Option.some_ne_none text))
    rw [ends]
    refine ⟨_, rfl, Or.inr ⟨Or.inr (Option.some_ne_none text), ?_, same⟩⟩
    exact Option.some_ne_none _
  | none =>
    refine Program.Follows.bind (serves_receiveRecords options rounds 0 incoming)
      fun live rest plain agrees => ?_
    obtain ⟨live, bytes⟩ := live
    obtain ⟨plain, state⟩ := plain
    obtain ⟨same, agrees⟩ := agrees
    refine ⟨_, rfl, ?_⟩
    cases live with
    | ok value =>
      cases plain with
      | ok other => exact Or.inl (congrArg (StreamResult.mk · none) same)
      | error error => exact agrees.elim
    | error error =>
      cases plain with
      | ok other => exact Or.inr ⟨Or.inl agrees.1, Option.some_ne_none _, same⟩
      | error other =>
        rcases agrees with rfl | failed
        · exact Or.inl (congrArg (StreamResult.mk · (some error)) same)
        · exact Or.inr ⟨Or.inl failed, Option.some_ne_none _, same⟩

/-- What a connection answers does not touch the files. -/
theorem receiver_asks (stream : Fin streams) (choice : Choice) (ask : SessionCall)
    (world : LiveWorld streams) :
    (perform stream choice (.inl ask) world).2.receiver = world.receiver := by
  cases ask with
  | connect =>
    simp only [perform]
    split
    · cases choice.arrival <;> rfl
    · rfl
  | receiveInto size =>
    simp only [perform]
    split
    · rfl
    · cases choice.arrival <;> rfl

/-- What a connection would have held that gives what a live one gives in a run. -/
def arrived (options : Options) (rounds : Nat) (fs : FileSystem)
    (schedule : List (Fin streams × Choice)) (stream : Fin streams) : Connection :=
  ((start options rounds fs).foretold perform .ended push schedule stream).connection

/-- The calls of a run on the file system. -/
def calls (options : Options) (rounds : Nat) (fs : FileSystem)
    (schedule : List (Fin streams × Choice)) : List (Fin streams × Fault) :=
  (start options rounds fs).calls perform Choice.fault schedule

section Refinement

variable {options : Options} {rounds : Nat} {fs : FileSystem}
  {schedule : List (Fin streams × Choice)}

theorem remaining_arrived (stream : Fin streams) :
    (arrived options rounds fs schedule stream).remaining =
      ((start options rounds fs).runLive perform schedule).world.given stream :=
  (foretells_run stream schedule (start options rounds fs)).given.symm

/-- The threads follow those that know what will have arrived. -/
theorem follows_arrived
    (enough : ∀ stream, (((start options rounds fs).runLive perform schedule).world.given
      stream).length ≤ rounds) (stream : Fin streams) :
    ((start options rounds fs : LiveConfig streams).threads stream).Follows pull
      (fun result _ plain => Matches (((start options rounds fs).runLive perform
        schedule).world.failed stream = true) result plain)
      ((start options rounds fs).foretold perform .ended push schedule stream)
      ((startReceive options fs (arrived options rounds fs schedule)).threads stream) := by
  have foretells := foretells_run stream schedule (start options rounds fs)
  have arrives : (arrived options rounds fs schedule stream).remaining.length ≤ rounds := by
    rw [remaining_arrived]
    exact enough stream
  refine (follows_receiveFilePart options arrives foretells.refused).weaken
    fun result rest plain agrees => ?_
  refine agrees.imp_right fun ⟨failed, rest⟩ => ⟨foretells.failed ?_, rest⟩
  exact failed.imp_right Or.inl

/-- A run on live connections is a run on those that hold what arrived. -/
theorem runLive_known
    (enough : ∀ stream, (((start options rounds fs).runLive perform schedule).world.given
      stream).length ≤ rounds) :
    let live := (start options rounds fs).runLive perform schedule
    let known := (startReceive options fs (arrived options rounds fs schedule)).run
      HyperLink.perform (calls options rounds fs schedule)
    known.world = live.world.receiver ∧
      ∀ stream result, live.threads stream = .done result →
        ∃ plain, known.threads stream = .done plain ∧
          Matches (live.world.failed stream = true) result plain := by
  intro live known
  obtain ⟨world, left, -⟩ := Config.run_foretold NoFault receiver_asks
    (fun _ _ _ _ => ⟨rfl, rfl⟩) schedule (start options rounds fs) (consistent_run schedule _)
    (startReceive options fs (arrived options rounds fs schedule)) rfl (follows_arrived enough)
  refine ⟨world, fun stream result ended => ?_⟩
  have last := left stream
  rw [show ((start options rounds fs).runLive perform schedule).threads stream = .done result
    from ended] at last
  exact last

/-- If the calls of the run were permitted to go as they went, so they are with what arrived. -/
theorem admissible_calls {permitted : Fault → Call → World → Prop}
    (enough : ∀ stream, (((start options rounds fs).runLive perform schedule).world.given
      stream).length ≤ rounds)
    (permits : Runs.Meets (Config.stepLive perform)
      (Config.Permits LiveWorld.receiver Choice.fault permitted)
      (start options rounds fs : LiveConfig streams) schedule) :
    (startReceive options fs (arrived options rounds fs schedule)).Admissible HyperLink.perform
      permitted (calls options rounds fs schedule) :=
  (Config.run_foretold permitted receiver_asks (fun _ _ _ _ => ⟨rfl, rfl⟩) schedule
    (start options rounds fs) (consistent_run schedule _)
    (startReceive options fs (arrived options rounds fs schedule)) rfl
    (follows_arrived enough)).2.2 permits

end Refinement

/-- Live connections refine known ones. To every run of a parallel receive whose connections are
still being filled, whatever comes when, and whatever fails, there are connections that hold what
was given to the streams, and a schedule of the threads' other calls, with which the receiver
that knows its connections comes to the same world; and where a live thread has ended, so has
that one, with the same result, or, if a call on the live connection has thrown, with the same
count. -/
theorem receive_refines (options : Options) (fs : FileSystem) (rounds : Nat)
    (schedule : List (Fin streams × Choice))
    (enough : ∀ stream, (((start options rounds fs).runLive perform schedule).world.given
      stream).length ≤ rounds) :
    let live := (start options rounds fs).runLive perform schedule
    ∃ (connections : Fin streams → Connection) (calls : List (Fin streams × Fault)),
      (∀ stream, (connections stream).remaining = live.world.given stream) ∧
      let known := (startReceive options fs connections).run HyperLink.perform calls
      known.world = live.world.receiver ∧
      ∀ stream result, live.threads stream = .done result →
        ∃ plain, known.threads stream = .done plain ∧
          (plain = result ∨ live.world.failed stream = true ∧ result.error ≠ none ∧
            plain.bytes = result.bytes) :=
  ⟨arrived options rounds fs schedule, calls options rounds fs schedule, remaining_arrived,
    runLive_known enough⟩

/-- A connection stands and gives some bytes, and the other one is refused. -/
theorem receive_refines_refused :
    let live := (start smallTransfer 48 rootOnly).runLive perform
      [((0 : Fin 2), { arrival := .ok [] }), (0, { arrival := .ok (ascii "hype") }),
        (1, { arrival := .error (ascii "accept failed") }), (0, { arrival := .ok (ascii "rlink") })]
    ∃ (connections : Fin 2 → Connection) (calls : List (Fin 2 × Fault)),
      (connections 0).remaining = ascii "hyperlink" ∧
      let known := (startReceive smallTransfer rootOnly connections).run HyperLink.perform calls
      known.world = live.world.receiver ∧
      ∃ plain, known.threads 1 = .done plain ∧ plain.bytes = 0 := by
  intro live
  obtain ⟨connections, calls, given, world, ended⟩ := receive_refines smallTransfer rootOnly 48
    [((0 : Fin 2), { arrival := .ok [] }), (0, { arrival := .ok (ascii "hype") }),
      (1, { arrival := .error (ascii "accept failed") }), (0, { arrival := .ok (ascii "rlink") })]
    (by decide +kernel)
  refine ⟨connections, calls, (given 0).trans (by decide +kernel), world, ?_⟩
  obtain ⟨plain, known, rfl | ⟨-, -, counted⟩⟩ := ended 1 ⟨0, some (ascii "accept failed")⟩
    (by decide +kernel)
  · exact ⟨_, known, rfl⟩
  · exact ⟨plain, known, counted⟩

/-! ### A file over live connections -/

section File

variable {options : Options} {content name : Bytes}

end File

end Live

end HyperLink
