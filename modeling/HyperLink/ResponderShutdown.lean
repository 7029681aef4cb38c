/-
This file is about what the caller of a responder may count on. Its threads are at
work while it calls, but nothing of that is seen in the members and the outcomes:
every run is above a run of the calls alone. And a stop ends, whatever the threads
were doing when the flag went off, and leaves nothing that could still send.
-/

import HyperLink.ResponderThreads

namespace HyperLink

namespace ResponderThreads

/-! ### The calls alone are above -/

/-- Between the calls, with the flag on, the members are those of a responder that serves. -/
theorem Sound.serving {options : PeerDiscoveryResponderOptions} {state : ResponderThreads}
    (sound : state.Sound options) (idle : state.caller = .idle)
    (on : state.members.running = true) : state.members.Serving := by
  have stage := sound.stage
  rw [Stage, idle] at stage
  rcases stage with ⟨-, ⟨phase, discovering, lives⟩, server, probing, serves⟩ | ⟨off, -⟩
  swap
  · rw [on] at off
    cases off
  have discovery := sound.discovery
  have probe := sound.probe
  rw [discovering, Option.isSome_some, Option.isSome_iff_exists] at discovery
  rw [probing, Option.isSome_some, Option.isSome_iff_exists] at probe
  obtain ⟨discoverySocket, discovery⟩ := discovery
  obtain ⟨probeSocket, probe⟩ := probe
  have own : state.held = [probeSocket, discoverySocket] := by
    simp [held, idle, ResponderThreads.probeSocket, ResponderThreads.discoverySocket, discovering,
      probing, lives, serves, discovery, probe]
  have distinct := sound.distinct
  rw [own] at distinct
  refine ⟨on, discoverySocket, probeSocket, ?_, discovery, probe, sound.sockets.trans own⟩
  intro same
  rw [same] at distinct
  simp at distinct

theorem settled_start {options : PeerDiscoveryResponderOptions} {state : ResponderThreads}
    (sound : state.Sound options) (idle : state.caller = .idle) (answers : Answers) :
    (state.beginStart answers).settled = record (state.members, state.outcomes) (.start answers) := by
  have stage := sound.stage
  rw [Stage, idle] at stage
  rcases stage with ⟨on, -⟩ | ⟨off, noDiscovery, noProbe⟩
  · rw [record, Responder.start, if_pos on, beginStart, if_pos on]
    rfl
  · rcases beginStart_cases (sound.stopped off noDiscovery noProbe idle) answers with
      ⟨members, error, same, -, -, alone⟩ |
      ⟨members, discoverySocket, probeSocket, same, -, -, -, -, -, -, -, alone⟩
    · rw [same, record, alone]
      rfl
    · rw [same, record, alone]
      cases answers.probeThread <;> rfl

theorem settled_stop {options : PeerDiscoveryResponderOptions} {state : ResponderThreads}
    (sound : state.Sound options) (idle : state.caller = .idle) :
    (state.beginStop (.ok ())).settled = record (state.members, state.outcomes) .stop := by
  have halts : state.members.stop = halted state.members := by
    have stage := sound.stage
    rw [Stage, idle] at stage
    rcases stage with ⟨on, -⟩ | ⟨off, noDiscovery, noProbe⟩
    · exact stop_of_serving (sound.serving idle on)
    · exact stop_eq_halted
        (Responder.Idle.unfinished (sound.stopped off noDiscovery noProbe idle).2)
  rw [record, halts]
  rfl

theorem halted_of_stopped {members : Responder} (stopped : members.Stopped) :
    halted members = members := by
  obtain ⟨off, noDiscovery, noProbe, noSockets⟩ := stopped
  obtain ⟨_, _, _, _, _, _, _, _⟩ := members
  cases off
  cases noDiscovery
  cases noProbe
  cases noSockets
  rfl

/-- The members that are taken down, when they are. -/
theorem Sound.eq_halted {options : PeerDiscoveryResponderOptions} {state : ResponderThreads}
    (sound : state.Sound options) (idle : state.caller = .idle)
    (off : state.members.running = false) : halted state.members = state.members := by
  rcases sound.joining off with ⟨-, noDiscovery, noProbe⟩ | ⟨outcome, joining⟩ |
    ⟨outcome, joining, -⟩
  · exact halted_of_stopped (sound.stopped off noDiscovery noProbe idle)
  · rw [idle] at joining
    cases joining
  · rw [idle] at joining
    cases joining

theorem settled_caller {options : PeerDiscoveryResponderOptions} {state : ResponderThreads}
    (sound : state.Sound options) : state.callerStep.settled = state.settled := by
  unfold callerStep
  cases caller : state.caller with
  | idle => rfl
  | terminated => rfl
  | spawning probeSocket probeThread =>
    have stage := sound.stage
    rw [Stage, caller] at stage
    have noProbeThread := sound.noProbe stage.2.2
    unfold ResponderThreads.spawnProbe
    cases probeThread with
    | some reason =>
      rw [settled, settled, caller]
      rfl
    | none =>
      simp only [noProbeThread, Option.isSome_none, Bool.false_eq_true, if_false]
      rw [settled, settled, caller]
      rfl
  | joiningDiscovery outcome =>
    simp only []
    unfold ResponderThreads.joinDiscovery
    cases state.members.discoveryThread with
    | none =>
      rw [settled, settled, caller]
    | some socket =>
      simp only []
      split
      · rw [settled, settled, caller]
        rfl
      · rfl
  | joiningProbe outcome =>
    have joined := sound.joinProbe caller
    simp only []
    unfold ResponderThreads.joinProbe at joined ⊢
    have off : state.members.running = false := by
      have stage := sound.stage
      rw [Stage, caller] at stage
      exact stage.1
    cases thread : state.members.probeThread with
    | none =>
      rw [thread] at joined
      have halts := joined.eq_halted rfl off
      rw [settled, settled, caller]
      exact congrArg (·, state.outcomes ++ [outcome]) halts.symm
    | some socket =>
      rw [thread] at joined
      simp only [] at joined ⊢
      split
      next returned =>
        rw [if_pos returned] at joined
        have halts := joined.eq_halted rfl off
        rw [settled, settled, caller]
        exact congrArg (·, state.outcomes ++ [outcome]) halts.symm
      next => rfl

theorem settled_discovery {options : PeerDiscoveryResponderOptions} {state : ResponderThreads}
    (sound : state.Sound options) (event : DiscoveryEvent) :
    (state.discoveryStep event).settled = state.settled := by
  rcases state.discoveryStep_cases event with same | ⟨socket, -, polling, off, same⟩ |
    ⟨_, _, _, -, -, -, same, -⟩
  · rw [same]
  · obtain ⟨outcome, caller⟩ := sound.joinsDiscovery off (by rw [polling]; simp)
    rw [same, settled, settled, caller]
    rfl
  · rw [same]
    rfl

theorem settled_probe {options : PeerDiscoveryResponderOptions} {state : ResponderThreads}
    (sound : state.Sound options) (event : ProbeEvent) :
    (state.probeStep event).settled = state.settled := by
  unfold ResponderThreads.probeStep
  split
  swap
  · rfl
  next socket server thread probing =>
  simp only []
  split
  next ends =>
    obtain ⟨off, -⟩ := phase_returned ends.1 ends.2
    rcases sound.joinsProbe off (by rw [probing]; simp) with ⟨outcome, caller⟩ | ⟨outcome, caller⟩
    · rw [settled, settled, caller]
      rfl
    · rw [settled, settled, caller]
      rfl
  next => rfl

/-- Every statement is a call as it will end, or nothing that is seen from outside. -/
theorem settled_step {options : PeerDiscoveryResponderOptions} {state : ResponderThreads}
    (sound : state.Sound options) (event : Event) :
    (state.step event).settled =
      Runs.after record state.settled (state.visible event).toList := by
  cases event with
  | call call =>
    rw [step, visible]
    cases caller : state.caller with
    | idle =>
      have now : state.settled = (state.members, state.outcomes) := by rw [settled, caller]
      rw [now]
      cases call with
      | start answers =>
        rw [ResponderThreads.call, caller]
        exact settled_start sound caller answers
      | stop =>
        rw [ResponderThreads.call, caller]
        exact settled_stop sound caller
    | _ =>
      unfold ResponderThreads.call
      rw [caller]
      cases call <;> rfl
  | caller => exact settled_caller sound
  | discovery event => exact settled_discovery sound event
  | probe event => exact settled_probe sound event

/-- The responder with its threads is, from outside, the responder of the calls alone. For every
order in which the caller and the two threads take their statements, and whatever fails, the
members and the outcomes are those of the calls made so far, each as one step; a start or a stop
that is under way will end as it does there; and between two calls either both functions run, each
thread has a listening socket of its own and these are all that are open, or there is no thread and
no listening socket. -/
theorem threads_refine_calls (options : PeerDiscoveryResponderOptions) (events : List Event)
    (assumed : Runs.Meets step Assumed (fresh options) events) :
    let state := Runs.after step (fresh options) events
    let alone := Runs.after record ({ options }, [])
      (Runs.shown step visible (fresh options) events)
    state.settled = alone ∧ (state.caller = .idle →
      state.members = alone.1 ∧ state.outcomes = alone.2 ∧
      ((state.members.running = true ∧ state.Serving ∧
          ∃ discoverySocket probeSocket, discoverySocket ≠ probeSocket ∧
            state.members.discoveryThread = some discoverySocket ∧
            state.members.probeThread = some probeSocket ∧
            state.members.openSockets = [probeSocket, discoverySocket]) ∨
        (state.members.running = false ∧ state.discovery = none ∧ state.probe = none ∧
          state.members.openSockets = []))) := by
  intro state alone
  have sound : state.Sound options := sound_after assumed
  have above : state.settled = alone :=
    Runs.refines_after (sound_fresh options) (fun _ _ sound allowed => step_sound sound allowed)
      (fun _ event sound _ => settled_step sound event) events assumed
  refine ⟨above, fun idle => ?_⟩
  have now : state.settled = (state.members, state.outcomes) := by rw [settled, idle]
  rw [← above, now]
  refine ⟨rfl, rfl, ?_⟩
  have stage := sound.stage
  rw [Stage, idle] at stage
  rcases stage with ⟨on, serving⟩ | ⟨off, noDiscovery, noProbe⟩
  · obtain ⟨-, discoverySocket, probeSocket, distinct, discovery, probe, sockets⟩ :=
      sound.serving idle on
    exact .inl ⟨on, serving, discoverySocket, probeSocket, distinct, discovery, probe, sockets⟩
  · exact .inr ⟨off, noDiscovery, noProbe, (sound.stopped off noDiscovery noProbe idle).2.2.2⟩

/-! ### The end of a stop -/

/-- The caller waits for a thread. -/
def Joining (state : ResponderThreads) : Prop :=
  (∃ outcome, state.caller = .joiningDiscovery outcome) ∨
    ∃ outcome, state.caller = .joiningProbe outcome

def callerRest : CallerPhase → Nat
  | .joiningDiscovery _ => 2
  | .joiningProbe _ => 1
  | _ => 0

/-- How many more statements a stop takes at most. -/
def rest (state : ResponderThreads) : Nat :=
  callerRest state.caller + discoveryRest state.discovery + probeRest state.probe

theorem rest_le (state : ResponderThreads) : state.rest ≤ 9 := by
  have first : callerRest state.caller ≤ 2 := by
    unfold callerRest
    split <;> omega
  have second : discoveryRest state.discovery ≤ 3 := by
    unfold discoveryRest
    split <;> omega
  have third : probeRest state.probe ≤ 4 := by
    unfold probeRest phaseRest
    split
    · omega
    · split <;> omega
  unfold rest
  omega

theorem Sound.off {options : PeerDiscoveryResponderOptions} {state : ResponderThreads}
    (sound : state.Sound options) (joining : state.Joining) : state.members.running = false := by
  have stage := sound.stage
  rcases joining with ⟨outcome, caller⟩ | ⟨outcome, caller⟩
  · rw [Stage, caller] at stage
    exact stage
  · rw [Stage, caller] at stage
    exact stage.1

/-- While a stop waits, every statement that does anything brings its end nearer. -/
theorem rest_step {options : PeerDiscoveryResponderOptions} {state : ResponderThreads}
    (sound : state.Sound options) (joining : state.Joining) (event : Event) :
    state.step event = state ∨ (state.step event).rest < state.rest := by
  have off := sound.off joining
  cases event with
  | call call =>
    refine .inl ?_
    rw [step]
    rcases joining with ⟨outcome, caller⟩ | ⟨outcome, caller⟩
    all_goals
      unfold ResponderThreads.call
      rw [caller]
      cases call <;> rfl
  | caller =>
    rw [step, callerStep]
    rcases joining with ⟨outcome, caller⟩ | ⟨outcome, caller⟩
    · rw [caller]
      simp only []
      unfold ResponderThreads.joinDiscovery
      split
      · refine .inr ?_
        simp only [rest, caller, callerRest]
        omega
      · split
        · refine .inr ?_
          simp only [rest, caller, callerRest, discoveryRest]
          omega
        · exact .inl rfl
    · rw [caller]
      simp only []
      unfold ResponderThreads.joinProbe finish
      split
      · refine .inr ?_
        simp only [rest, caller, callerRest]
        omega
      · split
        · refine .inr ?_
          simp only [rest, caller, callerRest, probeRest]
          omega
        · exact .inl rfl
  | discovery event =>
    rw [step]
    rcases state.discoveryStep_cases event with same | ⟨_, -, polling, -, same⟩ |
      ⟨_, _, _, phase, -, -, same, nearer, -⟩
    · exact .inl same
    · rw [same]
      refine .inr ?_
      simp only [rest, polling, discoveryRest]
      omega
    · have less := nearer off
      rw [same]
      refine .inr ?_
      simp only [rest, phase]
      omega
  | probe event =>
    rw [step]
    unfold ResponderThreads.probeStep
    split
    swap
    · exact .inl rfl
    next server _ probing =>
    rw [off]
    rcases phaseRest_step server event with same | less
    · refine .inl ?_
      rw [same, if_neg fun ends => ends.1 ends.2, ← probing]
    · refine .inr ?_
      simp only []
      split
      all_goals
        simp only [rest, probing, probeRest]
        omega

/-- What the caller waits for can always go on. -/
theorem exists_step {options : PeerDiscoveryResponderOptions} {state : ResponderThreads}
    (sound : state.Sound options) (joining : state.Joining) :
    ∃ event, state.Assumed event ∧ state.step event ≠ state := by
  have off := sound.off joining
  -- The caller goes on unless a function still runs.
  by_cases lives : ∃ phase, state.discovery = some phase ∧ phase ≠ .returned
  · obtain ⟨phase, discovering, lives⟩ := lives
    have discovery := sound.discovery
    rw [discovering, Option.isSome_some, Option.isSome_iff_exists] at discovery
    obtain ⟨socket, thread⟩ := discovery
    cases phase with
    | polling =>
      refine ⟨.discovery (.select false), trivial, fun same => ?_⟩
      have changed := congrArg ResponderThreads.discovery same
      simp [step, ResponderThreads.discoveryStep, thread, discovering, off] at changed
    | receiving =>
      refine ⟨.discovery (.recvfrom none), trivial, fun same => ?_⟩
      have changed := congrArg ResponderThreads.discovery same
      simp [step, ResponderThreads.discoveryStep, thread, discovering] at changed
    | answering source =>
      refine ⟨.discovery (.sendto true), trivial, fun same => ?_⟩
      have changed := congrArg ResponderThreads.discovery same
      simp [step, ResponderThreads.discoveryStep, thread, discovering] at changed
    | returned => exact absurd rfl lives
  have discovered : state.members.discoveryThread = none ∨ state.discovery = some .returned := by
    cases discovering : state.discovery with
    | none => exact .inl (sound.noDiscovery discovering)
    | some phase =>
      refine .inr ?_
      by_contra goes
      exact lives ⟨phase, discovering, fun returned => goes (by rw [returned])⟩
  rcases joining with ⟨outcome, caller⟩ | ⟨outcome, caller⟩
  · refine ⟨.caller, trivial, fun same => ?_⟩
    have changed := congrArg (fun state => callerRest state.caller) same
    rw [step, callerStep, caller] at changed
    simp only [ResponderThreads.joinDiscovery] at changed
    rcases discovered with none | returned
    · simp [none, callerRest] at changed
    · split at changed
      · simp [callerRest] at changed
      · simp [returned, callerRest] at changed
  -- Only the probe function can still run.
  have joined : state.probe.map ProbeServer.phase = some .returned ∨ state.probe = none →
      ∃ event, state.Assumed event ∧ state.step event ≠ state := by
    intro ended
    refine ⟨.caller, trivial, fun same => ?_⟩
    have changed := congrArg (fun state => callerRest state.caller) same
    rw [step, callerStep, caller] at changed
    simp only [ResponderThreads.joinProbe, finish] at changed
    rcases ended with returned | none
    · split at changed
      · simp [callerRest] at changed
      · simp [returned, callerRest] at changed
    · rw [sound.noProbe none] at changed
      simp [callerRest] at changed
  cases probing : state.probe with
  | none => exact joined (.inr probing)
  | some server =>
    have probe := sound.probe
    rw [probing, Option.isSome_some, Option.isSome_iff_exists] at probe
    obtain ⟨socket, thread⟩ := probe
    have moves : ∀ event, server.Assumed event →
        (server.step (withFlag false event)).phase ≠ server.phase →
        ∃ event, state.Assumed event ∧ state.step event ≠ state := by
      intro event assumed differs
      refine ⟨.probe event, fun other member => ?_, fun same => differs ?_⟩
      · rw [probing] at member
        cases member
        exact assumed
      · have changed := congrArg (fun state => state.probe.map ProbeServer.phase) same
        simp only [step, ResponderThreads.probeStep, thread, probing, off] at changed
        split at changed <;> simpa using changed
    cases phase : server.phase with
    | polling =>
      refine moves (.select false false false fun _ => false) trivial ?_
      rw [withFlag, ProbeServer.step, if_pos phase, phase]
      simp [ProbeServer.select]
    | accepting =>
      refine moves (.accept false none true 0) ⟨rfl, by simp⟩ ?_
      rw [withFlag, ProbeServer.step, if_pos phase, phase]
      simp [ProbeServer.accept]
    | expiring ready =>
      refine moves (.expire 0) trivial ?_
      rw [withFlag, ProbeServer.step, phase]
      cases ready <;> simp [ProbeServer.expire]
    | sending =>
      refine moves (.send fun _ => .sent) trivial ?_
      rw [withFlag, ProbeServer.step, if_pos phase, phase]
      simp [ProbeServer.send]
    | returned => exact joined (.inl (by rw [probing, Option.map_some, phase]))
    | terminated => exact absurd phase (sound.server server probing).2.1

/-- Taken down and with no start under way. -/
def Quiet (state : ResponderThreads) : Prop :=
  state.members.running = false ∧ state.members.openSockets = [] ∧
    state.members.discoveryThread = none ∧ state.members.probeThread = none ∧
    state.discovery = none ∧ state.probe = none ∧ (state.caller = .idle ∨ state.Joining)

/-- A responder that was stopped is silent until it is started again. -/
theorem quiet_step {state : ResponderThreads} (quiet : state.Quiet) {event : Event}
    (noStart : ∀ answers, event ≠ .call (.start answers)) :
    (state.step event).Quiet ∧ (state.step event).answers = state.answers := by
  obtain ⟨off, noSockets, noDiscoveryThread, noProbeThread, noDiscovery, noProbe, caller⟩ :=
    id quiet
  have stays : ∀ phase, phase = .idle ∨ (∃ outcome, phase = .joiningDiscovery outcome) ∨
      (∃ outcome, phase = .joiningProbe outcome) → ∀ outcomes,
      Quiet { state with caller := phase, outcomes } := by
    intro phase stands outcomes
    exact ⟨off, noSockets, noDiscoveryThread, noProbeThread, noDiscovery, noProbe, stands⟩
  cases event with
  | call call =>
    cases call with
    | start answers => exact absurd rfl (noStart answers)
    | stop =>
      rw [step, ResponderThreads.call]
      split
      · refine ⟨⟨rfl, noSockets, noDiscoveryThread, noProbeThread, noDiscovery, noProbe,
          .inr (.inl ⟨_, rfl⟩)⟩, rfl⟩
      · exact ⟨quiet, rfl⟩
  | caller =>
    rw [step, callerStep]
    rcases caller with idle | ⟨outcome, joining⟩ | ⟨outcome, joining⟩
    · rw [idle]
      exact ⟨quiet, rfl⟩
    · have goesOn : state.joinDiscovery outcome = { state with caller := .joiningProbe outcome } := by
        unfold ResponderThreads.joinDiscovery
        rw [noDiscoveryThread]
      rw [joining]
      simp only [goesOn]
      exact ⟨stays _ (.inr (.inr ⟨outcome, rfl⟩)) state.outcomes, trivial⟩
    · have goesOn : state.joinProbe outcome = state.finish outcome := by
        unfold ResponderThreads.joinProbe
        rw [noProbeThread]
      rw [joining]
      simp only [goesOn]
      exact ⟨stays _ (.inl rfl) (state.outcomes ++ [outcome]), rfl⟩
  | discovery event =>
    have same : state.discoveryStep event = state := by
      unfold ResponderThreads.discoveryStep
      rw [noDiscoveryThread]
    rw [step, same]
    exact ⟨quiet, rfl⟩
  | probe event =>
    have same : state.probeStep event = state := by
      unfold ResponderThreads.probeStep
      rw [noProbeThread]
    rw [step, same]
    exact ⟨quiet, rfl⟩

/-- A stop comes to its end and takes everything down, whatever the threads were doing when the
flag went off. While it waits, some statement can always be taken; every order of statements that
do anything has ended it after at most nine; a function that has returned has closed its
connections; and once the stop is over no socket and no thread is left, and nothing is sent and
nothing is opened until the next start. -/
theorem stop_completes (options : PeerDiscoveryResponderOptions) (events : List Event)
    (assumed : Runs.Meets step Assumed (fresh options) events) :
    let state := Runs.after step (fresh options) events
    (state.Joining → ∃ event, state.Assumed event ∧ state.step event ≠ state) ∧
      (∀ more, Runs.Meets step (fun state event =>
          state.Joining ∧ state.Assumed event ∧ state.step event ≠ state) state more →
        more.length ≤ 9) ∧
      (∀ server ∈ state.probe, server.phase = .returned → server.kernel.table = []) ∧
      (state.caller = .idle → state.members.running = false →
        ∀ more, (∀ answers, .call (.start answers) ∉ more) →
          (Runs.after step state more).answers = state.answers ∧
          (Runs.after step state more).Quiet) := by
  intro state
  have sound : state.Sound options := sound_after assumed
  refine ⟨exists_step sound, fun more effective => ?_, fun server member returned => ?_,
    fun idle off more noStart => ?_⟩
  · have counted : ∀ (more : List Event) (state : ResponderThreads), state.Sound options →
        Runs.Meets step (fun state event =>
          state.Joining ∧ state.Assumed event ∧ state.step event ≠ state) state more →
        more.length ≤ state.rest := by
      intro more
      induction more with
      | nil => exact fun _ _ _ => Nat.zero_le _
      | cons event more inductionHypothesis =>
        intro state sound effective
        obtain ⟨⟨joining, allowed, differs⟩, later⟩ := Runs.meets_cons.mp effective
        have less := (rest_step sound joining event).resolve_left differs
        have shorter := inductionHypothesis _ (step_sound sound allowed) later
        rw [List.length_cons]
        omega
    exact (counted more state sound effective).trans state.rest_le
  · obtain ⟨serverSound, -, closed⟩ := sound.server server member
    have aligned := serverSound.1.aligned
    rw [closed returned, List.map_nil, List.map_eq_nil_iff] at aligned
    exact aligned
  · have quiet : state.Quiet := by
      rcases sound.joining off with ⟨-, noDiscovery, noProbe⟩ | ⟨_, joining⟩ | ⟨_, joining, -⟩
      · obtain ⟨-, noDiscoveryThread, noProbeThread, noSockets⟩ :=
          sound.stopped off noDiscovery noProbe idle
        exact ⟨off, noSockets, noDiscoveryThread, noProbeThread, noDiscovery, noProbe, .inl idle⟩
      · rw [idle] at joining
        cases joining
      · rw [idle] at joining
        cases joining
    have allowed : Runs.Meets step (fun _ event => ∀ answers, event ≠ .call (.start answers))
        state more := by
      intro before event inside answers same
      refine noStart answers (same ▸ inside.subset ?_)
      exact List.mem_append_right _ (List.mem_singleton_self _)
    have kept := @Runs.invariant_after _ _ step state
      (fun _ event => ∀ answers, event ≠ .call (.start answers))
      (fun other => other.Quiet ∧ other.answers = state.answers) ⟨quiet, rfl⟩
      (fun _ _ before noStart => ⟨(quiet_step before.1 noStart).1,
        (quiet_step before.1 noStart).2.trans before.2⟩) more allowed
    exact ⟨kept.2, kept.1⟩

/-- Nothing fails. -/
def calm : Answers where
  inetPton _ := true

def asker : SockaddrIn := ⟨⟨10, 0, 0, 9⟩, 50000⟩

/-- A responder is started, asked, and stopped before it answers. -/
def askedAndStopped : List Event :=
  [.call (.start calm), .caller, .discovery (.select true),
    .discovery (.recvfrom (some (kDiscoveryMessage, asker))), .call .stop]

/-- The answer is still sent, and the threads return and are joined. -/
def answeredAndJoined : List Event :=
  [.discovery (.sendto true), .probe (.select true false false fun _ => false),
    .discovery (.select false), .caller, .caller]

theorem assumed_of_noAccept {events : List Event}
    (each : ∀ event ∈ events, ∀ running client nonblocking now,
      event ≠ .probe (.accept running client nonblocking now)) (state : ResponderThreads) :
    Runs.Meets step Assumed state events := by
  intro before event inside
  have other := each event (inside.subset (List.mem_append_right _ (List.mem_singleton_self _)))
  cases event with
  | probe event =>
    intro server _
    cases event with
    | accept running client nonblocking now =>
      exact absurd rfl (other running client nonblocking now)
    | _ => trivial
  | _ => trivial

theorem threads_refine_calls_asked :
    (Runs.after step (fresh {}) (askedAndStopped ++ answeredAndJoined)).answers =
        [(ascii "HLINK_PEER_V2 47790 47791 1 hyperlink-peer", asker)] ∧
      (Runs.after step (fresh {}) (askedAndStopped ++ answeredAndJoined)).settled =
        Runs.after record ({ options := {} }, []) [.start calm, .stop] := by
  refine ⟨by decide +kernel, ?_⟩
  exact (threads_refine_calls {} (askedAndStopped ++ answeredAndJoined)
    (assumed_of_noAccept (by simp [askedAndStopped, answeredAndJoined]) _)).1

theorem stop_completes_asked :
    (∃ event, (Runs.after step (fresh {}) askedAndStopped).Assumed event ∧
        (Runs.after step (fresh {}) askedAndStopped).step event ≠
          Runs.after step (fresh {}) askedAndStopped) ∧
      (Runs.after step (Runs.after step (fresh {}) (askedAndStopped ++ answeredAndJoined))
        [.call .stop, .caller, .discovery (.sendto true)]).Quiet := by
  have asked := stop_completes {} askedAndStopped
    (assumed_of_noAccept (by simp [askedAndStopped]) _)
  have whole := stop_completes {} (askedAndStopped ++ answeredAndJoined)
    (assumed_of_noAccept (by simp [askedAndStopped, answeredAndJoined]) _)
  refine ⟨asked.1 (.inl ⟨.ok (), rfl⟩), (whole.2.2.2 rfl (by decide +kernel) _ ?_).2⟩
  simp

end ResponderThreads

end HyperLink
