/-
This file is about the file that the streams of a parallel receive share. The
first part that arrives creates it and gives it its size, under the mutex; the
later ones find the shared state initialized and open the file. The flag is set
before the two calls that can fail, so a failed preparation counts as done: the
stream that tried it stops, and the next one goes on as if the file stood.

An observer of the run says which streams write parts and what has happened to
the shared path. The file is prepared before anyone relies on it exactly in the
runs in which the first preparation succeeds.
-/

import HyperLink.Records
import HyperLink.Observation

namespace HyperLink

open Threads Receiver FileSystem

/-! ### What the block under the mutex does first -/

/-- The two calls of the block succeed: the file is created and gets its size. -/
def Creates (fault : Fault) (path : Path) (size : UInt64) (world : World) : Prop :=
  fault ≠ .first ∧ (world.fs.openTruncate path).reply ≠ none ∧ fault ≠ .second ∧
    ((world.fs.openTruncate path).fs.resizeFile path size.toNat).reply = true

instance (fault : Fault) (path : Path) (size : UInt64) (world : World) :
    Decidable (Creates fault path size world) :=
  inferInstanceAs (Decidable (_ ∧ _ ∧ _ ∧ _))

/-- No file was given a size. -/
def NoResize (effects : List Effect) : Prop :=
  ∀ location size, Effect.resized location size ∉ effects

/-- The block hands out a path for the first time exactly if both calls succeed. -/
theorem prepare_ok_iff {fault : Fault} {path : Path} {name : Bytes} {size : UInt64}
    {world : World} (fresh : world.shared.initialized = false) :
    (∃ output, (prepare fault path name size world).1 = .ok output) ↔
      Creates fault path size world := by
  unfold prepare Creates
  rw [if_neg (by rw [fresh]; exact Bool.false_ne_true)]
  by_cases refused : fault = .first
  · simp [refused, World.onFiles, FileSystem.unchanged]
  cases opened : (world.fs.openTruncate path).reply with
  | none => simp [refused, World.onFiles, opened]
  | some handle =>
    by_cases unresized : fault = .second
    · simp [unresized, World.onFiles, opened, FileSystem.unchanged]
    · simp only [if_neg refused, World.onFiles, opened, if_neg unresized]
      split
      · rename_i resized
        exact ⟨fun _ => ⟨refused, by simp, unresized, resized⟩, fun _ => ⟨_, rfl⟩⟩
      · rename_i resized
        refine iff_of_false ?_ fun creates => resized creates.2.2.2
        rintro ⟨_, never⟩
        cases never

theorem noResize_openTruncate (fs : FileSystem) (path : Path) :
    NoResize (fs.openTruncate path).effects := by
  intro location size
  obtain same | ⟨place, -, -, ⟨-, same⟩ | ⟨inode, -, same⟩⟩ := openTruncate_cases fs path
  · rw [same]
    exact List.not_mem_nil
  · rw [same]
    simp
  · rw [same]
    simp

/-- The first time, the block sets the shared state in any case. Either both calls succeed and
the file gets its size, or it throws and no file does. -/
theorem prepare_fresh (fault : Fault) (path : Path) (name : Bytes) (size : UInt64)
    {world : World} (fresh : world.shared.initialized = false) :
    (prepare fault path name size world).2.shared = ⟨true, path, name, size⟩ ∧
      ((Creates fault path size world ∧ (prepare fault path name size world).1 = .ok path ∧
        ∃ handle, (world.fs.openTruncate path).reply = some handle ∧
          (prepare fault path name size world).2.history = world.history ++
            ((world.fs.openTruncate path).effects ++ [.resized handle.location size.toNat])) ∨
      (¬ Creates fault path size world ∧
        (∃ error, (prepare fault path name size world).1 = .error error) ∧
        ∃ effects, (prepare fault path name size world).2.history = world.history ++ effects ∧
          NoResize effects)) := by
  have handsOut := @prepare_ok_iff fault path name size world fresh
  obtain ⟨initialized, -⟩ | ⟨initialized, -⟩ | ⟨-, error, fs, effects, same, changes⟩ |
      ⟨-, handle, fs, opened, -, same⟩ := prepare_cases fault path name size world
  · rw [fresh] at initialized
    cases initialized
  · rw [fresh] at initialized
    cases initialized
  · rw [same] at handsOut ⊢
    refine ⟨rfl, Or.inr ⟨fun creates => ?_, ⟨error, rfl⟩, effects, rfl, ?_⟩⟩
    · obtain ⟨_, never⟩ := handsOut.mpr creates
      cases never
    · rcases changes with ⟨-, rfl⟩ | ⟨-, -, -, rfl⟩
      · exact fun _ _ => List.not_mem_nil
      · exact noResize_openTruncate world.fs path
  · rw [same] at handsOut ⊢
    exact ⟨rfl, Or.inl ⟨handsOut.mp ⟨path, rfl⟩, rfl, handle, opened, rfl⟩⟩

/-! ### What every other call does -/

/-- The shared state stays, and no file is given a size. -/
def LeavesShared (world later : World) : Prop :=
  later.shared = world.shared ∧
    ∃ effects, later.history = world.history ++ effects ∧ NoResize effects

theorem LeavesShared.refl (world : World) : LeavesShared world world :=
  ⟨rfl, [], (List.append_nil _).symm, fun _ _ => List.not_mem_nil⟩

/-- Every call but the first block under the mutex leaves the shared state alone. -/
theorem perform_leavesShared (fault : Fault) (request : Call) (world : World)
    (later : ∀ path name size, request = .prepare path name size →
      world.shared.initialized = true) :
    LeavesShared world (perform fault request world).2 := by
  cases request with
  | prepare path name size =>
    show LeavesShared world (prepare fault path name size world).2
    unfold prepare
    rw [if_pos (later path name size rfl)]
    split <;> exact LeavesShared.refl world
  | openPipe | writePipe | closePipe =>
    simp only [perform]
    split
    · exact LeavesShared.refl world
    · exact LeavesShared.refl world
  | close output =>
    obtain same | same := perform_close fault output world
    · rw [same]
      exact LeavesShared.refl world
    · rw [same]
      exact ⟨rfl, _, rfl, fun _ _ => by simp⟩
  | _ =>
    simp only [perform]
    split
    · refine ⟨rfl, _, rfl, ?_⟩
      simp only [FileSystem.createDirectory, FileSystem.openTruncate, FileSystem.openReadWrite,
        FileSystem.write, FileSystem.setPermissions, FileSystem.remove, FileSystem.createSymlink]
      repeat' split
      all_goals simp [NoResize, FileSystem.unchanged]
    · exact LeavesShared.refl world

/-! ### What the observer sees of a stream -/

/-- The path that the block under the mutex handed out, and the path of the file that the
stream opened last if it opened it for a part. -/
structure StreamView where
  prepared : Option Path := none
  output : Option Path := none
  deriving DecidableEq, Repr

namespace StreamView

/-- A part is opened for reading and writing, every other file is truncated. -/
def look (view : StreamView) : (request : Call) → Reply request → StreamView
  | .prepare _ _ _, .ok path => { view with prepared := some path }
  | .openReadWrite path, _ => { view with output := some path }
  | .openTruncate _, _ => { view with output := none }
  | _, _ => view

/-- A part is opened only at the path that the block handed out. -/
def Permits (view : StreamView) (request : Call) : Prop :=
  ∀ path, request = .openReadWrite path → view.prepared = some path

end StreamView

/-! ### The code follows the protocol -/

/-- Code that opens parts only at the path it was handed. -/
def Orderly {Value : Type} (code : Receiver Value) : Prop :=
  ∀ state view, (code state).Obeys StreamView.look StreamView.Permits view

section Rules

variable {Value Other : Type}

theorem Orderly.done {code : Receiver Value}
    (done : ∀ state, ∃ outcome, code state = .done outcome) : Orderly code := by
  intro state view
  obtain ⟨outcome, same⟩ := done state
  rw [same]
  trivial

theorem Orderly.pure (value : Value) : Orderly (Pure.pure value : Receiver Value) :=
  Orderly.done fun state => ⟨(.ok value, state), rfl⟩

theorem Orderly.fail (error : Error) : Orderly (Receiver.fail error : Receiver Value) :=
  Orderly.done fun state => ⟨(.error error, state), rfl⟩

theorem Orderly.check (outcome : Except Error Value) : Orderly (Receiver.check outcome) :=
  Orderly.done fun state => ⟨(outcome, state), rfl⟩

theorem Orderly.read (reader : Connection → Except Error (Value × Connection)) :
    Orderly (Receiver.read reader) := by
  refine Orderly.done fun state => ?_
  unfold Receiver.read
  split
  · exact ⟨_, rfl⟩
  · exact ⟨_, rfl⟩

theorem Orderly.invoke {request : Call} (other : ∀ path, request ≠ .openReadWrite path) :
    Orderly (Receiver.invoke request) :=
  fun _ _ => ⟨fun path same => absurd same (other path), fun _ => trivial⟩

theorem Orderly.bind {code : Receiver Value} {continuation : Value → Receiver Other}
    (first : Orderly code) (rest : ∀ value, Orderly (continuation value)) :
    Orderly (code >>= continuation) := by
  intro state view
  refine (first state view).bind fun outcome later => ?_
  obtain ⟨reply, last⟩ := outcome
  cases reply with
  | error error => trivial
  | ok value => exact rest value last later

end Rules

theorem orderly_createEach (paths : List Path) : Orderly (createEach paths) := by
  induction paths with
  | nil => exact Orderly.pure _
  | cons path rest inductionHypothesis =>
    refine (Orderly.invoke fun _ => by simp).bind fun reply => ?_
    cases reply with
    | ok _ => exact inductionHypothesis
    | error errno => exact Orderly.pure _

theorem orderly_createDirectories (path : Path) : Orderly (createDirectories path) := by
  unfold createDirectories
  split
  · exact Orderly.pure _
  · exact orderly_createEach _

theorem orderly_createDirectoriesOrThrow (path : Path) :
    Orderly (createDirectoriesOrThrow path) := by
  refine (orderly_createDirectories path).bind fun reply => ?_
  cases reply with
  | ok _ => exact Orderly.pure _
  | error errno => exact Orderly.fail _

theorem orderly_createSymlinkOrFallback (target : Bytes) (outputPath : Path) :
    Orderly (createSymlinkOrFallback target outputPath) := by
  refine (Orderly.invoke fun _ => by simp).bind fun _ => ?_
  refine (Orderly.invoke fun _ => by simp).bind fun created => ?_
  split
  · exact Orderly.pure _
  · refine (Orderly.invoke fun _ => by simp).bind fun opened => ?_
    cases opened with
    | none => exact Orderly.fail _
    | some fallback => exact (Orderly.invoke fun _ => by simp).bind fun _ => Orderly.pure _

theorem orderly_receivePayload (closed : Error) (counted : Bool) (output : Handle)
    (position missing : Nat) : Orderly (receivePayload closed counted output position missing) := by
  induction missing using Nat.strong_induction_on generalizing position with
  | h missing inductionHypothesis =>
    unfold receivePayload
    split
    · exact Orderly.pure _
    · rename_i incomplete
      refine (Orderly.read _).bind fun chunk => ?_
      split
      · exact Orderly.fail _
      · rename_i more
        refine (Orderly.invoke fun _ => by simp).bind fun written => ?_
        split
        · refine (Orderly.done fun state => ⟨_, rfl⟩).bind fun _ => ?_
          exact inductionHypothesis _ (by omega) _
        · exact Orderly.fail _

theorem orderly_receiveDirectoryFile (outputPath : Path) (incoming : IncomingHeader) :
    Orderly (receiveDirectoryFile outputPath incoming) := by
  refine (orderly_createDirectories _).bind fun reply => ?_
  cases reply with
  | error errno => exact Orderly.fail _
  | ok _ =>
    refine (Orderly.invoke fun _ => by simp).bind fun opened => ?_
    cases opened with
    | none => exact Orderly.fail _
    | some output =>
      refine (orderly_receivePayload _ _ _ _ _).bind fun _ => ?_
      refine (Orderly.invoke fun _ => by simp).bind fun _ => ?_
      exact (Orderly.invoke fun _ => by simp).bind fun _ => Orderly.pure _

/-- The code behind the block opens the path that the block handed out. -/
theorem orderly_openPart (incoming : IncomingHeader) (outputPath : Path) (state : StreamState)
    {view : StreamView} (handed : view.prepared = some outputPath) :
    Program.Obeys StreamView.look StreamView.Permits
      ((Receiver.invoke (.openReadWrite outputPath) >>= fun
        | none => Receiver.fail (cannotOpen outputPath)
        | some output =>
          if maximumOffset < incoming.offset.toNat then
            Receiver.fail (ascii "failed to seek output file")
          else receivePayload filePartClosed true output incoming.offset.toNat
            incoming.payloadSize.toNat : Receiver Unit) state) view := by
  refine ⟨fun path same => ?_, fun opened => ?_⟩
  · cases same
    exact handed
  · cases opened with
    | none => exact Orderly.fail _ _ _
    | some output =>
      show Program.Obeys _ _ ((if _ then _ else _ : Receiver Unit) state) _
      split
      · exact Orderly.fail _ _ _
      · exact orderly_receivePayload _ _ _ _ _ _ _

theorem orderly_receivePart (options : Options) (incoming : IncomingHeader) :
    Orderly (receivePart options incoming) := by
  refine (Orderly.check _).bind fun fileName => ?_
  split
  · exact Orderly.fail _
  · intro state view
    refine ⟨fun path same => (by cases same), fun prepared => ?_⟩
    cases prepared with
    | error error => trivial
    | ok outputPath => exact orderly_openPart incoming outputPath state rfl

theorem orderly_receiveRecord (options : Options) (incoming : IncomingHeader) :
    Orderly (receiveRecord options incoming) := by
  obtain ⟨kind, payloadSize, nameSize, offset, totalSize, fileName⟩ := incoming
  cases kind with
  | file | filePart => exact orderly_receivePart options _
  | directoryTar => exact Orderly.fail _
  | directoryEntry =>
    exact (Orderly.check _).bind fun relative => orderly_createDirectoriesOrThrow _
  | directoryFile =>
    exact (Orderly.check _).bind fun relative => orderly_receiveDirectoryFile _ _
  | directorySymlink =>
    refine (Orderly.check _).bind fun relative => ?_
    refine (orderly_createDirectoriesOrThrow _).bind fun _ => ?_
    refine (Orderly.read _).bind fun target => ?_
    refine (orderly_createSymlinkOrFallback _ _).bind fun _ => ?_
    exact Orderly.done fun state => ⟨_, rfl⟩

theorem orderly_receiveRecords (options : Options) (rounds : Nat) :
    Orderly (receiveRecords options rounds) := by
  induction rounds with
  | zero => exact Orderly.pure _
  | succ rounds inductionHypothesis =>
    refine (Orderly.read _).bind fun header => ?_
    cases header with
    | none => exact Orderly.pure _
    | some incoming =>
      exact (orderly_receiveRecord options incoming).bind fun _ => inductionHypothesis

theorem receiveFilePart_obeys (options : Options) (connection : Connection) (view : StreamView) :
    (receiveFilePart options connection).Obeys StreamView.look StreamView.Permits view :=
  (orderly_receiveRecords options _ _ view).bind fun _ _ => trivial

/-! ### Runs -/

/-- A parallel receive under observation. -/
abbrev ObservedReceive (streams : Nat) : Type :=
  Observed (Fin streams) Call Reply StreamResult World StreamView

/-- The start of a parallel receive, nothing seen yet. -/
def observeReceive {streams : Nat} (options : Options) (fs : FileSystem)
    (connections : Fin streams → Connection) : ObservedReceive streams where
  config := startReceive options fs connections
  past := []
  views _ := {}

/-- The shared output path was created and given the shared size: opening it with truncation
succeeded at some moment of the past, and this and the resize of the opened file are what
happened next. -/
def WasPrepared (past : List World) (world : World) : Prop :=
  ∃ earlier ∈ past, ∃ handle,
    (earlier.fs.openTruncate world.shared.outputPath).reply = some handle ∧
      earlier.history ++ ((earlier.fs.openTruncate world.shared.outputPath).effects ++
        [.resized handle.location world.shared.totalSize.toNat]) <+: world.history

theorem WasPrepared.mono {past : List World} {world later : World} (present : World)
    (prepared : WasPrepared past world) (shared : later.shared = world.shared)
    (history : world.history <+: later.history) : WasPrepared (past ++ [present]) later := by
  obtain ⟨earlier, member, handle, opened, happened⟩ := prepared
  refine ⟨earlier, List.mem_append_left _ member, handle, ?_, ?_⟩
  · rw [shared]
    exact opened
  · rw [shared]
    exact happened.trans history

theorem WasPrepared.not_noResize {past : List World} {world : World}
    (prepared : WasPrepared past world) : ¬ NoResize world.history := by
  obtain ⟨earlier, -, handle, -, happened⟩ := prepared
  intro quiet
  exact quiet handle.location world.shared.totalSize.toNat (happened.subset (by simp))

/-- Nobody takes an unprepared file for a prepared one: once the flag is set the shared path was
prepared, and a stream that is about to write bytes of a part has opened that path. The mutex
is free in every state of a run. -/
structure PreparedFirst {streams : Nat} (state : ObservedReceive streams) : Prop where
  flag : state.config.world.shared.initialized = true →
    WasPrepared state.past state.config.world
  parts : ∀ stream path handle position bytes next, (state.views stream).output = some path →
    state.config.threads stream = .call (.write handle position bytes) next →
      path = state.config.world.shared.outputPath ∧ WasPrepared state.past state.config.world

/-- If the step initializes the shared state, then the open and the resize succeed. -/
def InitializesWell {streams : Nat} (state : ObservedReceive streams)
    (pick : Fin streams × Fault) : Prop :=
  ∀ path name size next, state.config.threads pick.1 = .call (.prepare path name size) next →
    state.config.world.shared.initialized = false →
      Creates pick.2 path size state.config.world

/-- The path is the one that the streams share. -/
def Shares (path : Path) (world : World) : Prop :=
  world.shared.initialized = true ∧ path = world.shared.outputPath

/-- Before the flag is set no file is given a size, afterwards the shared path was prepared. -/
structure FlagSound (past : List World) (world : World) : Prop where
  fresh : world.shared.initialized = false → NoResize world.history
  prepared : world.shared.initialized = true → WasPrepared past world

/-- The invariant of a run: the flag is right, and the streams were handed the shared path
only. -/
structure Sound {streams : Nat} (state : ObservedReceive streams) : Prop where
  flag : FlagSound state.past state.config.world
  views : ∀ stream path,
    (state.views stream).prepared = some path ∨ (state.views stream).output = some path →
      Shares path state.config.world
  obeys : ∀ stream, (state.config.threads stream).Obeys StreamView.look StreamView.Permits
    (state.views stream)

theorem Sound.preparedFirst {streams : Nat} {state : ObservedReceive streams}
    (sound : Sound state) : PreparedFirst state := by
  refine ⟨sound.flag.prepared, fun stream path _ _ _ _ output _ => ?_⟩
  obtain ⟨initialized, same⟩ := sound.views stream path (Or.inr output)
  exact ⟨same, sound.flag.prepared initialized⟩

theorem sound_observeReceive {streams : Nat} (options : Options) (fs : FileSystem)
    (connections : Fin streams → Connection) :
    Sound (observeReceive options fs connections) where
  flag := ⟨fun _ _ _ => List.not_mem_nil, fun never => by cases never⟩
  views stream path seen := by
    rcases seen with never | never <;> cases never
  obeys stream := receiveFilePart_obeys options (connections stream) _

/-- A path that is handed out is the shared one. -/
theorem shares_of_prepare {fault : Fault} {path output : Path} {name : Bytes} {size : UInt64}
    {world : World} (handed : (prepare fault path name size world).1 = .ok output) :
    Shares output (prepare fault path name size world).2 := by
  obtain ⟨-, same⟩ | ⟨initialized, -, -, same⟩ | ⟨-, error, fs, effects, same, -⟩ |
      ⟨-, handle, fs, -, -, same⟩ := prepare_cases fault path name size world
  · rw [same] at handed
    cases handed
  · rw [same] at handed ⊢
    cases handed
    exact ⟨initialized, rfl⟩
  · rw [same] at handed
    cases handed
  · rw [same] at handed ⊢
    cases handed
    exact ⟨rfl, rfl⟩

/-- No call takes the shared path back. -/
theorem Shares.perform {path : Path} {world : World} (shares : Shares path world)
    (fault : Fault) (request : Call) : Shares path (perform fault request world).2 := by
  obtain ⟨same, -⟩ := perform_leavesShared fault request world fun _ _ _ _ => shares.1
  rw [Shares, same]
  exact shares

/-- What the observer sees of a permitted call: only the shared path. -/
theorem shares_of_look {view : StreamView} {request : Call} {world : World} {fault : Fault}
    (permitted : view.Permits request)
    (known : ∀ path, view.prepared = some path ∨ view.output = some path → Shares path world)
    (path : Path)
    (seen : (view.look request (perform fault request world).1).prepared = some path ∨
      (view.look request (perform fault request world).1).output = some path) :
    Shares path (perform fault request world).2 := by
  by_cases old : view.prepared = some path ∨ view.output = some path
  · exact (known path old).perform fault request
  · cases request with
    | prepare output name size =>
      show Shares path (HyperLink.prepare fault output name size world).2
      cases reply : (HyperLink.prepare fault output name size world).1 with
      | error error =>
        have same : (HyperLink.perform fault (.prepare output name size) world).1 = .error error :=
          reply
        rw [same] at seen
        exact absurd seen old
      | ok handed =>
        have same : (HyperLink.perform fault (.prepare output name size) world).1 = .ok handed :=
          reply
        rw [same] at seen
        rcases seen with new | kept
        · cases new
          exact shares_of_prepare reply
        · exact absurd (Or.inr kept) old
    | openReadWrite output =>
      rcases seen with kept | new
      · exact absurd (Or.inl kept) old
      · cases new
        exact absurd (Or.inl (permitted path rfl)) old
    | openTruncate output =>
      rcases seen with kept | never
      · exact absurd (Or.inl kept) old
      · cases never
    | _ => exact absurd seen old

/-- A call that leaves the shared state alone keeps the flag right. -/
theorem FlagSound.of_leavesShared {past : List World} {world later : World}
    (sound : FlagSound past world) (leaves : LeavesShared world later) :
    FlagSound (past ++ [world]) later := by
  obtain ⟨same, effects, history, quiet⟩ := leaves
  refine ⟨fun still location size member => ?_, fun initialized => ?_⟩
  · rw [same] at still
    rw [history] at member
    rcases List.mem_append.mp member with old | new
    · exact sound.fresh still location size old
    · exact quiet location size new
  · rw [same] at initialized
    exact (sound.prepared initialized).mono world same (history ▸ List.prefix_append _ _)

/-- A first block that succeeds prepares the shared path. -/
theorem wasPrepared_of_creates {past : List World} {world : World} {fault : Fault} {path : Path}
    {name : Bytes} {size : UInt64} (fresh : world.shared.initialized = false)
    (creates : Creates fault path size world) :
    WasPrepared (past ++ [world]) (prepare fault path name size world).2 := by
  obtain ⟨shared, ⟨-, -, handle, opened, history⟩ | ⟨never, -⟩⟩ :=
    prepare_fresh fault path name size fresh
  · refine ⟨world, by simp, handle, ?_, ?_⟩
    · rw [shared]
      exact opened
    · rw [shared, history]
  · exact absurd creates never

/-- After a first block that fails the flag is set, and no file was given a size. -/
theorem unprepared_of_not_creates {past : List World} {world : World} {fault : Fault} {path : Path}
    {name : Bytes} {size : UInt64} (sound : FlagSound past world)
    (fresh : world.shared.initialized = false) (fails : ¬ Creates fault path size world)
    (later : List World) :
    (prepare fault path name size world).2.shared.initialized = true ∧
      ¬ WasPrepared later (prepare fault path name size world).2 := by
  obtain ⟨shared, ⟨creates, -⟩ | ⟨-, -, effects, history, quiet⟩⟩ :=
    prepare_fresh fault path name size fresh
  · exact absurd creates fails
  · refine ⟨by rw [shared], fun prepared => prepared.not_noResize fun location size member => ?_⟩
    rw [history] at member
    rcases List.mem_append.mp member with old | new
    · exact sound.fresh fresh location size old
    · exact quiet location size new

/-- A step that initializes well, or not at all, keeps the flag right. -/
theorem FlagSound.perform {past : List World} {world : World} (sound : FlagSound past world)
    (fault : Fault) (request : Call)
    (well : ∀ path name size, request = .prepare path name size →
      world.shared.initialized = false → Creates fault path size world) :
    FlagSound (past ++ [world]) (perform fault request world).2 := by
  by_cases first : ∃ path name size, request = .prepare path name size ∧
      world.shared.initialized = false
  · obtain ⟨path, name, size, rfl, fresh⟩ := first
    have shared := (prepare_fresh fault path name size fresh).1
    refine ⟨fun still => ?_, fun _ => wasPrepared_of_creates fresh (well path name size rfl fresh)⟩
    change (prepare fault path name size world).2.shared.initialized = false at still
    rw [shared] at still
    cases still
  · refine sound.of_leavesShared ?_
    refine perform_leavesShared fault request world fun path name size is => ?_
    by_contra unset
    exact first ⟨path, name, size, is, Bool.eq_false_of_not_eq_true unset⟩

/-- Every step that initializes well, or not at all, keeps the invariant. -/
theorem Sound.step {streams : Nat} {state : ObservedReceive streams} (sound : Sound state)
    (pick : Fin streams × Fault) (well : InitializesWell state pick) :
    Sound (state.step perform StreamView.look pick) := by
  cases running : state.config.threads pick.1 with
  | done result =>
    rw [Observed.step_of_done running]
    exact sound
  | call request next =>
    have own := sound.obeys pick.1
    rw [running] at own
    obtain ⟨permitted, rest⟩ := own
    have flag := sound.flag.perform pick.2 request fun path name size is =>
      by subst is; exact well path name size next running
    refine ⟨?_, fun stream path seen => ?_, fun stream => ?_⟩
    · rw [Observed.step_of_call running]
      exact flag
    · rw [Observed.step_of_call running] at seen ⊢
      by_cases same : stream = pick.1
      · subst same
        simp only [Function.update_self] at seen
        exact shares_of_look permitted (sound.views pick.1) path seen
      · simp only [Function.update_of_ne same] at seen
        exact (sound.views stream path seen).perform pick.2 request
    · exact Observed.forall_step running sound.obeys (rest _) stream

/-- A step that initializes badly leaves the flag set and nothing prepared. -/
theorem Sound.spoiled {streams : Nat} {state : ObservedReceive streams} (sound : Sound state)
    (pick : Fin streams × Fault) (badly : ¬ InitializesWell state pick) :
    ¬ PreparedFirst (state.step perform StreamView.look pick) := by
  simp only [InitializesWell, not_forall] at badly
  obtain ⟨path, name, size, next, running, fresh, fails⟩ := badly
  rw [Observed.step_of_call running]
  intro fine
  obtain ⟨initialized, unprepared⟩ := @unprepared_of_not_creates state.past state.config.world
    pick.2 path name size sound.flag fresh fails (state.past ++ [state.config.world])
  exact unprepared (fine.flag initialized)

/-- A failed initialisation is never taken for a done one, in all states that a run passes,
exactly if no step of the run fails to initialize: the one block under the mutex that finds the
flag unset creates the file and gives it its size. This is so for every number of streams,
whatever they deliver, for every interleaving and every failure of the environment. -/
theorem preparedFirst_iff {streams : Nat} (options : Options) (fs : FileSystem)
    (connections : Fin streams → Connection) (schedule : List (Fin streams × Fault)) :
    Runs.Along (Observed.step perform StreamView.look) PreparedFirst
        (observeReceive options fs connections) schedule ↔
      Runs.Meets (Observed.step perform StreamView.look) InitializesWell
        (observeReceive options fs connections) schedule :=
  Runs.along_iff_meets (sound_observeReceive options fs connections)
    (fun _ pick sound => sound.step pick) (fun _ sound => sound.preparedFirst)
    (fun _ pick sound => sound.spoiled pick) schedule

/-- Two parts of a three-byte file, one on each of two streams. -/
def twoParts (stream : Fin 2) : Connection where
  remaining := if stream = 0 then Record.bytes ⟨.filePart, 2, 0, 3, ascii "f", ascii "ab"⟩
    else Record.bytes ⟨.filePart, 1, 2, 3, ascii "f", ascii "c"⟩
  fragments := []

/-- The resize fails for the first stream. The second one finds the flag set and writes its part
into a file that never got its size. -/
theorem failedResize_takenForDone :
    ¬ Runs.Along (Observed.step perform StreamView.look) PreparedFirst
        (observeReceive { parallel := 2, outputDir := Path.parse (ascii "/") } rootOnly twoParts)
        [(0, .second), (1, .none), (1, .none), (1, .none)] ∧
      ((startReceive { parallel := 2, outputDir := Path.parse (ascii "/") } rootOnly twoParts).run
        perform [(0, .second), (1, .none), (1, .none), (1, .none)]).world.history =
          [.createdFile [ascii "f"], .wrote [ascii "f"] 2 (ascii "c")] := by
  have history : ((startReceive { parallel := 2, outputDir := Path.parse (ascii "/") } rootOnly
      twoParts).run perform [(0, .second), (1, .none), (1, .none), (1, .none)]).world.history =
        [.createdFile [ascii "f"], .wrote [ascii "f"] 2 (ascii "c")] := by
    decide +kernel
  refine ⟨fun along => ?_, history⟩
  have last := (along _ List.prefix_rfl).flag
  rw [Observed.config_after] at last
  refine (last (by decide +kernel)).not_noResize fun location size member => ?_
  change _ ∈ ((startReceive _ rootOnly twoParts).run perform _).world.history at member
  rw [history] at member
  simp at member

end HyperLink
