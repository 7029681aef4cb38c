/-
This file is about the receiver with one stream, on every stream it can be sent.
A `File` record becomes the output file and the rest of a `DirectoryTar` stream
goes to the extractor. The records of a parallel sender are not for it, and of
these it refuses file parts only: after any other kind it takes what follows for
an archive.
-/

import HyperLink.Reference
import HyperLink.Resolution

namespace HyperLink

open Threads Receiver FileSystem

/-! ### What the stream begins with -/

/-- The stream begins with a header of this kind and an acceptable name. -/
def BeginsWith (kind : TransferKind) (stream : Bytes) : Prop :=
  ∃ payloadSize offset totalSize name rest, NameSize name ∧
    (∃ fileName, safeFileName name = .ok fileName) ∧
    stream = makeHeader kind payloadSize (sizeField name) offset totalSize ++ name ++ rest

/-- The header that is received is the one the stream begins with. -/
theorem beginsWith_of_receiveHeader {connection rest : Connection} {incoming : IncomingHeader}
    (received : receiveHeader connection = .ok (incoming, rest)) :
    BeginsWith incoming.kind connection.remaining := by
  have whole := forget_receiveHeader connection
  rw [received, forget_ok] at whole
  obtain ⟨announced, fileName, read, safe, same⟩ := (headerOf_eq_ok_iff _ _ _).mp whole.symm
  obtain ⟨stream, length, accepted⟩ := encoded_of_headerOptionalOf read
  rw [not_or, gt_iff_lt, UInt64.lt_iff_toNat_lt, not_lt, ← UInt64.toNat_inj, ← length] at accepted
  have size : sizeField announced.fileName = announced.nameSize := by
    rw [← UInt64.toNat_inj, toNat_sizeField accepted.2, length]
  refine ⟨announced.payloadSize, announced.offset, announced.totalSize, announced.fileName,
    rest.remaining, ⟨Nat.pos_of_ne_zero accepted.1, accepted.2⟩, ⟨fileName, safe⟩, ?_⟩
  rw [same, size]
  exact stream

theorem receiveHeader_of_beginsWith {kind : TransferKind} {connection : Connection}
    (begins : BeginsWith kind connection.remaining) :
    ∃ incoming rest, receiveHeader connection = .ok (incoming, rest) ∧ incoming.kind = kind := by
  obtain ⟨payloadSize, offset, totalSize, name, rest, size, ⟨fileName, safe⟩, stream⟩ := begins
  have read := headerOptionalOf_encoded kind payloadSize offset totalSize name rest size
  have whole := forget_receiveHeader connection
  rw [stream, (headerOf_eq_ok_iff _ _ _).mpr ⟨_, fileName, read, safe, rfl⟩] at whole
  obtain ⟨later, outcome, -⟩ := ok_of_forget whole
  exact ⟨_, later, outcome, rfl⟩

/-! ### A file -/

theorem readFile_write {fs : FileSystem} {path : Path} {handle : Handle}
    (opens : fs.Opens path handle) (empty : (fs.files handle.inode).content = [])
    (payload : Bytes) : (fs.write handle 0 payload).fs.readFile path = some payload := by
  unfold FileSystem.write
  rw [(opens.keeps (Keeps.setFile _ _ _)).readFile, files_setFile, Function.update_self, empty]
  by_cases nothing : payload = []
  · simp [nothing]
  · simp [writeAt, nothing]

/-- What arrives of a payload becomes the file's content, and nothing else is written. -/
theorem run_receivePayloadToFile (path : Path) (size : UInt64) (state : StreamState)
    {world : World} {handle : Handle} (opened : (world.fs.openTruncate path).reply = some handle) :
    let run := (receivePayloadToFile path size state).run performCall world
    let payload := state.connection.remaining.take size.toNat
    run.1.1 = (if payload.length < size.toNat then .error transferClosed else .ok ()) ∧
      run.2.bytewise =
        (Reference.written handle 0 payload (world.onFiles (world.fs.openTruncate path)).2).bytewise ∧
      run.2.fs.readFile path = some payload := by
  have reply : (performCall (.openTruncate path) world).1 = some handle := opened
  obtain ⟨outcome, -, -, changed⟩ := run_receivePayload transferClosed false handle 0 size.toNat
    state (performCall (.openTruncate path) world).2
  have files := ((World.bytewise_eq_iff _ _).mp changed).1
  simp only [receivePayloadToFile, bind_apply, invoke_apply, Program.bind_call, Program.bind_done,
    andThen_ok, Program.run_call]
  rw [reply]
  refine ⟨outcome, changed, ?_⟩
  simp only []
  rw [files]
  exact readFile_write (opens_of_openTruncate opened).1 (content_of_openTruncate opened) _

/-- A file that cannot be opened is not touched. -/
theorem run_receivePayloadToFile_refused (path : Path) (size : UInt64) (state : StreamState)
    {world : World} (refused : (world.fs.openTruncate path).reply = none) :
    (receivePayloadToFile path size state).run performCall world =
      ((.error (cannotOpen path), state), world) := by
  have reply : (performCall (.openTruncate path) world).1 = none := refused
  obtain ⟨files, effects⟩ := openTruncate_none refused
  simp only [receivePayloadToFile, bind_apply, invoke_apply, Program.bind_call, Program.bind_done,
    andThen_ok, Program.run_call]
  rw [reply]
  simp [performCall, World.onFiles, files, effects]

/-! ### An archive -/

/-- The loop pipes all that is still to come. -/
theorem run_pipeStream (rounds : Nat) (state : StreamState) (world : World) (pipe : Extractor)
    (enough : state.connection.remaining.length ≤ rounds) (started : world.extractor = some pipe) :
    ((pipeStream rounds state).run performCall world).1.1 =
        .ok (UInt64.ofNat state.connection.remaining.length) ∧
      ((pipeStream rounds state).run performCall world).2 = { world with
        extractor := some ⟨pipe.command, pipe.input ++ state.connection.remaining⟩ } := by
  induction rounds generalizing state world pipe with
  | zero =>
    have ended := List.length_eq_zero_iff.mp (Nat.le_zero.mp enough)
    rw [ended]
    exact ⟨rfl, by rw [List.append_nil, ← started]; rfl⟩
  | succ rounds inductionHypothesis =>
    obtain ⟨ended, nothing, -⟩ | ⟨byte, bytes, rest, chunk, -, split⟩ :=
      receiveInto_cases state.connection (by decide : 0 < kChunkBytes)
    · simp only [pipeStream, bind_apply, read_receiveInto, Program.bind_done, andThen_ok]
      rw [nothing, ended]
      exact ⟨rfl, by rw [List.append_nil, ← started]; rfl⟩
    · have round : (pipeStream (rounds + 1) state).run performCall world =
          ((pipeStream rounds ⟨rest, state.bytes⟩).bind (andThen fun later =>
            (pure (UInt64.ofNat (bytes.length + 1) + later) : Receiver UInt64))).run performCall
            { world with extractor := some ⟨pipe.command, pipe.input ++ byte :: bytes⟩ } := by
        simp only [pipeStream, bind_apply, read_receiveInto, Program.bind_done, andThen_ok, chunk,
          List.length_cons, Nat.succ_ne_zero, if_false, invoke_apply, Program.bind_call,
          Program.run_call, performCall]
        rw [started]
        rfl
      rw [split, List.length_append, List.length_cons] at enough
      obtain ⟨outcome, later⟩ := inductionHypothesis ⟨rest, state.bytes⟩
        { world with extractor := some ⟨pipe.command, pipe.input ++ byte :: bytes⟩ }
        ⟨pipe.command, pipe.input ++ byte :: bytes⟩ (by simp only []; omega) rfl
      rw [round, Program.run_bind, split]
      generalize (pipeStream rounds ⟨rest, state.bytes⟩).run performCall
        { world with extractor := some ⟨pipe.command, pipe.input ++ byte :: bytes⟩ } = run
        at outcome later
      obtain ⟨⟨reply, last⟩, changed⟩ := run
      simp only at outcome later
      rw [outcome, later]
      refine ⟨?_, ?_⟩
      · show Except.ok (UInt64.ofNat (bytes.length + 1) + UInt64.ofNat rest.remaining.length) = _
        rw [← UInt64.ofNat_add, List.length_append, List.length_cons]
      · show ({ world with extractor := _ } : World) = _
        rw [List.append_assoc]

/-- All that is still to come goes to the extractor. -/
theorem run_receiveStreamToPipe (command : Bytes) (state : StreamState) (world : World) :
    ((receiveStreamToPipe command state).run performCall world).1.1 =
        .ok (UInt64.ofNat state.connection.remaining.length) ∧
      ((receiveStreamToPipe command state).run performCall world).2 =
        { world with extractor := some ⟨command, state.connection.remaining⟩ } := by
  have round : (receiveStreamToPipe command state).run performCall world =
      ((pipeStream state.connection.remaining.length state).bind (andThen fun received => do
        let ended ← invoke .closePipe
        if ended = true then return received else fail (commandFailed command))).run performCall
        { world with extractor := some ⟨command, []⟩ } := rfl
  obtain ⟨outcome, later⟩ := run_pipeStream state.connection.remaining.length state
    { world with extractor := some ⟨command, []⟩ } ⟨command, []⟩ (Nat.le_refl _) rfl
  rw [round, Program.run_bind]
  generalize (pipeStream state.connection.remaining.length state).run performCall
    { world with extractor := some ⟨command, []⟩ } = run at outcome later
  obtain ⟨⟨reply, last⟩, changed⟩ := run
  simp only at outcome later
  rw [outcome, later]
  exact ⟨rfl, rfl⟩

/-! ### Every stream -/

/-- The receiver with one stream on a connection, from a file system that holds whatever it
holds. -/
def runSingle (options : Options) (connection : Connection) (fs : FileSystem) :
    (Except Error UInt64 × StreamState) × World :=
  (runReceiveSingle options ⟨connection, 0⟩).run performCall ⟨fs, {}, none, []⟩

/-- A `File` record is saved: its payload, or what arrives of it, is the content of the output
file, and nothing else is written. It fails exactly if too little arrives. -/
def SavesFile (options : Options) (connection : Connection) (fs : FileSystem) : Prop :=
  ∃ incoming rest handle, receiveHeader connection = .ok (incoming, rest) ∧
    incoming.kind = .file ∧
    let path := options.outputDir / Path.parse incoming.fileName
    let payload := rest.remaining.take incoming.payloadSize.toNat
    let start : World := ⟨fs, {}, none, []⟩
    let run := runSingle options connection fs
    (fs.openTruncate path).reply = some handle ∧
      run.1.1 = (if payload.length < incoming.payloadSize.toNat then .error transferClosed
        else .ok incoming.payloadSize) ∧
      run.2.fs.readFile path = some payload ∧
      run.2.bytewise =
        (Reference.written handle 0 payload (start.onFiles (fs.openTruncate path)).2).bytewise

/-- The rest of a `DirectoryTar` stream is piped to the extractor. -/
def PipesArchive (options : Options) (connection : Connection) (fs : FileSystem) : Prop :=
  ∃ incoming rest, receiveHeader connection = .ok (incoming, rest) ∧
    incoming.kind = .directoryTar ∧
    (runSingle options connection fs).1.1 = .ok (UInt64.ofNat rest.remaining.length) ∧
    (runSingle options connection fs).2 =
      ⟨fs, {}, some ⟨tarExtractCommand options.outputDir, rest.remaining⟩, []⟩

/-- The receiver fails with nothing touched and no extractor started. -/
def FailsClean (options : Options) (connection : Connection) (fs : FileSystem) : Prop :=
  (∃ error, (runSingle options connection fs).1.1 = .error error) ∧
    (runSingle options connection fs).2 = ⟨fs, {}, none, []⟩

/-- The receiver handles the kinds of a single stream and fails on everything else. -/
def HandlesSingle (options : Options) (connection : Connection) (fs : FileSystem) : Prop :=
  (SavesFile options connection fs ∨ PipesArchive options connection fs ∨
      FailsClean options connection fs) ∧
    ∀ kind ∈ [TransferKind.filePart, .directoryEntry, .directoryFile, .directorySymlink],
      BeginsWith kind connection.remaining → FailsClean options connection fs

section kinds

variable {options : Options} {connection rest : Connection} {incoming : IncomingHeader}
  (fs : FileSystem)

theorem runSingle_of_error {error : Error} (refused : receiveHeader connection = .error error) :
    FailsClean options connection fs := by
  have stopped : Receiver.read receiveHeader ⟨connection, 0⟩ = _ := read_of_error refused
  have run : runSingle options connection fs =
      ((.error error, ⟨connection, 0⟩), ⟨fs, {}, none, []⟩) := by
    simp only [runSingle, runReceiveSingle, bind_apply, stopped, Program.bind_done, andThen_error,
      Program.run_done]
  exact ⟨⟨error, by rw [run]⟩, by rw [run]⟩

theorem runSingle_of_filePart (received : receiveHeader connection = .ok (incoming, rest))
    (kind : incoming.kind = .filePart) : FailsClean options connection fs := by
  have started : Receiver.read receiveHeader ⟨connection, 0⟩ = _ := read_of_ok received
  have run : (runSingle options connection fs).1.1 =
        .error (ascii "incoming file uses parallel parts; restart receiver with --parallel") ∧
      (runSingle options connection fs).2 = ⟨fs, {}, none, []⟩ := by
    simp only [runSingle, runReceiveSingle, bind_apply, started, Program.bind_done, andThen_ok,
      kind, if_true]
    exact ⟨rfl, rfl⟩
  exact ⟨⟨_, run.1⟩, run.2⟩

theorem runSingle_of_file (received : receiveHeader connection = .ok (incoming, rest))
    (kind : incoming.kind = .file) :
    SavesFile options connection fs ∨ FailsClean options connection fs := by
  have started : Receiver.read receiveHeader ⟨connection, 0⟩ = _ := read_of_ok received
  have code : runSingle options connection fs =
      ((receivePayloadToFile (options.outputDir / Path.parse incoming.fileName)
        incoming.payloadSize ⟨rest, 0⟩).bind (andThen fun _ =>
          (pure incoming.payloadSize : Receiver UInt64))).run performCall ⟨fs, {}, none, []⟩ := by
    simp only [runSingle, runReceiveSingle, bind_apply, started, Program.bind_done, andThen_ok,
      kind, reduceCtorEq, if_false, if_true]
  rw [Program.run_bind] at code
  cases opened : (fs.openTruncate (options.outputDir / Path.parse incoming.fileName)).reply with
  | none =>
    rw [run_receivePayloadToFile_refused _ _ ⟨rest, 0⟩ opened] at code
    refine .inr ⟨⟨cannotOpen (options.outputDir / Path.parse incoming.fileName), ?_⟩, ?_⟩
    · rw [code]
      rfl
    · rw [code]
      rfl
  | some handle =>
    obtain ⟨outcome, changed, content⟩ := @run_receivePayloadToFile
      (options.outputDir / Path.parse incoming.fileName) incoming.payloadSize ⟨rest, 0⟩
      ⟨fs, {}, none, []⟩ handle opened
    generalize (receivePayloadToFile (options.outputDir / Path.parse incoming.fileName)
      incoming.payloadSize ⟨rest, 0⟩).run performCall ⟨fs, {}, none, []⟩ = run at *
    obtain ⟨⟨reply, last⟩, later⟩ := run
    refine .inl ⟨incoming, rest, handle, received, kind, opened, ?_, ?_, ?_⟩
    · rw [code]
      simp only at outcome
      rw [outcome]
      split <;> rfl
    · rw [code]
      cases reply <;> exact content
    · rw [code]
      cases reply <;> exact changed

/-- Every other kind goes to the extractor. -/
theorem runSingle_of_other (received : receiveHeader connection = .ok (incoming, rest))
    (notPart : incoming.kind ≠ .filePart) (notFile : incoming.kind ≠ .file) :
    (runSingle options connection fs).1.1 = .ok (UInt64.ofNat rest.remaining.length) ∧
      (runSingle options connection fs).2 =
        ⟨fs, {}, some ⟨tarExtractCommand options.outputDir, rest.remaining⟩, []⟩ := by
  have started : Receiver.read receiveHeader ⟨connection, 0⟩ = _ := read_of_ok received
  have code : runSingle options connection fs =
      (receiveStreamToPipe (tarExtractCommand options.outputDir) ⟨rest, 0⟩).run performCall
        ⟨fs, {}, none, []⟩ := by
    simp only [runSingle, runReceiveSingle, bind_apply, started, Program.bind_done, andThen_ok,
      notPart, notFile, if_false]
  rw [code]
  exact run_receiveStreamToPipe _ _ _

/-- A record of a parallel directory transfer starts the extractor. -/
theorem not_failsClean_of_other (received : receiveHeader connection = .ok (incoming, rest))
    (notPart : incoming.kind ≠ .filePart) (notFile : incoming.kind ≠ .file) :
    ¬ FailsClean options connection fs := by
  rintro ⟨-, untouched⟩
  rw [(runSingle_of_other fs received notPart notFile).2] at untouched
  cases untouched

end kinds

/-- The receiver with one stream handles exactly the kinds of a single stream, whatever the
stream, its pieces and the file system, unless the stream begins with a record of a parallel
directory transfer. -/
theorem handlesSingle_iff (options : Options) (connection : Connection) (fs : FileSystem) :
    HandlesSingle options connection fs ↔
      ¬ (BeginsWith .directoryEntry connection.remaining ∨
        BeginsWith .directoryFile connection.remaining ∨
        BeginsWith .directorySymlink connection.remaining) := by
  constructor
  · rintro ⟨-, clean⟩ begins
    have misled : ∀ kind, kind ≠ .filePart → kind ≠ .file →
        kind ∈ [TransferKind.filePart, .directoryEntry, .directoryFile, .directorySymlink] →
        ¬ BeginsWith kind connection.remaining := by
      intro kind notPart notFile parallel begins
      obtain ⟨incoming, rest, received, rfl⟩ := receiveHeader_of_beginsWith begins
      exact not_failsClean_of_other fs received notPart notFile (clean _ parallel begins)
    rcases begins with entry | file | link
    · exact misled _ (by decide) (by decide) (by decide) entry
    · exact misled _ (by decide) (by decide) (by decide) file
    · exact misled _ (by decide) (by decide) (by decide) link
  · intro spared
    simp only [not_or] at spared
    obtain ⟨notEntry, notFile, notLink⟩ := spared
    cases received : receiveHeader connection with
    | error error =>
      have clean := @runSingle_of_error options connection fs error received
      exact ⟨.inr (.inr clean), fun _ _ _ => clean⟩
    | ok pair =>
      obtain ⟨incoming, rest⟩ := pair
      have begins := beginsWith_of_receiveHeader received
      -- The header is the only one the stream begins with.
      have only : ∀ kind, BeginsWith kind connection.remaining → kind = incoming.kind := by
        intro kind other
        obtain ⟨second, _, again, rfl⟩ := receiveHeader_of_beginsWith other
        rw [received] at again
        cases again
        rfl
      have parallel : incoming.kind ≠ .filePart →
          ∀ kind ∈ [TransferKind.filePart, .directoryEntry, .directoryFile, .directorySymlink],
            ¬ BeginsWith kind connection.remaining := by
        intro notPart kind member other
        simp only [List.mem_cons, List.not_mem_nil, or_false] at member
        rcases member with rfl | rfl | rfl | rfl
        · exact notPart (only _ other).symm
        · exact notEntry other
        · exact notFile other
        · exact notLink other
      cases kind : incoming.kind with
      | file =>
        have none := parallel (by rw [kind]; decide)
        refine ⟨?_, fun other member begins => absurd begins (none other member)⟩
        rcases @runSingle_of_file options connection rest incoming fs received kind with
          saved | clean
        · exact .inl saved
        · exact .inr (.inr clean)
      | directoryTar =>
        have none := parallel (by rw [kind]; decide)
        refine ⟨.inr (.inl ?_), fun other member begins => absurd begins (none other member)⟩
        exact ⟨incoming, rest, received, kind, runSingle_of_other fs received
          (by rw [kind]; decide) (by rw [kind]; decide)⟩
      | filePart =>
        have clean := @runSingle_of_filePart options connection rest incoming fs received kind
        exact ⟨.inr (.inr clean), fun _ _ _ => clean⟩
      | directoryEntry => exact absurd (kind ▸ begins) notEntry
      | directoryFile => exact absurd (kind ▸ begins) notFile
      | directorySymlink => exact absurd (kind ▸ begins) notLink

/-- The first record of a parallel directory sender: the directory `d`. -/
def directoryStream : Connection :=
  ⟨makeHeader .directoryEntry 0 (sizeField (ascii "d")) 0o755 0 ++ ascii "d" ++ [], []⟩

/-- The receiver takes what follows the record for an archive. -/
theorem directoryStream_extracted :
    ¬ HandlesSingle {} directoryStream rootOnly ∧
      (runSingle {} directoryStream rootOnly).2.extractor =
        some ⟨tarExtractCommand (Path.parse dot), []⟩ := by
  have begins : BeginsWith .directoryEntry directoryStream.remaining :=
    ⟨0, 0o755, 0, ascii "d", [], by decide, ⟨ascii "d", by decide⟩, rfl⟩
  obtain ⟨incoming, rest, received, kind⟩ := receiveHeader_of_beginsWith begins
  have notPart : incoming.kind ≠ .filePart := by
    rw [kind]
    decide
  have notFile : incoming.kind ≠ .file := by
    rw [kind]
    decide
  refine ⟨fun handles => ?_, ?_⟩
  · exact not_failsClean_of_other rootOnly received notPart notFile
      (handles.2 .directoryEntry (by decide) begins)
  · decide +kernel

end HyperLink
