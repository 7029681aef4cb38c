/-
This file is the receiving side of `examples/file_transfer.cpp`. The threads of
a parallel receive share the file system and one `ReceiveSharedState`; every
system call is one call of the thread's program, and so is the block under
`shared.mutex`. Reading from the connection is local to a thread and needs no
call. An exception ends the thread and keeps the bytes counted so far.

The environment may let any call fail: a `Fault` says which. The schedule of a
run therefore fixes both the interleaving and the failures.

An output stream has a buffer. A chunk that it takes may reach the file later, and
the last ones only when the stream is closed, after the code has made its last
call; nobody sees it then if they cannot be written. Here a chunk is in the file at
once. What the delay can change is left to the environment: `perform` may lose a
chunk that was taken, and a stream that is closed may still hold bytes.
-/

import HyperLink.FileSystem
import HyperLink.Options
import HyperLink.HeaderCodec
import HyperLink.Interleaving

namespace HyperLink

open Threads

/-! ### The shared world -/

structure ReceiveSharedState where
  initialized : Bool := false
  outputPath : Path := Path.parse []
  fileName : Bytes := []
  totalSize : UInt64 := 0
  deriving DecidableEq, Repr

/-- A tar extractor that was started: its command line and what was piped to it. -/
structure Extractor where
  command : Bytes
  input : Bytes
  deriving DecidableEq, Repr

/-- The shared world. `history` is every change made so far, in order; no call reads it. -/
structure World where
  fs : FileSystem
  shared : ReceiveSharedState
  extractor : Option Extractor
  history : List Effect

/-- The calls of a receiving thread. `prepare` is the whole block under `shared.mutex`, and `close`
the end of an output stream whose file has got its mode before. -/
inductive Call where
  | createDirectory (path : Path)
  | openTruncate (path : Path)
  | openReadWrite (path : Path)
  | write (handle : Handle) (position : Nat) (bytes : Bytes)
  | close (output : Handle)
  | setPermissions (path : Path) (mode : Nat)
  | remove (path : Path)
  | createSymlink (target : Bytes) (path : Path)
  | prepare (outputPath : Path) (fileName : Bytes) (totalSize : UInt64)
  | openPipe (command : Bytes)
  | writePipe (bytes : Bytes)
  | closePipe

abbrev Reply : Call → Type
  | .createDirectory _ => Except Errno Unit
  | .openTruncate _ | .openReadWrite _ => Option Handle
  | .prepare _ _ _ => Except Error Path
  | .close _ => Unit
  | .write _ _ _ | .setPermissions _ _ | .remove _ | .createSymlink _ _ | .openPipe _
  | .writePipe _ | .closePipe => Bool

/-- A failure the environment injects into a call. The block under the mutex makes two system
calls, so there are two ways for it to fail. A `write` is refused, or the stream takes the bytes
and cannot write them later, when it is closed or before. The close of a stream does not fail:
`first` means that the stream still holds bytes and writes them as an unprivileged process. -/
inductive Fault where
  | none
  | first
  | second
  deriving DecidableEq, Repr

def cannotCreate (path : Path) : Error := ascii "failed to create output file: " ++ path.string

/-- The exception of a throwing call of the filesystem library. Its text is the library's. -/
def filesystemError (path : Path) : Error := ascii "filesystem error: " ++ path.string

def notSameFile : Error := ascii "incoming file parts do not describe the same file"

/-- Carry out a file-system call in the world. -/
def World.onFiles {Value : Type} (world : World) (outcome : Outcome Value) : Value × World :=
  (outcome.reply,
    { world with fs := outcome.fs, history := world.history ++ outcome.effects })

/-- The block under `shared.mutex` of `receive_file_part`. The fields are set before the two
calls that can fail. -/
def prepare (fault : Fault) (outputPath : Path) (fileName : Bytes) (totalSize : UInt64)
    (world : World) : Except Error Path × World :=
  if world.shared.initialized then
    if world.shared.fileName ≠ fileName ∨ world.shared.totalSize ≠ totalSize then
      (.error notSameFile, world)
    else (.ok world.shared.outputPath, world)
  else
    let world := { world with
      shared := ⟨true, outputPath, fileName, totalSize⟩ }
    let opened := world.onFiles (if fault = .first then world.fs.unchanged none
      else world.fs.openTruncate outputPath)
    match opened.1 with
    | none => (.error (cannotCreate outputPath), opened.2)
    | some _ =>
        let resized := opened.2.onFiles (if fault = .second then opened.2.fs.unchanged false
          else opened.2.fs.resizeFile outputPath totalSize.toNat)
        if resized.1 then (.ok outputPath, resized.2)
        else (.error (filesystemError outputPath), resized.2)

/-- What a call does and replies when the environment lets it succeed. -/
def performCall : (request : Call) → World → Reply request × World
  | .createDirectory path, world => world.onFiles (world.fs.createDirectory path)
  | .openTruncate path, world => world.onFiles (world.fs.openTruncate path)
  | .openReadWrite path, world => world.onFiles (world.fs.openReadWrite path)
  | .write handle position bytes, world => world.onFiles (world.fs.write handle position bytes)
  | .close _, world => ((), world)
  | .setPermissions path mode, world => world.onFiles (world.fs.setPermissions path mode)
  | .remove path, world => world.onFiles (world.fs.remove path)
  | .createSymlink target path, world => world.onFiles (world.fs.createSymlink target path)
  | .prepare outputPath fileName totalSize, world =>
      prepare .none outputPath fileName totalSize world
  | .openPipe command, world => (true, { world with extractor := some ⟨command, []⟩ })
  | .writePipe bytes, world =>
      (true, { world with
        extractor := world.extractor.map fun pipe => ⟨pipe.command, pipe.input ++ bytes⟩ })
  | .closePipe, world => (true, world)

/-- What a call replies when the environment makes it fail; it then changes nothing. -/
def refusal : (request : Call) → Reply request
  | .createDirectory _ => .error .inputOutput
  | .openTruncate _ | .openReadWrite _ => none
  | .prepare outputPath _ _ => .error (cannotCreate outputPath)
  | .close _ => ()
  | .write _ _ _ | .setPermissions _ _ | .remove _ | .createSymlink _ _ | .openPipe _
  | .writePipe _ | .closePipe => false

/-- One call under a fault of the environment. -/
def perform (fault : Fault) (request : Call) (world : World) : Reply request × World :=
  match request with
  | .prepare outputPath fileName totalSize => prepare fault outputPath fileName totalSize world
  | .write handle position bytes =>
      if fault = .none then performCall (.write handle position bytes) world
      else (fault = .second, world)
  | .close output =>
      if fault = .first then world.onFiles (world.fs.writeHeldBack output) else ((), world)
  | request => if fault = .none then performCall request world else (refusal request, world)

/-- What the close of a stream does: nothing, or the mode of its file loses the set-ID bits. -/
theorem perform_close (fault : Fault) (output : Handle) (world : World) :
    (perform fault (.close output) world).2 = world ∨
      (perform fault (.close output) world).2 = (world.onFiles (Outcome.mk ()
        (world.fs.setFile output.inode ⟨(world.fs.files output.inode).content,
          FileSystem.withoutSetId (world.fs.files output.inode).mode⟩)
        [.changedMode output.location
          (FileSystem.withoutSetId (world.fs.files output.inode).mode)])).2 := by
  simp only [perform, FileSystem.writeHeldBack]
  split
  · split
    · left
      simp [World.onFiles, FileSystem.unchanged]
    · exact Or.inr rfl
  · exact Or.inl rfl

/-- The environment makes no call fail. -/
def NoFault (fault : Fault) (_ : Call) (_ : World) : Prop := fault = .none

/-- The bytes that a stream took are written, at the latest when it is closed. -/
def TakenIsWritten (fault : Fault) : Call → World → Prop
  | .write _ _ _, _ => fault ≠ .second
  | _, _ => True

instance decidableTakenIsWritten (fault : Fault) :
    (request : Call) → (world : World) → Decidable (TakenIsWritten fault request world)
  | .write _ _ _, _ => inferInstanceAs (Decidable (fault ≠ .second))
  | .createDirectory _, _ => isTrue trivial
  | .openTruncate _, _ => isTrue trivial
  | .openReadWrite _, _ => isTrue trivial
  | .close _, _ => isTrue trivial
  | .setPermissions _ _, _ => isTrue trivial
  | .remove _, _ => isTrue trivial
  | .createSymlink _ _, _ => isTrue trivial
  | .prepare _ _ _, _ => isTrue trivial
  | .openPipe _, _ => isTrue trivial
  | .writePipe _, _ => isTrue trivial
  | .closePipe, _ => isTrue trivial

theorem takenIsWritten_of_noFault {fault : Fault} (request : Call) (world : World)
    (quiet : NoFault fault request world) : TakenIsWritten fault request world := by
  cases (show fault = .none from quiet)
  cases request with
  | write handle position bytes => exact fun never => by cases never
  | _ => trivial

/-! ### The code of one stream -/

/-- What a thread of the receiver holds besides its program: its connection and
`result.bytes`. -/
structure StreamState where
  connection : Connection
  bytes : UInt64
  deriving DecidableEq, Repr

structure StreamResult where
  bytes : UInt64 := 0
  error : Option Error := none
  deriving DecidableEq, Repr

/-- Code of a receiving thread that returns a value or throws. -/
def Receiver (Value : Type) : Type :=
  StreamState → Program Call Reply (Except Error Value × StreamState)

namespace Receiver

variable {Value Other : Type}

/-- Continue after a part of the code, unless it threw. -/
def andThen (continuation : Value → Receiver Other) :
    Except Error Value × StreamState → Program Call Reply (Except Error Other × StreamState)
  | (.ok value, state) => continuation value state
  | (.error error, state) => .done (.error error, state)

instance : Monad Receiver where
  pure value := fun state => .done (.ok value, state)
  bind code continuation := fun state => (code state).bind (andThen continuation)

/-- Throw an exception. -/
def fail (error : Error) : Receiver Value := fun state => .done (.error error, state)

/-- Make a call. -/
def invoke (request : Call) : Receiver (Reply request) := fun state =>
  .call request fun reply => .done (.ok reply, state)

/-- Read from the connection. -/
def read (reader : Connection → Except Error (Value × Connection)) : Receiver Value := fun state =>
  match reader state.connection with
  | .ok (value, connection) => .done (.ok value, { state with connection := connection })
  | .error error => .done (.error error, state)

/-- Check a name. -/
def check (outcome : Except Error Value) : Receiver Value := fun state =>
  .done (outcome, state)

/-- Add to `result.bytes`. -/
def count (bytes : UInt64) : Receiver Unit := fun state =>
  .done (.ok (), { state with bytes := state.bytes + bytes })

@[simp]
theorem pure_apply (value : Value) (state : StreamState) :
    (pure value : Receiver Value) state = .done (.ok value, state) := rfl

@[simp]
theorem bind_apply (code : Receiver Value) (continuation : Value → Receiver Other)
    (state : StreamState) :
    (code >>= continuation) state = (code state).bind (andThen continuation) := rfl

@[simp]
theorem andThen_ok (continuation : Value → Receiver Other) (value : Value)
    (state : StreamState) :
    andThen continuation (.ok value, state) = continuation value state := rfl

@[simp]
theorem andThen_error (continuation : Value → Receiver Other) (error : Error)
    (state : StreamState) :
    andThen continuation (.error error, state) = .done (.error error, state) := rfl

@[simp]
theorem fail_apply (error : Error) (state : StreamState) :
    (fail error : Receiver Value) state = .done (.error error, state) := rfl

@[simp]
theorem invoke_apply (request : Call) (state : StreamState) :
    invoke request state = .call request fun reply => .done (.ok reply, state) := rfl

@[simp]
theorem check_apply (outcome : Except Error Value) (state : StreamState) :
    check outcome state = .done (outcome, state) := rfl

@[simp]
theorem count_apply (bytes : UInt64) (state : StreamState) :
    count bytes state = .done (.ok (), { state with bytes := state.bytes + bytes }) := rfl

/-- One read of at most the given size. -/
@[simp]
theorem read_receiveInto (size : Nat) (state : StreamState) :
    read (fun connection => .ok (connection.receiveInto size)) state =
      .done (.ok (state.connection.receiveInto size).1,
        { state with connection := (state.connection.receiveInto size).2 }) := rfl

theorem read_of_ok {reader : Connection → Except Error (Value × Connection)}
    {state : StreamState} {value : Value} {rest : Connection}
    (outcome : reader state.connection = .ok (value, rest)) :
    read reader state = .done (.ok value, { state with connection := rest }) := by
  unfold read
  rw [outcome]

theorem read_of_error {reader : Connection → Except Error (Value × Connection)}
    {state : StreamState} {error : Error} (outcome : reader state.connection = .error error) :
    read reader state = .done (.error error, state) := by
  unfold read
  rw [outcome]

end Receiver

open Receiver

/-- `create_directories`: create every missing directory on the way, outermost first. A library
may refuse a path with very many missing directories; here that is a call that fails. -/
def createEach : List Path → Receiver (Except Errno Unit)
  | [] => return .ok ()
  | path :: rest => do
      match ← invoke (.createDirectory path) with
      | .ok () => createEach rest
      | .error errno => return .error errno

def createDirectories (path : Path) : Receiver (Except Errno Unit) :=
  if path.isEmpty then return .error .invalidArgument else createEach path.ancestry

/-- The throwing form of `create_directories`. -/
def createDirectoriesOrThrow (path : Path) : Receiver Unit := do
  match ← createDirectories path with
  | .ok () => return ()
  | .error _ => fail (filesystemError path)

def fallbackSuffix : Bytes := ascii ".hyperlink-symlink.txt"

def createSymlinkOrFallback (target : Bytes) (outputPath : Path) : Receiver Unit := do
  let _ ← invoke (.remove outputPath)
  let created ← invoke (.createSymlink target outputPath)
  if created = true then return ()
  else
    match ← invoke (.openTruncate (Path.parse (outputPath.string ++ fallbackSuffix))) with
    | none => fail (ascii "failed to create symlink fallback file for: " ++ outputPath.string)
    | some fallback =>
        let _ ← invoke (.write fallback 0 target)
        return ()

/-- The payload loop of the file receivers: read a chunk, write it at the current position,
count it where the source does. A chunk counts once the output stream has taken it, which is not to
say that it reaches the file. `closed` is the error of a stream that ends too early. -/
def receivePayload (closed : Error) (counted : Bool) (output : Handle) (position missing : Nat) :
    Receiver Unit :=
  if _complete : missing = 0 then return ()
  else do
    let chunk ← read fun connection => .ok (connection.receiveInto (min missing kChunkBytes))
    if _ended : chunk.length = 0 then fail closed
    else
      let written ← invoke (.write output position chunk)
      if written = true then
        count (if counted then UInt64.ofNat chunk.length else 0)
        receivePayload closed counted output (position + chunk.length) (missing - chunk.length)
      else fail (ascii "failed while writing output file")
termination_by missing
decreasing_by omega

def directoryFileClosed : Error := ascii "connection closed before directory file completed"

def filePartClosed : Error := ascii "connection closed before file part completed"

def transferClosed : Error := ascii "connection closed before transfer completed"

def cannotOpen (path : Path) : Error := ascii "failed to open output file: " ++ path.string

def receiveDirectoryFile (outputPath : Path) (incoming : IncomingHeader) : Receiver Unit := do
  match ← createDirectories outputPath.parentPath with
  | .error errno =>
      fail (ascii "failed to create parent directory: " ++ outputPath.parentPath.string ++
        ascii ": " ++ errno.message)
  | .ok () =>
      match ← invoke (.openTruncate outputPath) with
      | none => fail (cannotOpen outputPath)
      | some output =>
          receivePayload directoryFileClosed true output 0 incoming.payloadSize.toNat
          let _ ← invoke (.setPermissions outputPath incoming.offset.toNat)
          -- The stream is closed when the function returns, after its file has got its mode.
          let _ ← invoke (.close output)
          return ()

/-- The check that a part lies inside the announced file, in 64-bit arithmetic. -/
def rangeExceeds (incoming : IncomingHeader) : Bool :=
  incoming.offset + incoming.payloadSize > incoming.totalSize

/-- The part of `receive_file_part` for `File` and `FilePart` records. A seek to an offset
that is negative as a signed number fails. -/
def receivePart (options : Options) (incoming : IncomingHeader) : Receiver Unit := do
  let fileName ← check (safeFileName incoming.fileName)
  if rangeExceeds incoming then fail (ascii "incoming file range exceeds total file size")
  else
    let prepared ← invoke
      (.prepare (options.outputDir / Path.parse fileName) fileName incoming.totalSize)
    let outputPath ← check prepared
    match ← invoke (.openReadWrite outputPath) with
    | none => fail (cannotOpen outputPath)
    | some output =>
        if maximumOffset < incoming.offset.toNat then fail (ascii "failed to seek output file")
        else
          receivePayload filePartClosed true output incoming.offset.toNat
            incoming.payloadSize.toNat

/-- One record after its header: the body of the loop of `receive_file_part`. -/
def receiveRecord (options : Options) (incoming : IncomingHeader) : Receiver Unit :=
  match incoming.kind with
  | .directoryEntry => do
      let relative ← check (safeRelativePath incoming.fileName)
      createDirectoriesOrThrow (options.outputDir / relative)
  | .directorySymlink => do
      let relative ← check (safeRelativePath incoming.fileName)
      let outputPath := options.outputDir / relative
      createDirectoriesOrThrow outputPath.parentPath
      let target ← read fun connection => receiveTextPayload connection incoming.payloadSize
      createSymlinkOrFallback target outputPath
      count incoming.payloadSize
  | .directoryFile => do
      let relative ← check (safeRelativePath incoming.fileName)
      receiveDirectoryFile (options.outputDir / relative) incoming
  | .file | .filePart => receivePart options incoming
  | .directoryTar => fail (ascii "parallel receive got unsupported transfer kind")

/-- The loop of `receive_file_part`. Every record takes at least its header from the stream,
so a bound of one round for each remaining byte is never reached: at the bound the stream has
ended, and the loop with it. -/
def receiveRecords (options : Options) : Nat → Receiver Unit
  | 0 => return ()
  | rounds + 1 => do
      match ← read receiveHeaderOptional with
      | none => return ()
      | some incoming =>
          receiveRecord options incoming
          receiveRecords options rounds

/-- The `catch` of a stream: the error is stored, the counted bytes stay. -/
def StreamResult.ofOutcome : Except Error Unit × StreamState → StreamResult
  | (.ok (), state) => ⟨state.bytes, none⟩
  | (.error error, state) => ⟨state.bytes, some error⟩

/-- The code of one stream of a parallel receive, once its connection stands. -/
def receiveFilePart (options : Options) (connection : Connection) :
    Program Call Reply StreamResult :=
  (receiveRecords options connection.remaining.length ⟨connection, 0⟩).bind fun outcome =>
    .done (StreamResult.ofOutcome outcome)

def rethrowFirstError (results : List StreamResult) : Except Error Unit :=
  match results.find? fun result => result.error.isSome with
  | none => .ok ()
  | some result => .error (result.error.getD [])

def totalBytes (results : List StreamResult) : UInt64 :=
  results.foldl (fun bytes result => bytes + result.bytes) 0

/-- The end of a parallel transfer on either side, after the threads are joined: the first
error, or the return code 0 with the byte count that is printed. -/
def finishTransfer (results : List StreamResult) : Except Error UInt64 := do
  rethrowFirstError results
  return totalBytes results

/-- The start of a parallel receive: one thread for each connection, nothing initialized. The file
system is the one behind the first statement of `run_receive`, which creates the output directory
where it is missing. -/
def startReceive {streams : Nat} (options : Options) (fs : FileSystem)
    (connections : Fin streams → Connection) :
    Config (Fin streams) Call Reply StreamResult World where
  world := ⟨fs, {}, none, []⟩
  threads stream := receiveFilePart options (connections stream)

/-! ### The single-stream receiver -/

def receivePayloadToFile (outputPath : Path) (payloadSize : UInt64) : Receiver Unit := do
  match ← invoke (.openTruncate outputPath) with
  | none => fail (cannotOpen outputPath)
  | some output => receivePayload transferClosed false output 0 payloadSize.toNat

def commandFailed (command : Bytes) : Error := ascii "command failed: " ++ command

/-- The loop of `receive_stream_to_pipe`; the rounds bound it as in `receiveRecords`. -/
def pipeStream : Nat → Receiver UInt64
  | 0 => return 0
  | rounds + 1 => do
      let chunk ← read fun connection => .ok (connection.receiveInto kChunkBytes)
      if chunk.length = 0 then return 0
      else
        let written ← invoke (.writePipe chunk)
        if written = true then
          let later ← pipeStream rounds
          return UInt64.ofNat chunk.length + later
        else
          let _ ← invoke .closePipe
          fail (ascii "failed while writing archive stream to extractor")

def receiveStreamToPipe (command : Bytes) : Receiver UInt64 := do
  let started ← invoke (.openPipe command)
  if started = true then
    let rounds ← read fun connection => .ok (connection.remaining.length, connection)
    let received ← pipeStream rounds
    let ended ← invoke .closePipe
    if ended = true then return received else fail (commandFailed command)
  else fail (ascii "failed to start command: " ++ command)

/-- `run_receive` with one stream, once its connection stands: the bytes it reports. -/
def runReceiveSingle (options : Options) : Receiver UInt64 := do
  let incoming ← read receiveHeader
  if incoming.kind = .filePart then
    fail (ascii "incoming file uses parallel parts; restart receiver with --parallel")
  else if incoming.kind = .file then
    receivePayloadToFile (options.outputDir / Path.parse incoming.fileName) incoming.payloadSize
    return incoming.payloadSize
  else receiveStreamToPipe (tarExtractCommand options.outputDir)

end HyperLink
