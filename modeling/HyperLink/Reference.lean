/-
This file compares the record-stream receiver with a reference that reads the
whole stream at once. The reference is the grammar of the protocol: a stream is
a sequence of records, each a 48-byte header, a name and a payload, and it ends
at a record boundary. Each accepted record stands for its file-system actions,
with its payload written in one piece.

The receiver writes a payload in the pieces in which it arrives, so the two
histories are compared byte by byte. Everything else, the outcome, the counted
bytes and the final file system, is compared as it is.
-/

import HyperLink.Receiver

namespace HyperLink

open Threads Receiver

/-! ### The reference -/

namespace Reference

/-- Create the missing directories on the way. -/
def createAll : List Path → World → Except Errno Unit × World
  | [], world => (.ok (), world)
  | path :: rest, world =>
      match performCall (.createDirectory path) world with
      | (.ok (), world) => createAll rest world
      | (.error errno, world) => (.error errno, world)

def createTree (path : Path) (world : World) : Except Errno Unit × World :=
  if path.isEmpty then (.error .invalidArgument, world) else createAll path.ancestry world

/-- The world after one write. -/
def written (output : Handle) (position : Nat) (bytes : Bytes) (world : World) : World :=
  (performCall (.write output position bytes) world).2

/-- Write what the stream holds of a payload; a payload that is cut short is an error. -/
def deliver (closed : Error) (output : Handle) (position size : Nat) (payload : Bytes)
    (world : World) : Except Error Unit × World :=
  (if payload.length < size then .error closed else .ok (), written output position payload world)

def linkOrFallback (target : Bytes) (outputPath : Path) (world : World) :
    Except Error Unit × World :=
  let world := (performCall (.remove outputPath) world).2
  match performCall (.createSymlink target outputPath) world with
  | (true, world) => (.ok (), world)
  | (false, world) =>
      match performCall (.openTruncate (Path.parse (outputPath.string ++ fallbackSuffix))) world
      with
      | (none, world) =>
          (.error (ascii "failed to create symlink fallback file for: " ++ outputPath.string),
            world)
      | (some fallback, world) => (.ok (), written fallback 0 target world)

/-- The actions of a `DirectoryFile` record: the counted bytes are those written. -/
def directoryFile (outputPath : Path) (incoming : IncomingHeader) (payload : Bytes)
    (world : World) : (Except Error Unit × UInt64) × World :=
  match createTree outputPath.parentPath world with
  | (.error errno, world) =>
      ((.error (ascii "failed to create parent directory: " ++ outputPath.parentPath.string ++
        ascii ": " ++ errno.message), 0), world)
  | (.ok (), world) =>
      match performCall (.openTruncate outputPath) world with
      | (none, world) => ((.error (cannotOpen outputPath), 0), world)
      | (some output, world) =>
          match deliver directoryFileClosed output 0 incoming.payloadSize.toNat payload world with
          | (.error error, world) => ((.error error, UInt64.ofNat payload.length), world)
          | (.ok (), world) =>
              ((.ok (), UInt64.ofNat payload.length),
                (performCall (.setPermissions outputPath incoming.offset.toNat) world).2)

/-- The actions of a `DirectorySymlink` record. The parent directories are created before the
payload is looked at. -/
def directorySymlink (outputPath : Path) (incoming : IncomingHeader) (payload : Bytes)
    (world : World) : (Except Error Unit × UInt64) × World :=
  match createTree outputPath.parentPath world with
  | (.error _, world) => ((.error (filesystemError outputPath.parentPath), 0), world)
  | (.ok (), world) =>
      if maximumVector < incoming.payloadSize.toNat then ((.error vectorTooLarge, 0), world)
      else if payload.length < incoming.payloadSize.toNat then ((.error closedEarly, 0), world)
      else match linkOrFallback payload outputPath world with
        | (.error error, world) => ((.error error, 0), world)
        | (.ok (), world) => ((.ok (), incoming.payloadSize), world)

/-- The actions of a `File` or `FilePart` record. -/
def part (options : Options) (incoming : IncomingHeader) (payload : Bytes) (world : World) :
    (Except Error Unit × UInt64) × World :=
  match safeFileName incoming.fileName with
  | .error error => ((.error error, 0), world)
  | .ok fileName =>
      if rangeExceeds incoming then
        ((.error (ascii "incoming file range exceeds total file size"), 0), world)
      else match performCall (.prepare (options.outputDir / Path.parse fileName) fileName
          incoming.totalSize) world with
        | (.error error, world) => ((.error error, 0), world)
        | (.ok outputPath, world) =>
            match performCall (.openReadWrite outputPath) world with
            | (none, world) => ((.error (cannotOpen outputPath), 0), world)
            | (some output, world) =>
                if maximumOffset < incoming.offset.toNat then
                  ((.error (ascii "failed to seek output file"), 0), world)
                else
                  let delivered := deliver filePartClosed output incoming.offset.toNat
                    incoming.payloadSize.toNat payload world
                  ((delivered.1, UInt64.ofNat payload.length), delivered.2)

/-- The actions of one record whose payload, as far as the stream holds it, is given. -/
def record (options : Options) (incoming : IncomingHeader) (payload : Bytes) (world : World) :
    (Except Error Unit × UInt64) × World :=
  match incoming.kind with
  | .directoryEntry =>
      match safeRelativePath incoming.fileName with
      | .error error => ((.error error, 0), world)
      | .ok relative =>
          match createTree (options.outputDir / relative) world with
          | (.error _, world) => ((.error (filesystemError (options.outputDir / relative)), 0), world)
          | (.ok (), world) => ((.ok (), 0), world)
  | .directorySymlink =>
      match safeRelativePath incoming.fileName with
      | .error error => ((.error error, 0), world)
      | .ok relative => directorySymlink (options.outputDir / relative) incoming payload world
  | .directoryFile =>
      match safeRelativePath incoming.fileName with
      | .error error => ((.error error, 0), world)
      | .ok relative => directoryFile (options.outputDir / relative) incoming payload world
  | .file | .filePart => part options incoming payload world
  | .directoryTar =>
      ((.error (ascii "parallel receive got unsupported transfer kind"), 0), world)

/-- The header and the name at the front of a stream. -/
def header (stream : Bytes) : Except Error IncomingHeader :=
  if stream.length < kHeaderBytes then .error (ascii "connection closed in the middle of a header")
  else match decodeHeader (stream.take kHeaderBytes) with
    | .error error => .error error
    | .ok incoming =>
        if stream.length < kHeaderBytes + incoming.nameSize.toNat then .error closedEarly
        else .ok { incoming with
          fileName := (stream.drop kHeaderBytes).take incoming.nameSize.toNat }

/-- The reference receiver: the records of a stream, one after the other, up to its end or
to the first record that is malformed, disallowed or cut short. -/
def receive (options : Options) (stream : Bytes) (bytes : UInt64) (world : World) :
    StreamResult × World :=
  if _ended : stream = [] then (⟨bytes, none⟩, world)
  else match header stream with
    | .error error => (⟨bytes, some error⟩, world)
    | .ok incoming =>
        let body := stream.drop (kHeaderBytes + incoming.nameSize.toNat)
        match record options incoming (body.take incoming.payloadSpan) world with
        | ((.error error, counted), world) => (⟨bytes + counted, some error⟩, world)
        | ((.ok (), counted), world) =>
            receive options (body.drop incoming.payloadSpan) (bytes + counted) world
termination_by stream.length
decreasing_by
  have := List.length_pos_iff.mpr _ended
  simp only [List.length_drop, kHeaderBytes]
  omega

end Reference

/-! ### Histories byte by byte -/

/-- A change, with a write taken apart into its bytes. -/
def Effect.bytewise : Effect → List Effect
  | wrote location position bytes =>
      bytes.mapIdx fun index byte => wrote location (position + index) [byte]
  | effect => [effect]

/-- A world whose history is kept byte by byte. -/
def World.bytewise (world : World) : World :=
  { world with history := world.history.flatMap Effect.bytewise }

theorem World.bytewise_eq_iff (first second : World) :
    first.bytewise = second.bytewise ↔ first.fs = second.fs ∧ first.shared = second.shared ∧
      first.extractor = second.extractor ∧
      first.history.flatMap Effect.bytewise = second.history.flatMap Effect.bytewise := by
  simp only [World.bytewise, World.mk.injEq]

/-- Writing two adjacent pieces is writing them joined. -/
theorem Effect.bytewise_wrote_append (location : Location) (position : Nat)
    (first second : Bytes) :
    (wrote location position (first ++ second)).bytewise =
      (wrote location position first).bytewise ++
        (wrote location (position + first.length) second).bytewise := by
  simp only [bytewise, List.mapIdx_append]
  congr 2
  funext index byte
  rw [Nat.add_comm index, Nat.add_assoc]

theorem onFiles_bytewise {Value : Type} {first second : World}
    (same : first.bytewise = second.bytewise) (outcome : Outcome Value) :
    (first.onFiles outcome).2.bytewise = (second.onFiles outcome).2.bytewise := by
  obtain ⟨_, shared, extractor, history⟩ := (World.bytewise_eq_iff first second).mp same
  refine (World.bytewise_eq_iff _ _).mpr ⟨rfl, shared, extractor, ?_⟩
  simp only [World.onFiles, List.flatMap_append, history]

/-- No call tells apart two worlds whose histories differ only in how writes are cut. -/
theorem performCall_bytewise (request : Call) (first second : World)
    (same : first.bytewise = second.bytewise) :
    (performCall request first).1 = (performCall request second).1 ∧
      (performCall request first).2.bytewise = (performCall request second).2.bytewise := by
  obtain ⟨fs, shared, extractor, history⟩ := (World.bytewise_eq_iff first second).mp same
  cases request with
  | createDirectory path | openTruncate path | openReadWrite path | write handle position bytes
  | setPermissions path mode | remove path | createSymlink target path =>
    simp only [performCall, fs]
    exact ⟨rfl, onFiles_bytewise same _⟩
  | prepare outputPath fileName totalSize =>
    obtain ⟨files, state, pipe, past⟩ := first
    obtain ⟨files', state', pipe', past'⟩ := second
    simp only at fs shared extractor history
    subst fs shared extractor
    simp only [performCall, prepare]
    split
    · split <;> exact ⟨rfl, same⟩
    · simp only [reduceCtorEq, if_false, World.onFiles]
      -- The two runs of the block agree on the reply of each of its two calls.
      cases (files.openTruncate outputPath).reply with
      | none =>
        refine ⟨rfl, (World.bytewise_eq_iff _ _).mpr ⟨rfl, rfl, rfl, ?_⟩⟩
        simp only [List.flatMap_append, history]
      | some handle =>
        cases ((files.openTruncate outputPath).fs.resizeFile outputPath totalSize.toNat).reply
        all_goals
          refine ⟨rfl, (World.bytewise_eq_iff _ _).mpr ⟨rfl, rfl, rfl, ?_⟩⟩
          simp [history]
  | openPipe command =>
    exact ⟨rfl, (World.bytewise_eq_iff _ _).mpr ⟨fs, shared, rfl, history⟩⟩
  | writePipe bytes =>
    refine ⟨rfl, (World.bytewise_eq_iff _ _).mpr ⟨fs, shared, ?_, history⟩⟩
    simp only [performCall, extractor]
  | close _ | closePipe => exact ⟨rfl, same⟩

/-! ### The receiver's parts, run alone -/

open Reference

theorem run_createEach (paths : List Path) (state : StreamState) (world : World) :
    (createEach paths state).run performCall world =
      ((.ok (createAll paths world).1, state), (createAll paths world).2) := by
  induction paths generalizing world with
  | nil => rfl
  | cons path rest inductionHypothesis =>
    simp only [createEach, bind_apply, invoke_apply, Program.bind_call, Program.bind_done,
      andThen_ok, Program.run_call, createAll]
    generalize performCall (.createDirectory path) world = outcome
    obtain ⟨reply, later⟩ := outcome
    cases reply with
    | error errno => rfl
    | ok _ => exact inductionHypothesis later

theorem run_createDirectories (path : Path) (state : StreamState) (world : World) :
    (createDirectories path state).run performCall world =
      ((.ok (createTree path world).1, state), (createTree path world).2) := by
  unfold createDirectories createTree
  split
  · rfl
  · exact run_createEach path.ancestry state world

theorem run_createDirectoriesOrThrow (path : Path) (state : StreamState) (world : World) :
    (createDirectoriesOrThrow path state).run performCall world =
      ((match (createTree path world).1 with
        | .ok () => .ok ()
        | .error _ => .error (filesystemError path), state), (createTree path world).2) := by
  simp only [createDirectoriesOrThrow, bind_apply]
  rw [Program.run_bind, run_createDirectories]
  simp only [andThen_ok]
  cases (createTree path world).1 <;> rfl

theorem run_createSymlinkOrFallback (target : Bytes) (outputPath : Path) (state : StreamState)
    (world : World) :
    (createSymlinkOrFallback target outputPath state).run performCall world =
      (((linkOrFallback target outputPath world).1, state),
        (linkOrFallback target outputPath world).2) := by
  simp only [createSymlinkOrFallback, bind_apply, invoke_apply, Program.bind_call,
    Program.bind_done, andThen_ok, Program.run_call, linkOrFallback]
  generalize (performCall (.remove outputPath) world).2 = removed
  generalize performCall (.createSymlink target outputPath) removed = outcome
  obtain ⟨created, linked⟩ := outcome
  cases created with
  | true => rfl
  | false =>
    simp only [Bool.false_eq_true, if_false, bind_apply, invoke_apply, Program.bind_call,
      Program.bind_done, andThen_ok, Program.run_call]
    generalize performCall (.openTruncate (Path.parse (outputPath.string ++ fallbackSuffix)))
      linked = opened
    obtain ⟨fallback, last⟩ := opened
    cases fallback <;> rfl

/-- Writing nothing changes nothing. -/
theorem written_nil_bytewise (output : Handle) (position : Nat) (world : World) :
    (written output position [] world).bytewise = world.bytewise := by
  refine (World.bytewise_eq_iff _ _).mpr ⟨?_, rfl, rfl, ?_⟩
  · simp only [written, performCall, World.onFiles, FileSystem.write, FileSystem.writeAt_nil,
      FileSystem.setFile, Function.update_eq_self]
  · simp only [written, performCall, World.onFiles, FileSystem.write, List.flatMap_append,
      List.flatMap_cons, Effect.bytewise, List.mapIdx_nil, List.flatMap_nil, List.append_nil]

/-- Two adjacent writes are one. -/
theorem written_append_bytewise (output : Handle) (position : Nat) (first second : Bytes)
    (world : World) :
    (written output (position + first.length) second
        (written output position first world)).bytewise =
      (written output position (first ++ second) world).bytewise := by
  refine (World.bytewise_eq_iff _ _).mpr ⟨?_, rfl, rfl, ?_⟩
  · simp only [written, performCall, World.onFiles, FileSystem.write, FileSystem.setFile,
      Function.update_self, Function.update_idem, FileSystem.writeAt_writeAt]
  · simp only [written, performCall, World.onFiles, FileSystem.write, List.flatMap_append,
      List.flatMap_cons, List.flatMap_nil, List.append_nil, Effect.bytewise_wrote_append,
      List.append_assoc]

/-- The payload loop, however the payload is cut: it writes what the stream holds of it, in
place, counts it, and fails exactly when the stream holds too little. -/
theorem run_receivePayload (closed : Error) (counted : Bool) (output : Handle)
    (position missing : Nat) (state : StreamState) (world : World) :
    let run := (receivePayload closed counted output position missing state).run performCall world
    let payload := state.connection.remaining.take missing
    run.1.1 = (if payload.length < missing then .error closed else .ok ()) ∧
      run.1.2.connection.remaining = state.connection.remaining.drop missing ∧
      run.1.2.bytes = state.bytes + (if counted then UInt64.ofNat payload.length else 0) ∧
      run.2.bytewise = (written output position payload world).bytewise := by
  induction missing using Nat.strong_induction_on generalizing position state world with
  | _ missing inductionHypothesis =>
    rw [receivePayload]
    by_cases complete : missing = 0
    · subst complete
      simp [written_nil_bytewise]
    · simp only [dif_neg complete, bind_apply, read_receiveInto, Program.bind_done, andThen_ok]
      have wanted : 0 < min missing kChunkBytes :=
        Nat.lt_min.mpr ⟨Nat.pos_of_ne_zero complete, by decide⟩
      obtain ⟨ended, nothing, last⟩ | ⟨byte, bytes, rest, chunk, short, split⟩ :=
        receiveInto_cases state.connection wanted
      · simp [ended, nothing, last, written_nil_bytewise, Nat.pos_of_ne_zero complete]
      · have size : missing = (byte :: bytes).length + (missing - (byte :: bytes).length) := by
          rw [List.length_cons]
          omega
        have fewer : missing - (byte :: bytes).length < missing := by
          rw [List.length_cons]
          omega
        have payload : state.connection.remaining.take missing =
            (byte :: bytes) ++ rest.remaining.take (missing - (byte :: bytes).length) := by
          rw [split]
          conv_lhs => rw [size]
          exact List.take_length_add_append _
        have others : state.connection.remaining.drop missing =
            rest.remaining.drop (missing - (byte :: bytes).length) := by
          rw [split]
          conv_lhs => rw [size]
          exact List.drop_length_add_append _
        obtain ⟨outcome, left, total, later⟩ := inductionHypothesis _ fewer
          (position + (byte :: bytes).length)
          ⟨rest, state.bytes + if counted then UInt64.ofNat (byte :: bytes).length else 0⟩
          (written output position (byte :: bytes) world)
        rw [written_append_bytewise] at later
        rw [chunk, payload, others]
        refine ⟨outcome.trans ?_, left, total.trans ?_, later⟩
        · have same : (rest.remaining.take (missing - (byte :: bytes).length)).length <
                missing - (byte :: bytes).length ↔
              (byte :: bytes ++ rest.remaining.take (missing - (byte :: bytes).length)).length <
                missing := by
            rw [List.length_append]
            omega
          exact if_congr same rfl rfl
        · cases counted with
          | false => simp
          | true =>
            simp only [if_true, List.length_append, UInt64.ofNat_add, UInt64.add_assoc]


/-! ### One record -/

/-- A record's code, run alone, does what is expected. After a success the stream stands
behind the payload. -/
def Follows (code : Receiver Unit) (span : Nat) (state : StreamState) (world : World)
    (expected : (Except Error Unit × UInt64) × World) : Prop :=
  ((code state).run performCall world).1.1 = expected.1.1 ∧
    ((code state).run performCall world).1.2.bytes = state.bytes + expected.1.2 ∧
    ((code state).run performCall world).2.bytewise = expected.2.bytewise ∧
    (expected.1.1 = .ok () → ((code state).run performCall world).1.2.connection.remaining =
      state.connection.remaining.drop span)

theorem Follows.fail (error : Error) (span : Nat) (state : StreamState) (world : World) :
    Follows (Receiver.fail error) span state world ((.error error, 0), world) := by
  simp [Follows]

/-- A call before a record's code. -/
theorem Follows.invoke {request : Call} {code : Reply request → Receiver Unit} {span : Nat}
    {state : StreamState} {world : World} {expected : (Except Error Unit × UInt64) × World}
    (follows : Follows (code (performCall request world).1) span state
      (performCall request world).2 expected) :
    Follows (Receiver.invoke request >>= code) span state world expected := follows

/-- The creation of directories before a record's code. -/
theorem Follows.createDirectories {path : Path} {code : Except Errno Unit → Receiver Unit}
    {span : Nat} {state : StreamState} {world : World}
    {expected : (Except Error Unit × UInt64) × World}
    (follows : Follows (code (createTree path world).1) span state (createTree path world).2
      expected) :
    Follows (HyperLink.createDirectories path >>= code) span state world expected := by
  unfold Follows
  rw [bind_apply, Program.run_bind, run_createDirectories]
  exact follows

/-- The payload of a part. -/
theorem Follows.receivePayload (closed : Error) (output : Handle) (position span : Nat)
    (state : StreamState) (world : World) :
    let payload := state.connection.remaining.take span
    let delivered := deliver closed output position span payload world
    Follows (HyperLink.receivePayload closed true output position span) span state world
      ((delivered.1, UInt64.ofNat payload.length), delivered.2) := by
  obtain ⟨outcome, left, total, later⟩ :=
    run_receivePayload closed true output position span state world
  exact ⟨outcome, total, later, fun _ => left⟩

theorem receiveDirectoryFile_follows (outputPath : Path) (incoming : IncomingHeader)
    (state : StreamState) (world : World) :
    Follows (receiveDirectoryFile outputPath incoming) incoming.payloadSize.toNat state world
      (directoryFile outputPath incoming
        (state.connection.remaining.take incoming.payloadSize.toNat) world) := by
  unfold receiveDirectoryFile directoryFile
  refine Follows.createDirectories ?_
  generalize createTree outputPath.parentPath world = created
  obtain ⟨reply, made⟩ := created
  cases reply with
  | error errno => exact Follows.fail _ _ state made
  | ok _ =>
    refine Follows.invoke ?_
    simp only []
    generalize performCall (.openTruncate outputPath) made = opened
    obtain ⟨handle, ready⟩ := opened
    cases handle with
    | none => exact Follows.fail _ _ state ready
    | some output =>
      obtain ⟨outcome, left, total, later⟩ := run_receivePayload directoryFileClosed true output 0
        incoming.payloadSize.toNat state ready
      simp only [Follows, bind_apply]
      rw [Program.run_bind]
      generalize (receivePayload directoryFileClosed true output 0 incoming.payloadSize.toNat
        state).run performCall ready = run at outcome left total later
      obtain ⟨⟨reply, last⟩, changed⟩ := run
      simp only at outcome left total later
      subst outcome
      simp only [deliver]
      by_cases short : (state.connection.remaining.take incoming.payloadSize.toNat).length <
          incoming.payloadSize.toNat
      · simp only [if_pos short, andThen_error, Program.run_done]
        exact ⟨trivial, total, later, fun success => by cases success⟩
      · simp only [if_neg short, andThen_ok, bind_apply, invoke_apply, Program.bind_call,
          Program.bind_done, Program.run_call, pure_apply, Program.run_done]
        have replaced := performCall_bytewise (.setPermissions outputPath incoming.offset.toNat)
          _ _ later
        exact ⟨trivial, total, replaced.2, fun _ => left⟩

/-- The record of a link: its directories, its target and the link itself. -/
theorem directorySymlink_follows (outputPath : Path) (incoming : IncomingHeader)
    (state : StreamState) (world : World) :
    Follows (do
        createDirectoriesOrThrow outputPath.parentPath
        let target ← Receiver.read fun connection =>
          receiveTextPayload connection incoming.payloadSize
        createSymlinkOrFallback target outputPath
        count incoming.payloadSize) incoming.payloadSize.toNat state world
      (directorySymlink outputPath incoming
        (state.connection.remaining.take incoming.payloadSize.toNat) world) := by
  unfold directorySymlink Follows
  rw [bind_apply, Program.run_bind, run_createDirectoriesOrThrow]
  generalize createTree outputPath.parentPath world = created
  obtain ⟨reply, made⟩ := created
  cases reply with
  | error errno => simp
  | ok _ =>
    simp only [andThen_ok, bind_apply]
    by_cases large : maximumVector < incoming.payloadSize.toNat
    · have started : Receiver.read (fun connection =>
          receiveTextPayload connection incoming.payloadSize) state = _ :=
        read_of_error (receiveTextPayload_large large _)
      rw [if_pos large, started]
      simp
    rw [if_neg large]
    have text := forget_receiveTextPayload large state.connection
    by_cases enough : incoming.payloadSize.toNat ≤ state.connection.remaining.length
    · rw [if_pos enough] at text
      obtain ⟨rest, outcome, left⟩ := ok_of_forget text
      have length : (state.connection.remaining.take incoming.payloadSize.toNat).length =
        incoming.payloadSize.toNat := List.length_take_of_le enough
      have started : Receiver.read (fun connection =>
          receiveTextPayload connection incoming.payloadSize) state = _ := read_of_ok outcome
      rw [if_neg (by omega), started]
      simp only [Program.bind_done, andThen_ok, bind_apply]
      rw [Program.run_bind, run_createSymlinkOrFallback]
      generalize linkOrFallback (state.connection.remaining.take incoming.payloadSize.toNat)
        outputPath made = linked
      obtain ⟨reply, last⟩ := linked
      cases reply with
      | error error => simp
      | ok _ => simp [left]
    · rw [if_neg enough] at text
      have length : (state.connection.remaining.take incoming.payloadSize.toNat).length <
        incoming.payloadSize.toNat := by
        rw [List.length_take]
        omega
      have started : Receiver.read (fun connection =>
          receiveTextPayload connection incoming.payloadSize) state = _ :=
        read_of_error (error_of_forget text)
      rw [if_pos length, started]
      simp

theorem receivePart_follows (options : Options) (incoming : IncomingHeader)
    (state : StreamState) (world : World) :
    Follows (receivePart options incoming) incoming.payloadSize.toNat state world
      (part options incoming (state.connection.remaining.take incoming.payloadSize.toNat)
        world) := by
  unfold receivePart part
  cases safeFileName incoming.fileName with
  | error error => exact Follows.fail error _ state world
  | ok fileName =>
    show Follows (if _ then _ else _) _ _ _ _
    simp only []
    split
    · exact Follows.fail _ _ state world
    · refine Follows.invoke ?_
      generalize performCall (.prepare (options.outputDir / Path.parse fileName) fileName
        incoming.totalSize) world = prepared
      obtain ⟨reply, ready⟩ := prepared
      cases reply with
      | error error => exact Follows.fail error _ state ready
      | ok outputPath =>
        show Follows (Receiver.invoke (.openReadWrite outputPath) >>= _) _ _ _ _
        refine Follows.invoke ?_
        simp only []
        generalize performCall (.openReadWrite outputPath) ready = opened
        obtain ⟨handle, last⟩ := opened
        cases handle with
        | none => exact Follows.fail _ _ state last
        | some output =>
          simp only []
          split
          · exact Follows.fail _ _ state last
          · exact Follows.receivePayload filePartClosed output _ _ state last

theorem receiveRecord_follows (options : Options) (incoming : IncomingHeader)
    (state : StreamState) (world : World) :
    Follows (receiveRecord options incoming) incoming.payloadSpan state world
      (record options incoming (state.connection.remaining.take incoming.payloadSpan)
        world) := by
  obtain ⟨kind, payloadSize, nameSize, offset, totalSize, fileName⟩ := incoming
  cases kind with
  | file | filePart => exact receivePart_follows options _ state world
  | directoryTar => exact Follows.fail _ _ state world
  | directoryEntry =>
    simp only [receiveRecord, record]
    cases safeRelativePath fileName with
    | error error => exact Follows.fail error _ state world
    | ok relative =>
      show Follows (createDirectoriesOrThrow (options.outputDir / relative)) _ _ _ _
      unfold Follows
      rw [run_createDirectoriesOrThrow]
      simp only []
      generalize createTree (options.outputDir / relative) world = created
      obtain ⟨reply, made⟩ := created
      cases reply <;> simp [IncomingHeader.payloadSpan]
  | directoryFile =>
    simp only [receiveRecord, record]
    cases safeRelativePath fileName with
    | error error => exact Follows.fail error _ state world
    | ok relative => exact receiveDirectoryFile_follows (options.outputDir / relative) _ state world
  | directorySymlink =>
    simp only [receiveRecord, record]
    cases safeRelativePath fileName with
    | error error => exact Follows.fail error _ state world
    | ok relative =>
      exact directorySymlink_follows (options.outputDir / relative)
        ⟨.directorySymlink, payloadSize, nameSize, offset, totalSize, fileName⟩ state world

/-! ### The whole stream -/

/-- The reader of the next header, on the stream as a whole. -/
theorem headerOptionalOf_eq (stream : Bytes) (more : stream ≠ []) :
    headerOptionalOf stream = (header stream).map fun incoming =>
      (some incoming, stream.drop (kHeaderBytes + incoming.nameSize.toNat)) := by
  unfold headerOptionalOf header
  rw [if_neg more]
  by_cases short : stream.length < kHeaderBytes
  · rw [if_pos short, if_pos short]
    rfl
  · rw [if_neg short, if_neg short]
    cases decodeHeader (stream.take kHeaderBytes) with
    | error error => rfl
    | ok incoming =>
      show (if (stream.drop kHeaderBytes).length < incoming.nameSize.toNat then _ else _) = _
      simp only [List.length_drop]
      by_cases cut : stream.length < kHeaderBytes + incoming.nameSize.toNat
      · rw [if_pos (by omega), if_pos cut]
        rfl
      · rw [if_neg (by omega), if_neg cut, List.drop_drop]
        rfl

/-- The loop over the records does what the reference does, given a round for each byte. -/
theorem run_receiveRecords (options : Options) (rounds : Nat) (state : StreamState)
    (world : World) (other : World) (same : world.bytewise = other.bytewise)
    (enough : state.connection.remaining.length ≤ rounds) :
    let run := (receiveRecords options rounds state).run performCall world
    let expected := receive options state.connection.remaining state.bytes other
    StreamResult.ofOutcome run.1 = expected.1 ∧ run.2.bytewise = expected.2.bytewise := by
  induction rounds generalizing state world other with
  | zero =>
    have ended : state.connection.remaining = [] := List.length_eq_zero_iff.mp (by omega)
    rw [receive, dif_pos ended]
    exact ⟨rfl, same⟩
  | succ rounds inductionHypothesis =>
    have whole := forget_receiveHeaderOptional state.connection
    rw [receive]
    by_cases ended : state.connection.remaining = []
    · rw [dif_pos ended]
      rw [ended] at whole
      obtain ⟨rest, outcome, left⟩ := ok_of_forget (whole.trans rfl)
      simp only [receiveRecords, bind_apply, read_of_ok outcome, Program.bind_done, andThen_ok,
        pure_apply, Program.run_done]
      exact ⟨rfl, same⟩
    · rw [dif_neg ended]
      rw [headerOptionalOf_eq _ ended] at whole
      cases decoded : header state.connection.remaining with
      | error error =>
        rw [decoded] at whole
        simp only [receiveRecords, bind_apply, read_of_error (error_of_forget whole),
          Program.bind_done, andThen_error, Program.run_done]
        exact ⟨rfl, same⟩
      | ok incoming =>
        rw [decoded] at whole
        obtain ⟨rest, outcome, left⟩ := ok_of_forget whole
        simp only [receiveRecords, bind_apply, read_of_ok outcome, Program.bind_done, andThen_ok]
        have similar := Program.run_congr performCall_bytewise
          (receiveRecord options incoming ⟨rest, state.bytes⟩) same
        obtain ⟨first, total, later, behind⟩ :=
          receiveRecord_follows options incoming ⟨rest, state.bytes⟩ other
        simp only at first total later behind
        rw [left] at first total later behind
        rw [Program.run_bind, similar.1]
        have after := similar.2.trans later
        generalize ((receiveRecord options incoming ⟨rest, state.bytes⟩).run performCall
          world).2 = changed at after
        generalize (receiveRecord options incoming ⟨rest, state.bytes⟩).run performCall other =
          run at first total behind
        generalize record options incoming _ other = expected at first total after behind
        obtain ⟨⟨reply, last⟩, _⟩ := run
        obtain ⟨⟨wanted, counted⟩, final⟩ := expected
        simp only at first total behind after
        subst first
        cases reply with
        | error error =>
          simp only [andThen_error, Program.run_done, StreamResult.ofOutcome, total]
          exact ⟨trivial, after⟩
        | ok _ =>
          have shorter : last.connection.remaining.length ≤ rounds := by
            have := List.length_pos_iff.mpr ended
            rw [behind rfl, List.length_drop, List.length_drop]
            simp only [kHeaderBytes]
            omega
          simp only [andThen_ok]
          rw [← behind rfl, ← total]
          exact inductionHypothesis last changed final after shorter

/-- On one stream the receiver parses exactly the grammar of the reference, however the bytes
are cut: it terminates with the same outcome and the same byte count, leaves the same file
system, and its history is that of the reference byte by byte. -/
theorem receiveFilePart_eq_reference (options : Options) (stream : Bytes) (fragments : List Nat)
    (world : World) :
    let run := (receiveFilePart options ⟨stream, fragments⟩).run performCall world
    let expected := Reference.receive options stream 0 world
    run.1 = expected.1 ∧ run.2.bytewise = expected.2.bytewise := by
  simp only [receiveFilePart]
  rw [Program.run_bind]
  exact run_receiveRecords options stream.length ⟨⟨stream, fragments⟩, 0⟩ world world rfl le_rfl

end HyperLink
