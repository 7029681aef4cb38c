/-
This file is about transfers that are cut short. A connection may close at any
byte of what its sender would have sent. Inside a record the receiver notices:
a header, a name or a payload is incomplete, and the stream ends with an error.
Between two records it does not: an end of stream where a header could start is
taken for the end of the transfer, even before the first record. The receiver
knows neither how many records a stream has nor that every stream must have one.
-/

import HyperLink.DirectoryTransfer
import HyperLink.FileTransfer

namespace HyperLink

open Threads Receiver FileSystem

/-! ### Record boundaries -/

/-- The bytes are a sequence of complete records, with nothing behind the last one. -/
def WholeRecords (stream : Bytes) : Prop :=
  ∃ records : List Record, (∀ record ∈ records, record.Complete) ∧
    stream = records.flatMap Record.bytes

/-- A header that was read from the front of a stream of records is the first one's. -/
theorem header_of_front {record : Record} (complete : record.Complete) {others cut rest : Bytes}
    (front : cut <+: record.bytes ++ others) {incoming : IncomingHeader}
    (read : headerOptionalOf cut = .ok (some incoming, rest)) :
    incoming = record.header ∧ rest <+: record.payload ++ others := by
  obtain ⟨extra, whole⟩ := front
  obtain ⟨bytes, length, accepted⟩ := encoded_of_headerOptionalOf read
  obtain ⟨kind, payloadSize, nameSize, offset, totalSize, fileName⟩ := incoming
  simp only [not_or] at bytes length accepted
  have field : nameSize = sizeField fileName := by
    rw [sizeField, length, UInt64.ofNat_toNat]
  have size : NameSize fileName := by
    refine ⟨?_, ?_⟩
    · rw [length]
      exact Nat.pos_of_ne_zero fun zero => accepted.1 (UInt64.toNat_inj.mp zero)
    · rw [length]
      exact Nat.le_of_not_lt fun large => accepted.2 (UInt64.lt_iff_toNat_lt.mpr large)
  have again := headerOptionalOf_encoded kind payloadSize offset totalSize fileName
    (rest ++ extra) size
  have first := headerOptionalOf_encoded record.kind record.payloadSize record.offset
    record.totalSize record.name (record.payload ++ others) complete.name
  have same : makeHeader kind payloadSize (sizeField fileName) offset totalSize ++ fileName ++
      (rest ++ extra) = makeHeader record.kind record.payloadSize (sizeField record.name)
        record.offset record.totalSize ++ record.name ++ (record.payload ++ others) := by
    rw [← field, ← List.append_assoc, ← bytes, whole, Record.bytes, List.append_assoc]
  rw [same, first] at again
  simp only [Except.ok.injEq, Prod.mk.injEq, Option.some.injEq] at again
  obtain ⟨header, left⟩ := again
  refine ⟨?_, ⟨extra, left.symm⟩⟩
  rw [field, ← header]
  rfl

/-- Where complete records stand in front of a stream of records, they are its first ones. -/
theorem front_of_wholeRecords {records : List Record}
    (complete : ∀ record ∈ records, record.Complete) {cut : Bytes} (whole : WholeRecords cut)
    (inside : cut <+: records.flatMap Record.bytes) :
    ∃ front, front <+: records ∧ cut = front.flatMap Record.bytes := by
  obtain ⟨received, each, rfl⟩ := whole
  induction received generalizing records with
  | nil => exact ⟨[], List.nil_prefix, rfl⟩
  | cons first others inductionHypothesis =>
    rw [List.forall_mem_cons] at each
    cases records with
    | nil =>
      have nothing := List.prefix_nil.mp inside
      have length := congrArg List.length nothing
      rw [List.flatMap_cons, List.length_append, first.length_bytes] at length
      simp [kHeaderBytes] at length
    | cons record records =>
      rw [List.forall_mem_cons] at complete
      rw [List.flatMap_cons, List.flatMap_cons] at inside
      have read := headerOptionalOf_encoded first.kind first.payloadSize first.offset
        first.totalSize first.name (first.payload ++ others.flatMap Record.bytes) each.1.name
      rw [← List.append_assoc] at read
      obtain ⟨header, left⟩ := header_of_front complete.1 inside read
      have payloads : first.payload.length = record.payload.length := by
        rw [each.1.payload, complete.1.payload]
        exact congrArg (fun header => header.payloadSize.toNat) header
      obtain ⟨extra, joined⟩ := left
      rw [List.append_assoc] at joined
      obtain ⟨payload, rest⟩ := List.append_inj joined payloads
      have same : first = record := by
        obtain ⟨kind, payloadSize, offset, totalSize, name, bytes⟩ := first
        obtain ⟨otherKind, otherSize, otherOffset, otherTotal, otherName, otherBytes⟩ := record
        simp only [Record.header, IncomingHeader.mk.injEq] at header
        obtain ⟨rfl, rfl, -, rfl, rfl, rfl⟩ := header
        cases payload
        rfl
      obtain ⟨front, begins, bytes⟩ := inductionHypothesis complete.2 each.2 ⟨extra, rest⟩
      refine ⟨record :: front, List.cons_prefix_cons.mpr ⟨rfl, begins⟩, ?_⟩
      rw [List.flatMap_cons, List.flatMap_cons, bytes, same]

/-- Fewer bytes than a header are no records. -/
theorem not_wholeRecords_short {stream : Bytes} (some : stream ≠ [])
    (short : stream.length < kHeaderBytes) : ¬ WholeRecords stream := by
  rintro ⟨records, -, bytes⟩
  cases records with
  | nil => exact some bytes
  | cons record records =>
    have length := congrArg List.length bytes
    rw [List.flatMap_cons, List.length_append, record.length_bytes] at length
    omega

/-- The record loop returns only where its stream ends between two records. -/
theorem receiveRecords_whole (options : Options) {records : List Record}
    (complete : ∀ record ∈ records, record.Complete)
    (spans : ∀ record ∈ records, record.header.payloadSpan = record.payload.length)
    (rounds : Nat) (state : StreamState) (enough : state.connection.remaining.length ≤ rounds)
    (inside : state.connection.remaining <+: records.flatMap Record.bytes) :
    (receiveRecords options rounds state).EndsOnlyIn fun outcome =>
      outcome.1 = .ok () → WholeRecords state.connection.remaining := by
  induction rounds generalizing records state with
  | zero =>
    intro _
    exact ⟨[], by simp, List.length_eq_zero_iff.mp (Nat.le_zero.mp enough)⟩
  | succ rounds inductionHypothesis =>
    have bytes := forget_receiveHeaderOptional state.connection
    cases read : receiveHeaderOptional state.connection with
    | error error =>
      simp only [receiveRecords, bind_apply, read_of_error read, Program.bind_done, andThen_error]
      exact fun returned => by cases returned
    | ok pair =>
      obtain ⟨header, rest⟩ := pair
      rw [read, forget_ok] at bytes
      simp only [receiveRecords, bind_apply, read_of_ok read, Program.bind_done, andThen_ok]
      cases header with
      | none =>
        exact fun _ => ⟨[], by simp, (headerOptionalOf_eq_none_iff _).mp ⟨_, bytes.symm⟩⟩
      | some incoming =>
        cases records with
        | nil =>
          rw [List.prefix_nil.mp inside] at bytes
          cases bytes
        | cons record records =>
          rw [List.forall_mem_cons] at complete spans
          rw [List.flatMap_cons] at inside
          obtain ⟨rfl, left⟩ := header_of_front complete.1 inside bytes.symm
          refine Program.EndsOnlyIn.bind
            (takes_receiveRecord options record.header ⟨rest, state.bytes⟩) fun outcome took => ?_
          obtain ⟨reply, last⟩ := outcome
          cases reply with
          | error error => exact fun returned => by cases returned
          | ok value =>
            obtain ⟨covers, behind⟩ := took value rfl
            rw [spans.1] at covers behind
            simp only at covers behind
            -- The payload is there as a whole, and the rest of the stream follows it.
            obtain ⟨extra, joined⟩ := left
            have payload : rest.remaining.take record.payload.length = record.payload := by
              have front := congrArg (List.take record.payload.length) joined
              rwa [List.take_append_of_le_length covers, List.take_left' rfl] at front
            have others : rest.remaining.drop record.payload.length ++ extra =
                records.flatMap Record.bytes := by
              have back := congrArg (List.drop record.payload.length) joined
              rwa [List.drop_append_of_le_length covers, List.drop_left' rfl] at back
            have stream : state.connection.remaining =
                record.bytes ++ last.connection.remaining := by
              have encoded := (encoded_of_headerOptionalOf bytes.symm).1
              rw [encoded, behind, Record.bytes]
              conv_lhs => rw [← List.take_append_drop record.payload.length rest.remaining, payload]
              simp [Record.header]
            have shorter : last.connection.remaining.length ≤ rounds := by
              rw [stream, List.length_append, record.length_bytes] at enough
              simp only [kHeaderBytes] at enough
              omega
            have later := inductionHypothesis complete.2 spans.2 last shorter
              ⟨extra, by rw [behind]; exact others⟩
            refine later.weaken fun outcome whole returned => ?_
            obtain ⟨received, each, bytes⟩ := whole returned
            refine ⟨record :: received, List.forall_mem_cons.mpr ⟨complete.1, each⟩, ?_⟩
            rw [stream, bytes, List.flatMap_cons]

/-! ### What a stream without an error has written -/

/-- A change that puts a byte at a position of a file. -/
def Effect.Writes (position : Nat) (byte : UInt8) : Effect → Prop
  | .wrote _ start bytes => start ≤ position ∧ bytes[position - start]? = some byte
  | _ => False

/-- What was done stays done. -/
def Remembers (world later : World) : Prop := world.history <+: later.history

theorem Remembers.refl (world : World) : Remembers world world := List.prefix_rfl

theorem Remembers.trans (first second third : World) (before : Remembers first second)
    (after : Remembers second third) : Remembers first third :=
  List.IsPrefix.trans before after

theorem perform_remembers (fault : Fault) (request : Call) (world : World) :
    Remembers world (perform fault request world).2 := by
  by_cases block : ∃ path name size, request = .prepare path name size
  · obtain ⟨path, name, size, rfl⟩ := block
    show Remembers world (prepare fault path name size world).2
    obtain ⟨-, same⟩ | ⟨-, -, -, same⟩ | ⟨-, _, _, _, same, -⟩ | ⟨-, _, _, -, -, same⟩ :=
      prepare_cases fault path name size world
    · rw [same]
      exact Remembers.refl world
    · rw [same]
      exact Remembers.refl world
    · rw [same]
      exact List.prefix_append _ _
    · rw [same]
      exact List.prefix_append _ _
  · cases request with
    | prepare path name size => exact absurd ⟨path, name, size, rfl⟩ block
    | openPipe | writePipe | closePipe =>
      simp only [perform]
      split <;> exact Remembers.refl world
    | close output =>
      obtain same | same := perform_close fault output world
      · rw [same]
        exact Remembers.refl world
      · rw [same]
        exact List.prefix_append _ _
    | _ =>
      simp only [perform]
      split
      · exact List.prefix_append _ _
      · exact Remembers.refl world

section Logged

variable {options : Options} {content name : Bytes}

/-- The first bytes of a part have been written. -/
def PartLogged (record : Record) (done : Nat) (world : World) : Prop :=
  ∀ index < done, ∀ byte, record.payload[index]? = some byte →
    ∃ effect ∈ world.history, effect.Writes (record.offset.toNat + index) byte

theorem partLogged_stable (record : Record) (done : Nat) (world later : World)
    (remembers : Remembers world later) (logged : PartLogged record done world) :
    PartLogged record done later := by
  intro index early byte present
  obtain ⟨effect, member, writes⟩ := logged index early byte present
  exact ⟨effect, remembers.subset member, writes⟩

/-- A chunk that was taken and written is in the history. -/
theorem partLogged_chunk {record : Record} {handle : Handle} {bytes : Bytes} {done : Nat}
    {fault : Fault} {world : World} (piece : bytes <+: record.payload.drop done)
    (kept : fault ≠ .second)
    (written : (perform fault (.write handle (record.offset.toNat + done) bytes) world).1 = true)
    (logged : PartLogged record done world) :
    PartLogged record (done + bytes.length)
      (perform fault (.write handle (record.offset.toNat + done) bytes) world).2 := by
  by_cases smooth : fault = .none
  swap
  · simp only [perform, if_neg smooth, decide_eq_true_eq] at written
    exact absurd written kept
  subst smooth
  intro index early byte present
  by_cases old : index < done
  · exact partLogged_stable record done world _ (perform_remembers _ _ _) logged index old byte
      present
  · refine ⟨.wrote handle.location (record.offset.toNat + done) bytes, ?_, ?_, ?_⟩
    · simp [perform, performCall, World.onFiles, FileSystem.write]
    · omega
    · obtain ⟨later, whole⟩ := piece
      have within : record.offset.toNat + index - (record.offset.toNat + done) < bytes.length := by
        omega
      have inWhole := @List.getElem?_append_left _ bytes later _ within
      rw [← inWhole, whole, List.getElem?_drop, ← present]
      congr 1
      omega

/-- If no taken byte is lost, a part that was received without an error has been written. -/
theorem receivePart_logs {record : Record} (part : IsPart record) (state : StreamState)
    (world : World) (rest : Bytes)
    (stream : state.connection.remaining = record.payload ++ rest) :
    (receivePart options record.header state).Meets perform TakenIsWritten (fun _ => True)
      Remembers Remembers
      (Delivered False state rest record.payloadSize
        (PartLogged record record.payload.length)) world := by
  have within := part.rangeExceeds
  unfold receivePart
  rw [show record.header.fileName = record.name from rfl, safeFileName_of_safe part.safe]
  simp only [within, Bool.false_eq_true, if_false]
  show Program.Meets _ _ _ _ _ _ ((Receiver.invoke _ >>= _ : Receiver Unit) state) _
  intro first _ _ fault _
  refine ⟨trivial, perform_remembers _ _ _, ?_⟩
  cases (perform fault (.prepare (options.outputDir / Path.parse record.name) record.name
    record.header.totalSize) first).1 with
  | error error => exact Delivered.fail _ _ id
  | ok path =>
    show Program.Meets _ _ _ _ _ _ ((Receiver.invoke _ >>= _ : Receiver Unit) state) _
    intro second _ _ fault _
    refine ⟨trivial, perform_remembers _ _ _, ?_⟩
    cases (perform fault (.openReadWrite path) second).1 with
    | none => exact Delivered.fail _ _ id
    | some handle =>
      simp only []
      split
      · exact Delivered.fail _ _ id
      · have payload := @receivePayload_meets TakenIsWritten (fun _ => True) Remembers
          Remembers False filePartClosed true handle record.offset.toNat record.payload.length
          (record.payload ++ rest) (PartLogged record) (partLogged_stable record)
          (fun bytes done world fault piece fits _ logged kept => by
            rw [List.drop_append_of_le_length (by omega)] at piece
            have inPart := List.prefix_of_prefix_length_le piece (List.prefix_append _ _)
              (by rw [List.length_drop]; omega)
            exact ⟨trivial, perform_remembers _ _ _, fun never => never.elim,
              fun written => partLogged_chunk inPart kept written logged⟩)
          0 (Nat.zero_le _) state
          (perform fault (.openReadWrite path) second).2 stream
          (fun index early => absurd early (Nat.not_lt_zero index))
        rw [Nat.add_zero, Nat.sub_zero, List.drop_left' rfl, part.payload] at payload
        refine payload.weaken fun ended world _ delivered => ⟨False.elim, fun returned => ?_⟩
        obtain ⟨left, total, logged⟩ := delivered.2 returned
        refine ⟨left, ?_, part.payload ▸ logged⟩
        rw [total, if_pos rfl, UInt64.ofNat_toNat]

/-- The thread of one part. -/
theorem filePart_logs (small : content.length < 2 ^ 63) (safe : SafeName name)
    (short : name.length ≤ 4096) (stream : Fin options.parallel.toNat) {connection : Connection}
    (carries : connection.remaining = (partRecord options content name stream).bytes)
    (world : World) :
    (receiveFilePart options connection).Meets perform TakenIsWritten (fun _ => True)
      Remembers Remembers (fun result later => result.error = none →
        PartLogged (partRecord options content name stream)
          (partRecord options content name stream).payload.length later) world := by
  have part := partRecord_isPart small safe short stream
  have each : ∀ record ∈ [partRecord options content name stream],
      ∀ (state : StreamState) (world : World) (rest : Bytes),
      state.connection.remaining = record.payload ++ rest → True → True →
      (receiveRecord options record.header state).Meets perform TakenIsWritten
        (fun _ => True) Remembers Remembers (Delivered False state rest record.payloadSize
          (PartLogged record record.payload.length)) world := by
    intro record member state world rest payload _ _
    rw [List.mem_singleton.mp member] at payload ⊢
    rw [receiveRecord_part part.kind]
    exact receivePart_logs part state world rest payload
  have loop := receiveRecords_meets Remembers.refl [partRecord options content name stream]
    (fun record member => List.mem_singleton.mp member ▸ part.toComplete) each
    (fun record _ before after remembers =>
      ⟨id, partLogged_stable record record.payload.length before after remembers⟩)
    (fun _ _ _ _ remembers => remembers) (List.pairwise_singleton _ _) (fun _ => True)
    (fun _ _ _ _ => trivial) (fun _ _ _ _ _ _ => trivial) _ ⟨connection, 0⟩ world
    (by simpa using carries) le_rfl (fun _ _ => trivial) trivial
  refine (receiveFilePart_meets loop).weaken fun result later _ ended clean => ?_
  exact (ended.2 clean).2.2 _ List.mem_cons_self

/-- If no taken byte is lost, then whatever else fails, when all streams of a file end without an
error each of its bytes has been written. -/
theorem fileStreams_logged (small : content.length < 2 ^ 63) (safe : SafeName name)
    (short : name.length ≤ 4096) (streams : 0 < options.parallel.toNat)
    {connections : Fin options.parallel.toNat → Connection}
    (carries : ∀ stream, (connections stream).remaining =
      (partRecord options content name stream).bytes) (fs : FileSystem)
    {schedule : List (Fin options.parallel.toNat × Fault)}
    (kept : (startReceive options fs connections).Admissible perform TakenIsWritten schedule)
    {results : Fin options.parallel.toNat → StreamResult}
    (finished : ((startReceive options fs connections).run perform schedule).FinishedWith results)
    (clean : ∀ stream, (results stream).error = none) {position : Nat} {byte : UInt8}
    (present : content[position]? = some byte) :
    ∃ effect ∈ ((startReceive options fs connections).run perform schedule).world.history,
      effect.Writes position byte := by
  have meet : (startReceive options fs connections).AllMeet perform TakenIsWritten
      (fun _ => True) (fun _ => Remembers) (fun _ => Remembers) _ :=
    ⟨trivial, fun stream => filePart_logs small safe short stream (carries stream) _⟩
  have kept := meet.run (fun _ => Remembers.refl) (fun _ => Remembers.trans)
    (fun _ _ _ _ _ remembers => remembers) schedule kept
  have inside : position < content.length := (List.getElem?_eq_some_iff.mp present).1
  obtain ⟨stream, low, high⟩ := exists_range content.length streams inside
  obtain ⟨start, stop⟩ := partRecord_range name small stream
  have part := partRecord_isPart small safe short stream
  have logged := kept.finished (fun _ => Remembers.refl) finished stream (clean stream)
    (position - (partRecord options content name stream).offset.toNat)
    (by rw [part.payload]; omega) byte (by
      show ((content.drop (partRecord options content name stream).offset.toNat).take
        (partRecord options content name stream).payloadSize.toNat)[_]? = _
      rw [List.getElem?_take_of_lt (by omega), List.getElem?_drop, ← present]
      congr 1
      omega)
  rwa [Nat.add_sub_cancel' (by omega)] at logged

end Logged

/-! ### Honest transfers -/

/-- What a sender transfers over several streams. -/
inductive Transfer where
  | file (content name : Bytes)
  | directory (tree : SourceTree) (sort : List DirectoryItem → List DirectoryItem)

namespace Transfer

/-- What `run_send` accepts. -/
def Honest (options : Options) : Transfer → Prop
  | file content name => content.length < 2 ^ 63 ∧ SafeName name ∧ name.length ≤ 4096
  | directory tree sort => options.file.filename = tree.root ∧ SortsBySize sort

/-- What the sender would send on each stream. -/
def sent (options : Options) :
    Transfer → Fin options.parallel.toNat → Sent
  | file content name => sendFile options content name
  | directory tree sort => sendDirectory options sort (tree.listing options.file)

/-- The receiver can take the transfer: the output file can be created, or the output directory
exists and holds nothing of the root's name. -/
def Welcome (options : Options) (fs : FileSystem) : Transfer → Prop
  | file _ name => (fs.openTruncate (options.outputDir / Path.parse name)).reply ≠ none
  | directory tree _ => fs.IsTree ∧ ∃ home, fs.Names options.outputDir home ∧
      fs.lookup (home ++ [tree.root]) = none

/-- Everything was received: each byte of the file was written, or each entry of the tree came
in on some stream. -/
def Received {streams : Nat} (connections : Fin streams → Connection) (world : World) :
    Transfer → Prop
  | file content _ => ∀ position byte, content[position]? = some byte →
      ∃ effect ∈ world.history, effect.Writes position byte
  | directory tree _ => ∀ entry ∈ tree.nodes, ∃ stream before after,
      (connections stream).remaining = before ++ (entryRecord entry).bytes ++ after ∧
        WholeRecords before ∧ WholeRecords after

/-- No truncation goes unnoticed: in every run of the receiver in which no output stream loses
bytes that it took, whatever the interleaving and whatever else fails, if a stream delivers less
than was sent then some stream ends with an error; and if the transfer succeeds then everything
was received. -/
def Noticed (transfer : Transfer) (options : Options) (fs : FileSystem)
    (connections : Fin options.parallel.toNat → Connection) : Prop :=
  ∀ schedule results,
    (startReceive options fs connections).Admissible perform TakenIsWritten schedule →
    ((startReceive options fs connections).run perform schedule).FinishedWith results →
    ((∃ stream, (connections stream).remaining ≠ (transfer.sent options stream).bytes) →
      ∃ stream, (results stream).error ≠ none) ∧
    (∀ total, finishTransfer (List.ofFn results) = .ok total →
      transfer.Received connections
        ((startReceive options fs connections).run perform schedule).world)

/-- The records of an honest transfer. -/
theorem exists_records {options : Options} (streams : 0 < options.parallel.toNat)
    {transfer : Transfer} (honest : transfer.Honest options) :
    ∃ records : Fin options.parallel.toNat → List Record, ∀ stream,
      (transfer.sent options stream).bytes = (records stream).flatMap Record.bytes ∧
      (∀ record ∈ records stream, record.Complete) ∧
      ∀ record ∈ records stream, record.header.payloadSpan = record.payload.length := by
  cases transfer with
  | file content name =>
    obtain ⟨small, safe, short⟩ := honest
    refine ⟨fun stream => [partRecord options content name stream], fun stream => ?_⟩
    have part := partRecord_isPart small safe short stream
    refine ⟨?_, by simpa using part.toComplete, ?_⟩
    · rw [sent, sendFile_eq small stream]
      simp
    · simp only [List.mem_singleton, forall_eq]
      rw [part.payload]
      rcases part.kind with kind | kind <;> simp [IncomingHeader.payloadSpan, Record.header, kind]
  | directory tree sort =>
    obtain ⟨parts, all, sends⟩ := tree.sendDirectory_eq options
      (SourceTree.plain_of_filename (honest.1 ▸ tree.rootName.1)) streams honest.2
    obtain ⟨members, -, -⟩ := parts_distinct all
    refine ⟨fun stream => (parts stream).map entryRecord, fun stream => ⟨?_, ?_, ?_⟩⟩
    · rw [sent, sends stream]
    · simp only [List.forall_mem_map]
      exact fun entry member => SourceTree.entryRecord_complete (members stream entry member)
    · simp only [List.forall_mem_map]
      exact fun entry member => SourceTree.entryRecord_payloadSpan (members stream entry member)

section Cut

variable {options : Options} {transfer : Transfer} {fs : FileSystem}
  {connections : Fin options.parallel.toNat → Connection}

/-- A stream that is cut inside a record ends with an error, whatever happens. -/
theorem error_of_torn (streams : 0 < options.parallel.toNat) (honest : transfer.Honest options)
    (cut : ∀ stream, (connections stream).remaining <+: (transfer.sent options stream).bytes)
    {schedule : List (Fin options.parallel.toNat × Fault)}
    {results : Fin options.parallel.toNat → StreamResult}
    (finished : ((startReceive options fs connections).run perform schedule).FinishedWith results)
    {stream : Fin options.parallel.toNat} (torn : ¬ WholeRecords (connections stream).remaining) :
    (results stream).error ≠ none := by
  obtain ⟨records, sends⟩ := exists_records streams honest
  obtain ⟨bytes, complete, spans⟩ := sends stream
  have loop := receiveRecords_whole options complete spans _ ⟨connections stream, 0⟩ le_rfl
    (bytes ▸ cut stream)
  have ends : (receiveFilePart options (connections stream)).EndsOnlyIn
      fun result => result.error ≠ none := by
    refine Program.EndsOnlyIn.bind loop fun outcome whole => ?_
    obtain ⟨reply, last⟩ := outcome
    cases reply with
    | error error => exact fun never => by cases never
    | ok value => exact absurd (whole rfl) torn
  have last : (((startReceive options fs connections).run perform schedule).threads
      stream).EndsOnlyIn fun result => result.error ≠ none :=
    Config.run_endsOnlyIn perform stream schedule ends
  rw [finished stream] at last
  exact last

/-- Where every cut lies between two records, some run ends without an error and loses
nothing. -/
theorem exists_silent_run (streams : 0 < options.parallel.toNat)
    (honest : transfer.Honest options) (welcome : transfer.Welcome options fs)
    (cut : ∀ stream, (connections stream).remaining <+: (transfer.sent options stream).bytes)
    (whole : ∀ stream, WholeRecords (connections stream).remaining) :
    ∃ schedule results,
      (startReceive options fs connections).Admissible perform TakenIsWritten schedule ∧
      ((startReceive options fs connections).run perform schedule).FinishedWith results ∧
        ∀ stream, (results stream).error = none := by
  cases transfer with
  | file content name =>
    obtain ⟨small, safe, short⟩ := honest
    have fronts : ∀ stream, ∃ front, front <+: [partRecord options content name stream] ∧
        (connections stream).remaining = front.flatMap Record.bytes := by
      intro stream
      have part := (partRecord_isPart small safe short stream).toComplete
      refine front_of_wholeRecords (by simpa using part) (whole stream) ?_
      have inside := cut stream
      rw [sent, sendFile_eq small stream] at inside
      simpa using inside
    choose records front carries using fronts
    have bound : (UInt64.ofNat content.length).toNat ≤ maximumOffset := by
      rw [toNat_contentSize small, maximumOffset]
      omega
    have smooth : ∀ fault request world,
        Prepared (outputPath options name) name (UInt64.ofNat content.length) fs world →
        NoFault fault request world →
        Smooth (outputPath options name) name (UInt64.ofNat content.length) fault request world :=
      fun fault request world prepared quiet =>
        ⟨quiet, fun _ => smooth_of_creatable welcome bound prepared⟩
    have ends := fileStreams_endsIn small safe short records front connections carries fs smooth
    obtain ⟨schedule, results, admissible, finished, -, each⟩ :=
      ends.exists_run fun _ _ => ⟨.none, rfl⟩
    refine ⟨schedule, results, admissible.weaken fun fault request world quiet => ?_, finished,
      fun stream => (each stream).1⟩
    exact takenIsWritten_of_noFault request world quiet
  | directory tree sort =>
    obtain ⟨parts, all, sends⟩ := tree.sendDirectory_eq options
      (SourceTree.plain_of_filename (honest.1 ▸ tree.rootName.1)) streams honest.2
    obtain ⟨members, distinct, disjoint⟩ := parts_distinct all
    obtain ⟨isTree, home, named, absent⟩ := welcome
    have fronts : ∀ stream, ∃ front, front <+: parts stream ∧ (connections stream).remaining =
        front.flatMap fun entry => (entryRecord entry).bytes := by
      intro stream
      have complete : ∀ record ∈ (parts stream).map entryRecord, record.Complete := by
        simp only [List.forall_mem_map]
        exact fun entry member => SourceTree.entryRecord_complete (members stream entry member)
      have inside := cut stream
      rw [sent, sends stream] at inside
      obtain ⟨records, front, bytes⟩ := front_of_wholeRecords complete (whole stream) inside
      obtain ⟨entries, begins, rfl⟩ := List.prefix_map_iff.mp front
      exact ⟨entries, begins, by rw [bytes, List.flatMap_map]⟩
    choose kept front carries using fronts
    have names : ∀ stream, (kept stream).map Prod.fst <+: (parts stream).map Prod.fst :=
      fun stream => (front stream).map _
    have ends := treeStreams_endsIn named (tree.free_nodes isTree absent) kept
      (fun stream entry member => members stream entry ((front stream).subset member))
      (fun stream => (distinct stream).sublist (names stream).sublist)
      (fun stream other different name inFirst inSecond => disjoint stream other different
        ((names stream).subset inFirst) ((names other).subset inSecond))
      (⟨.none, rfl⟩ : ∃ fault, fault = Fault.none) connections carries
    obtain ⟨schedule, results, admissible, finished, -, each⟩ :=
      ends.exists_run fun request world =>
        ⟨.none, closing_of_noFault rfl .none request world rfl⟩
    refine ⟨schedule, results, admissible.weaken fun fault request world quiet => ?_, finished,
      fun stream => (each stream).1⟩
    refine takenIsWritten_of_noFault request world ?_
    cases request <;> exact quiet

/-- Without a cut, a transfer that succeeds has received everything. -/
theorem received_of_uncut (streams : 0 < options.parallel.toNat)
    (honest : transfer.Honest options)
    (uncut : ∀ stream, (connections stream).remaining = (transfer.sent options stream).bytes)
    {schedule : List (Fin options.parallel.toNat × Fault)}
    (kept : (startReceive options fs connections).Admissible perform TakenIsWritten schedule)
    {results : Fin options.parallel.toNat → StreamResult}
    (finished : ((startReceive options fs connections).run perform schedule).FinishedWith results)
    (clean : ∀ stream, (results stream).error = none) :
    transfer.Received connections
      ((startReceive options fs connections).run perform schedule).world := by
  cases transfer with
  | file content name =>
    obtain ⟨small, safe, short⟩ := honest
    have carries : ∀ stream, (connections stream).remaining =
        (partRecord options content name stream).bytes := by
      intro stream
      rw [uncut stream, sent, sendFile_eq small stream]
    exact fun position byte present =>
      fileStreams_logged small safe short streams carries fs kept finished clean present
  | directory tree sort =>
    obtain ⟨parts, all, sends⟩ := tree.sendDirectory_eq options
      (SourceTree.plain_of_filename (honest.1 ▸ tree.rootName.1)) streams honest.2
    obtain ⟨members, -, -⟩ := parts_distinct all
    intro entry member
    obtain ⟨part, inParts, inPart⟩ := List.mem_flatten.mp (all.symm.subset member)
    obtain ⟨stream, rfl⟩ := List.mem_ofFn.mp inParts
    obtain ⟨before, after, split⟩ := List.append_of_mem inPart
    have whole : ∀ entries : List (List Bytes × Node),
        (∀ entry ∈ entries, entry ∈ parts stream) →
        WholeRecords ((entries.map entryRecord).flatMap Record.bytes) := by
      refine fun entries inside => ⟨entries.map entryRecord, ?_, rfl⟩
      simp only [List.forall_mem_map]
      exact fun other inEntries =>
        SourceTree.entryRecord_complete (members stream other (inside other inEntries))
    refine ⟨stream, (before.map entryRecord).flatMap Record.bytes,
      (after.map entryRecord).flatMap Record.bytes, ?_, whole before fun other early => ?_,
      whole after fun other late => ?_⟩
    · rw [uncut stream, sent, sends stream, split]
      simp
    · rw [split]
      exact List.mem_append_left _ early
    · rw [split]
      exact List.mem_append_right _ (List.mem_cons_of_mem _ late)

end Cut

/-- When a truncation is noticed. If some stream was cut inside a record then some stream ends
with an error in every run, whatever fails. If that is so or nothing was cut, then no truncation
goes unnoticed in any run that does not lose bytes which an output stream took; and where the
receiver can take the transfer at all, it is noticed only then: cuts that all lie between two
records give a run that loses nothing and succeeds. -/
theorem noticed_iff (options : Options) (parallel : 1 < options.parallel) (transfer : Transfer)
    (honest : transfer.Honest options)
    (connections : Fin options.parallel.toNat → Connection)
    (cut : ∀ stream, (connections stream).remaining <+: (transfer.sent options stream).bytes)
    (fs : FileSystem) :
    ((∃ stream, ¬ WholeRecords (connections stream).remaining) → ∀ schedule results,
      ((startReceive options fs connections).run perform schedule).FinishedWith results →
        ∃ stream, (results stream).error ≠ none) ∧
    (((∀ stream, (connections stream).remaining = (transfer.sent options stream).bytes) ∨
        ∃ stream, ¬ WholeRecords (connections stream).remaining) →
      transfer.Noticed options fs connections) ∧
    (transfer.Welcome options fs →
      (transfer.Noticed options fs connections ↔
        (∀ stream, (connections stream).remaining = (transfer.sent options stream).bytes) ∨
          ∃ stream, ¬ WholeRecords (connections stream).remaining)) := by
  have streams : 0 < options.parallel.toNat := Nat.lt_trans Nat.zero_lt_one
    (UInt32.lt_iff_toNat_lt.mp parallel)
  have enough : ((∀ stream, (connections stream).remaining = (transfer.sent options stream).bytes) ∨
      ∃ stream, ¬ WholeRecords (connections stream).remaining) →
      transfer.Noticed options fs connections := by
    rintro (uncut | ⟨stream, torn⟩) schedule results kept finished
    · refine ⟨fun ⟨stream, missing⟩ => absurd (uncut stream) missing, fun total success => ?_⟩
      exact received_of_uncut streams honest uncut kept finished
        (clean_of_finishTransfer success)
    · have failed := error_of_torn streams honest cut finished torn
      exact ⟨fun _ => ⟨stream, failed⟩, fun total success =>
        absurd (clean_of_finishTransfer success stream) failed⟩
  refine ⟨fun ⟨stream, torn⟩ schedule results finished =>
    ⟨stream, error_of_torn streams honest cut finished torn⟩, enough, fun welcome =>
    ⟨fun noticed => ?_, enough⟩⟩
  by_contra neither
  simp only [not_or, not_forall, not_exists, not_not] at neither
  obtain ⟨missing, whole⟩ := neither
  obtain ⟨schedule, results, kept, finished, clean⟩ :=
    exists_silent_run streams honest welcome cut whole
  obtain ⟨stream, failed⟩ := (noticed schedule results kept finished).1 missing
  exact failed (clean stream)

end Transfer

/-- Two bytes for two streams, of which the second delivers only some of its bytes. -/
def shortDelivery (delivered : Nat) (stream : Fin smallTransfer.parallel.toNat) : Connection where
  remaining := if stream.val = 0 then (sendFile smallTransfer (ascii "ab") (ascii "f") stream).bytes
    else (sendFile smallTransfer (ascii "ab") (ascii "f") stream).bytes.take delivered
  fragments := []

/-- The second stream closes in its header. -/
theorem noticed_iff_header :
    (Transfer.file (ascii "ab") (ascii "f")).Noticed smallTransfer rootOnly (shortDelivery 7) :=
  (Transfer.noticed_iff smallTransfer (by decide) (.file (ascii "ab") (ascii "f"))
    ⟨by decide, by decide, by decide⟩ (shortDelivery 7) (by decide +kernel) rootOnly).2.1
    (Or.inr ⟨⟨1, by decide⟩, not_wholeRecords_short (by decide +kernel) (by decide +kernel)⟩)

/-- The second stream closes before its header, and the receiver reports success. -/
theorem emptyStream_unnoticed :
    (Transfer.file (ascii "ab") (ascii "f")).Honest smallTransfer ∧
      (∀ stream, (shortDelivery 0 stream).remaining <+:
        ((Transfer.file (ascii "ab") (ascii "f")).sent smallTransfer stream).bytes) ∧
      ¬ (Transfer.file (ascii "ab") (ascii "f")).Noticed smallTransfer rootOnly
        (shortDelivery 0) := by
  have honest : (Transfer.file (ascii "ab") (ascii "f")).Honest smallTransfer :=
    ⟨by decide, by decide, by decide⟩
  have cut : ∀ stream, (shortDelivery 0 stream).remaining <+:
      ((Transfer.file (ascii "ab") (ascii "f")).sent smallTransfer stream).bytes := by
    decide +kernel
  refine ⟨honest, cut, fun noticed => ?_⟩
  have first := partRecord_isPart (by decide : (ascii "ab").length < 2 ^ 63)
    (by decide : SafeName (ascii "f")) (by decide)
    (⟨0, by decide⟩ : Fin smallTransfer.parallel.toNat)
  have whole : ∀ stream, WholeRecords (shortDelivery 0 stream).remaining := by
    intro stream
    by_cases zero : stream.val = 0
    · refine ⟨[partRecord smallTransfer (ascii "ab") (ascii "f") ⟨0, by decide⟩],
        by simpa using first.toComplete, ?_⟩
      rw [show stream = ⟨0, by decide⟩ from Fin.ext zero]
      decide +kernel
    · exact ⟨[], by simp, by simp [shortDelivery, zero]⟩
  obtain ⟨schedule, results, kept, finished, clean⟩ := Transfer.exists_silent_run (by decide) honest
    (show (rootOnly.openTruncate (Path.parse (ascii "/") / Path.parse (ascii "f"))).reply ≠ none
      by decide) cut whole
  obtain ⟨stream, failed⟩ := (noticed schedule results kept finished).1
    ⟨⟨1, by decide⟩, by decide +kernel⟩
  exact failed (clean stream)

end HyperLink
