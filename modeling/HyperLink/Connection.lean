/-
This file is the reading side of one connection: `receive_exact` and the two
header readers of `examples/file_transfer.cpp`, over a stream that arrives in
arbitrary pieces.

A connection holds the bytes the peer will still deliver before it closes, and
the sizes in which they arrive. Each reader is compared with the same read of
the remaining bytes as a whole: `forget` drops the sizes, and after it a reader
is a function of the remaining bytes alone.
-/

import HyperLink.Path

namespace HyperLink

/-- One connection: the bytes still to come and the sizes of the next pieces. Once the sizes
are used up, every read is served in full. -/
structure Connection where
  remaining : Bytes
  fragments : List Nat
  deriving DecidableEq, Repr

/-- `receive_into`: a non-empty prefix of what is still to come, at most the size of the
buffer, and nothing only at the end of the stream. -/
def Connection.receiveInto (connection : Connection) (size : Nat) : Bytes × Connection :=
  match connection.fragments with
  | [] => (connection.remaining.take size, ⟨connection.remaining.drop size, []⟩)
  | fragment :: later =>
      (connection.remaining.take (min size (max 1 fragment)),
        ⟨connection.remaining.drop (min size (max 1 fragment)), later⟩)

def closedEarly : Error := ascii "connection closed before expected bytes arrived"

/-- The loop of `receive_exact`, with what the buffer holds so far. -/
def receiveExactLoop (connection : Connection) (missing : Nat) (received : Bytes) :
    Except Error (Bytes × Connection) :=
  if missing = 0 then .ok (received, connection)
  else match connection.receiveInto missing with
    | ([], _) => .error closedEarly
    | (byte :: bytes, rest) =>
        receiveExactLoop rest (missing - (bytes.length + 1)) (received ++ byte :: bytes)
termination_by missing

def receiveExact (connection : Connection) (size : Nat) : Except Error (Bytes × Connection) :=
  receiveExactLoop connection size []

/-- The header loop of `receive_header_optional`: an end of stream before the first byte is
no error. -/
def receiveHeaderBytes (connection : Connection) (missing : Nat) (received : Bytes) :
    Except Error (Option Bytes × Connection) :=
  if missing = 0 then .ok (some received, connection)
  else match connection.receiveInto missing with
    | ([], rest) =>
        if received = [] then .ok (none, rest)
        else .error (ascii "connection closed in the middle of a header")
    | (byte :: bytes, rest) =>
        receiveHeaderBytes rest (missing - (bytes.length + 1)) (received ++ byte :: bytes)
termination_by missing

/-- The checks and fields of a complete header. Both readers contain this code; the name is
read after it. -/
def decodeHeader (header : Bytes) : Except Error IncomingHeader :=
  if header.take kMagic.length ≠ kMagic then .error (ascii "invalid file-transfer header")
  else
    let nameSize := readU64Be ((header.drop 24).take 8)
    if nameSize = 0 ∨ nameSize > kMaxNameBytes then
      .error (ascii "invalid incoming file name length")
    else match TransferKind.ofCode (readU64Be ((header.drop 8).take 8)) with
      | none => .error (ascii "unsupported incoming transfer kind")
      | some kind => .ok {
          kind := kind
          payloadSize := readU64Be ((header.drop 16).take 8)
          nameSize := nameSize
          offset := readU64Be ((header.drop 32).take 8)
          totalSize := readU64Be ((header.drop 40).take 8)
          fileName := [] }

def receiveHeader (connection : Connection) : Except Error (IncomingHeader × Connection) := do
  let (header, rest) ← receiveExact connection kHeaderBytes
  let incoming ← decodeHeader header
  let (nameBytes, rest) ← receiveExact rest incoming.nameSize.toNat
  let fileName ← safeFileName nameBytes
  return ({ incoming with fileName := fileName }, rest)

def receiveHeaderOptional (connection : Connection) :
    Except Error (Option IncomingHeader × Connection) := do
  let (header, rest) ← receiveHeaderBytes connection kHeaderBytes []
  match header with
  | none => return (none, rest)
  | some header =>
      let incoming ← decodeHeader header
      let (nameBytes, rest) ← receiveExact rest incoming.nameSize.toNat
      return (some { incoming with fileName := nameBytes }, rest)

/-- The size of the largest vector of bytes. -/
def maximumVector : Nat := 2 ^ 63 - 1

def vectorTooLarge : Error := ascii "cannot create std::vector larger than max_size()"

/-- The vector is made before its bytes are read. That the memory for it is there is taken for
granted. -/
def receiveTextPayload (connection : Connection) (payloadSize : UInt64) :
    Except Error (Bytes × Connection) :=
  if maximumVector < payloadSize.toNat then .error vectorTooLarge
  else receiveExact connection payloadSize.toNat

/-! ### Reading does not depend on the pieces -/

/-- Keep the bytes still to come and forget in which pieces they will come. -/
def forget {Value : Type} (outcome : Except Error (Value × Connection)) :
    Except Error (Value × Bytes) :=
  outcome.map fun pair => (pair.1, pair.2.remaining)

@[simp]
theorem forget_ok {Value : Type} (value : Value) (connection : Connection) :
    forget (.ok (value, connection)) = .ok (value, connection.remaining) := rfl

@[simp]
theorem forget_error {Value : Type} (error : Error) :
    forget (.error error : Except Error (Value × Connection)) = .error error := rfl

theorem ok_of_forget {Value : Type} {outcome : Except Error (Value × Connection)} {value : Value}
    {rest : Bytes} (whole : forget outcome = .ok (value, rest)) :
    ∃ connection, outcome = .ok (value, connection) ∧ connection.remaining = rest := by
  cases outcome with
  | error error => cases whole
  | ok pair =>
    rw [show forget (.ok pair) = .ok (pair.1, pair.2.remaining) from rfl] at whole
    injection whole with same
    injection same with sameValue sameRest
    exact ⟨pair.2, by rw [← sameValue], sameRest⟩

theorem error_of_forget {Value : Type} {outcome : Except Error (Value × Connection)}
    {error : Error} (whole : forget outcome = .error error) : outcome = .error error := by
  cases outcome with
  | error other =>
    injection whole with same
    rw [same]
  | ok pair => cases whole

/-- A read splits what is still to come. -/
theorem receiveInto_append (connection : Connection) (size : Nat) :
    (connection.receiveInto size).1 ++ (connection.receiveInto size).2.remaining =
      connection.remaining := by
  unfold Connection.receiveInto
  split <;> exact List.take_append_drop _ _

theorem receiveInto_length_le (connection : Connection) (size : Nat) :
    (connection.receiveInto size).1.length ≤ size := by
  unfold Connection.receiveInto
  split <;> rw [List.length_take] <;> omega

/-- A read returns nothing exactly at the end of the stream. -/
theorem receiveInto_eq_nil_iff (connection : Connection) {size : Nat} (wanted : 0 < size) :
    (connection.receiveInto size).1 = [] ↔ connection.remaining = [] := by
  unfold Connection.receiveInto
  split
  · simp only [List.take_eq_nil_iff]
    exact or_iff_right (by omega)
  · simp only [List.take_eq_nil_iff]
    exact or_iff_right (by omega)

/-- The outcome of one read before the end of the stream, for the loops. -/
theorem receiveInto_cases (connection : Connection) {size : Nat} (wanted : 0 < size) :
    (connection.remaining = [] ∧ (connection.receiveInto size).1 = [] ∧
        (connection.receiveInto size).2.remaining = []) ∨
      ∃ byte bytes rest, connection.receiveInto size = (byte :: bytes, rest) ∧
        bytes.length + 1 ≤ size ∧ connection.remaining = byte :: bytes ++ rest.remaining := by
  have split := receiveInto_append connection size
  have short := receiveInto_length_le connection size
  have ended := receiveInto_eq_nil_iff connection wanted
  generalize connection.receiveInto size = outcome at split short ended
  obtain ⟨chunk, rest⟩ := outcome
  cases chunk with
  | nil =>
    have nothing := ended.mp rfl
    rw [nothing] at split
    exact Or.inl ⟨nothing, rfl, split⟩
  | cons byte bytes => exact Or.inr ⟨byte, bytes, rest, rfl, short, split.symm⟩

theorem forget_receiveExactLoop (connection : Connection) (missing : Nat) (received : Bytes) :
    forget (receiveExactLoop connection missing received) =
      if missing ≤ connection.remaining.length then
        .ok (received ++ connection.remaining.take missing, connection.remaining.drop missing)
      else .error closedEarly := by
  induction missing using Nat.strong_induction_on generalizing connection received with
  | _ missing inductionHypothesis =>
    rw [receiveExactLoop]
    by_cases none : missing = 0
    · subst none
      simp
    · rw [if_neg none]
      obtain ⟨ended, nothing, -⟩ | ⟨byte, bytes, rest, chunk, short, split⟩ :=
        receiveInto_cases connection (Nat.pos_of_ne_zero none)
      · rw [show connection.receiveInto missing = ([], (connection.receiveInto missing).2) from
          Prod.ext nothing rfl, if_neg (by simpa [ended] using none)]
        rfl
      · have length : connection.remaining.length = bytes.length + 1 + rest.remaining.length := by
          rw [split]
          simp
          omega
        have count : missing = (byte :: bytes).length + (missing - (bytes.length + 1)) := by
          simp
          omega
        rw [chunk]
        simp only []
        rw [inductionHypothesis (missing - (bytes.length + 1)) (by omega)]
        by_cases enough : missing ≤ connection.remaining.length
        · rw [if_pos (by omega), if_pos enough, split]
          conv_rhs => rw [count, List.take_length_add_append, List.drop_length_add_append]
          rw [List.append_assoc]
        · rw [if_neg (by omega), if_neg enough]

/-- `receive_exact` reads exactly the next bytes, or fails when there are too few. -/
theorem forget_receiveExact (connection : Connection) (size : Nat) :
    forget (receiveExact connection size) =
      if size ≤ connection.remaining.length then
        .ok (connection.remaining.take size, connection.remaining.drop size)
      else .error closedEarly := by
  rw [receiveExact, forget_receiveExactLoop, List.nil_append]

theorem receiveTextPayload_large {payloadSize : UInt64}
    (large : maximumVector < payloadSize.toNat) (connection : Connection) :
    receiveTextPayload connection payloadSize = .error vectorTooLarge := if_pos large

theorem forget_receiveTextPayload {payloadSize : UInt64}
    (small : ¬ maximumVector < payloadSize.toNat) (connection : Connection) :
    forget (receiveTextPayload connection payloadSize) =
      if payloadSize.toNat ≤ connection.remaining.length then
        .ok (connection.remaining.take payloadSize.toNat,
          connection.remaining.drop payloadSize.toNat)
      else .error closedEarly := by
  rw [receiveTextPayload, if_neg small]
  exact forget_receiveExact connection payloadSize.toNat

theorem forget_receiveHeaderBytes (connection : Connection) (missing : Nat) (received : Bytes) :
    forget (receiveHeaderBytes connection missing received) =
      if missing ≤ connection.remaining.length then
        .ok (some (received ++ connection.remaining.take missing),
          connection.remaining.drop missing)
      else if received = [] ∧ connection.remaining = [] then .ok (none, [])
      else .error (ascii "connection closed in the middle of a header") := by
  induction missing using Nat.strong_induction_on generalizing connection received with
  | _ missing inductionHypothesis =>
    rw [receiveHeaderBytes]
    by_cases none : missing = 0
    · subst none
      simp
    · rw [if_neg none]
      obtain ⟨ended, nothing, last⟩ | ⟨byte, bytes, rest, chunk, short, split⟩ :=
        receiveInto_cases connection (Nat.pos_of_ne_zero none)
      · rw [show connection.receiveInto missing = ([], (connection.receiveInto missing).2) from
          Prod.ext nothing rfl, if_neg (by simpa [ended] using none)]
        by_cases first : received = []
        · simp [first, ended, last]
        · simp [first]
      · have length : connection.remaining.length = bytes.length + 1 + rest.remaining.length := by
          rw [split]
          simp
          omega
        have count : missing = (byte :: bytes).length + (missing - (bytes.length + 1)) := by
          simp
          omega
        rw [chunk]
        simp only []
        rw [inductionHypothesis (missing - (bytes.length + 1)) (by omega)]
        by_cases enough : missing ≤ connection.remaining.length
        · rw [if_pos (by omega), if_pos enough, split]
          conv_rhs => rw [count, List.take_length_add_append, List.drop_length_add_append]
          rw [List.append_assoc]
        · rw [if_neg (by omega), if_neg enough, if_neg (by simp), if_neg (by simp [split])]

/-- The optional header reader on the remaining bytes as a whole. -/
def headerOptionalOf (stream : Bytes) : Except Error (Option IncomingHeader × Bytes) := do
  if stream = [] then return (none, [])
  if stream.length < kHeaderBytes then
    throw (ascii "connection closed in the middle of a header")
  let incoming ← decodeHeader (stream.take kHeaderBytes)
  let rest := stream.drop kHeaderBytes
  if rest.length < incoming.nameSize.toNat then throw closedEarly
  return (some { incoming with fileName := rest.take incoming.nameSize.toNat },
    rest.drop incoming.nameSize.toNat)

/-- The name after a decoded header, as both readers read it. -/
theorem forget_receiveName {Value : Type} (connection : Connection) (size : Nat)
    (finish : Bytes → Value) :
    forget (do
      let (nameBytes, rest) ← receiveExact connection size
      return (finish nameBytes, rest)) =
      if connection.remaining.length < size then .error closedEarly
      else .ok (finish (connection.remaining.take size), connection.remaining.drop size) := by
  have read := forget_receiveExact connection size
  by_cases enough : size ≤ connection.remaining.length
  · rw [if_pos enough] at read
    obtain ⟨rest, outcome, left⟩ := ok_of_forget read
    rw [outcome, if_neg (by omega), ← left]
    rfl
  · rw [if_neg enough] at read
    rw [error_of_forget read, if_pos (by omega)]
    rfl

/-- The optional header reader depends only on the bytes, not on their pieces. -/
theorem forget_receiveHeaderOptional (connection : Connection) :
    forget (receiveHeaderOptional connection) = headerOptionalOf connection.remaining := by
  have read := forget_receiveHeaderBytes connection kHeaderBytes []
  unfold receiveHeaderOptional headerOptionalOf
  by_cases full : kHeaderBytes ≤ connection.remaining.length
  · have more : connection.remaining ≠ [] := by
      intro ended
      rw [ended] at full
      exact absurd full (by decide)
    rw [if_pos full, List.nil_append] at read
    obtain ⟨rest, outcome, left⟩ := ok_of_forget read
    rw [outcome, if_neg more, if_neg (by omega), ← left]
    show forget (decodeHeader (connection.remaining.take kHeaderBytes) >>= _) = _
    cases decoded : decodeHeader (connection.remaining.take kHeaderBytes) with
    | error error => rfl
    | ok incoming =>
      exact forget_receiveName rest incoming.nameSize.toNat
        fun nameBytes => some { incoming with fileName := nameBytes }
  · rw [if_neg full] at read
    by_cases ended : connection.remaining = []
    · rw [if_pos ⟨rfl, ended⟩] at read
      obtain ⟨rest, outcome, left⟩ := ok_of_forget read
      rw [outcome, if_pos ended]
      show forget (.ok (none, rest)) = _
      rw [forget_ok, left]
      rfl
    · rw [if_neg (by simp [ended])] at read
      rw [error_of_forget read, if_neg ended, if_pos (by omega)]
      rfl

/-- The other header reader on the remaining bytes as a whole. -/
def headerOf (stream : Bytes) : Except Error (IncomingHeader × Bytes) := do
  if stream.length < kHeaderBytes then throw closedEarly
  let incoming ← decodeHeader (stream.take kHeaderBytes)
  let rest := stream.drop kHeaderBytes
  if rest.length < incoming.nameSize.toNat then throw closedEarly
  let fileName ← safeFileName (rest.take incoming.nameSize.toNat)
  return ({ incoming with fileName := fileName }, rest.drop incoming.nameSize.toNat)

/-- The other header reader depends only on the bytes as well. -/
theorem forget_receiveHeader (connection : Connection) :
    forget (receiveHeader connection) = headerOf connection.remaining := by
  have read := forget_receiveExact connection kHeaderBytes
  unfold receiveHeader headerOf
  by_cases full : kHeaderBytes ≤ connection.remaining.length
  · rw [if_pos full] at read
    obtain ⟨rest, outcome, left⟩ := ok_of_forget read
    rw [outcome, if_neg (by omega), ← left]
    show forget (decodeHeader (connection.remaining.take kHeaderBytes) >>= _) = _
    cases decoded : decodeHeader (connection.remaining.take kHeaderBytes) with
    | error error => rfl
    | ok incoming =>
      have name := forget_receiveExact rest incoming.nameSize.toNat
      show forget (receiveExact rest incoming.nameSize.toNat >>= _) =
        (if rest.remaining.length < incoming.nameSize.toNat then _ else _)
      by_cases enough : incoming.nameSize.toNat ≤ rest.remaining.length
      · rw [if_pos enough] at name
        obtain ⟨last, nameOutcome, lastLeft⟩ := ok_of_forget name
        rw [nameOutcome, if_neg (by omega)]
        show forget (safeFileName (rest.remaining.take incoming.nameSize.toNat) >>= _) =
          safeFileName (rest.remaining.take incoming.nameSize.toNat) >>= _
        cases safeFileName (rest.remaining.take incoming.nameSize.toNat) with
        | error error => rfl
        | ok fileName =>
          show Except.ok (_, last.remaining) = _
          rw [lastLeft]
          rfl
      · rw [if_neg enough] at name
        rw [error_of_forget name, if_pos (by omega)]
        rfl
  · rw [if_neg full] at read
    rw [error_of_forget read, if_pos (by omega)]
    rfl

end HyperLink
