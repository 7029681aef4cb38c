/-
This file proves that the header codec is a bijection between headers and the
bytes that announce them. Decoding an encoded header gives its fields, encoding
a decoded header gives its bytes, and the reader that adds the name keeps both
directions for every way the stream is cut into pieces.
-/

import HyperLink.Connection

namespace HyperLink

/-- The sizes a name may have on the wire. -/
def NameSize (name : Bytes) : Prop := 1 ≤ name.length ∧ name.length ≤ 4096

instance (name : Bytes) : Decidable (NameSize name) :=
  inferInstanceAs (Decidable (_ ∧ _))

/-- The size field of a name. -/
def sizeField (name : Bytes) : UInt64 := UInt64.ofNat name.length

theorem toNat_sizeField {name : Bytes} (short : name.length ≤ 4096) :
    (sizeField name).toNat = name.length := by
  rw [sizeField, UInt64.toNat_ofNat']
  omega

theorem sizeField_accepted {name : Bytes} (size : NameSize name) :
    ¬ (sizeField name = 0 ∨ sizeField name > kMaxNameBytes) := by
  have value := toNat_sizeField size.2
  rintro (zero | large)
  · rw [zero] at value
    have := size.1
    simp at value
    omega
  · have := UInt64.lt_iff_toNat_lt.mp large
    rw [value] at this
    exact absurd size.2 (Nat.not_le.mpr this)

/-- Decoding an encoded header gives its fields. -/
theorem decodeHeader_makeHeader (kind : TransferKind)
    (payloadSize nameSize offset totalSize : UInt64)
    (accepted : ¬ (nameSize = 0 ∨ nameSize > kMaxNameBytes)) :
    decodeHeader (makeHeader kind payloadSize nameSize offset totalSize) =
      .ok ⟨kind, payloadSize, nameSize, offset, totalSize, []⟩ := by
  have skip (field later : Bytes) (full : field.length = 8) (start : Nat) :
      (field ++ later).drop (start + 8) = later.drop start := by
    rw [Nat.add_comm, ← full, List.drop_length_add_append]
  have written := length_writeU64Be
  have magic : (makeHeader kind payloadSize nameSize offset totalSize).take kMagic.length =
      kMagic := by
    rw [makeHeader_eq]
    exact List.take_left' rfl
  have kindField : ((makeHeader kind payloadSize nameSize offset totalSize).drop 8).take 8 =
      writeU64Be kind.code := by
    rw [makeHeader_eq, skip _ _ rfl 0, List.drop_zero]
    exact List.take_left' (written _)
  have payloadField : ((makeHeader kind payloadSize nameSize offset totalSize).drop 16).take 8 =
      writeU64Be payloadSize := by
    rw [makeHeader_eq, skip _ _ rfl 8, skip _ _ (written _) 0, List.drop_zero]
    exact List.take_left' (written _)
  have nameField : ((makeHeader kind payloadSize nameSize offset totalSize).drop 24).take 8 =
      writeU64Be nameSize := by
    rw [makeHeader_eq, skip _ _ rfl 16, skip _ _ (written _) 8, skip _ _ (written _) 0,
      List.drop_zero]
    exact List.take_left' (written _)
  have offsetField : ((makeHeader kind payloadSize nameSize offset totalSize).drop 32).take 8 =
      writeU64Be offset := by
    rw [makeHeader_eq, skip _ _ rfl 24, skip _ _ (written _) 16, skip _ _ (written _) 8,
      skip _ _ (written _) 0, List.drop_zero]
    exact List.take_left' (written _)
  have totalField : ((makeHeader kind payloadSize nameSize offset totalSize).drop 40).take 8 =
      writeU64Be totalSize := by
    rw [makeHeader_eq, skip _ _ rfl 32, skip _ _ (written _) 24, skip _ _ (written _) 16,
      skip _ _ (written _) 8, skip _ _ (written _) 0, List.drop_zero]
    exact List.take_of_length_le (Nat.le_of_eq (written _))
  unfold decodeHeader
  rw [if_neg (not_not.mpr magic)]
  simp only [kindField, payloadField, nameField, offsetField, totalField, readU64Be_writeU64Be,
    if_neg accepted, TransferKind.ofCode_code]

/-- A buffer of 48 bytes is its magic and its five fields. -/
theorem header_fields (header : Bytes) (full : header.length = kHeaderBytes) :
    header = header.take 8 ++ ((header.drop 8).take 8 ++ ((header.drop 16).take 8 ++
      ((header.drop 24).take 8 ++ ((header.drop 32).take 8 ++ (header.drop 40).take 8)))) := by
  have last : (header.drop 40).take 8 = header.drop 40 := by
    rw [List.take_of_length_le]
    rw [List.length_drop, full]
    decide
  have join (start : Nat) : (header.drop start).take 8 ++ header.drop (start + 8) =
      header.drop start := by
    rw [← List.drop_drop, List.take_append_drop]
  rw [last, join 32, join 24, join 16, join 8, List.take_append_drop]

/-- Encoding a decoded header gives its bytes. -/
theorem makeHeader_of_decodeHeader {header : Bytes} (full : header.length = kHeaderBytes)
    {incoming : IncomingHeader} (decoded : decodeHeader header = .ok incoming) :
    header = makeHeader incoming.kind incoming.payloadSize incoming.nameSize incoming.offset
      incoming.totalSize ∧ ¬ (incoming.nameSize = 0 ∨ incoming.nameSize > kMaxNameBytes) := by
  unfold decodeHeader at decoded
  split at decoded
  · cases decoded
  · rename_i magic
    simp only [] at decoded
    split at decoded
    · cases decoded
    · rename_i accepted
      split at decoded
      · cases decoded
      · rename_i kind known
        injection decoded with same
        subst same
        refine ⟨?_, accepted⟩
        have field (start : Nat) (inside : start + 8 ≤ kHeaderBytes) :
            writeU64Be (readU64Be ((header.drop start).take 8)) = (header.drop start).take 8 :=
          writeU64Be_readU64Be _ (by rw [List.length_take, List.length_drop, full]; omega)
        rw [makeHeader_eq, TransferKind.code_of_ofCode known, field 8 (by decide),
          field 16 (by decide), field 24 (by decide), field 32 (by decide), field 40 (by decide),
          ← not_not.mp magic]
        exact header_fields header full

/-- The reader on an encoded header, its name and what follows. -/
theorem headerOptionalOf_encoded (kind : TransferKind) (payloadSize offset totalSize : UInt64)
    (name rest : Bytes) (size : NameSize name) :
    headerOptionalOf (makeHeader kind payloadSize (sizeField name) offset totalSize ++ name ++
        rest) =
      .ok (some ⟨kind, payloadSize, sizeField name, offset, totalSize, name⟩, rest) := by
  have first : (makeHeader kind payloadSize (sizeField name) offset totalSize ++ name ++
      rest).take kHeaderBytes = makeHeader kind payloadSize (sizeField name) offset totalSize := by
    rw [List.append_assoc]
    exact List.take_left' (length_makeHeader _ _ _ _ _)
  have second : (makeHeader kind payloadSize (sizeField name) offset totalSize ++ name ++
      rest).drop kHeaderBytes = name ++ rest := by
    rw [List.append_assoc]
    exact List.drop_left' (length_makeHeader _ _ _ _ _)
  have length : (sizeField name).toNat = name.length := toNat_sizeField size.2
  unfold headerOptionalOf
  rw [if_neg (by
      intro ended
      have := congrArg List.length ended
      simp [kHeaderBytes] at this),
    if_neg (by simp [List.length_append]), first, second,
    decodeHeader_makeHeader _ _ _ _ _ (sizeField_accepted size)]
  show (if (name ++ rest).length < (sizeField name).toNat then _ else _) = _
  rw [length, if_neg (by simp)]
  show Except.ok (some _, _) = _
  rw [List.take_left' rfl, List.drop_left' rfl]

/-- What the reader returns is what was announced. -/
theorem encoded_of_headerOptionalOf {stream rest : Bytes} {incoming : IncomingHeader}
    (read : headerOptionalOf stream = .ok (some incoming, rest)) :
    stream = makeHeader incoming.kind incoming.payloadSize incoming.nameSize incoming.offset
        incoming.totalSize ++ incoming.fileName ++ rest ∧
      incoming.fileName.length = incoming.nameSize.toNat ∧
      ¬ (incoming.nameSize = 0 ∨ incoming.nameSize > kMaxNameBytes) := by
  unfold headerOptionalOf at read
  split at read
  · cases read
  · split at read
    · cases read
    · rename_i more full
      cases decoded : decodeHeader (stream.take kHeaderBytes) with
      | error error =>
        rw [decoded] at read
        cases read
      | ok fields =>
        rw [decoded] at read
        change (if (stream.drop kHeaderBytes).length < fields.nameSize.toNat then _ else _) = _
          at read
        split at read
        · cases read
        · rename_i enough
          cases read
          have length : (stream.take kHeaderBytes).length = kHeaderBytes := by
            rw [List.length_take]
            omega
          obtain ⟨header, accepted⟩ := makeHeader_of_decodeHeader length decoded
          refine ⟨?_, ?_, accepted⟩
          · simp only []
            rw [← header, List.append_assoc, List.take_append_drop, List.take_append_drop]
          · exact List.length_take_of_le (Nat.le_of_not_lt enough)

/-- The codec round trip in both directions: a header and its name are read back with exactly
what follows left unread, and the bytes of a header that was read are the encoding of its
fields and its name, whatever the pieces of the stream. -/
theorem receiveHeaderOptional_roundTrip :
    (∀ (kind : TransferKind) (payloadSize offset totalSize : UInt64) (name rest : Bytes)
      (fragments : List Nat), NameSize name →
      ∃ connection : Connection, connection.remaining = rest ∧
        receiveHeaderOptional ⟨makeHeader kind payloadSize (sizeField name) offset totalSize ++
            name ++ rest, fragments⟩ =
          .ok (some ⟨kind, payloadSize, sizeField name, offset, totalSize, name⟩, connection)) ∧
    ∀ (before after : Connection) (incoming : IncomingHeader),
      receiveHeaderOptional before = .ok (some incoming, after) →
      before.remaining = makeHeader incoming.kind incoming.payloadSize incoming.nameSize
        incoming.offset incoming.totalSize ++ incoming.fileName ++ after.remaining := by
  constructor
  · intro kind payloadSize offset totalSize name rest fragments size
    have whole := forget_receiveHeaderOptional ⟨makeHeader kind payloadSize (sizeField name)
      offset totalSize ++ name ++ rest, fragments⟩
    rw [headerOptionalOf_encoded kind payloadSize offset totalSize name rest size] at whole
    obtain ⟨connection, outcome, left⟩ := ok_of_forget whole
    exact ⟨connection, left, outcome⟩
  · intro before after incoming read
    have whole := forget_receiveHeaderOptional before
    rw [read, forget_ok] at whole
    exact (encoded_of_headerOptionalOf whole.symm).1

/-- The round trip of one file part whose stream arrives in single bytes. -/
theorem receiveHeaderOptional_roundTrip_part :
    ∃ connection : Connection, connection.remaining = ascii "data" ∧
      receiveHeaderOptional ⟨makeHeader .filePart 4 (sizeField (ascii "a.txt")) 8 12 ++
          ascii "a.txt" ++ ascii "data", List.replicate 60 1⟩ =
        .ok (some ⟨.filePart, 4, sizeField (ascii "a.txt"), 8, 12, ascii "a.txt"⟩, connection) :=
  receiveHeaderOptional_roundTrip.1 .filePart 4 8 12 (ascii "a.txt") (ascii "data")
    (List.replicate 60 1) (by decide)

/-! ### The two readers -/

/-- The reader of a required header is the optional one with a check of the name, except that
it has its own complaint about a stream that ends within the header. -/
theorem headerOf_eq (stream : Bytes) :
    headerOf stream = if stream.length < kHeaderBytes then .error closedEarly else do
      match ← headerOptionalOf stream with
      | (none, _) => throw closedEarly
      | (some incoming, rest) =>
          let fileName ← safeFileName incoming.fileName
          return ({ incoming with fileName := fileName }, rest) := by
  unfold headerOf headerOptionalOf
  by_cases short : stream.length < kHeaderBytes
  · rw [if_pos short, if_pos short]
    rfl
  · have more : stream ≠ [] := by
      rintro rfl
      exact short (by decide)
    rw [if_neg short, if_neg short, if_neg more, if_neg short]
    cases decodeHeader (stream.take kHeaderBytes) with
    | error error => rfl
    | ok incoming =>
      show (if (stream.drop kHeaderBytes).length < incoming.nameSize.toNat then _ else _) =
        (if (stream.drop kHeaderBytes).length < incoming.nameSize.toNat then _ else _) >>= _
      split <;> rfl

theorem headerOptionalOf_eq_none_iff (stream : Bytes) :
    (∃ rest, headerOptionalOf stream = .ok (none, rest)) ↔ stream = [] := by
  constructor
  · rintro ⟨rest, ended⟩
    by_contra more
    unfold headerOptionalOf at ended
    rw [if_neg more] at ended
    split at ended
    · cases ended
    · cases decoded : decodeHeader (stream.take kHeaderBytes) with
      | error error =>
        rw [decoded] at ended
        cases ended
      | ok fields =>
        rw [decoded] at ended
        change (if (stream.drop kHeaderBytes).length < fields.nameSize.toNat then _ else _) = _
          at ended
        split at ended <;> cases ended
  · rintro rfl
    exact ⟨[], rfl⟩

/-- A stream within whose header the reader ends is refused by the optional reader, too. -/
theorem headerOptionalOf_of_short {stream : Bytes} (short : stream.length < kHeaderBytes)
    (more : stream ≠ []) :
    headerOptionalOf stream = .error (ascii "connection closed in the middle of a header") := by
  unfold headerOptionalOf
  rw [if_neg more, if_pos short]
  rfl

/-- What the required reader returns, in terms of the optional one. -/
theorem headerOf_eq_ok_iff (stream rest : Bytes) (incoming : IncomingHeader) :
    headerOf stream = .ok (incoming, rest) ↔
      ∃ announced fileName, headerOptionalOf stream = .ok (some announced, rest) ∧
        safeFileName announced.fileName = .ok fileName ∧
        incoming = { announced with fileName := fileName } := by
  rw [headerOf_eq]
  by_cases short : stream.length < kHeaderBytes
  · rw [if_pos short]
    refine ⟨fun returned => (by cases returned), fun ⟨announced, _, read, _⟩ => ?_⟩
    by_cases ended : stream = []
    · rw [ended] at read
      cases read
    · rw [headerOptionalOf_of_short short ended] at read
      cases read
  · rw [if_neg short]
    cases read : headerOptionalOf stream with
    | error error =>
      exact ⟨fun returned => (by cases returned), fun ⟨_, _, returned, _⟩ => (by cases returned)⟩
    | ok pair =>
      obtain ⟨header, left⟩ := pair
      cases header with
      | none =>
        exact ⟨fun returned => (by cases returned), fun ⟨_, _, returned, _⟩ => (by cases returned)⟩
      | some announced =>
        show safeFileName announced.fileName >>= _ = _ ↔ _
        cases safe : safeFileName announced.fileName with
        | error error =>
          refine ⟨fun returned => (by cases returned), fun ⟨_, _, same, accepted, _⟩ => ?_⟩
          cases same
          rw [safe] at accepted
          cases accepted
        | ok fileName =>
          constructor
          · intro returned
            cases returned
            exact ⟨announced, fileName, rfl, safe, rfl⟩
          · rintro ⟨_, _, same, accepted, rfl⟩
            cases same
            rw [safe] at accepted
            cases accepted
            rfl

section Readers

variable {stream : Bytes} {fragments pieces : List Nat}

/-- What the required reader returns on one connection, in terms of the optional one on
another that delivers the same bytes. -/
theorem receiveHeader_returns_iff (incoming : IncomingHeader) :
    (∃ left, receiveHeader ⟨stream, fragments⟩ = .ok (incoming, left)) ↔
      ∃ announced fileName left,
        receiveHeaderOptional ⟨stream, pieces⟩ = .ok (some announced, left) ∧
          safeFileName announced.fileName = .ok fileName ∧
          incoming = { announced with fileName := fileName } := by
  have required := forget_receiveHeader ⟨stream, fragments⟩
  have optional := forget_receiveHeaderOptional ⟨stream, pieces⟩
  simp only [] at required optional
  constructor
  · rintro ⟨left, returned⟩
    rw [returned, forget_ok] at required
    obtain ⟨announced, fileName, read, safe, same⟩ := (headerOf_eq_ok_iff _ _ _).mp required.symm
    rw [read] at optional
    obtain ⟨other, outcome, -⟩ := ok_of_forget optional
    exact ⟨announced, fileName, other, outcome, safe, same⟩
  · rintro ⟨announced, fileName, other, outcome, safe, same⟩
    rw [outcome, forget_ok] at optional
    rw [(headerOf_eq_ok_iff _ _ _).mpr ⟨announced, fileName, optional.symm, safe, same⟩]
      at required
    obtain ⟨left, returned, -⟩ := ok_of_forget required
    exact ⟨left, returned⟩

/-- Both readers leave the same bytes unread. -/
theorem receiveHeader_rest {incoming announced : IncomingHeader} {left other : Connection}
    (returned : receiveHeader ⟨stream, fragments⟩ = .ok (incoming, left))
    (read : receiveHeaderOptional ⟨stream, pieces⟩ = .ok (some announced, other)) :
    left.remaining = other.remaining := by
  have required := forget_receiveHeader ⟨stream, fragments⟩
  have optional := forget_receiveHeaderOptional ⟨stream, pieces⟩
  rw [returned, forget_ok] at required
  rw [read, forget_ok] at optional
  obtain ⟨_, _, whole, -, -⟩ := (headerOf_eq_ok_iff _ _ _).mp required.symm
  rw [whole] at optional
  injection optional with same
  injection same with _ same
  exact same.symm

/-- The optional reader returns nothing exactly on the empty stream. -/
theorem receiveHeaderOptional_ended_iff :
    (∃ left, receiveHeaderOptional ⟨stream, pieces⟩ = .ok (none, left)) ↔ stream = [] := by
  have optional := forget_receiveHeaderOptional ⟨stream, pieces⟩
  rw [← headerOptionalOf_eq_none_iff, ← optional]
  constructor
  · rintro ⟨left, ended⟩
    exact ⟨left.remaining, by rw [ended, forget_ok]⟩
  · rintro ⟨rest, ended⟩
    obtain ⟨left, outcome, -⟩ := ok_of_forget ended
    exact ⟨left, outcome⟩

/-- Where the optional reader returns no header, the required one throws. -/
theorem receiveHeader_throws (refused : ∀ announced left,
      receiveHeaderOptional ⟨stream, pieces⟩ ≠ .ok (some announced, left)) :
    ∃ complaint, receiveHeader ⟨stream, fragments⟩ = .error complaint := by
  cases outcome : receiveHeader ⟨stream, fragments⟩ with
  | error complaint => exact ⟨complaint, rfl⟩
  | ok pair =>
    obtain ⟨announced, _, left, read, -⟩ :=
      (receiveHeader_returns_iff pair.1).mp ⟨pair.2, outcome⟩
    exact absurd read (refused announced left)

end Readers

/-- The two readers agree on every stream, however it is cut into pieces for each. The
required one returns a header exactly if the optional one returns one with an acceptable
name, the same but for the cleaned name, and both leave the same bytes unread. The optional
one returns nothing exactly on the empty stream, and whatever it throws on, the other
throws on. -/
theorem receiveHeader_iff_receiveHeaderOptional (stream : Bytes) (fragments pieces : List Nat) :
    (∀ incoming, (∃ left, receiveHeader ⟨stream, fragments⟩ = .ok (incoming, left)) ↔
      ∃ announced fileName left,
        receiveHeaderOptional ⟨stream, pieces⟩ = .ok (some announced, left) ∧
          safeFileName announced.fileName = .ok fileName ∧
          incoming = { announced with fileName := fileName }) ∧
    (∀ incoming announced left other,
      receiveHeader ⟨stream, fragments⟩ = .ok (incoming, left) →
      receiveHeaderOptional ⟨stream, pieces⟩ = .ok (some announced, other) →
      left.remaining = other.remaining) ∧
    ((∃ left, receiveHeaderOptional ⟨stream, pieces⟩ = .ok (none, left)) ↔ stream = []) ∧
    (stream = [] → ∃ error, receiveHeader ⟨stream, fragments⟩ = .error error) ∧
    ∀ error, receiveHeaderOptional ⟨stream, pieces⟩ = .error error →
      ∃ complaint, receiveHeader ⟨stream, fragments⟩ = .error complaint := by
  refine ⟨receiveHeader_returns_iff, ?_, receiveHeaderOptional_ended_iff, ?_, ?_⟩
  · intro incoming announced left other returned read
    exact receiveHeader_rest returned read
  · intro ended
    obtain ⟨left, outcome⟩ := (@receiveHeaderOptional_ended_iff stream pieces).mpr ended
    refine @receiveHeader_throws stream fragments pieces fun announced other read => ?_
    rw [outcome] at read
    cases read
  · intro error thrown
    refine @receiveHeader_throws stream fragments pieces fun announced other read => ?_
    rw [thrown] at read
    cases read

end HyperLink
