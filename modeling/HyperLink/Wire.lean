/-
This file is the wire format of the file-transfer tool: the record header of
`examples/file_transfer.cpp` and its big-endian fields. A header is 48 bytes,
an eight-byte magic followed by five 64-bit fields at fixed offsets. Writing a
field and reading it back are each other's inverse on eight-byte buffers, which
is what every statement about headers rests on.
-/

import Mathlib

namespace HyperLink

/-- A byte string: a buffer, a file's content, a name. -/
abbrev Bytes := List UInt8

/-- The bytes of an ASCII text. -/
def ascii (text : String) : Bytes :=
  text.toList.map fun character => UInt8.ofNat character.toNat

def kMagic : Bytes := ascii "HLXFER3" ++ [0]

def kHeaderBytes : Nat := 48

def kMaxNameBytes : UInt64 := 4096

def kChunkBytes : Nat := 4 * 1024 * 1024

def kStreamingPayloadSize : UInt64 := 0xFFFFFFFFFFFFFFFF

/-- The record kinds of the protocol. -/
inductive TransferKind where
  | file
  | directoryTar
  | filePart
  | directoryEntry
  | directoryFile
  | directorySymlink
  deriving DecidableEq, Repr

namespace TransferKind

/-- The value of a kind on the wire. -/
def code : TransferKind → UInt64
  | file => 1
  | directoryTar => 2
  | filePart => 3
  | directoryEntry => 4
  | directoryFile => 5
  | directorySymlink => 6

/-- The kind of a wire value. The source casts first and compares with the six kinds after. -/
def ofCode (value : UInt64) : Option TransferKind :=
  [file, directoryTar, filePart, directoryEntry, directoryFile, directorySymlink].find?
    fun kind => kind.code == value

@[simp]
theorem ofCode_code (kind : TransferKind) : ofCode kind.code = some kind := by
  cases kind <;> decide

theorem code_of_ofCode {value : UInt64} {kind : TransferKind}
    (decoded : ofCode value = some kind) : kind.code = value := by
  have found := List.find?_some decoded
  exact eq_of_beq found

end TransferKind

/-! ### Big-endian fields -/

def writeU64Be (value : UInt64) : Bytes :=
  (List.range 8).map fun index =>
    ((value >>> UInt64.ofNat ((7 - index) * 8)) &&& 0xFF).toUInt8

def readU64Be (buffer : Bytes) : UInt64 :=
  (buffer.take 8).foldl (fun value byte => (value <<< 8) ||| byte.toUInt64) 0

@[simp]
theorem length_writeU64Be (value : UInt64) : (writeU64Be value).length = 8 := rfl

/-- One written byte is one base-256 digit of the value. -/
theorem toNat_written_byte (value shift : UInt64) (small : shift.toNat < 64) :
    ((value >>> shift) &&& 0xFF).toUInt8.toNat = value.toNat / 2 ^ shift.toNat % 256 := by
  rw [UInt64.toNat_toUInt8, UInt64.toNat_and, UInt64.toNat_shiftRight, Nat.mod_eq_of_lt small,
    Nat.shiftRight_eq_div_pow, show (0xFF : UInt64).toNat = 2 ^ 8 - 1 by decide,
    Nat.and_two_pow_sub_one_eq_mod]
  omega

/-- Reading one more byte appends one base-256 digit, as long as no bit is shifted out. -/
theorem toNat_read_byte (value : UInt64) (byte : UInt8) (small : value.toNat < 2 ^ 56) :
    ((value <<< 8) ||| byte.toUInt64).toNat = value.toNat * 256 + byte.toNat := by
  have fits : value.toNat * 2 ^ 8 < 2 ^ 64 := by omega
  rw [UInt64.toNat_or, UInt64.toNat_shiftLeft, UInt8.toNat_toUInt64,
    show (8 : UInt64).toNat % 64 = 8 by decide, Nat.shiftLeft_eq, Nat.mod_eq_of_lt fits,
    ← Nat.shiftLeft_eq, ← Nat.shiftLeft_add_eq_or_of_lt byte.toNat_lt, Nat.shiftLeft_eq]

/-- Reading bytes appends their digits to the value read so far. -/
theorem toNat_foldl_read (bytes : Bytes) (value : UInt64) (short : bytes.length ≤ 8)
    (fits : value.toNat < 2 ^ (64 - 8 * bytes.length)) :
    (bytes.foldl (fun (value : UInt64) byte => (value <<< 8) ||| byte.toUInt64) value).toNat =
      bytes.foldl (fun number byte => number * 256 + byte.toNat) value.toNat := by
  induction bytes generalizing value with
  | nil => rfl
  | cons byte rest inductionHypothesis =>
    rw [List.length_cons] at short fits
    have small : value.toNat < 2 ^ 56 :=
      lt_of_lt_of_le fits (Nat.pow_le_pow_right (by decide) (by omega))
    have width : 2 ^ (64 - 8 * rest.length) = 2 ^ (64 - 8 * (rest.length + 1)) * 256 := by
      rw [show 64 - 8 * rest.length = 64 - 8 * (rest.length + 1) + 8 by omega, Nat.pow_add]
    have next := toNat_read_byte value byte small
    have bound := byte.toNat_lt
    rw [List.foldl_cons, List.foldl_cons, inductionHypothesis _ (by omega) (by omega), next]

/-- The value of eight bytes, most significant first. -/
theorem toNat_readU64Be (b0 b1 b2 b3 b4 b5 b6 b7 : UInt8) :
    (readU64Be [b0, b1, b2, b3, b4, b5, b6, b7]).toNat =
      ((((((b0.toNat * 256 + b1.toNat) * 256 + b2.toNat) * 256 + b3.toNat) * 256 + b4.toNat) *
        256 + b5.toNat) * 256 + b6.toNat) * 256 + b7.toNat := by
  have read := toNat_foldl_read [b0, b1, b2, b3, b4, b5, b6, b7] 0 le_rfl Nat.zero_lt_one
  simp only [List.foldl_cons, List.foldl_nil, UInt64.toNat_zero, Nat.zero_mul, Nat.zero_add]
    at read
  exact read

theorem writeU64Be_eq (value : UInt64) :
    writeU64Be value =
      [((value >>> 56) &&& 0xFF).toUInt8, ((value >>> 48) &&& 0xFF).toUInt8,
        ((value >>> 40) &&& 0xFF).toUInt8, ((value >>> 32) &&& 0xFF).toUInt8,
        ((value >>> 24) &&& 0xFF).toUInt8, ((value >>> 16) &&& 0xFF).toUInt8,
        ((value >>> 8) &&& 0xFF).toUInt8, ((value >>> 0) &&& 0xFF).toUInt8] := rfl

/-- A number and its next base-256 digit give the number with that digit. -/
theorem append_digit (number shift : Nat) :
    number / 2 ^ (shift + 8) * 256 + number / 2 ^ shift % 256 = number / 2 ^ shift := by
  rw [Nat.pow_add, ← Nat.div_div_eq_div_mul]
  exact Nat.div_add_mod' _ _

/-- Reading a written field gives its value back. -/
@[simp]
theorem readU64Be_writeU64Be (value : UInt64) : readU64Be (writeU64Be value) = value := by
  apply UInt64.toNat_inj.mp
  have first : value.toNat / 2 ^ 56 % 256 = value.toNat / 2 ^ 56 :=
    Nat.mod_eq_of_lt (Nat.div_lt_of_lt_mul value.toNat_lt)
  have append := append_digit value.toNat
  rw [writeU64Be_eq, toNat_readU64Be, toNat_written_byte value 56 (by decide),
    toNat_written_byte value 48 (by decide), toNat_written_byte value 40 (by decide),
    toNat_written_byte value 32 (by decide), toNat_written_byte value 24 (by decide),
    toNat_written_byte value 16 (by decide), toNat_written_byte value 8 (by decide),
    toNat_written_byte value 0 (by decide)]
  simp only [UInt64.reduceToNat]
  rw [first, append 48, append 40, append 32, append 24, append 16, append 8, append 0]
  simp

/-- Writing a read field gives its eight bytes back. -/
theorem writeU64Be_readU64Be (buffer : Bytes) (full : buffer.length = 8) :
    writeU64Be (readU64Be buffer) = buffer := by
  match buffer, full with
  | [b0, b1, b2, b3, b4, b5, b6, b7], _ =>
    have digit (shift : UInt64) (small : shift.toNat < 64) (byte : UInt8)
        (same : (readU64Be [b0, b1, b2, b3, b4, b5, b6, b7]).toNat / 2 ^ shift.toNat % 256 =
          byte.toNat) :
        ((readU64Be [b0, b1, b2, b3, b4, b5, b6, b7] >>> shift) &&& 0xFF).toUInt8 = byte :=
      UInt8.toNat_inj.mp (by rw [toNat_written_byte _ _ small, same])
    have value := toNat_readU64Be b0 b1 b2 b3 b4 b5 b6 b7
    have := b0.toNat_lt
    have := b1.toNat_lt
    have := b2.toNat_lt
    have := b3.toNat_lt
    have := b4.toNat_lt
    have := b5.toNat_lt
    have := b6.toNat_lt
    have := b7.toNat_lt
    rw [writeU64Be_eq, digit 56 (by decide) b0, digit 48 (by decide) b1, digit 40 (by decide) b2,
      digit 32 (by decide) b3, digit 24 (by decide) b4, digit 16 (by decide) b5,
      digit 8 (by decide) b6, digit 0 (by decide) b7]
    all_goals
      simp only [UInt64.reduceToNat, Nat.reducePow]
      omega

/-! ### The record header -/

/-- Overwrite a part of a buffer, as a write through a subspan does. -/
def overwrite (buffer : Bytes) (start : Nat) (bytes : Bytes) : Bytes :=
  buffer.take start ++ bytes ++ buffer.drop (start + bytes.length)

def makeHeader (kind : TransferKind) (payloadSize nameSize offset totalSize : UInt64) : Bytes :=
  let header := List.replicate kHeaderBytes 0
  let header := overwrite header 0 kMagic
  let header := overwrite header 8 (writeU64Be kind.code)
  let header := overwrite header 16 (writeU64Be payloadSize)
  let header := overwrite header 24 (writeU64Be nameSize)
  let header := overwrite header 32 (writeU64Be offset)
  overwrite header 40 (writeU64Be totalSize)

/-- The fields of a record header and its name, as the receiver holds them. -/
structure IncomingHeader where
  kind : TransferKind
  payloadSize : UInt64
  nameSize : UInt64
  offset : UInt64
  totalSize : UInt64
  fileName : Bytes
  deriving DecidableEq, Repr

/-- The payload bytes that follow a record's name. A tar archive is no record of a parallel
stream. -/
def IncomingHeader.payloadSpan (incoming : IncomingHeader) : Nat :=
  match incoming.kind with
  | .directoryEntry | .directoryTar => 0
  | _ => incoming.payloadSize.toNat

/-- The six fields of a header follow each other without a gap. -/
theorem makeHeader_eq (kind : TransferKind) (payloadSize nameSize offset totalSize : UInt64) :
    makeHeader kind payloadSize nameSize offset totalSize =
      kMagic ++ (writeU64Be kind.code ++ (writeU64Be payloadSize ++ (writeU64Be nameSize ++
        (writeU64Be offset ++ writeU64Be totalSize)))) := rfl

@[simp]
theorem length_makeHeader (kind : TransferKind)
    (payloadSize nameSize offset totalSize : UInt64) :
    (makeHeader kind payloadSize nameSize offset totalSize).length = kHeaderBytes := by
  rw [makeHeader_eq]
  simp only [List.length_append, length_writeU64Be]
  rfl

end HyperLink
