/-
This file is about command lines that a POSIX shell takes: how it cuts a text into
words and removes the quotes. A text that holds more than the words of one simple
command has no reading here: an expansion, a redirection, an operator, a comment, an
assignment or a reserved word. The rules at the end say how a text that is put
together from quoted pieces is read.
-/

import Mathlib.Data.List.Basic

namespace HyperLink

namespace Shell

def singleQuote : UInt8 := 0x27

def doubleQuote : UInt8 := 0x22

def backslash : UInt8 := 0x5c

def newline : UInt8 := 0x0a

def space : UInt8 := 0x20

def dollar : UInt8 := 0x24

def backquote : UInt8 := 0x60

def hash : UInt8 := 0x23

def tilde : UInt8 := 0x7e

def isBlank (byte : UInt8) : Bool := byte = space || byte = 0x09

/-- Outside quotes these end the command, redirect it or are expanded: the newline and
`| & ; < > ( ) $`, the backquote, and `* ? [ = ! { }`. -/
def special : List UInt8 :=
  [newline, 0x7c, 0x26, 0x3b, 0x3c, 0x3e, 0x28, 0x29, dollar, backquote, 0x2a, 0x3f, 0x5b, 0x3d,
    0x21, 0x7b, 0x7d]

/-- A word without its quotes, and whether some of it was quoted. -/
structure Token where
  text : List UInt8 := []
  quoted : Bool := false
  deriving DecidableEq, Repr

def Token.put (token : Token) (byte : UInt8) : Token :=
  { token with text := token.text ++ [byte] }

def Token.quote (token : Token) : Token := { token with quoted := true }

/-- Where the shell stands in a text. Behind a backslash it may stand in no word yet. -/
inductive Place where
  | between
  | word (token : Token)
  | single (token : Token)
  | double (token : Token)
  | escape (token : Option Token)
  | doubleEscape (token : Token)
  deriving DecidableEq, Repr

/-- The words that are complete, and the place behind them. -/
structure Reader where
  done : List Token := []
  place : Place := .between
  deriving DecidableEq, Repr

/-- A byte outside quotes that is no blank. -/
def unquoted (done : List Token) (token : Option Token) (byte : UInt8) : Option Reader :=
  if byte = singleQuote then some ⟨done, .single (token.getD {}).quote⟩
  else if byte = doubleQuote then some ⟨done, .double (token.getD {}).quote⟩
  else if byte = backslash then some ⟨done, .escape token⟩
  else if byte ∈ special then none
  else some ⟨done, .word ((token.getD {}).put byte)⟩

/-- What one byte does. A backslash and a newline outside single quotes are both dropped. -/
def step (reader : Reader) (byte : UInt8) : Option Reader :=
  match reader.place with
  | .between =>
      if isBlank byte then some reader
      else if byte = hash ∨ byte = tilde then none
      else unquoted reader.done none byte
  | .word token =>
      if isBlank byte then some ⟨reader.done ++ [token], .between⟩
      else unquoted reader.done (some token) byte
  | .single token =>
      if byte = singleQuote then some ⟨reader.done, .word token⟩
      else some ⟨reader.done, .single (token.put byte)⟩
  | .double token =>
      if byte = doubleQuote then some ⟨reader.done, .word token⟩
      else if byte = backslash then some ⟨reader.done, .doubleEscape token⟩
      else if byte = dollar ∨ byte = backquote then none
      else some ⟨reader.done, .double (token.put byte)⟩
  | .escape token =>
      if byte = newline then some ⟨reader.done, token.elim .between .word⟩
      else some ⟨reader.done, .word ((token.getD {}).quote.put byte)⟩
  | .doubleEscape token =>
      if byte = newline then some ⟨reader.done, .double token⟩
      else if byte ∈ [dollar, backquote, doubleQuote, backslash] then
        some ⟨reader.done, .double (token.put byte)⟩
      else some ⟨reader.done, .double ((token.put backslash).put byte)⟩

def run (reader : Reader) (text : List UInt8) : Option Reader := text.foldlM step reader

/-- The words at the end of a text. A quote has to be closed. -/
def finish (reader : Reader) : Option (List Token) :=
  match reader.place with
  | .between => some reader.done
  | .word token => some (reader.done ++ [token])
  | _ => none

def reserved : List String :=
  ["if", "then", "else", "elif", "fi", "do", "done", "case", "esac", "while", "until", "for", "in"]

/-- Whether the shell takes a word for one of its own, where a command can begin. -/
def isReserved (token : Token) : Bool :=
  !token.quoted && (reserved.map fun word => word.toList.map Char.toUInt8).contains token.text

/-- The words of a text that is one simple command and nothing else. -/
def command (text : List UInt8) : Option (List (List UInt8)) := do
  let tokens ← finish (← run {} text)
  if tokens.head?.any isReserved then none else some (tokens.map Token.text)

theorem run_append (reader : Reader) (first second : List UInt8) :
    run reader (first ++ second) = (run reader first).bind fun between => run between second :=
  List.foldlM_append

/-! ### Inside single quotes -/

/-- Inside single quotes, some bytes add a text to the word. -/
def Quotes (piece text : List UInt8) : Prop :=
  ∀ done before, run ⟨done, .single ⟨before, true⟩⟩ piece =
    some ⟨done, .single ⟨before ++ text, true⟩⟩

theorem quotes_nil : Quotes [] [] := by
  intro done before
  rw [List.append_nil]
  rfl

theorem Quotes.append {first second left right : List UInt8} (one : Quotes first left)
    (other : Quotes second right) : Quotes (first ++ second) (left ++ right) := by
  intro done before
  rw [run_append, one, Option.bind_some, other, List.append_assoc]

/-- Every byte but the quote stands for itself. -/
theorem quotes_byte {byte : UInt8} (other : byte ≠ singleQuote) : Quotes [byte] [byte] := by
  intro done before
  simp [run, step, other, Token.put]

/-- The quotes are closed, a quote is escaped, and they are opened again. -/
theorem quotes_singleQuote :
    Quotes [singleQuote, backslash, singleQuote, singleQuote] [singleQuote] :=
  fun _ _ => rfl

/-- What holds for every byte holds for every text. -/
theorem quotes_flatMap {spell : UInt8 → List UInt8} (each : ∀ byte, Quotes (spell byte) [byte])
    (text : List UInt8) : Quotes (text.flatMap spell) text := by
  induction text with
  | nil => exact quotes_nil
  | cons byte rest inductionHypothesis =>
    rw [List.flatMap_cons]
    exact (each byte).append inductionHypothesis

/-! ### Words -/

/-- Where a word can start, some bytes are read as that word. -/
def Spells (piece : List UInt8) (token : Token) : Prop :=
  ∀ done, run ⟨done, .between⟩ piece = some ⟨done, .word token⟩

theorem spells_quoted {piece text : List UInt8} (quotes : Quotes piece text) :
    Spells ([singleQuote] ++ piece ++ [singleQuote]) ⟨text, true⟩ := by
  intro done
  have opened : run ⟨done, .between⟩ [singleQuote] = some ⟨done, .single ⟨[], true⟩⟩ := rfl
  rw [run_append, run_append, opened, Option.bind_some, quotes done [], Option.bind_some]
  rfl

/-! ### Commands -/

/-- A text that ends in a word, with all words up to there. -/
def ReadsAs (text : List UInt8) (tokens : List Token) : Prop :=
  ∃ done token, run {} text = some ⟨done, .word token⟩ ∧ done ++ [token] = tokens

theorem Spells.readsAs {piece : List UInt8} {token : Token} (spells : Spells piece token) :
    ReadsAs piece [token] :=
  ⟨[], token, spells [], rfl⟩

/-- One more word behind a space. -/
theorem ReadsAs.concat {text piece : List UInt8} {tokens : List Token} {token : Token}
    (reads : ReadsAs text tokens) (spells : Spells piece token) :
    ReadsAs (text ++ [space] ++ piece) (tokens ++ [token]) := by
  obtain ⟨done, last, ends, rfl⟩ := reads
  have separated : run ⟨done, .word last⟩ [space] = some ⟨done ++ [last], .between⟩ := rfl
  refine ⟨done ++ [last], token, ?_, rfl⟩
  rw [run_append, run_append, ends, Option.bind_some, separated, Option.bind_some]
  exact spells _

/-- Words behind spaces, one by one. -/
theorem ReadsAs.foldl {Item : Type} {spell : Item → List UInt8} {token : Item → Token}
    (each : ∀ item, Spells (spell item) (token item)) {text : List UInt8} {tokens : List Token}
    (reads : ReadsAs text tokens) (items : List Item) :
    ReadsAs (items.foldl (fun text item => text ++ [space] ++ spell item) text)
      (tokens ++ items.map token) := by
  induction items generalizing text tokens with
  | nil => simpa using reads
  | cons item rest inductionHypothesis =>
    rw [List.foldl_cons, List.map_cons, List.append_cons tokens]
    exact inductionHypothesis (reads.concat (each item))

/-- A text of words whose first is not reserved is the command of these words. -/
theorem ReadsAs.command_eq {text : List UInt8} {first : Token} {rest : List Token}
    (reads : ReadsAs text (first :: rest)) (free : isReserved first = false) :
    command text = some ((first :: rest).map Token.text) := by
  obtain ⟨done, last, ends, same⟩ := reads
  simp [command, ends, finish, same, free]

end Shell

end HyperLink
