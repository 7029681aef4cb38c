/-
This file is about the command lines that a Windows program is started with: how its
C runtime cuts the one text it is given into words. The name of the program ends at a
blank outside quotes, and nothing is escaped in it. In the words behind it a backslash
counts only in front of a quote: two of them stand for one, and one that is left over
takes the quote for a letter. A quote inside quotes stands for a letter if another one
follows it, and otherwise closes them.

The rules at the end say how pieces are read that are put together to a command line,
and what a command line gives away: with a quote in it, a byte is lost.
-/

import HyperLink.Shell
import Mathlib

namespace HyperLink

namespace WindowsArguments

open Shell (doubleQuote backslash space isBlank)

/-- Where the runtime stands in a command line. Backslashes are held back until it is known what
they are in front of, and so is a quote inside quotes. -/
inductive Place where
  | program (text : List UInt8) (quoted : Bool)
  | between
  | word (text : List UInt8) (quoted : Bool) (slashes : Nat)
  | doubled (text : List UInt8)
  deriving DecidableEq, Repr

/-- The words that are complete, and the place behind them. -/
structure Reader where
  done : List (List UInt8) := []
  place : Place := .program [] false
  deriving DecidableEq, Repr

/-- One byte of a word. -/
def inWord (done : List (List UInt8)) (text : List UInt8) (quoted : Bool) (slashes : Nat)
    (byte : UInt8) : Reader :=
  if byte = backslash then ⟨done, .word text quoted (slashes + 1)⟩
  else if byte = doubleQuote then
    let halved := text ++ List.replicate (slashes / 2) backslash
    if slashes % 2 = 1 then ⟨done, .word (halved ++ [doubleQuote]) quoted 0⟩
    else if quoted then ⟨done, .doubled halved⟩
    else ⟨done, .word halved true 0⟩
  else
    let whole := text ++ List.replicate slashes backslash
    if isBlank byte ∧ quoted = false then ⟨done ++ [whole], .between⟩
    else ⟨done, .word (whole ++ [byte]) quoted 0⟩

def step (reader : Reader) (byte : UInt8) : Reader :=
  match reader.place with
  | .program text quoted =>
      if byte = doubleQuote then ⟨reader.done, .program text !quoted⟩
      else if isBlank byte ∧ quoted = false then ⟨reader.done ++ [text], .between⟩
      else ⟨reader.done, .program (text ++ [byte]) quoted⟩
  | .between => if isBlank byte then reader else inWord reader.done [] false 0 byte
  | .word text quoted slashes => inWord reader.done text quoted slashes byte
  | .doubled text =>
      if byte = doubleQuote then ⟨reader.done, .word (text ++ [doubleQuote]) true 0⟩
      else inWord reader.done text false 0 byte

def run (reader : Reader) (line : List UInt8) : Reader := line.foldl step reader

/-- The words at the end of a command line. Quotes need not be closed. -/
def finish (reader : Reader) : List (List UInt8) :=
  match reader.place with
  | .program text _ => reader.done ++ [text]
  | .between => reader.done
  | .word text _ slashes => reader.done ++ [text ++ List.replicate slashes backslash]
  | .doubled text => reader.done ++ [text]

/-- The words of a command line, the program's name in front. -/
def arguments (line : List UInt8) : List (List UInt8) := finish (run {} line)

theorem run_append (reader : Reader) (first second : List UInt8) :
    run reader (first ++ second) = run (run reader first) second :=
  List.foldl_append

theorem run_cons (reader : Reader) (byte : UInt8) (rest : List UInt8) :
    run reader (byte :: rest) = run (step reader byte) rest :=
  rfl

/-! ### Words -/

/-- A reader in a word that is complete: a blank or the end of the line ends it. -/
def Holds (reader : Reader) (done : List (List UInt8)) (word : List UInt8) : Prop :=
  finish reader = done ++ [word] ∧ step reader space = ⟨done ++ [word], .between⟩

/-- Where a word can start, some bytes are read as that word. -/
def Reads (piece word : List UInt8) : Prop :=
  ∀ done, Holds (run ⟨done, .between⟩ piece) done word

theorem Holds.concat {reader : Reader} {done : List (List UInt8)} {piece word next : List UInt8}
    (holds : Holds reader done word) (reads : Reads piece next) :
    Holds (run reader ([space] ++ piece)) (done ++ [word]) next := by
  have separated : run reader [space] = ⟨done ++ [word], .between⟩ := holds.2
  rw [run_append, separated]
  exact reads _

/-- Words behind spaces, one by one. -/
theorem Holds.words {reader : Reader} {done : List (List UInt8)} {word : List UInt8}
    (holds : Holds reader done word) {words : List (List UInt8)}
    (each : ∀ next ∈ words, Reads next next) :
    finish (run reader (words.flatMap fun next => [space] ++ next)) = done ++ word :: words := by
  induction words generalizing reader done word with
  | nil => exact holds.1
  | cons next rest inductionHypothesis =>
    obtain ⟨first, later⟩ := List.forall_mem_cons.mp each
    rw [List.flatMap_cons, run_append, inductionHypothesis (holds.concat first) later,
      List.append_assoc, List.singleton_append]

/-- A byte that stands for itself anywhere: no blank and no quote. -/
def Plain (byte : UInt8) : Prop := isBlank byte = false ∧ byte ≠ doubleQuote

theorem holds_word (done : List (List UInt8)) (text : List UInt8) (slashes : Nat) :
    Holds ⟨done, .word text false slashes⟩ done (text ++ List.replicate slashes backslash) :=
  ⟨rfl, rfl⟩

theorem holds_doubled (done : List (List UInt8)) (text : List UInt8) :
    Holds ⟨done, .doubled text⟩ done text :=
  ⟨rfl, by simp [step, inWord, space, doubleQuote, backslash, isBlank]⟩

/-- A byte of a word that is neither a quote nor ends it. -/
theorem inWord_of_ne (done : List (List UInt8)) (text : List UInt8) {quoted : Bool}
    (slashes : Nat) {byte : UInt8} (noQuote : byte ≠ doubleQuote)
    (stays : isBlank byte = false ∨ quoted = true) :
    ∃ front trailing, inWord done text quoted slashes byte = ⟨done, .word front quoted trailing⟩ ∧
      front ++ List.replicate trailing backslash =
        text ++ List.replicate slashes backslash ++ [byte] ∧
      (trailing = 0 ↔ byte ≠ backslash) := by
  unfold inWord
  by_cases isSlash : byte = backslash
  · rw [if_pos isSlash]
    refine ⟨text, slashes + 1, rfl, ?_, by simp [isSlash]⟩
    rw [List.replicate_succ', isSlash, List.append_assoc]
  · have inside : ¬ (isBlank byte = true ∧ quoted = false) := by
      rintro ⟨blank, outside⟩
      rcases stays with no | yes
      · exact Bool.false_ne_true (no.symm.trans blank)
      · exact Bool.false_ne_true (outside.symm.trans yes)
    rw [if_neg isSlash, if_neg noQuote]
    simp only []
    rw [if_neg inside]
    exact ⟨_, 0, rfl, by simp, by simp [isSlash]⟩

/-- A text without quotes in a word, in quotes or without blanks. What is held back at its end
are its own backslashes. -/
theorem run_word (text : List UInt8) (quoted : Bool)
    (stays : ∀ byte ∈ text, byte ≠ doubleQuote ∧ (isBlank byte = false ∨ quoted = true))
    (done : List (List UInt8)) (before : List UInt8) :
    ∃ front trailing, run ⟨done, .word before quoted 0⟩ text =
        ⟨done, .word front quoted trailing⟩ ∧
      front ++ List.replicate trailing backslash = before ++ text ∧
      (trailing = 0 ↔ text.getLast? ≠ some backslash) := by
  induction text using List.reverseRecOn with
  | nil => exact ⟨before, 0, rfl, by simp, by simp⟩
  | append_singleton text byte inductionHypothesis =>
    rw [List.forall_mem_append, List.forall_mem_singleton] at stays
    obtain ⟨front, slashes, place, whole, -⟩ := inductionHypothesis stays.1
    obtain ⟨next, trailing, read, more, none⟩ := inWord_of_ne done front slashes
      stays.2.1 stays.2.2
    refine ⟨next, trailing, ?_, ?_, ?_⟩
    · rw [run_append, place]
      exact read
    · rw [more, whole, List.append_assoc]
    · rw [none, List.getLast?_concat]
      simp

/-- A word that needs no quotes is read as it is. -/
theorem reads_plain {word : List UInt8} (isGiven : word ≠ []) (plain : ∀ byte ∈ word, Plain byte) :
    Reads word word := by
  intro done
  cases word with
  | nil => exact absurd rfl isGiven
  | cons first rest =>
    have noBlank : isBlank first = false := (plain first List.mem_cons_self).1
    have start : run ⟨done, .between⟩ (first :: rest) =
        run ⟨done, .word [] false 0⟩ (first :: rest) := by
      rw [run_cons, run_cons]
      simp [step, noBlank]
    obtain ⟨front, trailing, place, whole, -⟩ := run_word (first :: rest) false
      (fun byte member => ⟨(plain byte member).2, Or.inl (plain byte member).1⟩) done []
    rw [start, place, ← List.nil_append (first :: rest), ← whole]
    exact holds_word done front trailing

/-- The program's name, if it needs no quotes. -/
theorem holds_program {name : List UInt8} (plain : ∀ byte ∈ name, Plain byte) :
    Holds (run {} name) [] name := by
  have place : run {} name = ⟨[], .program name false⟩ := by
    induction name using List.reverseRecOn with
    | nil => rfl
    | append_singleton name byte inductionHypothesis =>
      rw [List.forall_mem_append, List.forall_mem_singleton] at plain
      rw [run_append, inductionHypothesis plain.1]
      simp [run, step, plain.2.1, plain.2.2]
  rw [place]
  exact ⟨rfl, by simp [step, space, doubleQuote, isBlank]⟩

/-! ### Quoted words -/

/-- An opening quote, a text without quotes, and the closing one. -/
theorem run_quoted {text : List UInt8} (noQuote : doubleQuote ∉ text)
    (done : List (List UInt8)) :
    ∃ front trailing, front ++ List.replicate trailing backslash = text ∧
      (trailing = 0 ↔ text.getLast? ≠ some backslash) ∧
      run ⟨done, .between⟩ ([doubleQuote] ++ text ++ [doubleQuote]) =
        if trailing % 2 = 1 then
          ⟨done, .word (front ++ List.replicate (trailing / 2) backslash ++ [doubleQuote]) true 0⟩
        else ⟨done, .doubled (front ++ List.replicate (trailing / 2) backslash)⟩ := by
  have opened : run ⟨done, .between⟩ [doubleQuote] = ⟨done, .word [] true 0⟩ := by
    simp [run, step, inWord, doubleQuote, backslash, space, isBlank]
  obtain ⟨front, trailing, place, whole, none⟩ := run_word text true
    (fun byte member => ⟨fun same => noQuote (same ▸ member), Or.inr rfl⟩) done []
  refine ⟨front, trailing, whole.trans (List.nil_append _), none, ?_⟩
  rw [run_append, run_append, opened, place]
  simp [run, step, inWord, doubleQuote, backslash]

/-- Quotes deliver a text that does not end in a backslash. -/
theorem reads_quoted {text : List UInt8} (noQuote : doubleQuote ∉ text)
    (noSlash : text.getLast? ≠ some backslash) :
    Reads ([doubleQuote] ++ text ++ [doubleQuote]) text := by
  intro done
  obtain ⟨front, trailing, whole, none, place⟩ := run_quoted noQuote done
  rw [none.mpr noSlash, List.replicate_zero, List.append_nil] at whole
  rw [place, none.mpr noSlash, whole]
  simpa using holds_doubled done text

/-! ### What is settled -/

theorem done_inWord (done : List (List UInt8)) (text : List UInt8) (quoted : Bool)
    (slashes : Nat) (byte : UInt8) : done <+: (inWord done text quoted slashes byte).done := by
  unfold inWord
  split_ifs <;> simp

/-- Words that are complete stay. -/
theorem done_step (reader : Reader) (byte : UInt8) : reader.done <+: (step reader byte).done := by
  unfold step
  split
  · split_ifs <;> simp
  · split_ifs
    · exact List.prefix_rfl
    · exact done_inWord _ _ _ _ _
  · exact done_inWord _ _ _ _ _
  · split_ifs
    · exact List.prefix_rfl
    · exact done_inWord _ _ _ _ _

theorem done_finish (reader : Reader) (line : List UInt8) :
    reader.done <+: finish (run reader line) := by
  induction line generalizing reader with
  | nil =>
    show reader.done <+: finish reader
    unfold finish
    split <;> simp
  | cons byte rest inductionHypothesis =>
    rw [run_cons]
    exact (done_step reader byte).trans (inductionHypothesis _)

/-- The next word begins with a text, whether it is still being read or complete. -/
def Begins (reader : Reader) (done : List (List UInt8)) (text : List UInt8) : Prop :=
  (∃ front, text <+: front ∧ ((∃ quoted slashes, reader = ⟨done, .word front quoted slashes⟩) ∨
    reader = ⟨done, .doubled front⟩)) ∨
  ∃ word, text <+: word ∧ done ++ [word] <+: reader.done

theorem begins_inWord {done : List (List UInt8)} {front text : List UInt8}
    (starts : text <+: front) (quoted : Bool) (slashes : Nat) (byte : UInt8) :
    Begins (inWord done front quoted slashes byte) done text := by
  unfold inWord
  simp only []
  split_ifs
  · exact Or.inl ⟨front, starts, Or.inl ⟨quoted, slashes + 1, rfl⟩⟩
  · exact Or.inl ⟨_, starts.trans ((List.prefix_append _ _).trans (List.prefix_append _ _)),
      Or.inl ⟨quoted, 0, rfl⟩⟩
  · exact Or.inl ⟨_, starts.trans (List.prefix_append _ _), Or.inr rfl⟩
  · exact Or.inl ⟨_, starts.trans (List.prefix_append _ _), Or.inl ⟨true, 0, rfl⟩⟩
  · exact Or.inr ⟨_, starts.trans (List.prefix_append _ _), List.prefix_rfl⟩
  · exact Or.inl ⟨_, starts.trans ((List.prefix_append _ _).trans (List.prefix_append _ _)),
      Or.inl ⟨quoted, 0, rfl⟩⟩

theorem Begins.step {reader : Reader} {done : List (List UInt8)} {text : List UInt8}
    (begins : Begins reader done text) (byte : UInt8) :
    Begins (step reader byte) done text := by
  rcases begins with ⟨front, starts, ⟨quoted, slashes, rfl⟩ | rfl⟩ | ⟨word, starts, complete⟩
  · exact begins_inWord starts quoted slashes byte
  · show Begins (if byte = doubleQuote then _ else _) done text
    split_ifs
    · exact Or.inl ⟨_, starts.trans (List.prefix_append _ _), Or.inl ⟨true, 0, rfl⟩⟩
    · exact begins_inWord starts false 0 byte
  · exact Or.inr ⟨word, starts, complete.trans (done_step reader byte)⟩

theorem Begins.run {reader : Reader} {done : List (List UInt8)} {text : List UInt8}
    (begins : Begins reader done text) (line : List UInt8) :
    Begins (run reader line) done text := by
  induction line generalizing reader with
  | nil => exact begins
  | cons byte rest inductionHypothesis =>
    rw [run_cons]
    exact inductionHypothesis (begins.step byte)

theorem Begins.finish {reader : Reader} {done : List (List UInt8)} {text : List UInt8}
    (begins : Begins reader done text) :
    ∃ word, text <+: word ∧ done ++ [word] <+: finish reader := by
  rcases begins with ⟨front, starts, ⟨quoted, slashes, rfl⟩ | rfl⟩ | ⟨word, starts, complete⟩
  · exact ⟨_, starts.trans (List.prefix_append _ _), List.prefix_rfl⟩
  · exact ⟨front, starts, List.prefix_rfl⟩
  · exact ⟨word, starts, complete.trans (done_finish reader [])⟩

/-- A text that ends in a backslash is never what its quotes deliver: its backslashes are
halved, or the closing quote is a letter of the word. -/
theorem quoted_loses {text rest : List UInt8} (noQuote : doubleQuote ∉ text)
    (slash : text.getLast? = some backslash) (follows : rest = [] ∨ ∃ more, rest = space :: more)
    (done : List (List UInt8)) :
    ¬ done ++ [text] <+:
      finish (run ⟨done, .between⟩ ([doubleQuote] ++ text ++ [doubleQuote] ++ rest)) := by
  obtain ⟨front, trailing, whole, none, place⟩ := run_quoted noQuote done
  have positive : trailing ≠ 0 := fun zero => none.mp zero slash
  have other : ∃ word, word ≠ text ∧ done ++ [word] <+:
      finish (run ⟨done, .between⟩ ([doubleQuote] ++ text ++ [doubleQuote] ++ rest)) := by
    rw [run_append, place]
    split_ifs with odd
    · have begins : Begins ⟨done, .word (front ++ List.replicate (trailing / 2) backslash ++
          [doubleQuote]) true 0⟩ done _ :=
        Or.inl ⟨_, List.prefix_rfl, Or.inl ⟨true, 0, rfl⟩⟩
      obtain ⟨word, starts, complete⟩ := (begins.run rest).finish
      refine ⟨word, ?_, complete⟩
      rintro rfl
      exact noQuote (starts.subset (List.mem_append_right _ (List.mem_singleton_self _)))
    · refine ⟨front ++ List.replicate (trailing / 2) backslash, fun same => ?_, ?_⟩
      · have length := congrArg List.length (whole.trans same.symm)
        simp only [List.length_append, List.length_replicate] at length
        omega
      · have holds := holds_doubled done (front ++ List.replicate (trailing / 2) backslash)
        rcases follows with rfl | ⟨more, rfl⟩
        · exact List.prefix_rfl
        · rw [run_cons, holds.2]
          exact done_finish ⟨_, .between⟩ more
  intro delivered
  obtain ⟨word, different, complete⟩ := other
  have same := List.prefix_of_prefix_length_le complete delivered (by simp)
  exact different (by simpa using same.eq_of_length (by simp))

/-- A text in quotes. -/
def quoted (text : List UInt8) : List UInt8 := [doubleQuote] ++ text ++ [doubleQuote]

/-- Quotes deliver texts without quotes exactly if none of them ends in a backslash. -/
theorem finish_quoted_iff {first : List UInt8} {rest : List (List UInt8)}
    (noQuote : ∀ text ∈ first :: rest, doubleQuote ∉ text) (done : List (List UInt8)) :
    finish (run ⟨done, .between⟩
        (quoted first ++ rest.flatMap fun text => [space] ++ quoted text)) =
        done ++ first :: rest ↔
      ∀ text ∈ first :: rest, text.getLast? ≠ some backslash := by
  induction rest generalizing first done with
  | nil =>
    rw [List.forall_mem_singleton] at noQuote
    rw [List.forall_mem_singleton, List.flatMap_nil]
    refine ⟨fun delivered slash => ?_, fun noSlash => ?_⟩
    · exact quoted_loses noQuote slash (Or.inl rfl) done (delivered ▸ List.prefix_rfl)
    · rw [List.append_nil]
      exact (reads_quoted noQuote noSlash done).1
  | cons next rest inductionHypothesis =>
    obtain ⟨noQuoteFirst, noQuoteRest⟩ := List.forall_mem_cons.mp noQuote
    rw [List.forall_mem_cons]
    by_cases slash : first.getLast? = some backslash
    · refine iff_of_false (fun delivered => ?_) fun all => all.1 slash
      have front : done ++ [first] <+: done ++ first :: next :: rest :=
        ⟨next :: rest, (List.append_cons done first (next :: rest)).symm⟩
      rw [← delivered] at front
      exact quoted_loses noQuoteFirst slash (Or.inr ⟨_, rfl⟩) done front
    · have ended := (reads_quoted noQuoteFirst slash done).2
      have behind : done ++ first :: next :: rest = done ++ [first] ++ next :: rest :=
        List.append_cons done first (next :: rest)
      rw [List.flatMap_cons, List.append_assoc, List.singleton_append, run_append, run_cons,
        quoted, ended, behind, inductionHypothesis noQuoteRest, and_iff_right slash]

/-! ### Command lines without a quote -/

/-- What is read as long as there is no quote. -/
inductive Unquoted : Reader → Prop
  | program {name : List UInt8} (plain : ∀ byte ∈ name, Plain byte) :
      Unquoted ⟨[], .program name false⟩
  | between {name : List UInt8} {words : List (List UInt8)} (plain : ∀ byte ∈ name, Plain byte)
      (others : ∀ word ∈ words, word ≠ [] ∧ ∀ byte ∈ word, Plain byte) :
      Unquoted ⟨name :: words, .between⟩
  | word {name text : List UInt8} {words : List (List UInt8)} {slashes : Nat}
      (plain : ∀ byte ∈ name, Plain byte)
      (others : ∀ word ∈ words, word ≠ [] ∧ ∀ byte ∈ word, Plain byte)
      (last : text ++ List.replicate slashes backslash ≠ [] ∧
        ∀ byte ∈ text ++ List.replicate slashes backslash, Plain byte) :
      Unquoted ⟨name :: words, .word text false slashes⟩

theorem Unquoted.inWord {name text : List UInt8} {words : List (List UInt8)} {slashes : Nat}
    {byte : UInt8} (plain : ∀ byte ∈ name, Plain byte)
    (others : ∀ word ∈ words, word ≠ [] ∧ ∀ byte ∈ word, Plain byte)
    (before : ∀ byte ∈ text ++ List.replicate slashes backslash, Plain byte)
    (isGiven : isBlank byte = true → text ++ List.replicate slashes backslash ≠ [])
    (noQuote : byte ≠ doubleQuote) :
    Unquoted (inWord (name :: words) text false slashes byte) := by
  by_cases blank : isBlank byte = true
  · have noSlash : byte ≠ backslash := by
      rintro rfl
      exact absurd blank (by decide)
    unfold WindowsArguments.inWord
    rw [if_neg noSlash, if_neg noQuote]
    simp only [and_true]
    rw [if_pos blank]
    exact Unquoted.between plain (List.forall_mem_append.mpr
      ⟨others, List.forall_mem_singleton.mpr ⟨isGiven blank, before⟩⟩)
  · obtain ⟨front, trailing, read, whole, -⟩ := inWord_of_ne (name :: words) text slashes
      noQuote (Or.inl (eq_false_of_ne_true blank))
    rw [read]
    refine Unquoted.word plain others ?_
    rw [whole, List.forall_mem_append, List.forall_mem_singleton]
    exact ⟨by simp, before, eq_false_of_ne_true blank, noQuote⟩

theorem Unquoted.step {reader : Reader} (unquoted : Unquoted reader) {byte : UInt8}
    (noQuote : byte ≠ doubleQuote) : Unquoted (step reader byte) := by
  cases unquoted with
  | program plain =>
    unfold WindowsArguments.step
    simp only [if_neg noQuote, and_true]
    split_ifs with blank
    · exact Unquoted.between plain (by simp)
    · refine Unquoted.program ?_
      rw [List.forall_mem_append, List.forall_mem_singleton]
      exact ⟨plain, eq_false_of_ne_true blank, noQuote⟩
  | between plain others =>
    unfold WindowsArguments.step
    simp only []
    split_ifs with blank
    · exact Unquoted.between plain others
    · exact Unquoted.inWord plain others (by simp) (fun isBlank => absurd isBlank blank) noQuote
  | word plain others last => exact Unquoted.inWord plain others last.2 (fun _ => last.1) noQuote

theorem unquoted_run {line : List UInt8} (noQuote : doubleQuote ∉ line) :
    Unquoted (run {} line) := by
  induction line using List.reverseRecOn with
  | nil => exact Unquoted.program (by simp)
  | append_singleton line byte inductionHypothesis =>
    rw [List.mem_append, List.mem_singleton, not_or] at noQuote
    rw [run_append]
    exact (inductionHypothesis noQuote.1).step (Ne.symm noQuote.2)

/-- Without a quote every word is plain, and only the program's name can be empty. -/
theorem Unquoted.words {reader : Reader} (unquoted : Unquoted reader) {name : List UInt8}
    {words : List (List UInt8)} (delivered : finish reader = name :: words) :
    (∀ byte ∈ name, Plain byte) ∧ ∀ word ∈ words, word ≠ [] ∧ ∀ byte ∈ word, Plain byte := by
  cases unquoted with
  | program plain =>
    cases delivered
    exact ⟨plain, by simp⟩
  | between plain others =>
    cases delivered
    exact ⟨plain, others⟩
  | word plain others last =>
    cases delivered
    exact ⟨plain, List.forall_mem_append.mpr ⟨others, List.forall_mem_singleton.mpr last⟩⟩

/-! ### What a quote costs -/

/-- The bytes of some words, with one more for each word. -/
def weight (words : List (List UInt8)) : Nat := (words.map fun word => word.length + 1).sum

theorem weight_cons (name : List UInt8) (words : List (List UInt8)) :
    weight (name :: words) = (name ++ words.flatMap fun word => [space] ++ word).length + 1 := by
  induction words generalizing name with
  | nil => simp [weight]
  | cons next rest inductionHypothesis =>
    have split : weight (name :: next :: rest) = name.length + 1 + weight (next :: rest) := rfl
    rw [split, inductionHypothesis, List.flatMap_cons]
    simp only [List.length_append, List.length_singleton]
    omega

theorem weight_concat (words : List (List UInt8)) (word : List UInt8) :
    weight (words ++ [word]) = weight words + (word.length + 1) := by
  simp [weight]

def Place.weight : Place → Nat
  | .program text _ => text.length + 1
  | .between => 1
  | .word text _ slashes => text.length + slashes + 1
  | .doubled text => text.length + 1

def Reader.weight (reader : Reader) : Nat :=
  WindowsArguments.weight reader.done + reader.place.weight

theorem weight_inWord (done : List (List UInt8)) (text : List UInt8) (quoted : Bool)
    (slashes : Nat) (byte : UInt8) :
    (inWord done text quoted slashes byte).weight ≤
        (Reader.mk done (.word text quoted slashes)).weight + 1 ∧
      (byte = doubleQuote → (inWord done text quoted slashes byte).weight ≤
        (Reader.mk done (.word text quoted slashes)).weight) := by
  have quote : doubleQuote ≠ backslash := by decide
  unfold inWord Reader.weight
  simp only []
  split_ifs with isSlash isQuote odd isQuoted blank
  · refine ⟨?_, fun same => absurd (same.symm.trans isSlash) quote⟩
    simp only [Place.weight]
    omega
  · simp only [Place.weight, List.length_append, List.length_replicate, List.length_singleton]
    omega
  · simp only [Place.weight, List.length_append, List.length_replicate]
    omega
  · simp only [Place.weight, List.length_append, List.length_replicate]
    omega
  · refine ⟨?_, fun same => absurd same isQuote⟩
    simp only [Place.weight, weight_concat, List.length_append, List.length_replicate]
    omega
  · refine ⟨?_, fun same => absurd same isQuote⟩
    simp only [Place.weight, List.length_append, List.length_replicate, List.length_singleton]
    omega

/-- A byte adds one at most. -/
theorem weight_step (reader : Reader) (byte : UInt8) :
    (step reader byte).weight ≤ reader.weight + 1 := by
  obtain ⟨done, place⟩ := reader
  cases place with
  | program text quoted =>
    unfold step Reader.weight
    simp only []
    split_ifs
    · exact Nat.le_succ _
    · simp only [Place.weight, weight_concat]
      omega
    · simp only [Place.weight, List.length_append, List.length_singleton]
      omega
  | between =>
    unfold step
    simp only []
    split_ifs
    · exact Nat.le_succ _
    · simpa [Reader.weight, Place.weight] using (weight_inWord done [] false 0 byte).1
  | word text quoted slashes => exact (weight_inWord done text quoted slashes byte).1
  | doubled text =>
    unfold step
    simp only []
    split_ifs
    · simp only [Reader.weight, Place.weight, List.length_append, List.length_singleton]
      omega
    · simpa [Reader.weight, Place.weight] using (weight_inWord done text false 0 byte).1

/-- The first quote adds nothing. -/
theorem Unquoted.weight_quote {reader : Reader} (unquoted : Unquoted reader) :
    (WindowsArguments.step reader doubleQuote).weight ≤ reader.weight := by
  cases unquoted with
  | program => exact le_rfl
  | between =>
    show (WindowsArguments.inWord _ [] false 0 doubleQuote).weight ≤ _
    simpa [Reader.weight, Place.weight] using
      (weight_inWord _ [] false 0 doubleQuote).2 rfl
  | word => exact (weight_inWord _ _ _ _ _).2 rfl

theorem weight_run (line : List UInt8) :
    (run {} line).weight ≤ line.length + 1 ∧
      (doubleQuote ∈ line → (run {} line).weight ≤ line.length) := by
  induction line using List.reverseRecOn with
  | nil => exact ⟨le_rfl, fun never => absurd never List.not_mem_nil⟩
  | append_singleton line byte inductionHypothesis =>
    have added := weight_step (run {} line) byte
    rw [run_append, List.length_append, List.length_singleton]
    refine ⟨added.trans (Nat.succ_le_succ inductionHypothesis.1), fun quoted => ?_⟩
    by_cases earlier : doubleQuote ∈ line
    · exact added.trans (Nat.succ_le_succ (inductionHypothesis.2 earlier))
    · rw [List.mem_append, List.mem_singleton] at quoted
      rw [← quoted.resolve_left earlier]
      exact (unquoted_run earlier).weight_quote.trans inductionHypothesis.1

theorem weight_finish (reader : Reader) : weight (finish reader) ≤ reader.weight := by
  unfold finish Reader.weight
  split <;> simp [*, Place.weight, weight_concat]

/-- From a command line with a quote, the words are one byte short at least. -/
theorem weight_arguments {line : List UInt8} (quoted : doubleQuote ∈ line) :
    weight (arguments line) ≤ line.length :=
  (weight_finish _).trans ((weight_run line).2 quoted)

/-- Words that are joined by spaces are the words of that line exactly if none of them needs
quotes: no blank and no quote in any, and none but the program's name empty. -/
theorem arguments_join_iff (name : List UInt8) (words : List (List UInt8)) :
    arguments (name ++ words.flatMap fun word => [space] ++ word) = name :: words ↔
      (∀ byte ∈ name, Plain byte) ∧ ∀ word ∈ words, word ≠ [] ∧ ∀ byte ∈ word, Plain byte := by
  constructor
  · intro delivered
    have noQuote : doubleQuote ∉ name ++ words.flatMap fun word => [space] ++ word := by
      intro quoted
      have short := weight_arguments quoted
      rw [delivered, weight_cons] at short
      exact Nat.not_succ_le_self _ short
    exact (unquoted_run noQuote).words delivered
  · rintro ⟨plain, others⟩
    have reads : ∀ word ∈ words, Reads word word :=
      fun word member => reads_plain (others word member).1 (others word member).2
    unfold arguments
    rw [run_append]
    exact (holds_program plain).words reads

end WindowsArguments

end HyperLink
