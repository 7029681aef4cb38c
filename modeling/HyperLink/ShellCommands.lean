/-
This file is about the command lines that are handed to the shell: the helper tools
of the friendly front end, and the tar of the single-stream directory mode. The
quoting undoes what the shell would do to any text, so the words of the command are
the ones that were meant.
-/

import HyperLink.Cli
import HyperLink.Shell

namespace HyperLink

/-! ### Commands -/

/-- The C string that `std::system` and `popen` are given. -/
def cStr (text : Bytes) : Bytes := text.takeWhile (· ≠ 0)

namespace Cli

/-- The POSIX branch of `shell_quote`. -/
def shellQuote (value : Bytes) : Bytes :=
  [quote] ++ (value.flatMap fun character =>
    if character = quote then ascii "'\\''" else [character]) ++ [quote]

/-- The command of the POSIX branch of `run_command`, with the executable's path as a string. -/
def runCommand (executable : Bytes) (args : List Bytes) : Bytes :=
  args.foldl (fun command arg => command ++ ascii " " ++ shellQuote arg) (shellQuote executable)

end Cli

/-- Both tools quote alike. -/
theorem shellQuote_eq (path : Path) : shellQuote path = Cli.shellQuote path.string := rfl

/-! ### Quoting -/

theorem spells_shellQuote (value : Bytes) : Shell.Spells (Cli.shellQuote value) ⟨value, true⟩ := by
  refine Shell.spells_quoted (Shell.quotes_flatMap (fun character => ?_) value)
  by_cases isQuote : character = quote
  · rw [if_pos isQuote, isQuote]
    exact Shell.quotes_singleQuote
  · rw [if_neg isQuote]
    exact Shell.quotes_byte isQuote

/-! ### No byte is cut off -/

theorem cStr_of_free {text : Bytes} (free : (0 : UInt8) ∉ text) : cStr text = text := by
  refine List.takeWhile_eq_self_iff.mpr fun byte member => decide_eq_true ?_
  rintro rfl
  exact free member

theorem zero_not_mem_shellQuote {value : Bytes} (free : (0 : UInt8) ∉ value) :
    (0 : UInt8) ∉ Cli.shellQuote value := by
  have inside : (0 : UInt8) ∉ value.flatMap fun character =>
      if character = quote then ascii "'\\''" else [character] := by
    rw [List.mem_flatMap]
    rintro ⟨character, member, zero⟩
    split_ifs at zero with isQuote
    · exact absurd zero (by decide)
    · rw [List.mem_singleton] at zero
      exact free (zero ▸ member)
  have outside : (0 : UInt8) ∉ [quote] := by decide
  simp only [Cli.shellQuote, List.mem_append, not_or]
  exact ⟨⟨outside, inside⟩, outside⟩

theorem zero_not_mem_runCommand {executable : Bytes} (free : (0 : UInt8) ∉ executable)
    {args : List Bytes} (allFree : ∀ arg ∈ args, (0 : UInt8) ∉ arg) :
    (0 : UInt8) ∉ Cli.runCommand executable args := by
  unfold Cli.runCommand
  induction args using List.reverseRecOn with
  | nil => exact zero_not_mem_shellQuote free
  | append_singleton args arg inductionHypothesis =>
    rw [List.forall_mem_append, List.forall_mem_singleton] at allFree
    rw [List.foldl_append, List.foldl_cons, List.foldl_nil, List.mem_append, List.mem_append,
      not_or, not_or]
    refine ⟨⟨inductionHypothesis allFree.1, by decide⟩, zero_not_mem_shellQuote allFree.2⟩

theorem Path.zero_not_mem_string {path : Path} (free : path.NulFree) :
    (0 : UInt8) ∉ path.string := by
  have inside : ∀ parts : List Bytes, (∀ part ∈ parts, (0 : UInt8) ∉ part) →
      (0 : UInt8) ∉ [slash].intercalate parts := by
    intro parts allFree
    induction parts with
    | nil => simp
    | cons part rest inductionHypothesis =>
      obtain ⟨first, later⟩ := List.forall_mem_cons.mp allFree
      cases rest with
      | nil => simpa using first
      | cons next rest =>
        rw [List.intercalate_cons_cons, List.mem_append, List.mem_append, not_or, not_or]
        exact ⟨⟨first, by decide⟩, inductionHypothesis later⟩
  unfold string
  cases path.rooted <;> cases path.trailing <;>
    simpa [show (0 : UInt8) ≠ slash by decide] using inside path.parts free

theorem Path.nulFree_parentPath {path : Path} (free : path.NulFree) : path.parentPath.NulFree := by
  unfold parentPath
  split
  · exact free
  · exact fun part member => free part (List.dropLast_subset _ member)

theorem Path.zero_not_mem_filename {path : Path} (free : path.NulFree) :
    (0 : UInt8) ∉ path.filename := by
  rcases path.filename_eq_nil_or_mem with empty | member
  · rw [empty]
    exact List.not_mem_nil
  · exact free _ member

/-! ### The words of the commands -/

theorem command_runCommand {executable : Bytes} {args : List Bytes}
    (free : ∀ word ∈ executable :: args, (0 : UInt8) ∉ word) :
    Shell.command (cStr (Cli.runCommand executable args)) = some (executable :: args) := by
  obtain ⟨freeExecutable, freeArgs⟩ := List.forall_mem_cons.mp free
  have reads : Shell.ReadsAs (Cli.runCommand executable args)
      (⟨executable, true⟩ :: args.map fun arg => ⟨arg, true⟩) :=
    Shell.ReadsAs.foldl spells_shellQuote (spells_shellQuote executable).readsAs args
  rw [cStr_of_free (zero_not_mem_runCommand freeExecutable freeArgs), reads.command_eq rfl,
    List.map_cons, List.map_map]
  exact congrArg some (congrArg _ (List.map_id' _))

/-- The parent of a directory as tar is told, the current directory for a path of one name. -/
def tarParent (directory : Path) : Bytes :=
  if directory.parentPath.isEmpty then dot else directory.parentPath.string

theorem zero_not_mem_tarParent {directory : Path} (free : directory.NulFree) :
    (0 : UInt8) ∉ tarParent directory := by
  unfold tarParent
  split
  · decide
  · exact Path.zero_not_mem_string (Path.nulFree_parentPath free)

theorem tarCreateCommand_eq {directory : Path} (valid : directory.WellFormed) :
    tarCreateCommand directory = ascii "tar -cf - -C" ++ [Shell.space] ++
      Cli.shellQuote (tarParent directory) ++ [Shell.space] ++
        Cli.shellQuote directory.filename := by
  have start : ascii "tar -cf - -C " = ascii "tar -cf - -C" ++ [Shell.space] := by decide
  have here : (Path.parse dot).string = dot := by decide
  simp only [tarCreateCommand, shellQuote_eq, Path.string_parse_filename valid,
    apply_ite Path.string, here, start]
  rfl

/-- The words in front of the directory, none of them quoted. -/
def tarTokens (mode : Bytes) : List Shell.Token :=
  [⟨ascii "tar", false⟩, ⟨mode, false⟩, ⟨ascii "-", false⟩, ⟨ascii "-C", false⟩]

theorem readsAs_tar :
    Shell.ReadsAs (ascii "tar -cf - -C") (tarTokens (ascii "-cf")) ∧
      Shell.ReadsAs (ascii "tar -xf - -C") (tarTokens (ascii "-xf")) :=
  ⟨⟨(tarTokens (ascii "-cf")).take 3, ⟨ascii "-C", false⟩, by decide +kernel, rfl⟩,
    ⟨(tarTokens (ascii "-xf")).take 3, ⟨ascii "-C", false⟩, by decide +kernel, rfl⟩⟩

theorem command_tarCreateCommand {directory : Path} (valid : directory.WellFormed)
    (free : directory.NulFree) :
    Shell.command (cStr (tarCreateCommand directory)) =
      some [ascii "tar", ascii "-cf", ascii "-", ascii "-C", tarParent directory,
        directory.filename] := by
  have reads := (readsAs_tar.1.concat (spells_shellQuote (tarParent directory))).concat
    (spells_shellQuote directory.filename)
  have whole : (0 : UInt8) ∉ tarCreateCommand directory := by
    have parent := zero_not_mem_shellQuote (zero_not_mem_tarParent free)
    have name := zero_not_mem_shellQuote (Path.zero_not_mem_filename free)
    rw [tarCreateCommand_eq valid]
    simp only [List.mem_append, not_or]
    exact ⟨⟨⟨⟨by decide, by decide⟩, parent⟩, by decide⟩, name⟩
  rw [cStr_of_free whole, tarCreateCommand_eq valid]
  exact reads.command_eq (by decide)

theorem command_tarExtractCommand {outputDir : Path} (free : outputDir.NulFree) :
    Shell.command (cStr (tarExtractCommand outputDir)) =
      some [ascii "tar", ascii "-xf", ascii "-", ascii "-C", outputDir.string] := by
  have reads := readsAs_tar.2.concat (spells_shellQuote outputDir.string)
  have text : tarExtractCommand outputDir =
      ascii "tar -xf - -C" ++ [Shell.space] ++ Cli.shellQuote outputDir.string := rfl
  have whole : (0 : UInt8) ∉ tarExtractCommand outputDir := by
    have directory := zero_not_mem_shellQuote (Path.zero_not_mem_string free)
    rw [text]
    simp only [List.mem_append, not_or]
    exact ⟨⟨by decide, by decide⟩, directory⟩
  rw [cStr_of_free whole, text]
  exact reads.command_eq (by decide)

/-- The shell reads exactly the words that were meant, whatever bytes they hold. -/
theorem commands_exact :
    (∀ (executable : Bytes) (args : List Bytes), (∀ word ∈ executable :: args, (0 : UInt8) ∉ word) →
        Shell.command (cStr (Cli.runCommand executable args)) = some (executable :: args)) ∧
      (∀ directory : Path, directory.WellFormed → directory.NulFree →
        Shell.command (cStr (tarCreateCommand directory)) =
          some [ascii "tar", ascii "-cf", ascii "-", ascii "-C", tarParent directory,
            directory.filename]) ∧
      ∀ outputDir : Path, outputDir.NulFree →
        Shell.command (cStr (tarExtractCommand outputDir)) =
          some [ascii "tar", ascii "-xf", ascii "-", ascii "-C", outputDir.string] :=
  ⟨fun _ _ free => command_runCommand free,
    fun _ valid free => command_tarCreateCommand valid free,
    fun _ free => command_tarExtractCommand free⟩

/-- A quote, a newline and what would be a second command. -/
def hostile : List Bytes := [ascii "it's", [], ascii "$(reboot)\n; rm -rf *"]

theorem hostile_exact :
    Shell.command (cStr (Cli.runCommand (ascii "/bin/a b") hostile)) =
        some (ascii "/bin/a b" :: hostile) ∧
      Shell.command (cStr (tarCreateCommand (Path.parse (ascii "it's; ls")))) =
        some [ascii "tar", ascii "-cf", ascii "-", ascii "-C", dot, ascii "it's; ls"] ∧
      Shell.command (cStr (tarExtractCommand (Path.parse (ascii "a`b")))) =
        some [ascii "tar", ascii "-xf", ascii "-", ascii "-C", ascii "a`b"] :=
  ⟨commands_exact.1 _ _ (by decide +kernel),
    commands_exact.2.1 (Path.parse (ascii "it's; ls")) (Path.parse_wellFormed _)
      (by decide +kernel),
    commands_exact.2.2 (Path.parse (ascii "a`b")) (by decide +kernel)⟩

end HyperLink
