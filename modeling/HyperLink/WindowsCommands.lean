/-
This file is about the command lines of the Windows branches: the tar of the
single-stream directory mode, which is quoted, and the helper tools of the friendly
front end, which are not. A path that ends in a backslash takes the closing quote for
a letter of its own, and an argument with a blank or a quote in it, or an empty one,
does not arrive.
-/

import HyperLink.ShellCommands
import HyperLink.WindowsArguments

namespace HyperLink

open Shell (doubleQuote backslash isBlank)
open WindowsArguments

namespace Windows

/-! ### Commands -/

/-- The Windows branch of `shell_quote`, of either tool. -/
def shellQuote (text : Bytes) : Bytes :=
  [doubleQuote] ++ (text.flatMap fun character =>
    if character = doubleQuote then ascii "\\\"" else [character]) ++ [doubleQuote]

/-- The parent that tar is told, the current directory for an empty `parent_path`. -/
def tarParent (parentPath : Bytes) : Bytes := if parentPath = [] then dot else parentPath

/-- `tar_create_command` of a directory with these strings for its parent path and name. -/
def tarCreateCommand (parentPath filename : Bytes) : Bytes :=
  ascii "tar -cf - -C " ++ shellQuote (tarParent parentPath) ++ ascii " " ++ shellQuote filename

def tarExtractCommand (outputDir : Bytes) : Bytes :=
  ascii "tar -xf - -C " ++ shellQuote outputDir

/-- The command line that `_spawnv` makes of C strings. -/
def spawnv (argv : List Bytes) : Bytes := [Shell.space].intercalate (argv.map cStr)

/-- The command line of the child that the Windows branch of `run_command` starts. -/
def runCommand (executable : Bytes) (args : List Bytes) : Bytes := spawnv (executable :: args)

/-! ### The words that tar is given -/

theorem shellQuote_of_free {text : Bytes} (noQuote : doubleQuote ∉ text) :
    shellQuote text = quoted text := by
  have same : (text.flatMap fun character =>
      if character = doubleQuote then ascii "\\\"" else [character]) = text := by
    refine (List.flatMap_congr fun character member => if_neg ?_).trans
      (List.flatMap_singleton' text)
    rintro rfl
    exact noQuote member
  unfold shellQuote quoted
  rw [same]

theorem zero_not_mem_quoted {text : Bytes} (free : (0 : UInt8) ∉ text) :
    (0 : UInt8) ∉ quoted text := by
  have outside : (0 : UInt8) ∉ [doubleQuote] := by decide
  simp only [quoted, List.mem_append, not_or]
  exact ⟨⟨outside, free⟩, outside⟩

/-- What holds for a path holds for the parent that tar is told. -/
theorem tarParent_cases (property : Bytes → Prop) {parentPath : Bytes} (here : property dot)
    (isGiven : property parentPath) : property (tarParent parentPath) := by
  unfold tarParent
  split_ifs
  · exact here
  · exact isGiven

theorem getLast_tarParent_iff (parentPath : Bytes) :
    (tarParent parentPath).getLast? ≠ some backslash ↔
      parentPath.getLast? ≠ some backslash := by
  unfold tarParent
  split_ifs with empty
  · rw [empty]
    exact iff_of_true (by decide) (by decide)
  · exact Iff.rfl

/-- The words in front of the paths. -/
def tarWords (mode : Bytes) : List Bytes := [ascii "tar", mode, ascii "-", ascii "-C"]

theorem run_tar :
    run {} (ascii "tar -cf - -C ") = ⟨tarWords (ascii "-cf"), .between⟩ ∧
      run {} (ascii "tar -xf - -C ") = ⟨tarWords (ascii "-xf"), .between⟩ := by
  decide +kernel

theorem arguments_tarCreateCommand_iff {parentPath filename : Bytes}
    (noQuotes : doubleQuote ∉ parentPath ∧ doubleQuote ∉ filename)
    (free : (0 : UInt8) ∉ parentPath ∧ (0 : UInt8) ∉ filename) :
    arguments (cStr (tarCreateCommand parentPath filename)) =
        tarWords (ascii "-cf") ++ [tarParent parentPath, filename] ↔
      parentPath.getLast? ≠ some backslash ∧ filename.getLast? ≠ some backslash := by
  have noQuote : doubleQuote ∉ tarParent parentPath :=
    tarParent_cases (doubleQuote ∉ ·) (by decide) noQuotes.1
  have parentFree : (0 : UInt8) ∉ tarParent parentPath :=
    tarParent_cases ((0 : UInt8) ∉ ·) (by decide) free.1
  have line : tarCreateCommand parentPath filename = ascii "tar -cf - -C " ++
      (quoted (tarParent parentPath) ++
        [filename].flatMap fun text => [Shell.space] ++ quoted text) := by
    unfold tarCreateCommand
    rw [shellQuote_of_free noQuote, shellQuote_of_free noQuotes.2, List.flatMap_singleton]
    simp only [List.append_assoc]
    rfl
  have whole : (0 : UInt8) ∉ tarCreateCommand parentPath filename := by
    rw [line, List.flatMap_singleton]
    simp only [List.mem_append, not_or]
    exact ⟨by decide, zero_not_mem_quoted parentFree, by decide, zero_not_mem_quoted free.2⟩
  have texts : ∀ text ∈ [tarParent parentPath, filename], doubleQuote ∉ text := by
    simpa using ⟨noQuote, noQuotes.2⟩
  rw [cStr_of_free whole, line, arguments, run_append, run_tar.1, finish_quoted_iff texts,
    List.forall_mem_cons, List.forall_mem_singleton, getLast_tarParent_iff]

theorem arguments_tarExtractCommand_iff {outputDir : Bytes} (noQuote : doubleQuote ∉ outputDir)
    (free : (0 : UInt8) ∉ outputDir) :
    arguments (cStr (tarExtractCommand outputDir)) = tarWords (ascii "-xf") ++ [outputDir] ↔
      outputDir.getLast? ≠ some backslash := by
  have line : tarExtractCommand outputDir =
      ascii "tar -xf - -C " ++
        (quoted outputDir ++ [].flatMap fun text => [Shell.space] ++ quoted text) := by
    unfold tarExtractCommand
    rw [shellQuote_of_free noQuote, List.flatMap_nil, List.append_nil]
  have whole : (0 : UInt8) ∉ tarExtractCommand outputDir := by
    rw [line, List.flatMap_nil, List.append_nil]
    simp only [List.mem_append, not_or]
    exact ⟨by decide, zero_not_mem_quoted free⟩
  have texts : ∀ text ∈ [outputDir], doubleQuote ∉ text := by
    simpa using noQuote
  rw [cStr_of_free whole, line, arguments, run_append, run_tar.2, finish_quoted_iff texts,
    List.forall_mem_singleton]

/-- tar is given the paths exactly if none of them ends in a backslash. -/
theorem tarCommands_deliver_iff (parentPath filename outputDir : Bytes)
    (noQuotes : ∀ text ∈ [parentPath, filename, outputDir], doubleQuote ∉ text)
    (free : ∀ text ∈ [parentPath, filename, outputDir], (0 : UInt8) ∉ text) :
    (arguments (cStr (tarCreateCommand parentPath filename)) =
          [ascii "tar", ascii "-cf", ascii "-", ascii "-C", tarParent parentPath, filename] ↔
        parentPath.getLast? ≠ some backslash ∧ filename.getLast? ≠ some backslash) ∧
      (arguments (cStr (tarExtractCommand outputDir)) =
          [ascii "tar", ascii "-xf", ascii "-", ascii "-C", outputDir] ↔
        outputDir.getLast? ≠ some backslash) := by
  obtain ⟨noQuoteParent, noQuoteName, noQuoteDir, -⟩ := by
    simpa only [List.forall_mem_cons] using noQuotes
  obtain ⟨parentFree, nameFree, dirFree, -⟩ := by
    simpa only [List.forall_mem_cons] using free
  exact ⟨arguments_tarCreateCommand_iff ⟨noQuoteParent, noQuoteName⟩ ⟨parentFree, nameFree⟩,
    arguments_tarExtractCommand_iff noQuoteDir dirFree⟩

/-- The paths of a directory below a share, with a blank in them. -/
theorem tarCommands_deliver_iff_share :
    (arguments (cStr (tarCreateCommand (ascii "\\\\nas\\my files") (ascii "a b"))) =
          [ascii "tar", ascii "-cf", ascii "-", ascii "-C", tarParent (ascii "\\\\nas\\my files"),
            ascii "a b"] ↔
        (ascii "\\\\nas\\my files").getLast? ≠ some backslash ∧
          (ascii "a b").getLast? ≠ some backslash) ∧
      (arguments (cStr (tarExtractCommand (ascii "C:\\"))) =
          [ascii "tar", ascii "-xf", ascii "-", ascii "-C", ascii "C:\\"] ↔
        (ascii "C:\\").getLast? ≠ some backslash) :=
  tarCommands_deliver_iff (ascii "\\\\nas\\my files") (ascii "a b") (ascii "C:\\")
    (by decide +kernel) (by decide +kernel)

/-- The parent of a directory at the top of a drive swallows what stands behind it. -/
theorem tarCommands_driveRoot :
    arguments (cStr (tarCreateCommand (ascii "C:\\") (ascii "foo"))) =
        [ascii "tar", ascii "-cf", ascii "-", ascii "-C", ascii "C:\" foo"] ∧
      arguments (cStr (tarCreateCommand (ascii "C:\\") (ascii "foo"))) ≠
        [ascii "tar", ascii "-cf", ascii "-", ascii "-C", tarParent (ascii "C:\\"),
          ascii "foo"] ∧
      arguments (cStr (tarExtractCommand (ascii "C:\\"))) ≠
        [ascii "tar", ascii "-xf", ascii "-", ascii "-C", ascii "C:\\"] := by
  decide +kernel

/-! ### The arguments of the helper -/

theorem intercalate_space (first : Bytes) (rest : List Bytes) :
    [Shell.space].intercalate (first :: rest) =
      first ++ rest.flatMap fun word => [Shell.space] ++ word := by
  induction rest generalizing first with
  | nil => simp
  | cons next rest inductionHypothesis =>
    rw [List.intercalate_cons_cons, inductionHypothesis, List.flatMap_cons, List.append_assoc,
      List.append_assoc]

/-- The helper is given what the front end passes exactly if no word needs quotes. -/
theorem runCommand_delivers_iff (executable : Bytes) (args : List Bytes)
    (free : ∀ word ∈ executable :: args, (0 : UInt8) ∉ word) :
    arguments (runCommand executable args) = executable :: args ↔
      (∀ byte ∈ executable, isBlank byte = false ∧ byte ≠ doubleQuote) ∧
        ∀ arg ∈ args, arg ≠ [] ∧ ∀ byte ∈ arg, isBlank byte = false ∧ byte ≠ doubleQuote := by
  have whole : (executable :: args).map cStr = executable :: args :=
    (List.map_congr_left fun word member => cStr_of_free (free word member)).trans
      (List.map_id' _)
  rw [runCommand, spawnv, whole, intercalate_space]
  exact arguments_join_iff executable args

/-- Where the helper is installed. -/
def helper : Bytes := ascii "C:\\hyperlink\\hyperlink_file.exe"

theorem runCommand_delivers_iff_receive :
    arguments (runCommand helper (Cli.receiveArguments { outputDir := ascii "D:\\in\\" })) =
        helper :: Cli.receiveArguments { outputDir := ascii "D:\\in\\" } ↔
      (∀ byte ∈ helper, isBlank byte = false ∧ byte ≠ doubleQuote) ∧
        ∀ arg ∈ Cli.receiveArguments { outputDir := ascii "D:\\in\\" },
          arg ≠ [] ∧ ∀ byte ∈ arg, isBlank byte = false ∧ byte ≠ doubleQuote :=
  runCommand_delivers_iff helper (Cli.receiveArguments { outputDir := ascii "D:\\in\\" })
    (by decide +kernel)

/-- A file with a blank in its name arrives in two pieces. -/
theorem runCommand_blank :
    Cli.parseSend [ascii "My file.txt"] = .ok { file := ascii "My file.txt" } ∧
      arguments (runCommand helper (Cli.sendArguments { file := ascii "My file.txt" })) =
        [helper, ascii "--send", ascii "--file", ascii "My", ascii "file.txt",
          ascii "--discovery-port", ascii "47789", ascii "--auto"] ∧
      arguments (runCommand helper (Cli.sendArguments { file := ascii "My file.txt" })) ≠
        helper :: Cli.sendArguments { file := ascii "My file.txt" } := by
  decide +kernel

end Windows

end HyperLink
