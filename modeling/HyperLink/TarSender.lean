/-
This file is the single-stream directory mode of the sender: what `run_send` checks
before it connects, and how tar reads the words it is started with. The words are
quoted for the shell, but tar parses them once more, and takes a name that starts
with a hyphen for an option.
-/

import HyperLink.ShellCommands

namespace HyperLink

open CommandLine

/-- What stands at the sender's path, links followed. -/
inductive Found where
  | nothing
  | directory
  | regular (size : UInt64)
  | special
  deriving DecidableEq, Repr

/-- What `run_send` decides before it connects. -/
structure TransferPlan where
  kind : TransferKind
  payloadSize : UInt64
  remoteName : Bytes
  deriving DecidableEq, Repr

/-- The kind and the size of the payload. -/
def transferKind (options : Options) : Found → Except Error (TransferKind × UInt64)
  | .nothing => .error (ascii "path does not exist: " ++ options.file.string)
  | .directory =>
      if options.remoteName ≠ [] then
        .error (ascii "--name is not supported for directory transfers yet")
      else .ok (.directoryTar, kStreamingPayloadSize)
  | .regular size => .ok (.file, size)
  | .special =>
      .error (ascii "path is not a regular file or directory: " ++ options.file.string)

/-- The checks of `run_send` on the options in effect. -/
def planSend (options : Options) (found : Found) : Except Error TransferPlan := do
  let (kind, payloadSize) ← transferKind options found
  let remoteName ← safeFileName
    (if options.remoteName = [] then options.file.filename else options.remoteName)
  .ok ⟨kind, payloadSize, remoteName⟩

/-- A directory goes out as an archive under its own name. -/
theorem planSend_directory {options : Options} {plan : TransferPlan}
    (accepted : planSend options .directory = .ok plan) :
    plan.kind = .directoryTar ∧ options.remoteName = [] ∧
      safeFileName options.file.filename = .ok plan.remoteName := by
  unfold planSend at accepted
  obtain ⟨chosen, kind, named⟩ := bind_ok accepted
  obtain ⟨name, safe, done⟩ := bind_ok named
  simp only [transferKind] at kind
  split at kind
  · cases kind
  next noName =>
    rw [not_not] at noName
    rw [if_pos noName] at safe
    cases kind
    cases done
    exact ⟨rfl, noName, safe⟩

/-- The command whose output is sent, where a directory goes out on one stream. -/
def archiveCommand (options : Options) (plan : TransferPlan) : Option Bytes :=
  if plan.kind = .directoryTar ∧ ¬ options.parallel > 1 then some (tarCreateCommand options.file)
  else none

/-! ### How tar reads its words -/

/-- A word as tar takes it. -/
inductive TarWord where
  | option (name : Bytes) (value : Option Bytes)
  | operand (text : Bytes)
  deriving DecidableEq, Repr

/-- The options that take the next word, of those that the tool gives. -/
def tarTakesValue (word : Bytes) : Bool :=
  word = ascii "-cf" ∨ word = ascii "-xf" ∨ word = ascii "-C"

/-- A word that is no value is an option if it starts with a hyphen. -/
def tarWords (args : List Bytes) : List TarWord :=
  (uses tarTakesValue args).map fun use =>
    if use.word.head? = some hyphen then .option use.word use.value else .operand use.word

/-- A command that has tar write an archive of the named directory, and of nothing else, to its
output. -/
def ArchivesNamed (directory : Path) (command : Bytes) : Prop :=
  ∃ args, Shell.command (cStr command) = some (ascii "tar" :: args) ∧
    tarWords args = [.option (ascii "-cf") (some (ascii "-")),
      .option (ascii "-C") (some (tarParent directory)), .operand directory.filename]

/-- The parent is a value, whatever it is. The name has to speak for itself. -/
theorem tarWords_create (parent name : Bytes) :
    tarWords [ascii "-cf", ascii "-", ascii "-C", parent, name] =
      [.option (ascii "-cf") (some (ascii "-")), .option (ascii "-C") (some parent),
        if name.head? = some hyphen then .option name none else .operand name] := by
  have alone : uses tarTakesValue [name] = [⟨name, none⟩] := by
    cases takes : tarTakesValue name with
    | true => exact uses_missing takes
    | false => exact uses_switch takes []
  have all : uses tarTakesValue [ascii "-cf", ascii "-", ascii "-C", parent, name] =
      [⟨ascii "-cf", some (ascii "-")⟩, ⟨ascii "-C", some parent⟩, ⟨name, none⟩] := by
    rw [uses_valued (by decide), uses_valued (by decide), alone]
  have options : (ascii "-cf").head? = some hyphen ∧ (ascii "-C").head? = some hyphen := by decide
  simp only [tarWords, all, List.map_cons, List.map_nil, options, if_true]

/-- For every directory that `run_send` accepts with one stream, tar archives that directory and
nothing else exactly when its name does not start with a hyphen. -/
theorem planSend_archives_iff (options : Options) (text : Bytes)
    (given : options.file = Path.parse text) (nulFree : (0 : UInt8) ∉ text)
    (single : options.parallel = 1) (plan : TransferPlan)
    (accepted : planSend options .directory = .ok plan) :
    (∃ command, archiveCommand options plan = some command ∧
        ArchivesNamed options.file command) ↔
      options.file.filename.head? ≠ some hyphen := by
  have kind : plan.kind = .directoryTar := (planSend_directory accepted).1
  have command : archiveCommand options plan = some (tarCreateCommand options.file) :=
    if_pos ⟨kind, by rw [single]; decide⟩
  have words : Shell.command (cStr (tarCreateCommand options.file)) =
      some [ascii "tar", ascii "-cf", ascii "-", ascii "-C", tarParent options.file,
        options.file.filename] := by
    rw [given]
    exact command_tarCreateCommand (Path.parse_wellFormed text) (Path.parse_nulFree nulFree)
  refine ⟨?_, fun noHyphen => ⟨_, command, _, words, ?_⟩⟩
  · rintro ⟨other, same, args, read, archives⟩ hyphened
    obtain rfl : tarCreateCommand options.file = other := Option.some.inj (command.symm.trans same)
    obtain ⟨-, rfl⟩ := List.cons.inj (Option.some.inj (words.symm.trans read))
    rw [tarWords_create, if_pos hyphened] at archives
    cases archives
  · rw [tarWords_create, if_neg noHyphen]

/-- A sender of a directory whose name starts with a hyphen. -/
def hyphenNamed : Options := { send := true, file := Path.parse (ascii "photos/-x") }

/-- tar is given an option, and nothing to archive. -/
theorem hyphenNamed_not_archived :
    ∃ plan, planSend hyphenNamed .directory = .ok plan ∧
      ¬ ∃ command, archiveCommand hyphenNamed plan = some command ∧
        ArchivesNamed hyphenNamed.file command := by
  refine ⟨⟨.directoryTar, kStreamingPayloadSize, ascii "-x"⟩, by decide +kernel, ?_⟩
  rintro ⟨command, same, args, read, archives⟩
  have words : Shell.command (cStr (tarCreateCommand hyphenNamed.file)) =
      some [ascii "tar", ascii "-cf", ascii "-", ascii "-C", ascii "photos", ascii "-x"] := by
    decide +kernel
  obtain rfl : tarCreateCommand hyphenNamed.file = command := Option.some.inj same
  obtain ⟨-, rfl⟩ := List.cons.inj (Option.some.inj (words.symm.trans read))
  exact absurd archives (by decide +kernel)

theorem photos_archived :
    (∃ command, archiveCommand { send := true, file := Path.parse (ascii "a/photos/it's") }
        ⟨.directoryTar, kStreamingPayloadSize, ascii "it's"⟩ = some command ∧
        ArchivesNamed (Path.parse (ascii "a/photos/it's")) command) ↔
      (Path.parse (ascii "a/photos/it's")).filename.head? ≠ some hyphen :=
  planSend_archives_iff { send := true, file := Path.parse (ascii "a/photos/it's") }
    (ascii "a/photos/it's") rfl (by decide) rfl
    ⟨.directoryTar, kStreamingPayloadSize, ascii "it's"⟩ (by decide +kernel)

end HyperLink
