/-
This file is the file system under the receiver: directories, regular files and
symbolic links, with the system calls the transfer tool makes through the C++
library.

A location is the list of names that leads from the root to an entry without
passing a link. A path is resolved to a location by walking its elements
through the directories, links and dot names that exist at that moment. A
regular file is an inode, so an open file stays the same file when its name is
removed or replaced. Every call reports the changes it made and the location of
each, which is how statements about what a run did are made.
-/

import HyperLink.Path

namespace HyperLink

/-- The names that lead from the root to an entry, links resolved. -/
abbrev Location := List Bytes

/-- What a name in a directory stands for. -/
inductive Entry where
  | directory
  | file (inode : Nat)
  | symlink (target : Bytes)
  deriving DecidableEq, Repr

/-- The content and the mode bits of a regular file. -/
structure FileData where
  content : Bytes
  mode : Nat
  deriving DecidableEq, Repr

/-- A change that a system call made, at the location it resolved to. -/
inductive Effect where
  | createdDirectory (location : Location)
  | createdFile (location : Location)
  | truncated (location : Location)
  | resized (location : Location) (size : Nat)
  | wrote (location : Location) (position : Nat) (bytes : Bytes)
  | changedMode (location : Location) (mode : Nat)
  | removed (location : Location)
  | createdSymlink (location : Location) (target : Bytes)
  deriving DecidableEq, Repr

/-- The location at which a change was made. -/
def Effect.location : Effect → Location
  | createdDirectory location | createdFile location | truncated location
  | resized location _ | wrote location _ _ | changedMode location _ | removed location
  | createdSymlink location _ => location

/-- An open file: its inode and the location its name resolved to. -/
structure Handle where
  inode : Nat
  location : Location
  deriving DecidableEq, Repr

/-- Why a directory could not be created. -/
inductive Errno where
  | notFound
  | alreadyExists
  | notADirectory
  | invalidArgument
  | inputOutput
  deriving DecidableEq, Repr

def Errno.message : Errno → Bytes
  | notFound => ascii "No such file or directory"
  | alreadyExists => ascii "File exists"
  | notADirectory => ascii "Not a directory"
  | invalidArgument => ascii "Invalid argument"
  | inputOutput => ascii "Input/output error"

structure FileSystem where
  entries : List (Location × Entry)
  files : Nat → FileData
  nextInode : Nat
  workingDirectory : Location
  /-- The mode of a file that a process creates without naming a mode. -/
  newFileMode : Nat

/-- The reply of a system call, the file system after it, and the changes it made. -/
structure Outcome (Value : Type) where
  reply : Value
  fs : FileSystem
  effects : List Effect

/-- The links one resolution may follow before the system gives up. -/
def maximumLinks : Nat := 40

/-- The largest file size and file position. -/
def maximumOffset : Nat := 2 ^ 63 - 1

namespace FileSystem

/-- The entry at a location. -/
def lookup (fs : FileSystem) (location : Location) : Option Entry :=
  fs.entries.lookup location

/-- A file system that holds nothing but its root directory. -/
def rootOnly : FileSystem where
  entries := [([], .directory)]
  files := fun _ => ⟨[], 0⟩
  nextInode := 0
  workingDirectory := []
  newFileMode := 0o644

/-! ### Path resolution -/

/-- The elements of a link's target. A separator at the end asks for a directory, as the
element `.` does. -/
def targetParts (target : Bytes) : List Bytes :=
  (Path.parse target).parts ++ (if (Path.parse target).trailing then [dot] else [])

/-- Where a link's target starts. -/
def targetBase (target : Bytes) (directory : Location) : Location :=
  if (Path.parse target).rooted then [] else directory

/-- Walk the elements of a path from a directory. `follow` says whether a link in last
position is followed, and `jump` is the walk with one link less to follow. The result may
name no entry yet, but then it lies in an existing directory. -/
def walkFrom (fs : FileSystem) (follow : Bool) (jump : Location → List Bytes → Option Location) :
    Location → List Bytes → Option Location
  | directory, [] => some directory
  | directory, name :: rest =>
      if fs.lookup directory ≠ some .directory then none
      else if name = dot then walkFrom fs follow jump directory rest
      else if name = dotDot then walkFrom fs follow jump directory.dropLast rest
      else match fs.lookup (directory ++ [name]) with
        | none => if rest = [] then some (directory ++ [name]) else none
        | some .directory => walkFrom fs follow jump (directory ++ [name]) rest
        | some (.file _) => if rest = [] then some (directory ++ [name]) else none
        | some (.symlink target) =>
            if rest = [] ∧ follow = false then some (directory ++ [name])
            else jump (targetBase target directory) (targetParts target ++ rest)

/-- Walk the elements of a path, following at most the given number of links. -/
def walk (fs : FileSystem) (follow : Bool) : Nat → Location → List Bytes → Option Location
  | 0 => walkFrom fs follow fun _ _ => none
  | links + 1 => walkFrom fs follow (walk fs follow links)

/-- Where the resolution of a path starts. -/
def start (fs : FileSystem) (path : Path) : Location :=
  if path.rooted then [] else fs.workingDirectory

/-- The location a path names at this moment. -/
def resolve (fs : FileSystem) (follow : Bool) (path : Path) : Option Location :=
  if path.native.isEmpty then none
  else fs.walk follow maximumLinks (fs.start path.native) path.native.parts

/-- A path names an existing directory, links followed. -/
def isDirectory (fs : FileSystem) (path : Path) : Bool :=
  match fs.resolve true path with
  | some location => fs.lookup location == some .directory
  | none => false

/-! ### Changing entries and files -/

/-- Enter a new name. -/
def insert (fs : FileSystem) (location : Location) (entry : Entry) : FileSystem :=
  { fs with entries := (location, entry) :: fs.entries }

/-- Delete a name. -/
def erase (fs : FileSystem) (location : Location) : FileSystem :=
  { fs with entries := fs.entries.filter fun pair => pair.1 ≠ location }

/-- Replace the content or the mode of a file. -/
def setFile (fs : FileSystem) (inode : Nat) (data : FileData) : FileSystem :=
  { fs with files := Function.update fs.files inode data }

/-- No entry lies below a location. -/
def isLeaf (fs : FileSystem) (location : Location) : Bool :=
  fs.entries.all fun pair => !(location.isPrefixOf pair.1 && pair.1 != location)

/-- The content after a write at a position: a gap before the position reads as zeros. -/
def writeAt (content : Bytes) (position : Nat) (bytes : Bytes) : Bytes :=
  if bytes = [] then content
  else content.take position ++ List.replicate (position - content.length) 0 ++ bytes ++
    content.drop (position + bytes.length)

@[simp]
theorem writeAt_nil (content : Bytes) (position : Nat) : writeAt content position [] = content :=
  if_pos rfl

/-- What stands before the end of a write, gap included. -/
theorem length_writeAt_front (content bytes : Bytes) (position : Nat) :
    (content.take position ++ List.replicate (position - content.length) 0 ++ bytes).length =
      position + bytes.length := by
  simp only [List.length_append, List.length_take, List.length_replicate]
  omega

/-- Writing two pieces one behind the other is writing them joined. -/
theorem writeAt_writeAt (content : Bytes) (position : Nat) (first second : Bytes) :
    writeAt (writeAt content position first) (position + first.length) second =
      writeAt content position (first ++ second) := by
  by_cases noFirst : first = []
  · simp [noFirst]
  by_cases noSecond : second = []
  · simp [noSecond]
  have front := length_writeAt_front content first position
  unfold writeAt
  rw [if_neg noSecond, if_neg noFirst, if_neg (by simp [noFirst]),
    ← List.append_assoc _ first second]
  generalize content.take position ++ List.replicate (position - content.length) 0 ++ first =
    written at front
  have covered : position + first.length - (written ++
      content.drop (position + first.length)).length = 0 := by
    rw [List.length_append]
    omega
  rw [covered, List.take_left' front, List.replicate_zero, List.append_nil, List.length_append]
  congr 1
  rw [← front, List.drop_length_add_append, List.drop_drop, front, Nat.add_assoc]

/-- A write at the end lengthens the content. -/
theorem writeAt_length (content bytes : Bytes) :
    writeAt content content.length bytes = content ++ bytes := by
  by_cases nothing : bytes = []
  · simp [nothing]
  · simp [writeAt, nothing]

/-- The bytes after a write inside the content. -/
theorem getElem?_writeAt {content bytes : Bytes} {position : Nat}
    (inside : position + bytes.length ≤ content.length) (index : Nat) :
    (writeAt content position bytes)[index]? =
      if position ≤ index ∧ index < position + bytes.length then bytes[index - position]?
      else content[index]? := by
  by_cases nothing : bytes = []
  · subst nothing
    rw [writeAt_nil, if_neg (by simp)]
  · have gap : position - content.length = 0 := by omega
    have front : (content.take position).length = position := List.length_take_of_le (by omega)
    unfold writeAt
    rw [if_neg nothing, gap, List.replicate_zero, List.append_nil, List.append_assoc]
    by_cases before : index < position
    · rw [List.getElem?_append_left (by omega), List.getElem?_take_of_lt before, if_neg (by omega)]
    · rw [List.getElem?_append_right (by omega), front]
      by_cases written : index < position + bytes.length
      · rw [if_pos (by omega), List.getElem?_append_left (by omega)]
      · rw [if_neg (by omega), List.getElem?_append_right (by omega), List.getElem?_drop]
        congr 1
        omega

theorem length_writeAt {content bytes : Bytes} {position : Nat}
    (inside : position + bytes.length ≤ content.length) :
    (writeAt content position bytes).length = content.length := by
  by_cases nothing : bytes = []
  · rw [nothing, writeAt_nil]
  · unfold writeAt
    rw [if_neg nothing, List.length_append, length_writeAt_front, List.length_drop]
    omega

/-- The content of a file whose size is changed. -/
def resizeTo (content : Bytes) (size : Nat) : Bytes :=
  content.take size ++ List.replicate (size - content.length) 0

theorem length_resizeTo (content : Bytes) (size : Nat) : (resizeTo content size).length = size := by
  rw [resizeTo, List.length_append, List.length_take, List.length_replicate]
  omega

/-! ### System calls -/

/-- A call that changes nothing. -/
def unchanged {Value : Type} (fs : FileSystem) (reply : Value) : Outcome Value := ⟨reply, fs, []⟩

/-- Why a directory cannot take a name that exists: the name leads to a file, or nowhere. -/
def occupied (fs : FileSystem) (path : Path) : Errno :=
  if (fs.resolve true path).any fun location => (fs.lookup location).isSome then .notADirectory
  else .alreadyExists

/-- `create_directory`, as `create_directories` uses it: an existing directory is no error. -/
def createDirectory (path : Path) (fs : FileSystem) : Outcome (Except Errno Unit) :=
  if fs.isDirectory path then fs.unchanged (.ok ())
  else match fs.resolve false path with
    | none => fs.unchanged (.error .notFound)
    | some location =>
        match fs.lookup location with
        | some _ => fs.unchanged (.error (fs.occupied path))
        | none => ⟨.ok (), fs.insert location .directory, [.createdDirectory location]⟩

/-- Opening an `ofstream` with `trunc`: the file is created or emptied. -/
def openTruncate (path : Path) (fs : FileSystem) : Outcome (Option Handle) :=
  if path.native.trailing then fs.unchanged none
  else match fs.resolve true path with
    | none => fs.unchanged none
    | some location =>
        match fs.lookup location with
        | none =>
            ⟨some ⟨fs.nextInode, location⟩,
              ({ fs with nextInode := fs.nextInode + 1 }.insert location
                (.file fs.nextInode)).setFile fs.nextInode ⟨[], fs.newFileMode⟩,
              [.createdFile location]⟩
        | some (.file inode) =>
            ⟨some ⟨inode, location⟩, fs.setFile inode ⟨[], (fs.files inode).mode⟩,
              [.truncated location]⟩
        | some _ => fs.unchanged none

/-- Opening an `fstream` with `in` and `out`: the file must exist. -/
def openReadWrite (path : Path) (fs : FileSystem) : Outcome (Option Handle) :=
  if path.native.trailing then fs.unchanged none
  else match fs.resolve true path with
    | none => fs.unchanged none
    | some location =>
        match fs.lookup location with
        | some (.file inode) => fs.unchanged (some ⟨inode, location⟩)
        | _ => fs.unchanged none

/-- The content of the regular file that a path names. -/
def readFile (path : Path) (fs : FileSystem) : Option Bytes :=
  (fs.openReadWrite path).reply.map fun handle => (fs.files handle.inode).content

/-- One positional write to an open file. -/
def write (handle : Handle) (position : Nat) (bytes : Bytes) (fs : FileSystem) : Outcome Bool :=
  ⟨true, fs.setFile handle.inode
      ⟨writeAt (fs.files handle.inode).content position bytes, (fs.files handle.inode).mode⟩,
    [.wrote handle.location position bytes]⟩

/-- `resize_file`: a size above the largest offset is refused. -/
def resizeFile (path : Path) (size : Nat) (fs : FileSystem) : Outcome Bool :=
  if path.native.trailing ∨ maximumOffset < size then fs.unchanged false
  else match fs.resolve true path with
    | none => fs.unchanged false
    | some location =>
        match fs.lookup location with
        | some (.file inode) =>
            ⟨true, fs.setFile inode
                ⟨resizeTo (fs.files inode).content size, (fs.files inode).mode⟩,
              [.resized location size]⟩
        | _ => fs.unchanged false

/-- `permissions` with `replace`, links followed. The system keeps twelve mode bits. The modes
of directories are not kept. -/
def setPermissions (path : Path) (mode : Nat) (fs : FileSystem) : Outcome Bool :=
  match fs.resolve true path with
  | none => fs.unchanged false
  | some location =>
      match fs.lookup location with
      | some (.file inode) =>
          if path.native.trailing then fs.unchanged false
          else ⟨true, fs.setFile inode ⟨(fs.files inode).content, mode % 0o10000⟩,
            [.changedMode location (mode % 0o10000)]⟩
      | some .directory => ⟨true, fs, [.changedMode location (mode % 0o10000)]⟩
      | _ => fs.unchanged false

/-- The mode that is left of a file when an unprivileged process writes to it: the system takes
the set-user-ID bit away, and the set-group-ID bit of a file that its group may execute. -/
def withoutSetId (mode : Nat) : Nat :=
  mode - (mode &&& 0o4000) - if mode &&& 0o0010 = 0 then 0 else mode &&& 0o2000

/-- A stream writes the last bytes of its file, and the process is unprivileged. The bytes are
in the content since the stream took them. -/
def writeHeldBack (handle : Handle) (fs : FileSystem) : Outcome Unit :=
  let data := fs.files handle.inode
  if data.content = [] then fs.unchanged ()
  else ⟨(), fs.setFile handle.inode ⟨data.content, withoutSetId data.mode⟩,
    [.changedMode handle.location (withoutSetId data.mode)]⟩

/-- `remove`: a file, a link itself, or an empty directory other than the root. -/
def remove (path : Path) (fs : FileSystem) : Outcome Bool :=
  match fs.resolve false path with
  | none => fs.unchanged false
  | some location =>
      match fs.lookup location with
      | none => fs.unchanged false
      | some .directory =>
          if location ≠ [] ∧ fs.isLeaf location ∧ path.native.parts.getLast? ≠ some dot then
            ⟨true, fs.erase location, [.removed location]⟩
          else fs.unchanged false
      | some _ =>
          if path.native.trailing then fs.unchanged false
          else ⟨true, fs.erase location, [.removed location]⟩

/-- `create_symlink`: the name must be free and the target not empty. The target is a C
string too. -/
def createSymlink (target : Bytes) (path : Path) (fs : FileSystem) : Outcome Bool :=
  if path.native.trailing ∨ target.takeWhile (· ≠ 0) = [] then fs.unchanged false
  else match fs.resolve false path with
    | none => fs.unchanged false
    | some location =>
        match fs.lookup location with
        | some _ => fs.unchanged false
        | none =>
            ⟨true, fs.insert location (.symlink (target.takeWhile (· ≠ 0))),
              [.createdSymlink location (target.takeWhile (· ≠ 0))]⟩

end FileSystem

end HyperLink
