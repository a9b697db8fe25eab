import WireSchema.Text.Utf8
import WireSchema.Wire.Basic

/-! # File systems

What the commands need of a file system, and a file system in memory: a tree of directories whose
leaves are files. A path that starts with a slash leads on from the root, any other one from the
directory that the program runs in. -/

namespace WireSchema.Command

/-- What the commands do with files. A result of `none` or `false` means that it failed. -/
structure FileSystem (m : Type → Type) where
  /-- There is a file or directory at the path. -/
  isPresent : String → m Bool
  /-- The text of a file, if it is one. -/
  readText : String → m (Option String)
  /-- Makes a directory, together with those on the way to it. -/
  makeDirs : String → m Bool
  /-- Writes a text to a file. -/
  writeText : String → String → m Bool

/-- Where a file or directory is: the names on the way to it. -/
abbrev Location := List String

/-- A tree of files, and the directory in it that the program runs in. -/
structure FileTree where
  current : Location
  files : List (Location × Bytes)
  dirs : List Location
  deriving DecidableEq

namespace FileTree

/-- A tree with the given files below the current directory. -/
def ofFiles (current : Location) (files : List (Location × Bytes)) : FileTree :=
  ⟨current, files.map fun (l, bytes) => (current ++ l, bytes), [current]⟩

/-- The file at a location. -/
def file? (t : FileTree) (l : Location) : Option Bytes := t.files.lookup l

/-- There is a directory at a location: the root, or one on the way to a directory or file. -/
def isDir (t : FileTree) (l : Location) : Bool :=
  l.isEmpty || t.dirs.any (l.isPrefixOf ·) ||
    t.files.any fun file => l.isPrefixOf file.1 && l.length < file.1.length

/-- The names in a path. -/
def names (path : String) : List String := (path.toList.splitOn '/').map String.ofList

/-- Where a path starts. -/
def start (t : FileTree) (path : String) : Location :=
  if path.startsWith "/" then [] else t.current

/-- Follows names. All locations on the way must be directories. -/
def follow (t : FileTree) (l : Location) : List String → Option Location
  | [] => some l
  | name :: rest =>
    if t.isDir l then
      if name = "" ∨ name = "." then t.follow l rest
      else if name = ".." then t.follow l.dropLast rest
      else t.follow (l ++ [name]) rest
    else none

/-- Where a path leads, if all directories on the way are there. -/
def locate (t : FileTree) (path : String) : Option Location :=
  if path = "" then none else t.follow (t.start path) (names path)

/-- There is something at a path. -/
def isPresent (t : FileTree) (path : String) : Bool :=
  match t.locate path with
  | none => false
  | some l => (t.file? l).isSome || t.isDir l

/-- The text of the file at a path. -/
def readText (t : FileTree) (path : String) : Option String :=
  match t.locate path with
  | none => none
  | some l =>
    match t.file? l with
    | none => none
    | some bytes => if Utf8.isValid bytes then some (Utf8.toString bytes) else none

/-- Makes the directory at a location, if it is not there. -/
def makeDir (t : FileTree) (l : Location) : FileTree :=
  if t.isDir l then t else { t with dirs := l :: t.dirs }

/-- Makes the directories on the way along some names. -/
def makeAlong (t : FileTree) (l : Location) : List String → Option FileTree
  | [] => some t
  | name :: rest =>
    if name = "" ∨ name = "." then t.makeAlong l rest
    else if name = ".." then t.makeAlong l.dropLast rest
    else if (t.file? (l ++ [name])).isSome then none
    else (t.makeDir (l ++ [name])).makeAlong (l ++ [name]) rest

/-- Makes a directory at a path. -/
def makeDirs (t : FileTree) (path : String) : Option FileTree :=
  t.makeAlong (t.start path) (names path)

/-- Writes a file at a path. -/
def writeText (t : FileTree) (path text : String) : Option FileTree :=
  match t.locate path with
  | none => none
  | some l =>
    if t.isDir l then none
    else some { t with files := (l, Utf8.ofString text) :: t.files.filter (·.1 != l) }

end FileTree

/-- Changes a tree in place, if that succeeds. -/
def change (f : FileTree → Option FileTree) : StateM FileTree Bool := fun t =>
  match f t with
  | none => (false, t)
  | some t => (true, t)

/-- The file system in memory. -/
def FileSystem.inMemory : FileSystem (StateM FileTree) where
  isPresent path := fun t => (t.isPresent path, t)
  readText path := fun t => (t.readText path, t)
  makeDirs path := change (·.makeDirs path)
  writeText path text := change (·.writeText path text)

end WireSchema.Command
