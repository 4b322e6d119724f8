import PushFitness.Text.Blank
import PushFitness.Text.Quoted

/-!
# Files

A path leads from folder to folder by the names between its slashes. Names that are
empty or a single dot lead nowhere, and two dots lead back. What a path ends at is all
that this library knows of the files around it.
-/

namespace PushFitness

/-- What a path ends at: nothing, in a folder or behind a folder that is missing; nothing,
because a file stands where a folder is needed or because a name is too long; a folder; or
a file. -/
inductive Entry
  | absent
  | unreachable
  | blocked
  | nameTooLong
  | folder
  | file (content : String)
deriving DecidableEq

/-- Why a file cannot be opened. -/
inductive FileFault
  | noSuchFile
  | notAFolder
  | isFolder
  | nameTooLong
deriving DecidableEq

namespace FileFault

/-- The number of a fault. -/
def number : FileFault → Nat
  | noSuchFile => 2
  | notAFolder => 20
  | isFolder => 21
  | nameTooLong => 36

def reason : FileFault → String
  | noSuchFile => "No such file or directory"
  | notAFolder => "Not a directory"
  | isFolder => "Is a directory"
  | nameTooLong => "File name too long"

/-- What is said about a path that has a fault. -/
def message (f : FileFault) (path : String) : String :=
  "[Errno " ++ toString f.number ++ "] " ++ f.reason ++ ": " ++ Text.quoted path

end FileFault

/-- Why nothing can be written at the end of a path, if so. -/
def Entry.writeFault? : Entry → Option FileFault
  | absent => none
  | file _ => none
  | unreachable => some .noSuchFile
  | blocked => some .notAFolder
  | nameTooLong => some .nameTooLong
  | folder => some .isFolder

/-! ## Paths -/

namespace Path

/-- The names in a path that lead somewhere. -/
def names (path : String) : List String :=
  ((Text.pieces '/' path.toList).map String.ofList).filter fun name => name ≠ "" && name ≠ "."

/-- The slashes at the front of a path. Two are kept apart from one, more count as one. -/
def root (path : String) : String :=
  match path.toList with
  | '/' :: '/' :: '/' :: _ => "/"
  | '/' :: '/' :: _ => "//"
  | '/' :: _ => "/"
  | _ => ""

/-- The path with a root and names. -/
def ofNames (root : String) (names : List String) : String :=
  let path := root ++ "/".intercalate names
  if path.isEmpty then "." else path

/-- A path without the names that lead nowhere. -/
def plain (path : String) : String := ofNames (root path) (names path)

/-- Takes the names that lead back, with those that they lead back from, out of names. The
names passed so far are listed last one first. -/
def straighten (isRooted : Bool) (passed : List String) : List String → List String
  | [] => passed.reverse
  | name :: names =>
    if name ≠ ".." then straighten isRooted (name :: passed) names
    else
      match passed with
      | [] => straighten isRooted (if isRooted then [] else [".."]) names
      | last :: before =>
        if last = ".." then straighten isRooted (".." :: passed) names
        else straighten isRooted before names

/-- A path without detours. -/
def normal (path : String) : String :=
  ofNames (root path) (straighten (root path ≠ "") [] (names path))

/-- A path without detours from the root on, if it starts in a folder. -/
def absolute (folder path : String) : String :=
  normal (if root path = "" then folder ++ "/" ++ path else path)

end Path

/-- The files around a program: the path of the folder that it works in, and what the paths
that start there end at. -/
structure Files where
  folder : String
  entryAt : String → Entry

/-! ## Folders -/

/-- A file, or a folder with what is in it. -/
inductive FileTree
  | file (content : String)
  | folder (entries : List (String × FileTree))

namespace FileTree

/-- The longest name of a file, in bytes. -/
def maxNameLength : Nat := 255

/-- The longest path, in bytes. -/
def maxPathLength : Nat := 4095

/-- What names lead to from one place in a tree. The folders above it are listed from the
nearest on; above the last of them there is nothing. -/
def follow (here : FileTree) (above : List FileTree) : List String → Entry
  | [] =>
    match here with
    | file content => .file content
    | folder _ => .folder
  | name :: names =>
    match here with
    | file _ => .blocked
    | folder entries =>
      if maxNameLength < name.utf8ByteSize then .nameTooLong
      else if name = ".." then
        match above with
        | [] => follow here [] names
        | parent :: above => follow parent above names
      else
        match entries.lookup name with
        | some next => follow next (here :: above) names
        | none => if names.isEmpty then .absent else .unreachable

/-- What a path ends at that starts at the root of a tree, or else in the folder that names
lead to from there. -/
def entryAt (tree : FileTree) (start : List String) (path : String) : Entry :=
  if maxPathLength < path.utf8ByteSize then .nameTooLong
  else follow tree [] (if Path.root path = "" then start ++ Path.names path else Path.names path)

end FileTree

end PushFitness
