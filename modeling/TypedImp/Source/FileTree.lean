import TypedImp.Text.Split

/-!
# Source files and their paths

A path leads from a directory over names to a file.  It may go wrong on the way, and each way to go
wrong has a description of its own.  A file tree is a value, so what a path leads to is a function
of the tree, of the current directory and of the path.

* `ReadFailure`, `ReadFailure.description`: why a file cannot be read.
* `pathParts`, `fileName`: the names that a path is made of, and the last one that counts.
* `FileTree.walk`, `FileTree.read`: where a path leads, and the text that is found there.
-/

namespace TypedImp

/-- Why a file cannot be read. -/
inductive ReadFailure where
  /-- A name on the path does not exist. -/
  | notFound
  /-- The path goes on behind a file. -/
  | notDirectory
  /-- The path leads to a directory. -/
  | isDirectory
  /-- The path, or a name on it, is longer than allowed. -/
  | nameTooLong
  /-- The file holds something other than text. -/
  | notText
  /-- Any other reason, described by the system. -/
  | other (description : String)
deriving DecidableEq, Repr

namespace ReadFailure

/-- What a failure is called. -/
def description : ReadFailure → String
  | notFound => "No such file or directory (os error 2)"
  | notDirectory => "Not a directory (os error 20)"
  | isDirectory => "Is a directory (os error 21)"
  | nameTooLong => "File name too long (os error 36)"
  | notText => "stream did not contain valid UTF-8"
  | other description => description

end ReadFailure

/-- The parts of a path between its slashes; some of them may be empty. -/
def pathParts (path : String) : List String := (Text.split '/' path.toList).map String.ofList

/-- The last name on a path, or the path itself if it does not end with a name. -/
def fileName (path : String) : String :=
  match ((pathParts path).filter fun part => part ≠ "" ∧ part ≠ ".").getLast? with
  | some name => if name = ".." then path else name
  | none => path

/-- Files in directories.  A file or directory is given by the names that lead to it from the root;
the directories are those that a file or the current directory lies in. -/
structure FileTree where
  files : List (List String × String)
  /-- The directory in which relative paths begin. -/
  current : List String
deriving DecidableEq, Repr

namespace FileTree

/-- The most bytes that a name may have. -/
def nameLimit : Nat := 255

/-- The most bytes that a path may have. -/
def pathLimit : Nat := 4095

/-- The text of the file at a place. -/
def file? (t : FileTree) (place : List String) : Option String :=
  (t.files.find? fun entry => entry.1 = place).map fun entry => entry.2

/-- Whether there is a directory at a place. -/
def isDirectory (t : FileTree) (place : List String) : Bool :=
  place.isPrefixOf t.current ||
    t.files.any fun entry => place.isPrefixOf entry.1.dropLast && !entry.1.isEmpty

/-- The place that the parts of a path lead to.  Whatever follows a part, if only a slash, needs a
directory to start from. -/
def walk (t : FileTree) : (place : List String) → List String → Except ReadFailure (List String)
  | place, [] => .ok place
  | place, part :: parts =>
    if !t.isDirectory place then .error .notDirectory
    else if part = "" ∨ part = "." then walk t place parts
    else if part = ".." then walk t place.dropLast parts
    else if nameLimit < part.utf8ByteSize then .error .nameTooLong
    else if t.isDirectory (place ++ [part]) ∨ (t.file? (place ++ [part])).isSome then
      walk t (place ++ [part]) parts
    else .error .notFound

/-- Where a path begins: at the root if its first character is a slash. -/
def origin (t : FileTree) (path : String) : List String :=
  if path.toList.head? = some '/' then [] else t.current

/-- The text of the file that a path leads to. -/
def read (t : FileTree) (path : String) : Except ReadFailure String :=
  if path = "" then .error .notFound
  else if pathLimit < path.utf8ByteSize then .error .nameTooLong
  else
    match t.walk (t.origin path) (pathParts path) with
    | .error failure => .error failure
    | .ok place =>
      match t.file? place with
      | some text => .ok text
      | none => .error .isDirectory

end FileTree

end TypedImp
