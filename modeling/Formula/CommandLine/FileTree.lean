/-! # Files and the paths to them

A tree of files with a directory that paths start in, and what is read along a path. A path is
walked name by name, so that every name but the last has to be that of a directory, also the one
in front of a slash at the end. -/

namespace Formula.CommandLine

/-- Why a file cannot be read. -/
inductive FileFault where
  | notFound
  | notDirectory
  | isDirectory
  | nameTooLong
  | notText
  deriving DecidableEq, Repr

/-- The message of the fault, with the system's number where it has one. -/
def FileFault.message : FileFault → String
  | notFound => "No such file or directory (os error 2)"
  | notDirectory => "Not a directory (os error 20)"
  | isDirectory => "Is a directory (os error 21)"
  | nameTooLong => "File name too long (os error 36)"
  | notText => "stream did not contain valid UTF-8"

/-- What can stand at a place in a tree. -/
inductive Entry where
  | file (contents : String)
  | directory
  deriving DecidableEq, Repr

/-- Files, each with the names that lead to it from the root, and the directory that relative paths
start in. The other directories are those that hold a file or this directory. -/
structure FileTree where
  files : List (List String × String)
  here : List String

namespace FileTree

/-- The most bytes that a name may have. -/
def nameLimit : Nat := 255

/-- A path with this number of bytes or more is too long. -/
def pathLimit : Nat := 4096

/-- The given files in a directory that holds nothing else. Outside of it there is the null device,
which reads like an empty file. -/
def ofFiles (files : List (String × String)) : FileTree :=
  let here := ["tmp", "formula"]
  { files := (["dev", "null"], "") :: files.map fun file => (here ++ file.1.splitOn "/", file.2)
    here := here }

/-- What stands at a place. -/
def entry? (t : FileTree) (place : List String) : Option Entry :=
  match t.files.lookup place with
  | some contents => some (.file contents)
  | none =>
    if place.isPrefixOf t.here || t.files.any fun file => place.isPrefixOf file.1 then
      some .directory
    else none

/-- Where a name leads from a place. -/
def step (t : FileTree) (place : List String) (name : String) : Except FileFault (List String) :=
  if t.entry? place ≠ some .directory then .error .notDirectory
  else if name = "" || name = "." then .ok place
  else if name = ".." then .ok place.dropLast
  else if name.utf8ByteSize > nameLimit then .error .nameTooLong
  else
    match t.entry? (place ++ [name]) with
    | some _ => .ok (place ++ [name])
    | none => .error .notFound

/-- The place at the end of a path. -/
def find (t : FileTree) (path : String) : Except FileFault (List String) :=
  if path = "" then .error .notFound
  else if path.utf8ByteSize ≥ pathLimit then .error .nameTooLong
  else (path.splitOn "/").foldlM t.step (if path.startsWith "/" then [] else t.here)

/-- The contents of the file at the end of a path. -/
def read (t : FileTree) (path : String) : Except FileFault String := do
  match t.entry? (← t.find path) with
  | some (.file contents) => return contents
  | some .directory => throw .isDirectory
  | none => throw .notFound

end FileTree

end Formula.CommandLine
