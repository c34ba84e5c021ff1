/-
A directory held in memory, and reading its files by path. A path is
followed component by component; `.` and empty components stay where they
are and `..` goes up, but each of them, like a name, is possible only at a
directory. Outside of the directory there is nothing but directories
without files.
-/
import LoxLexer.File

namespace LoxLexer

/-- The components of a path. -/
def components (path : String) : List String :=
  (path.toList.splitOn '/').map String.ofList

/-- Files with their contents and directories, both at paths of component
names. The directories on the way to any of them exist too. -/
structure Directory where
  files : List (List String × ByteArray)
  folders : List (List String)

namespace Directory

/-- Where a path has led to. -/
inductive Place where
  | folder (path : List String)
  | file (content : ByteArray)
  | outside

/-- Whether a directory exists at a path. -/
def hasFolder (d : Directory) (path : List String) : Bool :=
  path.isEmpty
    || d.folders.any (fun folder => path.isPrefixOf folder)
    || d.files.any (fun file => path.isPrefixOf file.1 && path.length < file.1.length)

/-- What exists at a path of names. -/
def lookup (d : Directory) (path : List String) : Except ReadFailure Place :=
  match d.files.lookup path with
  | some content => .ok (.file content)
  | none => if d.hasFolder path then .ok (.folder path) else .error .notFound

/-- What is said of names and paths that are too long. -/
def nameTooLong : ReadFailure := .refused "File name too long" 36

/-- One component further. A name has at most 255 bytes. -/
def step (d : Directory) (place : Place) (component : String) : Except ReadFailure Place :=
  match place with
  | .file _ => .error .notADirectory
  | .folder path =>
    if component = "" ∨ component = "." then .ok place
    else if component = ".." then .ok (if path.isEmpty then .outside else .folder path.dropLast)
    else if 255 < component.utf8ByteSize then .error nameTooLong
    else d.lookup (path ++ [component])
  | .outside =>
    if component = "" ∨ component = "." ∨ component = ".." then .ok place
    else if 255 < component.utf8ByteSize then .error nameTooLong
    else .error .notFound

/-- What stands at a path. The empty path names nothing, one of 4096 bytes
or more is too long, and one that begins with a slash starts outside. -/
def read (d : Directory) (path : String) : Content :=
  if path.toList.contains '\x00' then .error .zeroInPath
  else if path = "" then .error .notFound
  else if 4096 ≤ path.utf8ByteSize then .error nameTooLong
  else do
    let start := if path.toList.head? = some '/' then Place.outside else Place.folder []
    match ← (components path).foldlM d.step start with
    | .file content => .ok content
    | .folder _ | .outside => .error .isADirectory

end Directory

end LoxLexer
