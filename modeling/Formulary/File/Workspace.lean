/-!
# Workspaces

A workspace is a tree of folders and files in which files are found by their paths. A path is a
sequence of names with slashes between them; `.` and an empty name stay in a folder, `..` leads to
the folder around it. Outside of the workspace there are folders with nothing known in them.

Only the rules on which the answers to a reading depend are kept: there are no links, no rights and
no times.
-/

namespace Formulary

/-- Why a file cannot be read as text: the system refuses, with a number and a reason, the path has
a null character in it, or the file is not UTF-8. -/
inductive FileError where
  | system (number : Nat) (reason : String)
  | nullInPath
  | notText
deriving DecidableEq, Repr

namespace FileError

/-- There is nothing at the path. -/
def notFound : FileError := system 2 "No such file or directory"

/-- The path leads through a file. -/
def notFolder : FileError := system 20 "Not a directory"

/-- The path leads to a folder. -/
def isFolder : FileError := system 21 "Is a directory"

/-- The path, or a name in it, is too long. -/
def nameTooLong : FileError := system 36 "File name too long"

/-- The file may not be read. -/
def notPermitted : FileError := system 13 "Permission denied"

/-- The refusal with a given number; the given reason serves where the number says nothing. -/
def ofNumber (number : Nat) (reason : String) : FileError :=
  let known := [notFound, notPermitted, notFolder, isFolder, nameTooLong]
  let fits : FileError → Bool
    | system n _ => n == number
    | _ => false
  (known.find? fits).getD (system number reason)

end FileError

/-- Files and folders, each with the names that lead to it. The folders on the way to a file or a
folder are there too. -/
structure Workspace where
  files : List (List String × ByteArray) := []
  folders : List (List String) := []

namespace Workspace

/-- The names in a path. -/
def names (path : String) : List String := path.splitOn "/"

/-- The names that lead to the place of a path without steps back. -/
def place (path : String) : List String := (names path).filter fun name => name != "" && name != "."

/-- The workspace with the given files and folders, named by their paths. -/
def ofPaths (files : List (String × ByteArray)) (folders : List String) : Workspace where
  files := files.map fun f => (place f.1, f.2)
  folders := folders.map place

/-- Is there a folder at a place? -/
def hasFolder (w : Workspace) (place : List String) : Bool :=
  w.folders.any place.isPrefixOf || w.files.any fun f => place.isPrefixOf f.1 && place != f.1

/-- The bytes of the file at a place, if there is one. -/
def file? (w : Workspace) (place : List String) : Option ByteArray := w.files.lookup place

/-- The greatest number of bytes in a name. -/
def nameLimit : Nat := 255

/-- The greatest number of bytes in a path. -/
def pathLimit : Nat := 4095

/-- Follow names from a place to a file. Without a place, the way has left the workspace. -/
def follow (w : Workspace) : Option (List String) → List String → Except FileError ByteArray
  | _, [] => .error .isFolder
  | place, name :: rest =>
    if name = "" ∨ name = "." then w.follow place rest
    else if name = ".." then
      w.follow (place.bind fun here => if here = [] then none else some here.dropLast) rest
    else if nameLimit < name.utf8ByteSize then .error .nameTooLong
    else
      match place with
      | none => .error .notFound
      | some here =>
        let there := here ++ [name]
        match w.file? there with
        | some bytes => if rest = [] then .ok bytes else .error .notFolder
        | none => if w.hasFolder there then w.follow (some there) rest else .error .notFound

/-- The bytes of the file at a path. -/
def read (w : Workspace) (path : String) : Except FileError ByteArray :=
  if '\x00' ∈ path.toList then .error .nullInPath
  else if path = "" then .error .notFound
  else if pathLimit < path.utf8ByteSize then .error .nameTooLong
  else if path.startsWith "/" then w.follow none (names path)
  else w.follow (some []) (names path)

end Workspace

end Formulary
