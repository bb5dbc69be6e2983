/-!
# Files

What can go wrong when a file is read, and a directory whose files are known.
-/

namespace ClientPlan

/-- Why a file is not read as a text. -/
inductive FileError where
  /-- The operating system refuses, with a number of its own. -/
  | system (details : String) (code : Nat)
  /-- The content is not a text. -/
  | notText
deriving DecidableEq, Repr

namespace FileError

/-- No file has the path. -/
def notFound : FileError := .system "No such file or directory" 2

/-- The path goes through a file as if it were a directory. -/
def notDirectory : FileError := .system "Not a directory" 20

/-- The path is that of a directory. -/
def isDirectory : FileError := .system "Is a directory" 21

/-- The path, or one of its parts, is longer than paths or names may be. -/
def nameTooLong : FileError := .system "File name too long" 36

/-- The system does not let the file be read. -/
def permissionDenied : FileError := .system "Permission denied" 13

/-- The error with a number of the system, in these details unless the number is a usual one. -/
def ofNumber (details : String) (number : Nat) : FileError :=
  let usual := [notFound, permissionDenied, notDirectory, isDirectory, nameTooLong]
  (usual.find? isNumbered).getD (.system details number)
where
  /-- Whether an error has the number. -/
  isNumbered : FileError → Bool
    | .system _ code => code = number
    | .notText => false

/-- The wording of a file error. -/
def message : FileError → String
  | .system details code => details ++ " (os error " ++ toString code ++ ")"
  | .notText => "stream did not contain valid UTF-8"

end FileError

/-- The text of a file with this content. -/
def textOfBytes (content : ByteArray) : Except FileError String :=
  match String.fromUTF8? content with
  | some text => .ok text
  | none => .error .notText

/-- How many bytes the name of a file or directory may have. -/
def nameLimit : Nat := 255

/-- How many bytes a path may have. -/
def pathLimit : Nat := 4095

/-- A directory: the contents of its files, each with the parts of its path. -/
abbrev Directory := List (List String × ByteArray)

/-- A directory that a path has led to. -/
inductive Place where
  /-- The directory with these parts inside the known one. -/
  | inside (parts : List String)
  /-- A directory around the known one. What else it holds is not known. -/
  | outside
deriving DecidableEq, Repr

/-- The directory that holds a place. The root holds itself. -/
def Place.parent : Place → Place
  | .inside [] | .outside => .outside
  | .inside (part :: parts) => .inside (part :: parts).dropLast

namespace Directory

/-- The directory of files with these paths. -/
def ofFiles (files : List (String × ByteArray)) : Directory :=
  files.map fun file => (file.1.splitOn "/", file.2)

/-- Whether the parts of a path lead to a directory. -/
def contains (directory : Directory) (parts : List String) : Bool :=
  parts.isEmpty || directory.any fun file => parts.isPrefixOf file.1 && parts.length < file.1.length

/-- Follows the parts of a path from a place. -/
def follow (directory : Directory) : Place → List String → Except FileError ByteArray
  | _, [] => .error .isDirectory
  | place, part :: rest =>
    if part = "" ∨ part = "." then directory.follow place rest
    else if part = ".." then directory.follow place.parent rest
    else if nameLimit < part.utf8ByteSize then .error .nameTooLong
    else
      match place with
      | .outside => .error .notFound
      | .inside here =>
        let there := here ++ [part]
        match directory.lookup there with
        | some content => if rest.isEmpty then .ok content else .error .notDirectory
        | none =>
          if directory.contains there then directory.follow (.inside there) rest
          else .error .notFound

/-- Reads the text of a file. -/
def read (directory : Directory) (path : String) : Except FileError String := do
  let start := if path.startsWith "/" then Place.outside else .inside []
  if pathLimit < path.utf8ByteSize then .error .nameTooLong
  else textOfBytes (← directory.follow start (path.splitOn "/"))

end Directory

end ClientPlan
