/-!
# Reading files of a directory

A directory is given by the files in it, with the names of its subdirectories
in front of theirs. A path is followed component by component, and the first
one that cannot be followed decides what is wrong with it.
-/

namespace MiniCheck

inductive ReadError
  | nulInPath
  | missing
  | notDirectory
  | isDirectory
  | nameTooLong
  | notText
deriving DecidableEq, Repr

namespace ReadError

def message : ReadError → String
  | nulInPath => "file name contained an unexpected NUL byte"
  | missing => "No such file or directory (os error 2)"
  | notDirectory => "Not a directory (os error 20)"
  | isDirectory => "Is a directory (os error 21)"
  | nameTooLong => "File name too long (os error 36)"
  | notText => "stream did not contain valid UTF-8"

end ReadError

/-- The files of a directory by the components of their paths. -/
structure FileTree where
  files : List (List String × ByteArray)

namespace FileTree

/-- A path component that names something, rather than the directory it stands in. -/
def isProper (component : String) : Bool := !(component == "" || component == ".")

def ofFiles (files : List (String × ByteArray)) : FileTree :=
  ⟨files.map fun f => ((f.1.splitOn "/").filter isProper, f.2)⟩

/-- How many bytes a path component may have. -/
def maxName : Nat := 255

/-- How many bytes a path may have. -/
def maxPath : Nat := 4095

variable (t : FileTree)

def file? (place : List String) : Option ByteArray := t.files.lookup place

def hasDirectory (place : List String) : Bool :=
  t.files.any fun f => place.isPrefixOf f.1 && place.length < f.1.length

/-- Follows path components from a directory of the tree, or from `none`, which is
somewhere above it, where nothing else is known. -/
def follow : Option (List String) → List String → Except ReadError ByteArray
  | _, [] => .error .isDirectory
  | place, c :: cs =>
    if !isProper c then follow place cs
    else if c.utf8ByteSize > maxName then .error .nameTooLong
    else
      match place with
      | none => if c = ".." then follow none cs else .error .missing
      | some place =>
        if c = ".." then follow (if place.isEmpty then none else some place.dropLast) cs
        else
          let inside := place ++ [c]
          match t.file? inside with
          | some content => if cs.isEmpty then .ok content else .error .notDirectory
          | none => if t.hasDirectory inside then follow (some inside) cs else .error .missing

def readBytes (path : String) : Except ReadError ByteArray :=
  if '\x00' ∈ path.toList then .error .nulInPath
  else if path.isEmpty then .error .missing
  else if path.utf8ByteSize > maxPath then .error .nameTooLong
  else t.follow (if path.startsWith "/" then none else some []) (path.splitOn "/")

def read (path : String) : Except ReadError String := do
  match String.fromUTF8? (← t.readBytes path) with
  | some text => return text
  | none => .error .notText

end FileTree
end MiniCheck
