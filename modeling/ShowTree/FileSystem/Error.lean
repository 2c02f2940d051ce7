/-
ShowTree.FileSystem.Error — why a file system refuses a call.

An operating system names its own causes; the few that callers tell apart become errors
of their own, which carry the path, and all others keep the system's wording.
-/
import ShowTree.Path.Basic

namespace ShowTree

/-- Why a call on the file system failed. -/
inductive FileError where
  | notFound (path : String)
  | permissionDenied (path : String)
  | alreadyExists (path : String)
  | invalidPath (path reason : String)
  | io (message : String)
  | custom (message : String)
  deriving DecidableEq

namespace FileError

def message : FileError → String
  | .notFound path => "Path not found: " ++ path
  | .permissionDenied path => "Permission denied: " ++ path
  | .alreadyExists path => "Path already exists: " ++ path
  | .invalidPath path reason => "Invalid path '" ++ path ++ "': " ++ reason
  | .io message => "IO error: " ++ message
  | .custom message => message

/-- Whether the error says that there is nothing at the path. -/
def isNotFound : FileError → Bool
  | .notFound _ => true
  | _ => false

/-- Whether the error says that the path is taken. -/
def isTaken : FileError → Bool
  | .alreadyExists _ => true
  | _ => false

/-- The causes of a system's errors, as far as callers tell them apart. -/
inductive Cause where
  | notFound
  | permissionDenied
  | alreadyExists
  | other
  deriving DecidableEq

/-- The error for a system's cause and wording on a call for `path`. -/
def ofSystem (cause : Cause) (wording : String) (path : Path) : FileError :=
  match cause with
  | .notFound => .notFound path.text
  | .permissionDenied => .permissionDenied path.text
  | .alreadyExists => .alreadyExists path.text
  | .other => .io wording

end FileError

/-- The errors of an operating system that can be met on the way to an object. -/
inductive SystemError where
  | notFound
  | permissionDenied
  | busy
  | alreadyExists
  | notDirectory
  | isDirectory
  | nameTooLong
  | tooManyLinks
  /-- A path with a zero character is not even shown to the system. -/
  | zeroCharacter
  deriving DecidableEq

namespace SystemError

/-- The number of an error. -/
def number? : SystemError → Option Nat
  | .notFound => some 2
  | .permissionDenied => some 13
  | .busy => some 16
  | .alreadyExists => some 17
  | .notDirectory => some 20
  | .isDirectory => some 21
  | .nameTooLong => some 36
  | .tooManyLinks => some 40
  | .zeroCharacter => none

/-- What went wrong, in words. -/
def text : SystemError → String
  | .notFound => "No such file or directory"
  | .permissionDenied => "Permission denied"
  | .busy => "Device or resource busy"
  | .alreadyExists => "File exists"
  | .notDirectory => "Not a directory"
  | .isDirectory => "Is a directory"
  | .nameTooLong => "File name too long"
  | .tooManyLinks => "Too many levels of symbolic links"
  | .zeroCharacter => "file name contained an unexpected NUL byte"

/-- The words for an error with a number. -/
def numbered (text : String) (number : Nat) : String :=
  text ++ " (os error " ++ toString number ++ ")"

/-- How an error is told: in words, and with its number if it has one. -/
def wording (e : SystemError) : String :=
  match e.number? with
  | some n => numbered e.text n
  | none => e.text

/-- The error with a number. -/
def ofNumber? : Nat → Option SystemError
  | 1 | 13 => some .permissionDenied
  | 2 => some .notFound
  | 16 => some .busy
  | 17 => some .alreadyExists
  | 20 => some .notDirectory
  | 21 => some .isDirectory
  | 36 => some .nameTooLong
  | 40 => some .tooManyLinks
  | _ => none

def cause : SystemError → FileError.Cause
  | .notFound => .notFound
  | .permissionDenied => .permissionDenied
  | .alreadyExists => .alreadyExists
  | _ => .other

end SystemError

namespace FileError

/-- The error for a system's error on a call for `path`. -/
def ofSystemError (path : Path) (e : SystemError) : FileError :=
  ofSystem e.cause e.wording path

/-- The system's wording of an error, without the path. -/
def wording : FileError → String
  | .notFound _ => SystemError.notFound.wording
  | .permissionDenied _ => SystemError.permissionDenied.wording
  | .alreadyExists _ => SystemError.alreadyExists.wording
  | .invalidPath _ reason => reason
  | .io message => message
  | .custom message => message

end FileError

end ShowTree
