/-
ShowTree.FileSystem.Basic — what a session asks of a file system.

The calls are those of a class over a monad: the same session runs on a tree in memory,
on a disk with links, on either with faults, and on the disk of the computer. A call
names its object by path, may fail, and may change the state of the file system; nothing
is assumed about its answers.
-/
import ShowTree.FileSystem.Error

namespace ShowTree

/-- A moment, in nanoseconds after the epoch. -/
structure Instant where
  nanoseconds : Int
  deriving DecidableEq

/-- The whole seconds since the epoch and the nanoseconds after them, unless the moment is
before it. -/
def Instant.sinceEpoch? (i : Instant) : Option (Nat × Nat) :=
  if i.nanoseconds < 0 then none
  else some (i.nanoseconds.toNat / Nat.pow 10 9, i.nanoseconds.toNat % Nat.pow 10 9)

/-- What a file system says about an object: its last name, its size in bytes, when it was
last changed if that is known, and whether it is a directory. -/
structure Stat where
  name : String
  size : Nat
  modified : Option Instant
  isDir : Bool
  deriving DecidableEq

/-- The calls that a session makes. -/
class FileSystem (m : Type → Type) where
  /-- The content of a file. -/
  read : Path → m (Except FileError ByteArray)
  /-- Writes a file anew, in a directory that is there. -/
  write : Path → ByteArray → m (Except FileError Unit)
  /-- Whether there is anything. -/
  present : Path → m Bool
  isFile : Path → m Bool
  isDir : Path → m Bool
  stat : Path → m (Except FileError Stat)
  /-- The names in a directory, in rising order. -/
  list : Path → m (Except FileError (List String))
  /-- Makes one directory, in a directory that is there. -/
  makeDir : Path → m (Except FileError Unit)
  /-- Moves a file into the place of another. -/
  rename : Path → Path → m (Except FileError Unit)

end ShowTree
