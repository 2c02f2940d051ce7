/-
ShowTree.Cache.Load — meeting objects, and listing directories.

An object is met together with all directories above it. First the file system is asked
about the object, then the directory above is met in the same way, and only then is the
record read and the node added; so an object that is not there adds nothing, and whatever
fails later leaves only directories behind that were met completely.
-/
import ShowTree.Cache.Basic
import ShowTree.Record.Written

namespace ShowTree.Cache

variable {m : Type → Type} [Monad m] [FileSystem m]

/-- The record of an object as it is kept; blank if there is none. -/
def loadRecord (p : Path) (isDir : Bool) : Work m Record := do
  let file := (← get).layout.recordPath p isDir
  match ← Work.query (FileSystem.read file) with
  | .ok content =>
    match Record.decode? content with
    | some record => pure record
    | none => throw (.badRecord file)
  | .error e => if e.isNotFound then pure .blank else throw (.io file e)

/-- Meets the object at a place, after `meetDir` has met the directory above it. -/
def meetAfter (place : Place) (meetDir : Work m Unit) : Work m Unit := do
  match (← get).node? place with
  | some _ => pure ()
  | none =>
    let stat ← Work.call place.path (FileSystem.stat place.path)
    meetDir
    let record ← loadRecord place.path stat.isDir
    modify (·.add place stat record)

/-- Meets the object at a place, unless it has been met. -/
def meet : Place → Work m Unit
  | .root => meetAfter .root (pure ())
  | .entry dir name => meetAfter (.entry dir name) (meet dir)

/-- Meets the object that a path leads to. -/
def meetPath (p : Path) : Work m Place := do
  let place ← Work.ofExcept p.toPlace
  meet place
  pure place

/-- Meets the directory where relative targets start. -/
def meetWorkingPlace : Work m Place := do
  let place := (← get).workingPlace
  meet place
  pure place

/-- The names in a directory without that of its metadata. -/
def listVisible (p : Path) : Work m (List String) := do
  let names ← Work.call p (FileSystem.list p)
  let hidden := (← get).layout.metaDir
  pure (names.filter (· != hidden))

/-- The names of the entries of an object; none if it is no directory. -/
def children (p : Place) : Work m (List String) := do
  if (← get).isDirAt p then listVisible p.path else pure []

end ShowTree.Cache
