/-
ShowTree.Prototype — what objects are made from.

Prototypes lie in the prototype directories between an object and the root of its show;
a nearer one hides those of its name that are farther away. An object and its prototype
refer to each other, the object in its record to the one prototype, the prototype in its
record to all its instances.
-/
import ShowTree.Cache.Save
import ShowTree.Target

namespace ShowTree

open ShowTree.Text

/-! ## 1. Names -/

/-- A name up to and including its first underscore. -/
def prefixName? (name : String) : Option String :=
  match cutAt '_' name.toList with
  | (front, some _) => some (String.ofList (front ++ ['_']))
  | _ => none

/-- An underscore and what follows the last dot of a name. -/
def extensionName? (name : String) : Option String :=
  match cutAt '.' name.toList.reverse with
  | ([], _) => none
  | (extension, some _) => some (String.ofList ('_' :: extension.reverse))
  | _ => none

/-- Neighbours that are equal become one. -/
def dedup : List String → List String
  | a :: b :: rest => if a = b then dedup (b :: rest) else a :: dedup (b :: rest)
  | names => names

/-- The names of prototypes for an object with this name, the best first: its own name, the
part up to the first underscore, and its extension after an underscore. -/
def protoNames (name : String) : List String :=
  dedup (name :: (prefixName? name).toList ++ (extensionName? name).toList)

namespace Cache

variable {m : Type → Type} [Monad m] [FileSystem m]

/-! ## 2. Finding -/

/-- The prototype directory of a directory, if it has one. -/
def ownProtoDir (p : Place) : Work m (List Path) := do
  let dir := (← get).layout.protoPath p.path
  if (← get).isDirAt p then
    if ← Work.query (FileSystem.isDir dir) then pure [dir] else pure []
  else pure []

/-- The prototype directories from an object up to the root of its show, nearest first.
Outside of shows they go up to the root of the file system. -/
def protoDirs : Place → Work m (List Path)
  | .root => ownProtoDir .root
  | .entry dir name => do
    let own ← ownProtoDir (.entry dir name)
    if (← get).showAt (.entry dir name) = some (.entry dir name) then pure own
    else
      let above ← protoDirs dir
      pure (own ++ above)

/-- The first of the paths where there is anything. -/
def firstPresent : List Path → Work m (Option Path)
  | [] => pure none
  | p :: rest => do
    if ← Work.query (FileSystem.present p) then pure (some p) else firstPresent rest

/-- The nearest prototype with one of these names, the best name of the nearest directory. -/
def findAmong (p : Place) (names : List String) : Work m (Option Path) := do
  let dirs ← protoDirs p
  firstPresent (dirs.flatMap fun dir => names.map dir.join)

/-- The nearest prototype with exactly this name. -/
def findProto (p : Place) (name : String) : Work m Path := do
  match ← findAmong p [name] with
  | some found => pure found
  | none => throw (.noProto name)

/-- The nearest prototype for a new object with this name, if there is one. -/
def findProtoFor? (p : Place) (name : String) : Work m (Option Path) :=
  findAmong p (protoNames name)

/-- The nearest prototype for a new object with this name. -/
def findProtoFor (p : Place) (name : String) : Work m Path := do
  match ← findProtoFor? p name with
  | some found => pure found
  | none => throw (.noProto name)

/-- References to the prototypes that can be seen from an object, by name. -/
def listProtos (p : Place) : Work m (Dictionary String) := do
  let start := if (← get).isDirAt p then p else p.up
  match (← get).showAt start with
  | none => throw (.outsideShow p.path)
  | some showRoot =>
    let dirs ← protoDirs start
    let found ← Work.gather (fun (dir : Path) => do
      let names ← listVisible dir
      pure (names.filterMap fun name => (reference? showRoot (dir.join name)).map (name, ·))) dirs
    pure (found.foldl (fun d e => d.insertNew e.1 e.2) ∅)

/-! ## 3. Linking -/

/-- Takes an instance off the list of its prototype, if that is still there. -/
def unlink (instancePlace : Place) (own : String) : Work m Unit := do
  match ((← get).nodeAt instancePlace).record.proto with
  | none => pure ()
  | some old =>
    let found ← Work.attempt do
      let place ← Work.ofExcept ((← get).resolveReference old instancePlace)
      meet (m := m) place
      pure place
    match found with
    | .ok place =>
      modify (·.editRecord place (·.removeInstance own))
      save place
    | .error e => if e.isNotFound then pure () else throw e

/-- Makes the object at `proto` the prototype of an object. The old link is taken away
first, then the object's own record is written, then that of the prototype; each record
that has been written stays so if a later one fails. -/
def setProto (instancePlace : Place) (proto : Path) : Work m Unit := do
  let reference ← showRelative proto
  let own ← showRelative instancePlace.path
  unlink instancePlace own
  modify (·.editRecord instancePlace fun r => { r with proto := some reference, instances := [] })
  save instancePlace
  let place ← meetPath proto
  modify (·.editRecord place (·.addInstance own))
  save place

end Cache

end ShowTree
