/-
ShowTree.Session.Basic — what can be asked of a session.

A session has a working directory and a cache, and does nothing but what it is asked:
evaluate an expression, change records, find and link prototypes, and make objects for
all the paths that an expression names.
-/
import ShowTree.Evaluation
import ShowTree.Prototype
import ShowTree.Session.Report

namespace ShowTree

/-- Something a session does, which may be refused. What was met and changed before stays. -/
abbrev Action (m : Type → Type) (α : Type) := ExceptT Refusal (StateT Cache m) α

/-- The two kinds of objects that a session makes. -/
inductive ObjectKind where
  | dir
  | file
  deriving DecidableEq

/-- A key and a value, divided by the first colon. The key must not be empty. -/
def parseAssignment (text : String) : Except Refusal (String × String) :=
  match Text.cutAt ':' text.toList with
  | (c :: key, some value) => .ok (String.ofList (c :: key), String.ofList value)
  | _ => .error (.argument ("expected key:value, got '" ++ text ++ "'"))

namespace Session

variable {m : Type → Type} [Monad m] [FileSystem m] {α : Type}

/-! ## 1. Parts of actions -/

/-- Work as part of an action. -/
def perform (w : Work m α) : Action m α :=
  ExceptT.adapt .failure w

/-- The expression that a text spells. -/
def parse (source : String) : Action m Expression :=
  ExceptT.mk (pure ((Expression.parse source).mapError .illFormed))

/-- Meets the object that a target leads to from the working directory. -/
def find (target : String) : Work m Place := do
  let dir ← Cache.meetWorkingPlace
  let place ← Work.ofExcept ((← get).resolveTarget target dir)
  Cache.meet place
  pure place

/-- The paths that an expression names from the working directory. -/
def generate (source : String) : Action m (List Path) := do
  let e ← parse source
  perform do
    let dir ← Cache.meetWorkingPlace
    e.generate dir

/-- The paths that an expression names, of which there must be one. -/
def generateSome (source : String) : Action m (List Path) := do
  let paths ← generate source
  if paths.isEmpty then throw (.failure (.nothingGenerated source)) else pure paths

/-- Does something for every path and takes down what came of it. -/
def forEach (act : Path → Batch → StateT Cache m Batch) (paths : List Path) : Action m Batch :=
  ExceptT.lift (paths.foldlM (fun b p => act p b) .empty)

/-- Does something for a path; success or failure is taken down. -/
def record (act : Path → Work m Unit) (p : Path) (b : Batch) : StateT Cache m Batch := do
  match ← (act p).run with
  | .ok () => pure (b.addDone p)
  | .error e => pure (b.addFailed p (.failure e))

/-- The same for a path that must be new: if there is something, it is left alone. -/
def recordNew (act : Path → Work m Unit) (p : Path) (b : Batch) : StateT Cache m Batch := do
  if ← StateT.lift (FileSystem.present p) then pure (b.addSkipped p) else record act p b

/-! ## 2. Questions -/

/-- The value of an expression in the working directory. -/
def eval (source : String) : Action m Value := do
  let e ← parse source
  perform do
    let dir ← Cache.meetWorkingPlace
    e.eval dir

/-- The root of the show that a target belongs to. -/
def showRoot (target : String) : Action m Path :=
  perform do
    let place ← find target
    match (← get).showAt place with
    | some above => pure above.path
    | none => throw (.unresolvedShow place.path)

/-- The reference to the prototype of a target. -/
def protoOf (target : String) : Action m (Option String) :=
  perform do
    let place ← find target
    pure ((← get).nodeAt place).record.proto

/-- References to the prototypes that can be seen from a target, by name. -/
def listProtos (target : String) : Action m (Dictionary String) :=
  perform do
    let place ← find target
    Cache.listProtos place

/-! ## 3. Changes -/

/-- Sets user data of a target; an empty value drops it. -/
def setUser (target key value : String) : Action m Unit :=
  perform do
    let place ← find target
    modify (·.editRecord place fun r =>
      if value.isEmpty then r.removeUser key else r.setUser key value)
    Cache.save place

/-- Makes the nearest prototype with this name that of a target, and gives its path. The
search starts above the target. -/
def linkProto (target name : String) : Action m Path :=
  perform do
    let place ← find target
    let proto ← Cache.findProto place.up name
    Cache.setProto place proto
    pure proto

/-- The prototype of a new object: the one that is asked for, or inside a show one that fits
the object's name, if there is any. -/
def chooseProto (place : Place) (proto : Option String) : Work m (Option Path) := do
  match proto with
  | some name => some <$> Cache.findProto place.up name
  | none =>
    if ((← get).showAt place).isSome then
      Cache.findProtoFor? place.up ((← get).nodeAt place).stat.name
    else pure none

/-- Makes an empty object. -/
def makeEmpty (kind : ObjectKind) (p : Path) : Work m Unit :=
  match kind with
  | .dir => Work.call p (FileSystem.makeDir p)
  | .file => Work.call p (FileSystem.write p .empty)

/-- Makes an object and links it to its prototype. -/
def createObject (kind : ObjectKind) (proto : Option String) (p : Path) : Work m Unit := do
  makeEmpty kind p
  let place ← Cache.meetPath p
  match ← chooseProto place proto with
  | some found => Cache.setProto place found
  | none => pure ()

/-- Makes all objects that an expression names and that are not there. -/
def createObjects (source : String) (kind : ObjectKind) (proto : Option String) :
    Action m Batch := do
  forEach (recordNew (createObject kind proto)) (← generate source)

/-- Makes a directory that is the root of a show. -/
def createShow (p : Path) : Work m Unit := do
  makeEmpty .dir p
  let place ← Cache.meetPath p
  modify (·.markShowRoot place)
  Cache.save place

/-- Makes a show of every path that an expression names and that is not there. -/
def createShows (source : String) : Action m Batch := do
  forEach (recordNew createShow) (← generateSome source)

/-- Makes an object the contract for a pattern. -/
def setContract (pattern : String) (p : Path) : Work m Unit := do
  let place ← Cache.meetPath p
  modify (·.editRecord place fun r => { r with contract := some ⟨pattern⟩ })
  Cache.save place

/-- Makes all objects that an expression names contracts for a pattern. -/
def setContracts (source pattern : String) : Action m Batch := do
  forEach (record (setContract pattern)) (← generateSome source)

end Session

end ShowTree
