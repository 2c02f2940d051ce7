/-
ShowTree.Session.Report — what people and programs are told when a session fails.
-/
import ShowTree.Expression.SyntaxError
import ShowTree.Failure
import ShowTree.Json.Writer

namespace ShowTree

/-- Why a session could not do what it was asked. -/
inductive Refusal where
  /-- The expression is ill-formed. -/
  | illFormed (error : SyntaxError)
  /-- Something could not be done with an object. -/
  | failure (failure : Failure)
  /-- An argument is not of its form. -/
  | argument (complaint : String)
  deriving DecidableEq

/-- A refusal in pieces: the part of the work, the column of an expression, the name and
text of the cause, and the path that it is about. -/
structure Report where
  phase : String
  column : Option Nat
  kind : String
  message : String
  path : Option Path
  deriving DecidableEq

def Refusal.report : Refusal → Report
  | .illFormed e => ⟨"parse", e.column, e.cause.name, e.message, none⟩
  | .failure e => ⟨e.phase, none, e.name, e.message, e.path?⟩
  | .argument complaint => ⟨"api", none, "InvalidArgument", "Invalid argument: " ++ complaint, none⟩

namespace Report

/-- The report in one line. -/
def display (r : Report) : String :=
  let place := match r.column with
    | some column => "col " ++ toString column
    | none => r.phase
  "[" ++ place ++ "] " ++ r.phase ++ " error: " ++ r.message

/-- The report in as few words as possible. -/
def short (r : Report) : String :=
  r.phase ++ ": " ++ r.message

/-- The report as JSON, without what it does not have. -/
def toJson (r : Report) : Json :=
  .object ([("phase", .text r.phase)]
    ++ r.column.toList.map (fun column => ("column", .number (toString column)))
    ++ [("error_kind", .text r.kind), ("message", .text r.message)]
    ++ r.path.toList.map fun p => ("path", .text p.text))

end Report

/-- What came of a list of targets: the objects made or changed, those that were there
already, and those that failed with the reasons. One failure does not keep the others
from being tried. -/
structure Batch where
  done : List Path
  skipped : List Path
  failed : List (Path × Report)

namespace Batch

def empty : Batch :=
  ⟨[], [], []⟩

def succeeded (b : Batch) : Bool :=
  b.failed.isEmpty

/-- Takes down that a target is done. -/
def addDone (b : Batch) (p : Path) : Batch :=
  { b with done := b.done ++ [p] }

/-- Takes down that a target was there already. -/
def addSkipped (b : Batch) (p : Path) : Batch :=
  { b with skipped := b.skipped ++ [p] }

/-- Takes down that a target failed. -/
def addFailed (b : Batch) (p : Path) (r : Refusal) : Batch :=
  { b with failed := b.failed ++ [(p, r.report)] }

end Batch

/-- A list of paths as JSON. -/
def Path.listToJson (paths : List Path) : Json :=
  .array (paths.map fun p => .text p.text)

/-- The targets that failed as JSON. -/
def Report.failedToJson (failed : List (Path × Report)) : Json :=
  .array (failed.map fun (p, r) => .object [("path", .text p.text), ("error", r.toJson)])

def Batch.toJson (b : Batch) : Json :=
  .object [("created", Path.listToJson b.done), ("skipped", Path.listToJson b.skipped),
    ("failed", Report.failedToJson b.failed)]

end ShowTree
