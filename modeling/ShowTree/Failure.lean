/-
ShowTree.Failure — why something could not be done with an object.
-/
import ShowTree.FileSystem.Error

namespace ShowTree

/-- Why something could not be done. -/
inductive Failure where
  /-- A show was meant, but the object at `path` is in none. -/
  | unresolvedShow (path : Path)
  /-- A target that leads to no place. -/
  | badTarget (target reason : String)
  /-- A field that the metadata does not have. -/
  | unknownField (name : String)
  /-- An operator between operands of the wrong kinds. -/
  | operandMismatch (op : Char) (left right : String)
  /-- A formula in an expression that is to name new objects. -/
  | formulaNotAllowed (expression : String)
  /-- An expression that should name objects but names none. -/
  | nothingGenerated (expression : String)
  /-- No prototype for an object with this name. -/
  | noProto (name : String)
  /-- Prototypes were asked for outside of all shows. -/
  | outsideShow (path : Path)
  /-- The file system refused a call. -/
  | io (path : Path) (error : FileError)
  /-- A file that should hold a record but does not. -/
  | badRecord (path : Path)
  deriving DecidableEq

namespace Failure

/-- Whether the file system found nothing at the path it was asked about. -/
def isNotFound : Failure → Bool
  | .io _ e => e.isNotFound
  | _ => false

/-- The name of the failure in reports. -/
def name : Failure → String
  | .unresolvedShow _ => "UnresolvedShow"
  | .badTarget .. => "InvalidTarget"
  | .unknownField _ => "FieldNotFound"
  | .operandMismatch .. => "OperandMismatch"
  | .formulaNotAllowed _ => "GeneratorMetaNotAllowed"
  | .nothingGenerated _ => "EmptyGeneration"
  | .noProto _ => "ProtoNotFound"
  | .outsideShow _ => "NoShow"
  | .io .. => "IOFailure"
  | .badRecord _ => "MetaDecode"

def message : Failure → String
  | .unresolvedShow p => "Couldn't resolve '//': '" ++ p.text ++ "' is not inside a show"
  | .badTarget target reason => "Invalid target '" ++ target ++ "': " ++ reason
  | .unknownField name => "Couldn't find key in meta: " ++ name
  | .operandMismatch op left right =>
    "Unsupported operand types for '" ++ op.toString ++ "': " ++ left ++ " and " ++ right
  | .formulaNotAllowed e => "Meta selector is not allowed when generating targets: " ++ e
  | .nothingGenerated e => "Pattern returned nothing: " ++ e
  | .noProto name => "No appropriate proto for: " ++ name
  | .outsideShow p => "Prototyping not supported outside shows: '" ++ p.text ++ "'"
  | .io p e => "IO failure on '" ++ p.text ++ "': " ++ e.message
  | .badRecord p => "Malformed meta record '" ++ p.text ++ "'"

/-- The part of the work in which the failure arises. -/
def phase : Failure → String
  | .unresolvedShow _ | .badTarget .. => "resolve"
  | .unknownField _ | .operandMismatch .. | .formulaNotAllowed _ | .nothingGenerated _ => "eval"
  | .noProto _ | .outsideShow _ => "proto"
  | .io .. | .badRecord _ => "io"

/-- The path that the failure is about. -/
def path? : Failure → Option Path
  | .unresolvedShow p | .outsideShow p | .io p _ | .badRecord p => some p
  | _ => none

end Failure

end ShowTree
