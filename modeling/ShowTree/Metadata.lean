/-
ShowTree.Metadata — what formulas say about an object.

The metadata of an object is what the file system said about it, its place in the tree
and in its show, and its record. Fields go by names whose case does not matter: first the
fields that every object can have, then the user data. A field that has nothing to say is
not there.
-/
import ShowTree.Cache.Basic
import ShowTree.Expression.Formula
import ShowTree.Value

namespace ShowTree

/-! ## 1. Fields -/

/-- The names of the fields that an object can have besides its user data. -/
def fieldNames : List String :=
  ["path", "name", "size", "modtime", "isdir", "show", "parent", "proto", "instances",
    "showroot", "meta", "imginfo", "seq", "contract"]

/-- A place as a value. -/
def Place.toValue (p : Place) : Value :=
  .text p.path.text

/-- A number of 32 bits as a value. -/
def Value.ofInt32 (n : Int32) : Value :=
  .number (Float.ofInt n.toInt)

/-- The whole seconds since the epoch, by way of the float nearest to the moment; so a
moment very close to the next second counts as that second. -/
def Instant.toValue? (i : Instant) : Option Value :=
  i.sinceEpoch?.map fun (seconds, nanoseconds) =>
    .number (Float.ofNat seconds + Float.ofNat nanoseconds / 1000000000).floor

/-- User data as a map. -/
def Record.userDataToValue (r : Record) : Value :=
  .map (r.userData.entries.map fun e => (e.1, .ofUserText e.2))

def ImageInfo.toValue (i : ImageInfo) : Value :=
  .ofEntries [("width", .ofInt32 i.width), ("height", .ofInt32 i.height)]

def Sequence.toValue (s : Sequence) : Value :=
  .ofEntries [("basename", .text s.baseName), ("first", .ofInt32 s.first),
    ("last", .ofInt32 s.last)]

def Contract.toValue (c : Contract) : Value :=
  .ofEntries [("pattern", .text c.pattern)]

namespace Node

/-- The value of the field whose name in small letters is `name`, where that is the name of
a field. -/
def ownField? (n : Node) (name : String) : Option (Option Value) :=
  match name with
  | "path" => some n.place.toValue
  | "name" => some (Value.text n.stat.name)
  | "size" => some (Value.number (Float.ofNat n.stat.size))
  | "modtime" => some (n.stat.modified.bind Instant.toValue?)
  | "isdir" => some (Value.truth n.stat.isDir)
  | "show" => some (n.showRoot.map Place.toValue)
  | "parent" => some (n.place.dir?.map Place.toValue)
  | "proto" => some (n.record.proto.map .text)
  | "instances" => some (Value.list (n.record.instances.map .text))
  | "showroot" => some (Value.truth n.record.isShowRoot)
  | "meta" | "userdata" => some n.record.userDataToValue
  | "imginfo" => some (n.record.imageInfo.map ImageInfo.toValue)
  | "seq" => some (n.record.sequence.map Sequence.toValue)
  | "contract" => some (n.record.contract.map Contract.toValue)
  | _ => none

/-- The value of a field. -/
def field? (n : Node) (name : String) : Option Value :=
  match n.ownField? (Text.lower name) with
  | some value => value
  | none => (n.record.userValue? name).map .ofUserText

/-- Everything that is known about an object: the fields it has, and the user data that is
not hidden by the name of a field. -/
def metadata (n : Node) : Value :=
  let own := fieldNames.filterMap fun name => (n.field? name).map (name, ·)
  let user := n.record.userData.entries.filterMap fun (key, text) =>
    if fieldNames.contains (Text.lower key) then none else some (key, Value.ofUserText text)
  .ofEntries (user ++ own)

end Node

/-- The value that a chain of names leads to. -/
def Value.inner (v : Value) : List String → Except Failure Value
  | [] => .ok v
  | name :: rest =>
    match v.lookup? name with
    | some found => found.inner rest
    | none => .error (.unknownField name)

/-! ## 2. Formulas -/

/-- What an operator makes of two numbers; dividing by zero gives an infinity or no number. -/
def Operator.apply (op : Operator) (a b : Float) : Float :=
  match op with
  | .plus => a + b
  | .minus => a - b
  | .times => a * b
  | .over => a / b

/-- What an operator makes of two values: numbers are reckoned with, and texts can be put
one after the other. -/
def Operator.combine (op : Operator) (left right : Value) : Except Failure Value :=
  match left, right, op with
  | .number a, .number b, _ => .ok (.number (op.apply a b))
  | .text a, .text b, .plus => .ok (.text (a ++ b))
  | _, _, _ => .error (.operandMismatch op.symbol left.kind right.kind)

/-- The value of a formula for an object. -/
def Formula.eval (n : Node) : Formula → Except Failure Value
  | .number x => .ok (.number x)
  | .text s => .ok (.text s)
  | .everything => .ok n.metadata
  | .field name inner =>
    match n.field? name with
    | some v => v.inner inner
    | none => .error (.unknownField name)
  | .negate operand => do
    match ← eval n operand with
    | .number x => .ok (.number (-x))
    | other => .error (.operandMismatch '-' "unary" other.kind)
  | .binary op left right => do
    let l ← eval n left
    let r ← eval n right
    op.combine l r

end ShowTree
