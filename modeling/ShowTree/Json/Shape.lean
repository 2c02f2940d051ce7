/-
ShowTree.Json.Shape — reading a JSON value as something in particular.

Each function says what a value has to look like. A group of named fields may be written
as an object, where the order is free, unknown members are passed over and no field may
come twice, or as an array, where the fields come in order and the last ones may be left
out.
-/
import ShowTree.Json.Basic
import ShowTree.Decimal.Numeral

namespace ShowTree.Json

open ShowTree.Decimal (isDigit valueOf)

/-- A string. -/
def text? : Json → Option String
  | .text value => some value
  | _ => none

/-- `true` or `false`. -/
def truth? : Json → Option Bool
  | .truth value => some value
  | _ => none

/-- The integer that a number without fraction and exponent spells. The spelling `-0` is
none: it stands for the float. -/
def integer? : Json → Option Int
  | .number literal =>
    match literal.toList with
    | '-' :: digits =>
      if digits.all isDigit && valueOf digits != 0 then some (-(valueOf digits : Int)) else none
    | digits => if digits.all isDigit then some (valueOf digits) else none
  | _ => none

/-- An integer of 32 bits. -/
def int32? (j : Json) : Option Int32 :=
  match j.integer? with
  | some n => if -2147483648 ≤ n && n < 2147483648 then some (Int32.ofInt n) else none
  | none => none

/-- A value, or `null` for its absence. -/
def orNull? {α : Type} (read : Json → Option α) : Json → Option (Option α)
  | .null => some none
  | j => (read j).map some

/-- An array of values. -/
def list? {α : Type} (read : Json → Option α) : Json → Option (List α)
  | .array items => items.mapM read
  | _ => none

/-- An object of values under free keys. -/
def entries? {α : Type} (read : Json → Option α) : Json → Option (List (String × α))
  | .object members => members.mapM fun (key, j) => (read j).map (key, ·)
  | _ => none

/-- The one value under a key, if there is any. -/
def member? (members : List (String × Json)) (name : String) : Option (Option Json) :=
  match members.filter (·.1 == name) with
  | [] => some none
  | [(_, j)] => some (some j)
  | _ => none

/-- The values of the fields `names`, in their order, as far as they are given. -/
def fields? (names : List String) : Json → Option (List (Option Json))
  | .object members => names.mapM (member? members)
  | .array items =>
    if items.length ≤ names.length then
      some (items.map some ++ List.replicate (names.length - items.length) none)
    else none
  | _ => none

/-- The value of a field, or `fallback` if the field is not given. -/
def field? {α : Type} (read : Json → Option α) (fallback : α) : Option Json → Option α
  | none => some fallback
  | some j => read j

end ShowTree.Json
