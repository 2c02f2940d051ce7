/-
ShowTree.Value — what an expression comes to.

A value is a number, a text, a truth value, a list or a map; a map has its keys in rising
order. Values are shown in two ways: briefly, for people, and as JSON, where the three
floats that are no numbers become strings.
-/
import ShowTree.Decimal.Numeral
import ShowTree.Decimal.Style
import ShowTree.Dictionary
import ShowTree.Json.Basic
import ShowTree.Text.LowerCase

namespace ShowTree

/-- What an expression comes to. -/
inductive Value where
  | number (value : Float)
  | text (value : String)
  | truth (value : Bool)
  | list (items : List Value)
  | map (entries : List (String × Value))

namespace Value

/-- The name of a value's kind in messages. -/
def kind : Value → String
  | .number _ => "number"
  | .text _ => "string"
  | .truth _ => "bool"
  | .list _ => "list"
  | .map _ => "map"

/-- The map of these entries, of which the last one under a key counts. -/
def ofEntries (entries : List (String × Value)) : Value :=
  .map (entries.foldl (fun es e => insertEntry e.1 e.2 es) [])

/-- A number if the text is how that number is written, and the text itself otherwise. So
what people write with care, such as leading zeros, is kept. -/
def ofUserText (text : String) : Value :=
  match Decimal.parseFloat? text with
  | some x => if x.isFinite && Decimal.plain.write x == text then .number x else .text text
  | none => .text text

/-- The value of a map under a key: the very key if it is there, or else the first one that
differs in case only. -/
def lookup? (v : Value) (key : String) : Option Value :=
  match v with
  | .map entries =>
    match lookupEntry key entries with
    | some found => some found
    | none => (entries.find? fun e => Text.lower e.1 == Text.lower key).map (·.2)
  | _ => none

/-! ## 1. For people -/

mutual
/-- A value as it is shown to people. -/
def display : Value → String
  | .number x => Decimal.brief x
  | .text s => s
  | .truth true => "true"
  | .truth false => "false"
  | .list items => "[" ++ displayItems items ++ "]"
  | .map entries => "\x7b" ++ displayEntries entries ++ "\x7d"

/-- Items with commas between them. -/
def displayItems : List Value → String
  | [] => ""
  | [v] => display v
  | v :: rest => display v ++ ", " ++ displayItems rest

/-- Entries with commas between them. -/
def displayEntries : List (String × Value) → String
  | [] => ""
  | [(k, v)] => k ++ ": " ++ display v
  | (k, v) :: rest => k ++ ": " ++ display v ++ ", " ++ displayEntries rest
end

/-! ## 2. As JSON -/

/-- A number as JSON; one that is not finite is a string. -/
def jsonOfFloat (x : Float) : Json :=
  if x.isFinite then .number (Decimal.json.write x) else .text (Decimal.plain.write x)

mutual
/-- A value as JSON. -/
def toJson : Value → Json
  | .number x => jsonOfFloat x
  | .text s => .text s
  | .truth b => .truth b
  | .list items => .array (itemsToJson items)
  | .map entries => .object (entriesToJson entries)

/-- Items as JSON. -/
def itemsToJson : List Value → List Json
  | [] => []
  | v :: rest => toJson v :: itemsToJson rest

/-- Entries as JSON. -/
def entriesToJson : List (String × Value) → List (String × Json)
  | [] => []
  | (k, v) :: rest => (k, toJson v) :: entriesToJson rest
end

end Value

end ShowTree
