/-
ShowTree.Json.Basic — JSON values.

Numbers are kept as they are spelled and members in the order they are written, doubles
included: what a spelling or a repeated key means is up to the reader of the value.
-/

namespace ShowTree

/-- A JSON value. A string, or an object with a key, whose text is not Unicode is `garbled`:
it is well formed and can be passed over, but it cannot be read. -/
inductive Json where
  | null
  | truth (value : Bool)
  | number (literal : String)
  | text (value : String)
  | array (items : List Json)
  | object (members : List (String × Json))
  | garbled

end ShowTree
