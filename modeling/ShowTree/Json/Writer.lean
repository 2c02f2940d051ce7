/-
ShowTree.Json.Writer — JSON values as text, on one line or over several.

In strings the quote, the backslash and the control characters are escaped, with a short
escape where there is one, and everything else stands for itself. The long form gives
every item a line of its own, two spaces deeper than the brackets around it.
-/
import ShowTree.Json.Basic

namespace ShowTree.Json

/-! ## 1. Strings -/

/-- The last two of the four hexadecimal digits of a control character. -/
def hexPair (n : Nat) : List Char :=
  [Nat.digitChar (n / 16), Nat.digitChar (n % 16)]

/-- A character as it stands in a string. -/
def escapeChar (c : Char) : List Char :=
  if c = '"' then ['\\', '"']
  else if c = '\\' then ['\\', '\\']
  else if c = '\n' then ['\\', 'n']
  else if c = '\r' then ['\\', 'r']
  else if c = '\t' then ['\\', 't']
  else if c = '\x08' then ['\\', 'b']
  else if c = '\x0c' then ['\\', 'f']
  else if c.toNat < 32 then ['\\', 'u', '0', '0'] ++ hexPair c.toNat
  else [c]

/-- A text as a JSON string. -/
def quote (text : String) : List Char :=
  '"' :: text.toList.flatMap escapeChar ++ ['"']

/-- A value that has no parts. -/
def atom : Json → List Char
  | .truth true => "true".toList
  | .truth false => "false".toList
  | .number literal => literal.toList
  | .text value => quote value
  | _ => "null".toList

/-! ## 2. One line -/

mutual
/-- A value without any blanks. -/
def compact : Json → List Char
  | .array items => '[' :: compactItems items ++ [']']
  | .object members => '\x7b' :: compactMembers members ++ ['\x7d']
  | j => atom j

/-- The items of an array, with commas between them. -/
def compactItems : List Json → List Char
  | [] => []
  | [j] => compact j
  | j :: rest => compact j ++ ',' :: compactItems rest

/-- The members of an object, with commas between them. -/
def compactMembers : List (String × Json) → List Char
  | [] => []
  | [(k, j)] => quote k ++ ':' :: compact j
  | (k, j) :: rest => quote k ++ ':' :: compact j ++ ',' :: compactMembers rest
end

/-! ## 3. Many lines -/

/-- A new line at a depth. -/
def newLine (depth : Nat) : List Char :=
  '\n' :: List.replicate (2 * depth) ' '

mutual
/-- A value whose first line stands at `depth`. -/
def pretty (depth : Nat) : Json → List Char
  | .array [] => ['[', ']']
  | .array (j :: rest) => '[' :: prettyItems (depth + 1) (j :: rest) ++ newLine depth ++ [']']
  | .object [] => ['\x7b', '\x7d']
  | .object (m :: rest) =>
    '\x7b' :: prettyMembers (depth + 1) (m :: rest) ++ newLine depth ++ ['\x7d']
  | j => atom j

/-- The items of an array, each on a new line. -/
def prettyItems (depth : Nat) : List Json → List Char
  | [] => []
  | [j] => newLine depth ++ pretty depth j
  | j :: rest => newLine depth ++ pretty depth j ++ ',' :: prettyItems depth rest

/-- The members of an object, each on a new line. -/
def prettyMembers (depth : Nat) : List (String × Json) → List Char
  | [] => []
  | [(k, j)] => newLine depth ++ quote k ++ ':' :: ' ' :: pretty depth j
  | (k, j) :: rest =>
    newLine depth ++ quote k ++ ':' :: ' ' :: pretty depth j ++ ',' :: prettyMembers depth rest
end

/-- The text of a value on one line. -/
def toLine (j : Json) : String :=
  String.ofList j.compact

/-- The text of a value over several lines. -/
def toLines (j : Json) : String :=
  String.ofList (j.pretty 0)

end ShowTree.Json
