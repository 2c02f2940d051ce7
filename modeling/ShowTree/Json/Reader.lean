/-
ShowTree.Json.Reader — the value that a JSON text spells.

The reader takes one token after the other and keeps, for every bracket still open, what
has been read inside it. So it needs no deeper stack for deeper values, and every text is
read in as many steps as it has tokens.
-/
import ShowTree.Json.Basic
import ShowTree.Json.Token

namespace ShowTree.Json

open ShowTree.Text (Glyph)

/-! ## 1. Words -/

/-- The text after one or more digits. -/
def afterDigits? (cs : List Char) : Option (List Char) :=
  if cs.head?.any Char.isDigit then some (cs.dropWhile Char.isDigit) else none

/-- The text after the whole part of a number, which has no needless zero in front. -/
def afterWhole? : List Char → Option (List Char)
  | '0' :: cs => some cs
  | cs => afterDigits? cs

/-- The text after a fraction, if there is one. -/
def afterFraction? : List Char → Option (List Char)
  | '.' :: cs => afterDigits? cs
  | cs => some cs

/-- The text after an exponent, if there is one. -/
def afterExponent? : List Char → Option (List Char)
  | 'e' :: cs | 'E' :: cs =>
    match cs with
    | '+' :: cs | '-' :: cs => afterDigits? cs
    | cs => afterDigits? cs
  | cs => some cs

/-- Whether a word is a number. -/
def isNumber (cs : List Char) : Bool :=
  let cs := match cs with
    | '-' :: cs => cs
    | cs => cs
  ((afterWhole? cs >>= afterFraction?) >>= afterExponent?) == some []

/-- The value that a word spells. -/
def literal? (spelling : List Char) : Option Json :=
  if spelling = "null".toList then some .null
  else if spelling = "true".toList then some (.truth true)
  else if spelling = "false".toList then some (.truth false)
  else if isNumber spelling then some (.number (String.ofList spelling))
  else none

/-! ## 2. The value, token by token -/

/-- The members of an object that have been read, backwards; `none` once a key was garbled. -/
abbrev Members := Option (List (String × Json))

/-- One more member. -/
def Members.add (members : Members) (key : Option String) (value : Json) : Members :=
  match members, key with
  | some ms, some k => some ((k, value) :: ms)
  | _, _ => none

/-- The object of these members. -/
def Members.close : Members → Json
  | some ms => .object ms.reverse
  | none => .garbled

/-- An open bracket with what has been read inside it, backwards. An object is waiting for
the value under `key`. -/
inductive Frame where
  | array (items : List Json)
  | object (members : Members) (key : Option String)

/-- What may come next, inside the open brackets, innermost first. -/
inductive Reading where
  /-- A value must come. -/
  | awaitValue (frames : List Frame)
  /-- An array was opened: a value or the closing bracket. -/
  | firstItem (frames : List Frame)
  /-- An object was opened: a key or the closing brace. -/
  | firstKey (frames : List Frame)
  /-- A key must come. -/
  | awaitKey (members : Members) (frames : List Frame)
  /-- A key was read: the colon must come. -/
  | awaitColon (members : Members) (key : Option String) (frames : List Frame)
  /-- A value is complete: a comma or a closing bracket, or the end of the text. -/
  | complete (value : Json) (frames : List Frame)

/-- The string with this text, or the mark that it has none. -/
def ofText? : Option String → Json
  | some value => .text value
  | none => .garbled

/-- A token where a value must come. -/
def Reading.startValue (frames : List Frame) : Token → Option Reading
  | .openArray => some (.firstItem frames)
  | .openObject => some (.firstKey frames)
  | .text value => some (.complete (ofText? value) frames)
  | .word spelling => (literal? spelling).map (.complete · frames)
  | _ => none

/-- One more token, unless it cannot stand there. -/
def Reading.step : Reading → Token → Option Reading
  | .awaitValue frames, token => startValue frames token
  | .firstItem frames, .closeArray => some (.complete (.array []) frames)
  | .firstItem frames, token => startValue (.array [] :: frames) token
  | .firstKey frames, .closeObject => some (.complete (.object []) frames)
  | .firstKey frames, .text key => some (.awaitColon (some []) key frames)
  | .awaitKey members frames, .text key => some (.awaitColon members key frames)
  | .awaitColon members key frames, .colon => some (.awaitValue (.object members key :: frames))
  | .complete value (.array items :: frames), .comma =>
    some (.awaitValue (.array (value :: items) :: frames))
  | .complete value (.array items :: frames), .closeArray =>
    some (.complete (.array (value :: items).reverse) frames)
  | .complete value (.object members key :: frames), .comma =>
    some (.awaitKey (members.add key value) frames)
  | .complete value (.object members key :: frames), .closeObject =>
    some (.complete (members.add key value).close frames)
  | _, _ => none

/-- The value that the tokens spell. -/
def ofTokens? (tokens : List Token) : Option Json :=
  match tokens.foldlM Reading.step (.awaitValue []) with
  | some (.complete value []) => some value
  | _ => none

/-- The value that a text spells. -/
def parse? (glyphs : List Glyph) : Option Json :=
  tokens? glyphs >>= ofTokens?

end ShowTree.Json
