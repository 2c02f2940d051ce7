/-
ShowTree.Expression.Formula — what is computed from the metadata of an object.

A formula is read word by word. Between two words the reader knows what may come next and
which operands, signs and parentheses are still open, innermost first. An operator closes
every open operation that binds at least as tightly, so operators of one strength group
to the left; a sign before an operand binds tighter than any operator.
-/
import ShowTree.Expression.Token

namespace ShowTree

/-- A formula over the metadata of one object. -/
inductive Formula where
  | number (value : Float)
  | text (value : String)
  /-- A field, and the fields inside it that the names after the first one lead to. -/
  | field (name : String) (inner : List String)
  | binary (op : Operator) (left right : Formula)
  | negate (operand : Formula)
  /-- All metadata at once. -/
  | everything

/-- How tightly an operator binds. -/
def Operator.strength : Operator → Nat
  | .plus | .minus => 1
  | .times | .over => 2

namespace Formula

/-! ## 1. What is open -/

/-- Something that waits for the operand being read. -/
inductive Frame where
  | paren
  | sign
  | left (op : Operator) (value : Formula)

/-- An operand with all the open operations closed that bind at least as tightly as
`strength`, up to the innermost open parenthesis. -/
def close (strength : Nat) (value : Formula) : List Frame → Formula × List Frame
  | .sign :: frames => close strength (.negate value) frames
  | .left op first :: frames =>
    if strength ≤ op.strength then close strength (.binary op first value) frames
    else (value, .left op first :: frames)
  | frames => (value, frames)

/-- Whether a parenthesis is open. -/
def isNested (frames : List Frame) : Bool :=
  frames.any fun
    | .paren => true
    | _ => false

/-! ## 2. Word by word -/

/-- What may come next. -/
inductive Reading where
  /-- An operand, or a sign or parenthesis before it. -/
  | operand (frames : List Frame)
  /-- After a field: a dot, or what may follow any operand. The inner names come backwards. -/
  | afterField (name : String) (inner : List String) (frames : List Frame)
  /-- After a dot: the name of an inner field. -/
  | afterDot (name : String) (inner : List String) (frames : List Frame)
  /-- After an operand: an operator or a closing parenthesis. -/
  | afterOperand (value : Formula) (frames : List Frame)

/-- The word where an operand must start. -/
def startOperand (frames : List Frame) (token : Token) : Except SyntaxError Reading :=
  match token.lexeme with
  | .number value => .ok (.afterOperand (.number value) frames)
  | .text value => .ok (.afterOperand (.text value) frames)
  | .word name => .ok (.afterField name [] frames)
  | .leftParen => .ok (.operand (.paren :: frames))
  | .op .minus => .ok (.operand (.sign :: frames))
  | found =>
    .error ⟨.unexpectedToken found.display ["number", "string", "identifier", "("],
      some token.column⟩

/-- The word after a complete operand. -/
def followOperand (value : Formula) (frames : List Frame) (token : Token) :
    Except SyntaxError Reading :=
  match token.lexeme with
  | .op op =>
    let (value, frames) := close op.strength value frames
    .ok (.operand (.left op value :: frames))
  | found =>
    match found, close 0 value frames with
    | .rightParen, (value, .paren :: frames) => .ok (.afterOperand value frames)
    | _, _ =>
      if isNested frames then .error ⟨.missingRightParen, some token.column⟩
      else .error ⟨.unexpectedToken found.display ["operator"], some token.column⟩

/-- One more word. -/
def Reading.step (r : Reading) (token : Token) : Except SyntaxError Reading :=
  match r with
  | .operand frames => startOperand frames token
  | .afterField name inner frames =>
    match token.lexeme with
    | .dot => .ok (.afterDot name inner frames)
    | _ => followOperand (.field name inner.reverse) frames token
  | .afterDot name inner frames =>
    match token.lexeme with
    | .word next => .ok (.afterField name (next :: inner) frames)
    | _ => .error ⟨.missingFieldName, some token.column⟩
  | .afterOperand value frames => followOperand value frames token

/-- The formula, if nothing is open after its last operand. -/
def finishOperand (value : Formula) (frames : List Frame) : Except SyntaxError Formula :=
  match close 0 value frames with
  | (value, []) => .ok value
  | _ => .error ⟨.missingRightParen, none⟩

/-- The formula that ends here. -/
def Reading.finish : Reading → Except SyntaxError Formula
  | .operand _ => .error ⟨.unexpectedEnd, none⟩
  | .afterField name inner frames => finishOperand (.field name inner.reverse) frames
  | .afterDot .. => .error ⟨.missingFieldName, none⟩
  | .afterOperand value frames => finishOperand value frames

/-- The formula that the words spell. No words at all ask for everything. -/
def ofTokens (tokens : List Token) : Except SyntaxError Formula :=
  if tokens.isEmpty then .ok .everything
  else do
    let r ← tokens.foldlM Reading.step (.operand [])
    r.finish

/-- The formula of a text with `offset` characters before it. -/
def parse (text : String) (offset : Nat) : Except SyntaxError Formula := do
  ofTokens (← Token.ofText text offset)

end Formula

end ShowTree
