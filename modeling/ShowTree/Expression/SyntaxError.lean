/-
ShowTree.Expression.SyntaxError — what is wrong with an expression, and where.

Columns count characters from one. An error without a column lies at the end of the text:
something more had to come.
-/

namespace ShowTree

/-- What is wrong with an expression. -/
inductive SyntaxCause where
  | unexpectedChar (c : Char)
  | unterminatedText
  | badNumber (text : String)
  | badPattern (text : String)
  | unexpectedToken (found : String) (expected : List String)
  | unexpectedEnd
  | missingFieldName
  | missingRightParen
  deriving DecidableEq

/-- What is wrong with an expression, and the column if it is not the end. -/
structure SyntaxError where
  cause : SyntaxCause
  column : Option Nat
  deriving DecidableEq

/-- The name of the cause in reports. -/
def SyntaxCause.name : SyntaxCause → String
  | .unexpectedChar _ => "UnexpectedChar"
  | .unterminatedText => "UnterminatedString"
  | .badNumber _ => "InvalidNumber"
  | .badPattern _ => "InvalidPattern"
  | .unexpectedToken .. => "UnexpectedToken"
  | .unexpectedEnd => "UnexpectedEndOfInput"
  | .missingFieldName => "ExpectedIdentifierAfterDot"
  | .missingRightParen => "MissingRightParen"

def SyntaxCause.message : SyntaxCause → String
  | .unexpectedChar c => "Unexpected character '" ++ c.toString ++ "'"
  | .unterminatedText => "Unterminated string literal"
  | .badNumber text => "Invalid number format: '" ++ text ++ "'"
  | .badPattern text => "Invalid wildcard pattern: '" ++ text ++ "'"
  | .unexpectedToken found [] => "Unexpected token '" ++ found ++ "'"
  | .unexpectedToken found expected =>
    "Unexpected token '" ++ found ++ "', expected: " ++ ", ".intercalate expected
  | .unexpectedEnd => "Unexpected end of input"
  | .missingFieldName => "Expected identifier after '.'"
  | .missingRightParen => "Missing right parenthesis ')'"

def SyntaxError.message (e : SyntaxError) : String :=
  match e.column with
  | some column => "[col " ++ toString column ++ "] " ++ e.cause.message
  | none => "[EOF] " ++ e.cause.message

/-- The column in `source`, where the end comes after the last character. -/
def SyntaxError.columnIn (e : SyntaxError) (source : String) : Nat :=
  e.column.getD (source.length + 1)

/-- The line that points at a column, for the line under the source. -/
def SyntaxError.caretLine (column : Nat) : String :=
  String.ofList (List.replicate (column - 1) ' ') ++ "^"

end ShowTree
