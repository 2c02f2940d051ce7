/-
ShowTree.Expression.Token — the words of a formula.

A token starts where the one before it ends or after blanks, and goes as far as it can.
Letters stuck to a number belong to it, so `2k` is neither a number nor a name but an
error; a point belongs to a number only if a digit follows it.
-/
import ShowTree.Decimal.Numeral
import ShowTree.Decimal.Style
import ShowTree.Expression.SyntaxError
import ShowTree.Text.Blank
import ShowTree.Text.Word

namespace ShowTree

open ShowTree.Decimal (isDigit parseFloat?)
open ShowTree.Text (isBlank startsWord continuesWord)

/-- The signs between two operands; a minus also stands before one. -/
inductive Operator where
  | plus
  | minus
  | times
  | over
  deriving DecidableEq

def Operator.symbol : Operator → Char
  | .plus => '+'
  | .minus => '-'
  | .times => '*'
  | .over => '/'

/-- A word of a formula. -/
inductive Lexeme where
  | number (value : Float)
  | text (value : String)
  | word (name : String)
  | dot
  | op (operator : Operator)
  | leftParen
  | rightParen

/-- A word of a formula and the column it starts in. -/
structure Token where
  lexeme : Lexeme
  column : Nat

/-- How a word is shown in messages. -/
def Lexeme.display : Lexeme → String
  | .number value => Decimal.plain.write value
  | .text value => "\"" ++ value ++ "\""
  | .word name => name
  | .dot => "."
  | .op operator => operator.symbol.toString
  | .leftParen => "("
  | .rightParen => ")"

namespace Lexeme

/-! ## 1. One word -/

/-- The word that a single sign is. -/
def ofSign? (c : Char) : Option Lexeme :=
  if c = '.' then some .dot
  else if c = '+' then some (.op .plus)
  else if c = '-' then some (.op .minus)
  else if c = '*' then some (.op .times)
  else if c = '/' then some (.op .over)
  else if c = '(' then some .leftParen
  else if c = ')' then some .rightParen
  else none

/-- The characters of a number at the front of `cs`: digits, a point with digits, and the
letters, numerals and underscores that follow directly. -/
def numberAt (cs : List Char) : List Char :=
  let whole := cs.takeWhile isDigit
  let fraction := match cs.drop whole.length with
    | '.' :: d :: rest => if isDigit d then '.' :: (d :: rest).takeWhile isDigit else []
    | _ => []
  whole ++ fraction ++ (cs.drop (whole.length + fraction.length)).takeWhile continuesWord

/-- The character that a backslash before `c` stands for. -/
def unescape (c : Char) : Char :=
  if c = 'n' then '\n' else if c = 't' then '\t' else c

/-- The text up to the next `quote` that no backslash hides, and how many characters it
takes with that quote. -/
def quoted? (quote : Char) : List Char → Option (List Char × Nat)
  | [] => none
  | c :: rest =>
    if c = quote then some ([], 1)
    else if c = '\\' then
      match rest with
      | [] => none
      | e :: rest => (quoted? quote rest).map fun (body, n) => (unescape e :: body, n + 2)
    else (quoted? quote rest).map fun (body, n) => (c :: body, n + 1)

/-- The word that starts with `c`, and how many of the characters after `c` it takes. -/
def at? (c : Char) (rest : List Char) : Except SyntaxCause (Lexeme × Nat) :=
  if isDigit c then
    let spelling := numberAt (c :: rest)
    match parseFloat? (String.ofList spelling) with
    | some value => .ok (.number value, spelling.length - 1)
    | none => .error (.badNumber (String.ofList spelling))
  else if c = '"' || c = '\'' then
    match quoted? c rest with
    | some (body, n) => .ok (.text (String.ofList body), n)
    | none => .error .unterminatedText
  else if startsWord c then
    let tail := rest.takeWhile continuesWord
    .ok (.word (String.ofList (c :: tail)), tail.length)
  else
    match ofSign? c with
    | some lexeme => .ok (lexeme, 0)
    | none => .error (.unexpectedChar c)

end Lexeme

/-! ## 2. All words -/

/-- The words of a text whose first character stands in `column`. -/
def Token.scan (column : Nat) : List Char → Except SyntaxError (List Token)
  | [] => .ok []
  | c :: cs =>
    if isBlank c then Token.scan (column + 1) cs
    else
      match Lexeme.at? c cs with
      | .error cause => .error ⟨cause, some column⟩
      | .ok (lexeme, n) =>
        (Token.scan (column + 1 + n) (cs.drop n)).map (⟨lexeme, column⟩ :: ·)
  termination_by cs => cs.length

/-- The words of a text with `offset` characters before it. -/
def Token.ofText (text : String) (offset : Nat) : Except SyntaxError (List Token) :=
  Token.scan (offset + 1) text.toList

end ShowTree
