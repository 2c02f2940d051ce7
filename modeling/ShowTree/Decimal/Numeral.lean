/-
ShowTree.Decimal.Numeral — reading a number from text.

A numeral is an optional sign, digits with at most one point among or beside them, and an
optional exponent. The words `inf`, `infinity` and `nan`, in any case, are read too. The
value is the float nearest to the written decimal.
-/

namespace ShowTree.Decimal

/-- The magnitude `digits · 10 ^ exponent` of a numeral. -/
structure Numeral where
  digits : Nat
  exponent : Int
  deriving DecidableEq

/-- Whether a character is one of the digits 0 to 9. -/
def isDigit (c : Char) : Bool :=
  '0' ≤ c && c ≤ '9'

/-- The number that a run of digits spells. -/
def valueOf (digits : List Char) : Nat :=
  digits.foldl (fun n c => 10 * n + (c.toNat - '0'.toNat)) 0

/-- A leading sign, as whether it is a minus, and what follows it. -/
def takeSign : List Char → Bool × List Char
  | '-' :: cs => (true, cs)
  | '+' :: cs => (false, cs)
  | cs => (false, cs)

/-- The exponent at the end of a numeral: nothing, or an `e` with a signed number. -/
def exponent? : List Char → Option Int
  | [] => some 0
  | c :: cs =>
    if c = 'e' || c = 'E' then
      let (negative, digits) := takeSign cs
      if digits.isEmpty || !digits.all isDigit then none
      else some (if negative then -(valueOf digits : Int) else valueOf digits)
    else none

/-- Reads a numeral without a sign. -/
def Numeral.parse? (cs : List Char) : Option Numeral :=
  let whole := cs.takeWhile isDigit
  let rest := cs.drop whole.length
  let fraction := match rest with
    | '.' :: after => after.takeWhile isDigit
    | _ => []
  let rest := match rest with
    | '.' :: after => after.drop fraction.length
    | _ => rest
  if whole.isEmpty && fraction.isEmpty then none
  else (exponent? rest).map fun e => ⟨valueOf (whole ++ fraction), e - fraction.length⟩

/-- The float nearest to the numeral. What is far outside the range of floats is decided
by its size alone, so no huge power is ever computed. -/
def Numeral.toFloat (n : Numeral) : Float :=
  let size := ((Nat.toDigits 10 n.digits).length : Int) + n.exponent
  if n.digits = 0 || size < -400 then 0
  else if 400 < size then 1 / 0
  else Float.ofScientific n.digits (n.exponent < 0) n.exponent.natAbs

/-- The word in small letters, for the few words that stand for numbers. -/
def smallWord (cs : List Char) : String :=
  String.ofList (cs.map Char.toLower)

/-- Reads a float. -/
def parseFloat? (text : String) : Option Float :=
  let (negative, cs) := takeSign text.toList
  let magnitude :=
    if smallWord cs = "inf" || smallWord cs = "infinity" then some (1 / 0)
    else if smallWord cs = "nan" then some (0 / 0)
    else (Numeral.parse? cs).map Numeral.toFloat
  magnitude.map fun x => if negative then -x else x

end ShowTree.Decimal
