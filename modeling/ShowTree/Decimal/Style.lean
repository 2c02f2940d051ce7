/-
ShowTree.Decimal.Style — how a number is laid out once its digits are known.

The digits are always the shortest that read back. A style says which magnitudes are
written with all their places and which with an exponent, whether a whole number keeps a
fraction digit, and which of two equally short decimals is meant.
-/
import ShowTree.Decimal.Shortest

namespace ShowTree.Decimal

/-- A layout of numbers. -/
structure Style where
  /-- Which of two equally near decimals is written. -/
  tie : Tie
  /-- Whether a whole number is written with the fraction `.0`. -/
  fraction : Bool
  /-- The places of the leading digit between which no exponent is written; always, if
  there are none. -/
  positional : Option (Int × Int)

/-- `n` zeros. -/
def zeros (n : Nat) : List Char :=
  List.replicate n '0'

/-- A decimal with all its places. -/
def Style.positionally (s : Style) (digits : List Char) (exponent : Int) : List Char :=
  let point := (digits.length : Int) + exponent
  if 0 ≤ exponent then digits ++ zeros exponent.toNat ++ if s.fraction then ['.', '0'] else []
  else if 0 < point then digits.take point.toNat ++ ['.'] ++ digits.drop point.toNat
  else ['0', '.'] ++ zeros (-point).toNat ++ digits

/-- A decimal as one digit before the point, the others after it, and a signed exponent. -/
def scientifically (digits : List Char) (lead : Int) : List Char :=
  let mark := if lead < 0 then ['e', '-'] else ['e', '+']
  let first := digits.take 1
  let others := digits.drop 1
  (if others.isEmpty then first else first ++ ['.'] ++ others) ++ mark
    ++ Nat.toDigits 10 lead.natAbs

/-- A decimal in the style. -/
def Style.layOut (s : Style) (d : Scaled) : List Char :=
  let digits := Nat.toDigits 10 d.digits
  let lead := (digits.length : Int) - 1 + d.exponent
  match s.positional with
  | none => s.positionally digits d.exponent
  | some (first, last) =>
    if d.digits = 0 || (first ≤ lead && lead ≤ last) then s.positionally digits d.exponent
    else scientifically digits lead

/-- A float in the style. What is not finite is spelled `NaN`, `inf` or `-inf`. -/
def Style.write (s : Style) (x : Float) : String :=
  let sign (negative : Bool) : List Char := if negative then ['-'] else []
  match Number.ofFloat x with
  | .notANumber => "NaN"
  | .infinite negative => String.ofList (sign negative ++ ['i', 'n', 'f'])
  | .finite negative b => String.ofList (sign negative ++ s.layOut (b.shortest s.tie))

/-- Every place is written, none that says nothing, and ties go up. -/
def plain : Style := ⟨.up, false, none⟩

/-- Numbers in JSON keep a fraction digit, are written in full from 0.00001 up to below
10000000000000000, and ties go to the even digit. -/
def json : Style := ⟨.even, true, some (-5, 15)⟩

/-- A whole number below `10 ^ 15` without sign of a fraction; any other number plainly. A
zero has no sign. -/
def brief (x : Float) : String :=
  match Number.ofFloat x with
  | .finite negative b =>
    match b.whole? with
    | some n =>
      if n < Nat.pow 10 15 then
        String.ofList ((if negative && n != 0 then ['-'] else []) ++ Nat.toDigits 10 n)
      else plain.write x
    | none => plain.write x
  | _ => plain.write x

end ShowTree.Decimal
