/-
ShowTree.Decimal.Binary — what a floating-point number is, in whole numbers.

A finite number is a signed whole multiple of a power of two. All printing starts from
this form, so it is exact arithmetic on `Nat` and needs nothing of how floating-point
operations round.
-/

namespace ShowTree.Decimal

/-- The magnitude `mantissa · 2 ^ exponent`. Where `closeBelow` holds the next smaller
number is only half as far away as the next larger one. -/
structure Binary where
  mantissa : Nat
  exponent : Int
  closeBelow : Bool
  deriving DecidableEq

/-- The three sorts of floating-point numbers. -/
inductive Number where
  | notANumber
  | infinite (negative : Bool)
  | finite (negative : Bool) (magnitude : Binary)
  deriving DecidableEq

/-- Takes a float apart: one sign bit, eleven bits of exponent, fifty-two of fraction. An
exponent of all ones marks what is not finite; one of all zeros has no hidden leading one. -/
def Number.ofFloat (x : Float) : Number :=
  let bits := x.toBits.toNat
  let negative := bits / Nat.pow 2 63 == 1
  let scale : Nat := bits / Nat.pow 2 52 % Nat.pow 2 11
  let fraction : Nat := bits % Nat.pow 2 52
  if scale = Nat.pow 2 11 - 1 then
    if fraction = 0 then .infinite negative else .notANumber
  else if scale = 0 then .finite negative ⟨fraction, -1074, false⟩
  else .finite negative ⟨Nat.pow 2 52 + fraction, (scale : Int) - 1075, fraction == 0 && 1 < scale⟩

/-- The magnitude as a whole number, if it is one. -/
def Binary.whole? (b : Binary) : Option Nat :=
  if 0 ≤ b.exponent then some (b.mantissa * Nat.pow 2 b.exponent.toNat)
  else if b.mantissa % Nat.pow 2 (-b.exponent).toNat = 0 then
    some (b.mantissa / Nat.pow 2 (-b.exponent).toNat)
  else none

end ShowTree.Decimal
