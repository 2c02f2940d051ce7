/-
ShowTree.Decimal.Shortest — the shortest decimal that reads back as a given float.

A decimal reads back as a float exactly if it lies between the midpoints to the float's
two neighbours; the midpoints themselves round to the float with the even mantissa. Among
the multiples of a power of ten, only the two next to the float can be the nearest one in
that interval, so it is enough to try these for one power after the other, from the
largest down. The first power with a hit has the fewest digits.
-/
import ShowTree.Decimal.Binary

namespace ShowTree.Decimal

/-- The number `digits · 10 ^ exponent`. -/
structure Scaled where
  digits : Nat
  exponent : Int
  deriving DecidableEq

/-- Which of two equally near decimals is taken: the larger one, or the one whose last
digit is even. -/
inductive Tie where
  | up
  | even
  deriving DecidableEq

/-- A float and the ends of the interval that reads back as it, as whole multiples of
`1 / unit`. The ends belong to the interval if `closed`. -/
structure Neighbourhood where
  low : Nat
  value : Nat
  high : Nat
  unit : Nat
  closed : Bool

/-- The neighbourhood of a magnitude. In quarters of the last binary place the midpoints
are two above and two below, or one below where the next smaller number is closer. -/
def Binary.neighbourhood (b : Binary) : Neighbourhood :=
  let factor := Nat.pow 2 (b.exponent - 2).toNat
  { low := (4 * b.mantissa - if b.closeBelow then 1 else 2) * factor
    value := 4 * b.mantissa * factor
    high := (4 * b.mantissa + 2) * factor
    unit := Nat.pow 2 (2 - b.exponent).toNat
    closed := b.mantissa % 2 == 0 }

/-- Whether the number `n / unit` lies in the interval. -/
def Neighbourhood.holds (i : Neighbourhood) (n : Nat) : Bool :=
  if i.closed then i.low ≤ n && n ≤ i.high else i.low < n && n < i.high

/-- The same neighbourhood in units `factor` times as fine. -/
def Neighbourhood.refine (i : Neighbourhood) (factor : Nat) : Neighbourhood :=
  { i with low := i.low * factor, value := i.value * factor, high := i.high * factor }

/-- The multiple of `grid` nearest to the value among those in the interval, as the factor
of `grid`. -/
def Neighbourhood.nearest? (i : Neighbourhood) (tie : Tie) (grid : Nat) : Option Nat :=
  let below := i.value / grid
  match i.holds (below * grid), i.holds ((below + 1) * grid) with
  | false, false => none
  | true, false => some below
  | false, true => some (below + 1)
  | true, true =>
    let rest := i.value % grid
    if 2 * rest < grid then some below
    else if grid < 2 * rest then some (below + 1)
    else
      match tie with
      | .up => some (below + 1)
      | .even => some (if below % 2 = 0 then below else below + 1)

/-- The multiple of `10 ^ place` nearest to the value among those in the interval. -/
def Neighbourhood.atPlace? (i : Neighbourhood) (tie : Tie) (place : Int) : Option Scaled :=
  ((i.refine (Nat.pow 10 (-place).toNat)).nearest? tie (i.unit * Nat.pow 10 place.toNat)).map
    (⟨·, place⟩)

/-- The decimal places that the digits of a float can start or end at, from the largest. -/
def places : List Int :=
  (List.range 633).map fun (n : Nat) => 308 - (n : Int)

/-- The shortest decimal that reads back as the magnitude, and of these the nearest. Every
magnitude but zero has one; zero is its own. -/
def Binary.shortest (b : Binary) (tie : Tie) : Scaled :=
  if b.mantissa = 0 then ⟨0, 0⟩
  else (places.findSome? (b.neighbourhood.atPlace? tie)).getD ⟨0, 0⟩

end ShowTree.Decimal
