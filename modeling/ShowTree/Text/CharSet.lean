/-
ShowTree.Text.CharSet — sets of characters given as ranges of code points.

A property of characters that a standard lists in a table (letters, numerals, blanks) is
kept as the table itself, and membership is a walk along it.
-/

namespace ShowTree.Text

/-- A set of characters: inclusive ranges of code points, in rising order. -/
structure CharSet where
  ranges : List (Nat × Nat)

/-- Whether `n` lies in one of `ranges`. The ranges rise, so the walk ends at the first one
that starts above `n`. -/
def inRanges (n : Nat) : List (Nat × Nat) → Bool
  | [] => false
  | (first, last) :: rest => if n < first then false else n ≤ last || inRanges n rest

/-- Whether a character belongs to the set. -/
def CharSet.contains (s : CharSet) (c : Char) : Bool :=
  inRanges c.toNat s.ranges

end ShowTree.Text
