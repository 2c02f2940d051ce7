/-
ShowTree.Text.Blank — white space, and texts without the white space around them.

Blank is what Unicode calls White_Space: tabs and line ends, the space and its wider and
narrower relatives, and the two separators. A zero-width space is none of them.
-/
import ShowTree.Text.CharSet

namespace ShowTree.Text

/-- The Unicode property White_Space. -/
def blanks : CharSet :=
  ⟨[(0x9, 0xD), (0x20, 0x20), (0x85, 0x85), (0xA0, 0xA0), (0x1680, 0x1680), (0x2000, 0x200A),
    (0x2028, 0x2029), (0x202F, 0x202F), (0x205F, 0x205F), (0x3000, 0x3000)]⟩

/-- Whether a character is white space. -/
def isBlank (c : Char) : Bool :=
  blanks.contains c

/-- A text without the blanks at its front and at its back. -/
def trim (cs : List Char) : List Char :=
  ((cs.dropWhile isBlank).reverse.dropWhile isBlank).reverse

end ShowTree.Text
