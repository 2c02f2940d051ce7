/-
ShowTree.Text.Word — the characters that names are made of.
-/
import ShowTree.Text.Letters
import ShowTree.Text.Numerals

namespace ShowTree.Text

/-- Whether a word may start with this character: a letter or an underscore. -/
def startsWord (c : Char) : Bool :=
  letters.contains c || c == '_'

/-- Whether a word may go on with this character: a letter, a numeral or an underscore. -/
def continuesWord (c : Char) : Bool :=
  letters.contains c || numerals.contains c || c == '_'

end ShowTree.Text
