/-
ShowTree.Text.LowerCase — the lower-case form of a text, under which names are compared.

Most characters change on their own, by the table of `ShowTree.Text.LowerCase.Table`. Two need more:
the capital I with a dot becomes a small i followed by a combining dot, and the capital
sigma becomes the final small sigma at the end of a word and the ordinary one elsewhere.
-/
import ShowTree.Text.LowerCase.Table
import ShowTree.Text.LowerCase.Cased
import ShowTree.Text.LowerCase.CaseIgnorable

namespace ShowTree.Text

/-- The small letter of a capital that `runs` lists; any other character is its own. -/
def smallLetter (c : Char) : List CapitalRun → Char
  | [] => c
  | run :: rest =>
    if c.toNat < run.first then c
    else if run.covers c.toNat then Char.ofNat (c.toNat + run.shift).toNat
    else smallLetter c rest

/-- Whether a cased letter comes next, once accents, apostrophes and the like are passed. -/
def meetsCased (cs : List Char) : Bool :=
  match cs.dropWhile caseIgnorable.contains with
  | [] => false
  | c :: _ => cased.contains c

/-- The lower-case form of `c` between the characters `before` it, nearest first, and those
`after` it. A sigma is final when the word goes on before it but not after it. -/
def lowerAt (before : List Char) (c : Char) (after : List Char) : List Char :=
  if c = 'Σ' then
    if meetsCased before && !meetsCased after then ['ς'] else ['σ']
  else if c = 'İ' then ['i', '\u0307']
  else [smallLetter c capitalRuns]

/-- The lower-case form of a text that follows the characters `before`, nearest first. -/
def lowerAfter (before : List Char) : List Char → List Char
  | [] => []
  | c :: cs => lowerAt before c cs ++ lowerAfter (c :: before) cs

/-- The lower-case form of a text. -/
def lower (text : String) : String :=
  String.ofList (lowerAfter [] text.toList)

end ShowTree.Text
