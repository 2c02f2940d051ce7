/-
ShowTree.Expression.Wildcard — names with stars in them.

A star stands for any run of characters on one line; every other character stands for
itself. A pattern is matched against all ends of a name at once, from its last character
to its first, so the work is the length of the pattern times that of the name however many
stars there are.
-/

namespace ShowTree.Wildcard

/-- For each end of a name, from the whole name to the empty end: whether it matches a
pattern. The list is one longer than the name. -/
abbrev Row := List Bool

/-- The row of the empty pattern, which only the empty end matches. -/
def emptyRow : List Char → Row
  | [] => [true]
  | _ :: name => false :: emptyRow name

/-- The row of a character before a pattern with the row `next`: the end must start with it,
and go on with an end that matches. -/
def charRow (c : Char) : List Char → Row → Row
  | x :: name, _ :: next => (x == c && next.headD false) :: charRow c name next
  | _, _ => [false]

/-- The row of a star before a pattern with the row `next`: the star stands for nothing, or
takes one character of the line and goes on. -/
def starRow : List Char → Row → Row
  | x :: name, matching :: next =>
    let rest := starRow name next
    (matching || (x != '\n' && rest.headD false)) :: rest
  | _, next => next

/-- The row of a pattern. -/
def row (name : List Char) : List Char → Row
  | [] => emptyRow name
  | c :: pattern =>
    if c = '*' then starRow name (row name pattern) else charRow c name (row name pattern)

/-- Whether a name matches a pattern from its first character to its last. -/
def accepts (pattern name : String) : Bool :=
  (row name.toList pattern.toList).headD false

end ShowTree.Wildcard
