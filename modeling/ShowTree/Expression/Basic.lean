/-
ShowTree.Expression.Basic — expressions: which objects, and what about them.

An expression is a selector, a colon and a formula, and either side may be missing. The
first colon divides, so a selector has none.
-/
import ShowTree.Expression.Formula
import ShowTree.Expression.Selector

namespace ShowTree

/-- A selector and a formula, with the text that they were read from. -/
structure Expression where
  source : String
  selector : Option Selector
  formula : Option Formula

/-- The expression that a text spells. Only the formula can be ill-formed; its columns are
those of the whole text. -/
def Expression.parse (source : String) : Except SyntaxError Expression :=
  let (path, formula) := Text.cutAt ':' source.toList
  let selector := Selector.parse? path
  match formula with
  | none => .ok ⟨source, selector, none⟩
  | some cs => do
    let f ← Formula.parse (String.ofList cs) (path.length + 1)
    .ok ⟨source, selector, some f⟩

end ShowTree
