/-
ShowTree.Evaluation — what an expression comes to in a directory.

Without a selector an expression is about the directory itself. With one it is a list, of
the paths of the objects found or of what the formula says about each. The formula is
worked out for an object before the next one is looked for, so what fails first is what
the answer tells.
-/
import ShowTree.Candidates
import ShowTree.Expression.Basic
import ShowTree.Metadata

namespace ShowTree.Expression

variable {m : Type → Type} [Monad m] [FileSystem m]

/-- What a formula says about an object; without one, the path. -/
def describe (formula : Option Formula) (p : Place) : Work m Value := do
  match formula with
  | some f => Work.ofExcept (f.eval ((← get).nodeAt p))
  | none => pure p.toValue

/-- The value of an expression in the directory at `dir`. -/
def eval (e : Expression) (dir : Place) : Work m Value := do
  match e.selector with
  | some s => Value.list <$> s.search (describe e.formula) dir
  | none => Work.ofExcept ((e.formula.getD .everything).eval ((← get).nodeAt dir))

/-- The paths that an expression names from the directory at `dir`, there or not. A formula
is about objects that are there, so it is not allowed. -/
def generate (e : Expression) (dir : Place) : Work m (List Path) := do
  if e.formula.isSome then throw (.formulaNotAllowed e.source)
  match e.selector with
  | some s => s.candidates dir
  | none => pure [dir.path]

end ShowTree.Expression
