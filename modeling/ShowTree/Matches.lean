/-
ShowTree.Matches — the objects that a selector finds.

The search is depth-first: every candidate of a segment is followed through the rest of
the chain before the next one is taken. Objects are met on the way, and only those that
are on the way.
-/
import ShowTree.Cache.Load
import ShowTree.Expression.Selector
import ShowTree.Expression.Wildcard

namespace ShowTree

/-- The place some levels up, at most the root. -/
def Place.upBy : Nat → Place → Place
  | 0, p => p
  | _ + 1, .root => .root
  | levels + 1, .entry dir _ => upBy levels dir

variable {m : Type → Type} [Monad m] [FileSystem m]

/-- Meets the object that a path leads to, if there is one. -/
def Cache.meetIfPresent (p : Path) : Work m (Option Place) := do
  match ← Work.attempt (meetPath p) with
  | .ok place => pure (some place)
  | .error e => if e.isNotFound then pure none else throw e

/-- The candidate of a segment that has at most one. -/
def Segment.candidate (seed : Place) : Segment → Work m (Option Place)
  | .fileRoot => some <$> Cache.meetPath ⟨"/"⟩
  | .showRoot => do
    match (← get).showAt seed with
    | some place => pure (some place)
    | none => throw (.unresolvedShow seed.path)
  | .up levels => pure (some (seed.upBy levels))
  | .name text => do
    if (← get).isDirAt seed then Cache.meetIfPresent (seed.path.join text) else pure none
  | .wildcard _ => pure none

/-- Visits what the segments find from `seed`, in order, and collects what `visit` says. -/
def Segment.search {β : Type} (visit : Place → Work m β) : List Segment → Place → Work m (List β)
  | [], seed => do
    let b ← visit seed
    pure [b]
  | .wildcard pattern :: rest, seed => do
    let names ← Cache.children seed
    Work.gather (fun name => do
      match ← Cache.meetIfPresent (seed.path.join name) with
      | some found => search visit rest found
      | none => pure []) (names.filter (Wildcard.accepts pattern))
  | segment :: rest, seed => do
    match ← segment.candidate seed with
    | some found => search visit rest found
    | none => pure []

/-- Visits what a selector finds. A selector without segments finds nothing. -/
def Selector.search {β : Type} (s : Selector) (visit : Place → Work m β) (seed : Place) :
    Work m (List β) :=
  if s.segments.isEmpty then pure [] else Segment.search visit s.segments seed

end ShowTree
