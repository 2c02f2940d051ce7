/-
ShowTree.Candidates — the paths that a selector can stand for, there or not.

Where a search meets objects, here only paths are put together: a name is joined on, and
going up takes the last part of the path away. Wildcards alone look at the file system,
for they stand for what is there. Among the entries of a directory only directories can
hold the rest of the chain.
-/
import ShowTree.Matches

namespace ShowTree

/-- The path some levels up, as far as there is one. -/
def Path.upBy : Nat → Path → Path
  | 0, p => p
  | levels + 1, p =>
    match p.parent? with
    | some above => upBy levels above
    | none => p

variable {m : Type → Type} [Monad m] [FileSystem m]

/-- Whether a path can hold the rest of the chain. -/
def Segment.canHold (rest : List Segment) (p : Path) : Work m Bool :=
  if rest.isEmpty then pure true else Work.query (FileSystem.isDir p)

/-- The paths that a chain of segments stands for from `base`. The show is that of `anchor`. -/
def Segment.candidates (anchor : Place) : List Segment → Path → Work m (List Path)
  | [], base => pure [base]
  | .fileRoot :: rest, _ => candidates anchor rest ⟨"/"⟩
  | .showRoot :: rest, _ => do
    match (← get).showAt anchor with
    | some place => candidates anchor rest place.path
    | none => throw (.unresolvedShow anchor.path)
  | .up levels :: rest, base => candidates anchor rest (base.upBy levels)
  | .name text :: rest, base => candidates anchor rest (base.join text)
  | .wildcard pattern :: rest, base => do
    if ← Work.query (FileSystem.isDir base) then
      let names ← Cache.listVisible base
      Work.gather (fun name => do
        let child := base.join name
        if ← canHold rest child then candidates anchor rest child else pure [])
        (names.filter (Wildcard.accepts pattern))
    else pure []

/-- The paths that a selector stands for from the directory at `anchor`. -/
def Selector.candidates (s : Selector) (anchor : Place) : Work m (List Path) :=
  Segment.candidates anchor s.segments anchor.path

end ShowTree
