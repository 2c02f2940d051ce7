/-
ShowTree.Target — the places that targets and references lead to.

A target that starts with two slashes leads down from the root of the show, one that
starts with a single slash from the root of the file system, and any other from a base.
References within a show are written in the first way, so they stay right when the show
is moved.
-/
import ShowTree.Cache.Load

namespace ShowTree

/-- The text after all slashes at its front. -/
def afterSlashes (text : String) : String :=
  String.ofList (text.toList.dropWhile (· == '/'))

/-- The reference to a path from the root of its show. -/
def reference? (showRoot : Place) (p : Path) : Option String :=
  (Path.partsBelow? showRoot.path p).map fun parts =>
    "//" ++ "/".intercalate (parts.map Part.text)

namespace Cache

/-- The place that a target leads to. The show is that of the object at `anchor`. -/
def resolve (c : Cache) (target : String) (anchor : Place) (base : Path) : Except Failure Place :=
  match target.toList with
  | '/' :: '/' :: _ =>
    match c.showAt anchor with
    | some showRoot => (showRoot.path.join (afterSlashes target)).toPlace
    | none => .error (.unresolvedShow anchor.path)
  | '/' :: _ => (Path.mk target).toPlace
  | _ => (base.join target).toPlace

/-- The place that a target leads to from the working directory. -/
def resolveTarget (c : Cache) (target : String) (anchor : Place) : Except Failure Place :=
  c.resolve target anchor c.workingPlace.path

/-- The place that a reference leads to which is kept in the record of the object at `p`. -/
def resolveReference (c : Cache) (target : String) (p : Place) : Except Failure Place :=
  c.resolve target p (if c.isDirAt p then p.path else p.path.parent?.getD ⟨""⟩)

variable {m : Type → Type} [Monad m] [FileSystem m]

/-- The reference to the object that a path leads to. -/
def showRelative (p : Path) : Work m String := do
  let place ← meetPath p
  match ((← get).showAt place).bind (reference? · place.path) with
  | some reference => pure reference
  | none => throw (.unresolvedShow place.path)

end Cache

end ShowTree
