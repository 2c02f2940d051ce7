/-
ShowTree.Path.Basic — paths as they are written.

A path is a text. What it means is the list of its parts: repeated slashes, a slash at
the end, and single dots after the first part say nothing. The text itself still matters,
because it is what answers and messages show, so joining and taking the parent work on
the text and leave what it says nothing about alone.
-/
import ShowTree.Text.Split

namespace ShowTree

open ShowTree.Text

/-! ## 1. Names -/

/-- What a directory entry can be called: not empty, not a dot or two, and without slash. -/
def IsName (text : String) : Prop :=
  text ≠ "" ∧ text ≠ "." ∧ text ≠ ".." ∧ '/' ∉ text.toList

instance (text : String) : Decidable (IsName text) :=
  inferInstanceAs (Decidable (_ ∧ _ ∧ _ ∧ _))

/-- The name of a directory entry. -/
structure Name where
  text : String
  isName : IsName text
  deriving DecidableEq

/-! ## 2. Paths and their parts -/

/-- A path, absolute if it starts with a slash. -/
@[ext]
structure Path where
  text : String
  deriving DecidableEq, Repr

/-- A part of a path: the root, the place itself, the place above, or an entry. -/
inductive Part where
  | root
  | here
  | up
  | name (name : Name)
  deriving DecidableEq

/-- The part that a piece between slashes stands for. The empty piece and the single dot
stand for none. -/
def Part.ofPiece? (piece : List Char) : Option Part :=
  let text := String.ofList piece
  if text = ".." then some .up
  else if h : IsName text then some (.name ⟨text, h⟩)
  else none

/-- The part that the first piece of a relative path stands for: there a dot counts. -/
def Part.ofFirst? (piece : List Char) : Option Part :=
  if String.ofList piece = "." then some .here else Part.ofPiece? piece

/-- How a part is written on its own. -/
def Part.text : Part → String
  | .root => "/"
  | .here => "."
  | .up => ".."
  | .name n => n.text

namespace Path

/-- The pieces of a path between its slashes. -/
def pieces (p : Path) : List (List Char) :=
  splitOn '/' p.text.toList

/-- The parts of a path, from the first to the last. -/
def parts (p : Path) : List Part :=
  match p.pieces with
  | [] | [[]] => []
  | [] :: rest => .root :: rest.filterMap Part.ofPiece?
  | first :: rest => (Part.ofFirst? first).toList ++ rest.filterMap Part.ofPiece?

def isAbsolute (p : Path) : Bool :=
  p.text.toList.head? == some '/'

/-- Whether two paths have the same parts, however they are written. -/
def same (p q : Path) : Bool :=
  p.parts == q.parts

/-! ## 3. Up and down -/

/-- The path with `tail` after it. An absolute tail takes its place; otherwise one slash
comes between them, unless there is one already or nothing in front. -/
def join (p : Path) (tail : String) : Path :=
  if tail.toList.head? = some '/' then ⟨tail⟩
  else if p.text.toList.getLast?.all (· == '/') then ⟨p.text ++ tail⟩
  else ⟨p.text ++ "/" ++ tail⟩

/-- Whether a piece after the first says nothing. -/
def isIdle (piece : List Char) : Bool :=
  piece.isEmpty || piece == ['.']

/-- Pieces without the idle ones at their end. -/
def dropIdle (pieces : List (List Char)) : List (List Char) :=
  (pieces.reverse.dropWhile isIdle).reverse

/-- The text before the last part. The root and the empty path have no parent. -/
def parent? (p : Path) : Option Path :=
  match p.pieces with
  | [] => none
  | first :: rest =>
    match dropIdle rest with
    | [] => if first.isEmpty then none else some ⟨""⟩
    | body =>
      match dropIdle body.dropLast with
      | [] => if first.isEmpty then some ⟨"/"⟩ else some ⟨String.ofList first⟩
      | above => some ⟨String.ofList (Text.join ['/'] (first :: above))⟩

/-- The parent, or the path itself where there is none. -/
def up (p : Path) : Path :=
  p.parent?.getD p

/-- The name at the end of a path, unless it ends in the root or in dots. -/
def fileName? (p : Path) : Option Name :=
  match p.parts.getLast? with
  | some (.name n) => some n
  | _ => none

/-- The parts of `p` after those of `base`, if `p` starts with these. -/
def partsBelow? (base p : Path) : Option (List Part) :=
  if base.parts.isPrefixOf p.parts then some (p.parts.drop base.parts.length) else none

end Path

end ShowTree
