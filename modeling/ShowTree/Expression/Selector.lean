/-
ShowTree.Expression.Selector — which objects of the tree are meant.

A selector is a chain of segments, each of which leads on from the objects that the one
before it has found: to a root, some levels up, to the entry with a name, or to all
entries that match a pattern.
-/
import ShowTree.Text.Blank
import ShowTree.Text.Split

namespace ShowTree

open ShowTree.Text

/-- One step of a selector. -/
inductive Segment where
  /-- The root of the show that the start belongs to. -/
  | showRoot
  /-- The root of the file system. -/
  | fileRoot
  /-- Some levels up. -/
  | up (levels : Nat)
  | name (text : String)
  /-- All entries whose names match, where a star stands for any run of characters. -/
  | wildcard (pattern : String)
  deriving DecidableEq

/-- A chain of segments. -/
structure Selector where
  segments : List Segment
  deriving DecidableEq

/-- The segment that a piece between slashes stands for. -/
def Segment.ofPiece (piece : List Char) : Segment :=
  if piece = ['.'] then .up 0
  else if piece = ['.', '.'] then .up 1
  else if '*' ∈ piece then .wildcard (String.ofList piece)
  else .name (String.ofList piece)

/-- The segments of a path without the root in front. Empty pieces stand for nothing. -/
def Segment.ofPieces (cs : List Char) : List Segment :=
  ((splitOn '/' cs).filter (!·.isEmpty)).map Segment.ofPiece

/-- The selector that a text spells, blanks around it aside. A blank text spells none. -/
def Selector.parse? (text : List Char) : Option Selector :=
  match trim text with
  | [] => none
  | '/' :: '/' :: rest => some ⟨.showRoot :: Segment.ofPieces rest⟩
  | '/' :: rest => some ⟨.fileRoot :: Segment.ofPieces rest⟩
  | cs => some ⟨Segment.ofPieces cs⟩

/-- Whether a segment is written with its slash. -/
def Segment.isRoot : Segment → Bool
  | .showRoot | .fileRoot => true
  | _ => false

def Segment.display : Segment → String
  | .showRoot => "//"
  | .fileRoot => "/"
  | .up 0 => "."
  | .up levels => "/".intercalate (List.replicate levels "..")
  | .name text => text
  | .wildcard pattern => pattern

/-- The segments with a slash after each but the last, and none after a root. -/
def Segment.displayAll : List Segment → String
  | [] => ""
  | [s] => s.display
  | s :: rest => s.display ++ (if s.isRoot then "" else "/") ++ displayAll rest

def Selector.display (s : Selector) : String :=
  Segment.displayAll s.segments

end ShowTree
