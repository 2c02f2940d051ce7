/-
ShowTree.Path.Place — places in a file system.

A place is where an absolute path leads when its parts are followed from the root by name
alone: a name goes down, two dots go up, and the root is its own parent. Links are not
looked at. Every place has one path, its canonical one, and objects are known by place.
-/
import ShowTree.Path.Basic

namespace ShowTree

/-- The root, or the entry with a name in the directory at a place. -/
inductive Place where
  | root
  | entry (dir : Place) (name : Name)
  deriving DecidableEq

namespace Place

/-- The canonical path: a slash before every name, or one slash for the root. -/
def path : Place → Path
  | .root => ⟨"/"⟩
  | .entry dir name => dir.path.join name.text

/-- The directory that holds the entry. -/
def dir? : Place → Option Place
  | .root => none
  | .entry dir _ => some dir

/-- The place above; the root is above itself. -/
def up : Place → Place
  | .root => .root
  | .entry dir _ => dir

/-- The place that a part leads to. -/
def step (p : Place) : Part → Place
  | .root => .root
  | .here => p
  | .up => p.up
  | .name n => .entry p n

/-- The place that an absolute path leads to. -/
def ofPath? (p : Path) : Option Place :=
  match p.parts with
  | .root :: rest => some (rest.foldl step .root)
  | _ => none

/-- The entry that a part names in the directory reached so far. -/
def enter? : Option Place → Part → Option Place
  | some p, .name n => some (.entry p n)
  | _, _ => none

/-- The place with exactly the parts of `p`, so with no dots to follow. -/
def ofParts? : List Part → Option Place
  | .root :: rest => rest.foldl enter? (some .root)
  | _ => none

end Place

end ShowTree
