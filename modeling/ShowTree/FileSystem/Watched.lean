/-
ShowTree.FileSystem.Watched — a tree that takes down what is done to it.

To say what holds at every moment of a session, between any two changes, a tree is watched:
every attempt to change it is taken down with its answer and the tree after it. Any attempt
can be refused without effect. Questions are answered truthfully and change nothing.
-/
import ShowTree.FileSystem.Tree

namespace ShowTree

/-- A change that is asked of a tree. -/
inductive Change where
  | write (p : Path) (content : ByteArray)
  | makeDir (p : Path)
  | rename (source target : Path)

/-- The tree after a change, unless it cannot be made. -/
def Change.apply : Change → Tree → Except FileError Tree
  | .write p content, t => t.write p content
  | .makeDir p, t => t.makeDir p
  | .rename source target, t => t.rename source target

/-- A change that was asked for, what was answered, and the tree after it. -/
structure Attempt where
  change : Change
  answer : Except FileError Unit
  after : Tree

/-- A tree and what was done to it. -/
structure Watched where
  tree : Tree
  /-- The error, if any, with which an attempt after so many others is refused. -/
  refusal : Nat → Option FileError
  /-- The attempts, the last one first. -/
  log : List Attempt

namespace Watched

/-- A tree to which nothing has been done. -/
def ofTree (t : Tree) (refusal : Nat → Option FileError) : Watched :=
  ⟨t, refusal, []⟩

/-- Asks for a change. -/
def attempt (change : Change) : StateM Watched (Except FileError Unit) := fun w =>
  let (answer, tree) := match w.refusal w.log.length with
    | some e => (.error e, w.tree)
    | none => Tree.change change.apply w.tree
  (answer, { w with tree := tree, log := ⟨change, answer, tree⟩ :: w.log })

instance : FileSystem (StateM Watched) where
  read p := fun w => (w.tree.read p, w)
  write p content := attempt (.write p content)
  present p := fun w => (w.tree.present p, w)
  isFile p := fun w => (w.tree.isFile p, w)
  isDir p := fun w => (w.tree.isDir p, w)
  stat p := fun w => (w.tree.stat p, w)
  list p := fun w => (w.tree.list p, w)
  makeDir p := attempt (.makeDir p)
  rename source target := attempt (.rename source target)

end Watched

end ShowTree
