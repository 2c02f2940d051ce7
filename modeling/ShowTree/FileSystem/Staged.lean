/-
ShowTree.FileSystem.Staged — a tree whose answers are arranged beforehand.

To see what a session does when its file system fails or holds unusual objects, a tree is
given a stage: every object has a time, chosen paths have other times and sizes, and any
call can be made to fail without effect. Faults are decided by how many calls came before,
the kind of call and its path.
-/
import ShowTree.FileSystem.Tree

namespace ShowTree

/-- The calls that can be made to fail. -/
inductive Call where
  | read
  | write
  | stat
  | list
  | makeDir
  | rename
  deriving DecidableEq

/-- What is said about an object instead of the truth. -/
structure StagedStat where
  modified : Option Instant
  size : Option Nat

/-- A tree on its stage. -/
structure Staged where
  tree : Tree
  /-- The time of every object that has no other. -/
  modified : Option Instant
  /-- Times and sizes of chosen paths, as these are written. -/
  stats : Path → Option StagedStat
  /-- The error, if any, of a call after so many others. -/
  fault : Nat → Call → Path → Option FileError
  /-- How many calls have been made. -/
  calls : Nat

namespace Staged

/-- A tree that tells the truth and never fails. -/
def ofTree (t : Tree) : Staged :=
  ⟨t, none, fun _ => none, fun _ _ _ => none, 0⟩

/-- The file system's answer, unless this call is one to fail. -/
def unlessFault {α : Type} (call : Call) (p : Path) (act : Tree → Except FileError α × Tree) :
    StateM Staged (Except FileError α) :=
  fun s =>
    match s.fault s.calls call p with
    | some e => (.error e, { s with calls := s.calls + 1 })
    | none =>
      let (answer, tree) := act s.tree
      (answer, { s with tree := tree, calls := s.calls + 1 })

/-- What is said about the object at `p`, of which `stat` is true. -/
def dress (s : Staged) (p : Path) (stat : Stat) : Stat :=
  match s.stats p with
  | some staged => { stat with modified := staged.modified, size := staged.size.getD stat.size }
  | none => { stat with modified := s.modified }

instance : FileSystem (StateM Staged) where
  read p := unlessFault .read p fun t => (t.read p, t)
  write p content := unlessFault .write p (Tree.change (·.write p content))
  present p := fun s => (s.tree.present p, s)
  isFile p := fun s => (s.tree.isFile p, s)
  isDir p := fun s => (s.tree.isDir p, s)
  stat p := fun s => unlessFault .stat p (fun t => ((t.stat p).map (s.dress p), t)) s
  list p := unlessFault .list p fun t => (t.list p, t)
  makeDir p := unlessFault .makeDir p (Tree.change (·.makeDir p))
  rename source target := unlessFault .rename source (Tree.change (·.rename source target))

end Staged

end ShowTree
