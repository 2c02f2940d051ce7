/-
ShowTree.Cache.Basic — the objects that a session has met.

An object is met once: its node keeps what the file system said then, and the record that
was read then and has been changed since. Nodes stay in the order in which the objects
were met, which puts every directory before its entries. A node also keeps the root of
its show, the nearest object on the way up that is marked as one.
-/
import ShowTree.Failure
import ShowTree.FileSystem.Basic
import ShowTree.Layout
import ShowTree.Path.Place
import ShowTree.Record.Basic

namespace ShowTree

/-- An object that has been met. -/
structure Node where
  place : Place
  stat : Stat
  showRoot : Option Place
  record : Record

/-- What is said of an object that has not been met: it is no directory, and nothing is
remembered about it. -/
def Node.unmet (place : Place) : Node :=
  ⟨place, ⟨"", 0, none, false⟩, none, .blank⟩

/-- The objects met so far, where relative targets start, and where records are kept. -/
structure Cache where
  layout : Layout
  workingPlace : Place
  nodes : List Node

/-- The place that a path leads to; it must be absolute. -/
def Path.toPlace (p : Path) : Except Failure Place :=
  match Place.ofPath? p with
  | some place => .ok place
  | none => .error (.badTarget p.text "path is not absolute")

namespace Cache

/-- A cache that has met nothing. -/
def start (layout : Layout) (workingDir : Path) : Except Failure Cache := do
  let place ← workingDir.toPlace
  .ok ⟨layout, place, []⟩

/-! ## 1. Asking -/

def node? (c : Cache) (p : Place) : Option Node :=
  c.nodes.find? (·.place == p)

/-- The node of an object, whether it has been met or not. -/
def nodeAt (c : Cache) (p : Place) : Node :=
  (c.node? p).getD (.unmet p)

/-- The root of an object's show. -/
def showAt (c : Cache) (p : Place) : Option Place :=
  (c.nodeAt p).showRoot

def isDirAt (c : Cache) (p : Place) : Bool :=
  (c.nodeAt p).stat.isDir

/-- The place of the node that a path names, part by part. -/
def lookup? (c : Cache) (p : Path) : Option Place :=
  ((Place.ofParts? p.parts).bind c.node?).map (·.place)

/-! ## 2. Changing -/

/-- Changes the record of an object. -/
def editRecord (c : Cache) (p : Place) (edit : Record → Record) : Cache :=
  { c with nodes := c.nodes.map fun n =>
      if n.place = p then { n with record := edit n.record } else n }

/-- The root of the show of an object whose directory is among `nodes`. -/
def showAmong (nodes : List Node) (place : Place) (record : Record) : Option Place :=
  if record.isShowRoot then some place
  else
    place.dir?.bind fun dir => (nodes.find? (·.place == dir)).bind (·.showRoot)

/-- The object that has just been met. -/
def add (c : Cache) (place : Place) (stat : Stat) (record : Record) : Cache :=
  { c with nodes := c.nodes ++ [⟨place, stat, showAmong c.nodes place record, record⟩] }

/-- All nodes with the roots of their shows found anew, from the first to the last. -/
def findShows (nodes : List Node) : List Node :=
  nodes.foldl (fun done n => done ++ [{ n with showRoot := showAmong done n.place n.record }]) []

/-- Marks an object as the root of a show, which it then is for all objects below it that
have no nearer one. -/
def markShowRoot (c : Cache) (p : Place) : Cache :=
  let marked := c.editRecord p fun r => { r with isShowRoot := true }
  { marked with nodes := findShows marked.nodes }

end Cache

/-! ## 3. Work with a cache -/

/-- Work that uses the cache and the file system and may fail. What has been met before a
failure stays in the cache. -/
abbrev Work (m : Type → Type) (α : Type) := ExceptT Failure (StateT Cache m) α

namespace Work

variable {m : Type → Type} [Monad m] {α : Type}

/-- A call on the file system, which fails for `p`. -/
def call (p : Path) (act : m (Except FileError α)) : Work m α := do
  match ← (act : m _) with
  | .ok a => pure a
  | .error e => throw (.io p e)

/-- A question to the file system that has an answer in any case. -/
def query (act : m α) : Work m α :=
  ExceptT.lift (StateT.lift act)

/-- Work whose failure is an answer. -/
def attempt (w : Work m α) : Work m (Except Failure α) :=
  ExceptT.lift (ExceptT.run w)

/-- The results for all items, one after the other, in one list. -/
def gather {β : Type} (f : α → Work m (List β)) : List α → Work m (List β)
  | [] => pure []
  | a :: rest => do
    let first ← f a
    let others ← gather f rest
    pure (first ++ others)

/-- What follows from the cache alone. -/
def ofExcept (r : Except Failure α) : Work m α :=
  ExceptT.mk (pure r)

end Work

end ShowTree
