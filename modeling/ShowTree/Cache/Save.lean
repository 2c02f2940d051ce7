/-
ShowTree.Cache.Save — writing records.

A record is written next to its place and then moved there, so its file holds either the
old record or the new one, whatever fails in between.
-/
import ShowTree.Cache.Basic
import ShowTree.Record.Written

namespace ShowTree.Cache

variable {m : Type → Type} [Monad m] [FileSystem m]

/-- Makes the directory for records, unless there is something in its place. -/
def makeRecordDir (file : Path) : Work m Unit := do
  match file.parent? with
  | none => pure ()
  | some dir =>
    match ← Work.query (FileSystem.makeDir dir) with
    | .ok () => pure ()
    | .error e => if e.isTaken then pure () else throw (.io dir e)

/-- Writes the record of an object that has been met. -/
def save (p : Place) : Work m Unit := do
  match (← get).node? p with
  | none => pure ()
  | some node =>
    let file := (← get).layout.recordPath p.path node.stat.isDir
    let draft := Layout.draftPath file
    makeRecordDir file
    Work.call draft (FileSystem.write draft node.record.encode.toUTF8)
    Work.call file (FileSystem.rename draft file)

end ShowTree.Cache
