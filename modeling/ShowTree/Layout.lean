/-
ShowTree.Layout — where records and prototypes are kept.

Every directory has a directory for metadata in it. There the record of the directory
itself has a name of its own, the record of a file is called after the file, and the
prototypes lie in one directory more.
-/
import ShowTree.Path.Basic

namespace ShowTree

/-- The names under which metadata is kept. They can be any text. -/
structure Layout where
  metaDir : String
  dirRecord : String
  recordExtension : String
  protoDir : String
  deriving DecidableEq

namespace Layout

/-- The names that are used unless others are asked for. -/
def default : Layout :=
  ⟨".meta", "_", "._", "proto"⟩

instance : Inhabited Layout := ⟨default⟩

/-- Where the record of the object at `p` is kept. -/
def recordPath (l : Layout) (p : Path) (isDir : Bool) : Path :=
  if isDir then (p.join l.metaDir).join l.dirRecord
  else
    let name := (p.fileName?.map Name.text).getD ""
    ((p.parent?.getD ⟨"/"⟩).join l.metaDir).join (name ++ l.recordExtension)

/-- Where a record is written before it takes the place of the old one. -/
def draftPath (record : Path) : Path :=
  ⟨record.text ++ ".tmp"⟩

/-- Where the prototypes of a directory are kept. -/
def protoPath (l : Layout) (dir : Path) : Path :=
  (dir.join l.metaDir).join l.protoDir

end Layout

end ShowTree
