/-
ShowTree.Settings.Basic — what a configuration file can set.

A file is JSON. It can set the names under which metadata is kept and the levels of the
log; what it does not set is as usual, and what it sets besides is passed over.
-/
import ShowTree.Json.Reader
import ShowTree.Json.Shape
import ShowTree.Layout
import ShowTree.Settings.LogLevel

namespace ShowTree

/-- What a configuration file can set. -/
structure Settings where
  layout : Layout
  logging : LogSettings
  deriving DecidableEq

/-- The settings without a file. -/
def Settings.default : Settings :=
  ⟨.default, ⟨none, none, none, none, none⟩⟩

def Layout.ofJson? (j : Json) : Option Layout :=
  match j.fields? ["meta_dir_name", "dir_record_name", "record_extension", "proto_dir_name"] with
  | some [metaDir, dirRecord, extension, protoDir] => do
    some ⟨← Json.field? Json.text? Layout.default.metaDir metaDir,
      ← Json.field? Json.text? Layout.default.dirRecord dirRecord,
      ← Json.field? Json.text? Layout.default.recordExtension extension,
      ← Json.field? Json.text? Layout.default.protoDir protoDir⟩
  | _ => none

/-- A level is written as its name, or as an object whose only member has that name and
nothing in it. -/
def LogLevel.ofJson? : Json → Option LogLevel
  | .text name => LogLevel.ofName? name
  | .object [(name, .null)] => LogLevel.ofName? name
  | _ => none

def LogSettings.ofJson? (j : Json) : Option LogSettings :=
  let level := Json.field? (Json.orNull? LogLevel.ofJson?) none
  match j.fields? ["level", "resolver", "cache", "proto", "expr"] with
  | some [global, resolver, cache, proto, expr] => do
    some ⟨← level global, ← level resolver, ← level cache, ← level proto, ← level expr⟩
  | _ => none

namespace Settings

def ofJson? (j : Json) : Option Settings :=
  match j.fields? ["layout", "logging"] with
  | some [layout, logging] => do
    some ⟨← Json.field? Layout.ofJson? Settings.default.layout layout,
      ← Json.field? LogSettings.ofJson? Settings.default.logging logging⟩
  | _ => none

/-- The settings in a file with this text. -/
def decode? (text : String) : Option Settings :=
  Json.parse? (text.toList.map .char) >>= ofJson?

end Settings

end ShowTree
