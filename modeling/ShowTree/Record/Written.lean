/-
ShowTree.Record.Written — records as JSON.

A record is written as an object that leaves out what is blank; within a section nothing
is left out. When a record is read, what is missing is blank, what is unknown is passed
over, and an empty reference to a prototype is none.
-/
import ShowTree.Json.Reader
import ShowTree.Json.Shape
import ShowTree.Json.Writer
import ShowTree.Record.Basic

namespace ShowTree

open ShowTree.Text (Glyph)

/-! ## 1. Writing -/

/-- An integer of 32 bits as JSON. -/
def Json.ofInt32 (n : Int32) : Json :=
  .number (toString n.toInt)

def ImageInfo.toJson (i : ImageInfo) : Json :=
  .object [("width", .ofInt32 i.width), ("height", .ofInt32 i.height)]

def Sequence.toJson (s : Sequence) : Json :=
  .object [("base_name", .text s.baseName), ("first", .ofInt32 s.first), ("last", .ofInt32 s.last)]

def Contract.toJson (c : Contract) : Json :=
  .object [("pattern", .text c.pattern)]

namespace Record

/-- A member, unless there is nothing to write. -/
def memberOf (key : String) (value : Option Json) : List (String × Json) :=
  match value with
  | some j => [(key, j)]
  | none => []

/-- The instances, if there are any. -/
def instancesToJson? (r : Record) : Option Json :=
  if r.instances.isEmpty then none else some (.array (r.instances.map .text))

/-- The user data, if there is any. -/
def userDataToJson? (r : Record) : Option Json :=
  if r.userData.isEmpty then none
  else some (.object (r.userData.entries.map fun e => (e.1, .text e.2)))

def toJson (r : Record) : Json :=
  .object
    (memberOf "proto" (r.proto.map .text)
      ++ memberOf "instances" r.instancesToJson?
      ++ memberOf "user_data" r.userDataToJson?
      ++ memberOf "is_show_root" (if r.isShowRoot then some (.truth true) else none)
      ++ memberOf "img_info" (r.imageInfo.map ImageInfo.toJson)
      ++ memberOf "seq" (r.sequence.map Sequence.toJson)
      ++ memberOf "contract" (r.contract.map Contract.toJson))

/-- The text of a record's file. -/
def encode (r : Record) : String :=
  r.toJson.toLines

end Record

/-! ## 2. Reading -/

def ImageInfo.ofJson? (j : Json) : Option ImageInfo :=
  match j.fields? ["width", "height"] with
  | some [width, height] => do
    some ⟨← Json.field? Json.int32? 0 width, ← Json.field? Json.int32? 0 height⟩
  | _ => none

def Sequence.ofJson? (j : Json) : Option Sequence :=
  match j.fields? ["base_name", "first", "last"] with
  | some [baseName, first, last] => do
    some ⟨← Json.field? Json.text? "" baseName, ← Json.field? Json.int32? 0 first,
      ← Json.field? Json.int32? 0 last⟩
  | _ => none

def Contract.ofJson? (j : Json) : Option Contract :=
  match j.fields? ["pattern"] with
  | some [pattern] => do some ⟨← Json.field? Json.text? "" pattern⟩
  | _ => none

namespace Record

/-- A reference, of which the empty one is none. -/
def reference? (j : Json) : Option (Option String) :=
  (j.orNull? Json.text?).map fun r => r.filter (· != "")

def ofJson? (j : Json) : Option Record :=
  match j.fields? ["proto", "instances", "user_data", "is_show_root", "img_info", "seq",
      "contract"] with
  | some [proto, instances, userData, isShowRoot, imageInfo, sequence, contract] => do
    some {
      proto := ← Json.field? reference? none proto
      instances := ← Json.field? (Json.list? Json.text?) [] instances
      userData := Dictionary.ofList (← Json.field? (Json.entries? Json.text?) [] userData)
      isShowRoot := ← Json.field? Json.truth? false isShowRoot
      imageInfo := ← Json.field? (Json.orNull? ImageInfo.ofJson?) none imageInfo
      sequence := ← Json.field? (Json.orNull? Sequence.ofJson?) none sequence
      contract := ← Json.field? (Json.orNull? Contract.ofJson?) none contract }
  | _ => none

/-- The record in a file with this content. -/
def decode? (content : ByteArray) : Option Record :=
  Json.parse? (Glyph.ofBytes content) >>= ofJson?

end Record

end ShowTree
