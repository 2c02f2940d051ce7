/-
ShowTree.Record.Basic — what is remembered about an object.

A record holds the links between an object and its prototype, free user data, whether the
object is the root of a show, and three optional sections. User data is asked for and
changed under keys whose case does not matter, but is kept as it was written.
-/
import ShowTree.Dictionary
import ShowTree.Text.LowerCase

namespace ShowTree

/-- The size of an image. -/
structure ImageInfo where
  width : Int32
  height : Int32
  deriving DecidableEq

/-- A numbered sequence of files. -/
structure Sequence where
  baseName : String
  first : Int32
  last : Int32
  deriving DecidableEq

/-- What a contract object delivers. -/
structure Contract where
  pattern : String
  deriving DecidableEq

/-- What is remembered about an object. Links are references within the show. -/
structure Record where
  /-- The object that this one was made from. -/
  proto : Option String
  /-- The objects made from this one. -/
  instances : List String
  userData : Dictionary String
  isShowRoot : Bool
  imageInfo : Option ImageInfo
  sequence : Option Sequence
  contract : Option Contract
  deriving DecidableEq

namespace Record

/-- The record of an object that nothing is remembered about. -/
def blank : Record :=
  ⟨none, [], ∅, false, none, none, none⟩

instance : Inhabited Record := ⟨blank⟩

/-! ## 1. Instances -/

/-- Adds a reference to an instance, once. -/
def addInstance (r : Record) (reference : String) : Record :=
  if r.instances.contains reference then r
  else { r with instances := r.instances ++ [reference] }

/-- Drops a reference to an instance. -/
def removeInstance (r : Record) (reference : String) : Record :=
  { r with instances := r.instances.filter (· != reference) }

/-! ## 2. User data -/

/-- Whether two texts differ at most in the case of the letters A to Z. -/
def sameAscii (a b : String) : Bool :=
  a.toList.map Char.toLower == b.toList.map Char.toLower

/-- Whether two keys name the same user data. -/
def sameKey (a b : String) : Bool :=
  sameAscii a b || Text.lower a == Text.lower b

/-- The first key of the user data that means the same as `key`. -/
def userKey? (r : Record) (key : String) : Option String :=
  r.userData.keys.find? (sameKey · key)

/-- The user data under a key. -/
def userValue? (r : Record) (key : String) : Option String :=
  (r.userKey? key).bind r.userData.get?

/-- Sets user data, in the place of what was there under the same key. -/
def setUser (r : Record) (key value : String) : Record :=
  let rest := match r.userKey? key with
    | some old => r.userData.erase old
    | none => r.userData
  { r with userData := rest.insert key value }

/-- Drops user data. -/
def removeUser (r : Record) (key : String) : Record :=
  match r.userKey? key with
  | some old => { r with userData := r.userData.erase old }
  | none => r

end Record

end ShowTree
