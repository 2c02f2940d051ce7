/-
ShowTree.Proofs.Record.Edited — records stay readable however they are edited.

An edit sets or drops user data, or adds or drops a reference to an instance. None of them
touches the reference to the prototype (`proto_apply`, `proto_edited`), and an empty one is
all that writing could lose. So a record that was read from any bytes at all is, after any
edits, what its own bytes are read as (`decode?_encode_kept`).
-/
import ShowTree.Proofs.Record.RoundTrip

namespace ShowTree

namespace Record

/-! ## 1. Edits -/

/-- A change of the user data or of the instances of a record. -/
inductive Edit where
  | setUser (key value : String)
  | removeUser (key : String)
  | addInstance (reference : String)
  | removeInstance (reference : String)
  deriving DecidableEq

/-- The record after an edit. -/
def Edit.apply (r : Record) : Edit → Record
  | .setUser key value => r.setUser key value
  | .removeUser key => r.removeUser key
  | .addInstance reference => r.addInstance reference
  | .removeInstance reference => r.removeInstance reference

/-- The record after edits, one after the other. -/
def edited (r : Record) (edits : List Edit) : Record :=
  edits.foldl Edit.apply r

/-! ## 2. The prototype through edits -/

@[simp] theorem proto_setUser (r : Record) (key value : String) :
    (r.setUser key value).proto = r.proto :=
  rfl

@[simp] theorem proto_removeUser (r : Record) (key : String) :
    (r.removeUser key).proto = r.proto := by
  rw [removeUser]
  split <;> rfl

@[simp] theorem proto_addInstance (r : Record) (reference : String) :
    (r.addInstance reference).proto = r.proto := by
  rw [addInstance]
  split <;> rfl

@[simp] theorem proto_removeInstance (r : Record) (reference : String) :
    (r.removeInstance reference).proto = r.proto :=
  rfl

/-- An edit leaves the prototype as it is. -/
theorem proto_apply (r : Record) (edit : Edit) : (edit.apply r).proto = r.proto := by
  cases edit <;> simp [Edit.apply]

/-- Any edits leave the prototype as it is. -/
theorem proto_edited (r : Record) (edits : List Edit) : (r.edited edits).proto = r.proto := by
  induction edits generalizing r with
  | nil => rfl
  | cons edit edits ih => exact (ih (edit.apply r)).trans (proto_apply r edit)

/-! ## 3. Reading what was edited -/

/-- A record without an empty reference is what its bytes are read as, and so is every record
that comes from bytes, whatever edits it went through. -/
theorem decode?_encode_kept :
    (∀ r : Record, r.proto ≠ some "" → decode? r.encode.toUTF8 = some r) ∧
    ∀ (content : ByteArray) (r : Record) (edits : List Edit), decode? content = some r →
      decode? (r.edited edits).encode.toUTF8 = some (r.edited edits) := by
  refine ⟨fun r h => decode?_encode h, fun content r edits hread => ?_⟩
  have hproto : (r.edited edits).proto ≠ some "" := by
    rw [proto_edited]
    exact proto_ne_empty_of_decode? hread
  exact decode?_encode hproto

/-- A record with a prototype, read from its file, renamed and linked to. -/
theorem decode?_encode_kept_linked :
    (blank.setUser "kind" "shot").proto ≠ some "" ∧
    decode? (blank.setUser "kind" "shot").encode.toUTF8 = some (blank.setUser "kind" "shot") ∧
    decode? "\x7b\"proto\": \"//p\", \"seen\": [1.5]\x7d".toUTF8 = some { blank with proto := "//p" } ∧
    decode? (edited { blank with proto := "//p" }
        [.setUser "Größe" "\t7", .addInstance "//a", .removeUser "größe"]).encode.toUTF8 =
      some { blank with proto := "//p", instances := ["//a"] } := by
  have hblank : (blank.setUser "kind" "shot").proto ≠ some "" := by decide +kernel
  have hread : decode? "\x7b\"proto\": \"//p\", \"seen\": [1.5]\x7d".toUTF8 =
      some { blank with proto := "//p" } := by decide +kernel
  have hedited : edited { blank with proto := "//p" }
      [.setUser "Größe" "\t7", .addInstance "//a", .removeUser "größe"] =
        { blank with proto := "//p", instances := ["//a"] } := by decide +kernel
  refine ⟨hblank, decode?_encode_kept.1 _ hblank, hread, ?_⟩
  exact (decode?_encode_kept.2 _ _ _ hread).trans (congrArg some hedited)

end Record

end ShowTree
