/-
ShowTree.Proofs.Record.Assigned — what is found in a record after a list of assignments.

An assignment is a key with a value, which is set, or dropped if it is the empty text. What is
found under a key after a list of them is what the last one with that key gives it, but for the
case of letters (`afterAssignments`), if the keys of the record differ in more than case
(`Distinct.userValue?_assigned`). So it makes no difference if all of them are made once more
(`Assigned.again`).
-/
import ShowTree.Proofs.Record.UserData

namespace ShowTree

/-- What is found under a key after assignments if `old` was found before: the value of the last
assignment whose key has the same lower-case form, or nothing if that value is empty. -/
def afterAssignments (pairs : List (String × String)) (old : Option String) (key : String) :
    Option String :=
  match pairs.reverse.find? fun pair => Text.lower pair.1 == Text.lower key with
  | none => old
  | some (_, value) => if value.isEmpty then none else some value

theorem afterAssignments_nil (old : Option String) (key : String) :
    afterAssignments [] old key = old :=
  rfl

/-- The first assignment counts where none of the others does. -/
theorem afterAssignments_cons (pair : String × String) (pairs : List (String × String))
    (old : Option String) (key : String) : afterAssignments (pair :: pairs) old key =
      afterAssignments pairs (afterAssignments [pair] old key) key := by
  rw [afterAssignments, List.reverse_cons, List.find?_append]
  conv => rhs; rw [afterAssignments]
  cases pairs.reverse.find? fun pair => Text.lower pair.1 == Text.lower key with
  | none => rfl
  | some last => rfl

/-- Once more, assignments change nothing. -/
theorem afterAssignments_again (pairs : List (String × String)) (old : Option String)
    (key : String) :
    afterAssignments pairs (afterAssignments pairs old key) key =
      afterAssignments pairs old key := by
  simp only [afterAssignments]
  cases pairs.reverse.find? fun pair => Text.lower pair.1 == Text.lower key with
  | none => rfl
  | some last => rfl

namespace Record

variable {r old : Record} {pairs : List (String × String)}

/-- The edit that an assignment asks for. -/
def Edit.assign (pair : String × String) : Edit :=
  if pair.2.isEmpty then .removeUser pair.1 else .setUser pair.1 pair.2

/-- One assignment. -/
theorem Distinct.userValue?_assign (h : r.Distinct) (pair : String × String) (k : String) :
    ((Edit.assign pair).apply r).userValue? k = afterAssignments [pair] (r.userValue? k) k := by
  have hvalue : ((Edit.assign pair).apply r).userValue? k =
      if Text.lower k = Text.lower pair.1 then (if pair.2.isEmpty then none else some pair.2)
      else r.userValue? k := by
    rw [Edit.assign]
    split
    · exact h.userValue?_removeUser pair.1 k
    · exact h.userValue?_setUser pair.1 pair.2 k
  rw [hvalue, afterAssignments, List.reverse_singleton, List.find?_singleton]
  by_cases hk : Text.lower k = Text.lower pair.1
  · rw [if_pos hk, hk, beq_self_eq_true, if_pos rfl]
  · have hne : (Text.lower pair.1 == Text.lower k) = false := beq_eq_false_iff_ne.2 (Ne.symm hk)
    rw [if_neg hk, hne]
    rfl

/-- One assignment after the other. -/
theorem Distinct.userValue?_assigned (h : r.Distinct) (pairs : List (String × String))
    (k : String) : (r.edited (pairs.map Edit.assign)).userValue? k =
      afterAssignments pairs (r.userValue? k) k := by
  induction pairs generalizing r with
  | nil => rfl
  | cons pair pairs ih =>
    rw [afterAssignments_cons, ← h.userValue?_assign]
    exact ih (h.apply (Edit.assign pair))

/-- A record whose keys differ in more than case, and in which is found what assignments make of
another one. -/
structure Assigned (pairs : List (String × String)) (old r : Record) : Prop where
  distinct : r.Distinct
  userValue?_eq : ∀ k, r.userValue? k = afterAssignments pairs (old.userValue? k) k

theorem Assigned.refl (h : old.Distinct) : Assigned [] old old :=
  ⟨h, fun _ => rfl⟩

theorem Assigned.first (h : Assigned [] old r) :
    Assigned pairs old (r.edited (pairs.map Edit.assign)) where
  distinct := h.distinct.edited _
  userValue?_eq k := by
    rw [h.distinct.userValue?_assigned, h.userValue?_eq, afterAssignments_nil]

theorem Assigned.again (h : Assigned pairs old r) :
    Assigned pairs old (r.edited (pairs.map Edit.assign)) where
  distinct := h.distinct.edited _
  userValue?_eq k := by
    rw [h.distinct.userValue?_assigned, h.userValue?_eq, afterAssignments_again]

end Record

end ShowTree
