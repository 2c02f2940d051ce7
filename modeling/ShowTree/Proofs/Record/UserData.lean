/-
ShowTree.Proofs.Record.UserData — what is found under a key when user data has been changed.

Keys mean the same if they have the same lower-case form (`sameKey_iff`), so the entries of a
record that a key can stand for, its namesakes, are a part of the user data in rising order.
Asking reads the first of them (`userValue?_eq_head?`), dropping takes the first one away
(`namesakes_removeUser`), and setting also puts the key itself in its place among the others
(`namesakes_setUser`). No edit makes namesakes where there were none (`Distinct.edited`), but a
record that was read may have them, and then dropping leaves the second one to be found, and
setting does so if that one comes before the key (`userValue?_updated`).
-/
import ShowTree.Proofs.Dictionary
import ShowTree.Proofs.Record.Edited
import ShowTree.Proofs.Text.LowerCase

namespace ShowTree

namespace Record

variable {r : Record} {key k : String}

/-! ## 1. Namesakes -/

/-- Keys that differ in the case of A to Z only have the same lower-case form as well, so it
is this form that counts. -/
theorem sameKey_iff {a b : String} : sameKey a b = true ↔ Text.lower a = Text.lower b := by
  rw [sameKey, Bool.or_eq_true, beq_iff_eq, sameAscii, beq_iff_eq]
  exact ⟨fun h => h.elim Text.lower_congr id, .inr⟩

theorem sameKey_eq (a b : String) : sameKey a b = (Text.lower a == Text.lower b) :=
  Bool.eq_iff_iff.2 (sameKey_iff.trans beq_iff_eq.symm)

/-- The entries of the user data whose keys mean the same as `key`, in rising order. -/
def namesakes (r : Record) (key : String) : List (String × String) :=
  r.userData.entries.filter fun e => Text.lower e.1 == Text.lower key

/-- The other entries of the user data. -/
def strangers (r : Record) (key : String) : List (String × String) :=
  r.userData.entries.filter fun e => Text.lower e.1 != Text.lower key

/-- Whether all keys of the user data differ in more than case. -/
def Distinct (r : Record) : Prop :=
  (r.userData.keys.map Text.lower).Nodup

instance : Decidable r.Distinct :=
  inferInstanceAs (Decidable (List.Nodup _))

theorem namesakes_congr (h : Text.lower k = Text.lower key) : r.namesakes k = r.namesakes key := by
  rw [namesakes, namesakes, h]

theorem mem_namesakes_iff {e : String × String} :
    e ∈ r.namesakes key ↔ e ∈ r.userData.entries ∧ Text.lower e.1 = Text.lower key := by
  rw [namesakes, List.mem_filter, beq_iff_eq]

theorem userKey?_eq_head? : r.userKey? key = (r.namesakes key).head?.map (·.1) := by
  rw [userKey?, Dictionary.keys, List.find?_map, namesakes, List.head?_filter]
  have hsame : (sameKey · key) ∘ Prod.fst = fun e : String × String =>
      Text.lower e.1 == Text.lower key := funext fun e => sameKey_eq e.1 key
  rw [hsame]

/-- What is found under a key is its first namesake. -/
theorem userValue?_eq_head? : r.userValue? key = (r.namesakes key).head?.map (·.2) := by
  rw [userValue?, userKey?_eq_head?]
  cases hfirst : (r.namesakes key).head? with
  | none => rfl
  | some e => exact Dictionary.get?_of_mem (mem_namesakes_iff.1 (List.mem_of_head? hfirst)).1

theorem userValue?_congr (h : Text.lower k = Text.lower key) :
    r.userValue? k = r.userValue? key := by
  rw [userValue?_eq_head?, userValue?_eq_head?, namesakes_congr h]

/-- All keys differ in more than case if no key has a second namesake. -/
theorem distinct_iff : r.Distinct ↔ ∀ key, (r.namesakes key).tail = [] := by
  -- How often a lower-case form comes among the keys is how many namesakes such a key has.
  have hcount : ∀ key, (r.userData.keys.map Text.lower).count (Text.lower key) =
      (r.namesakes key).length := by
    intro key
    rw [Dictionary.keys, List.map_map, List.count, List.countP_map, List.countP_eq_length_filter]
    rfl
  have htail : ∀ key, (r.namesakes key).tail = [] ↔ (r.namesakes key).length ≤ 1 := by
    intro key
    rw [← List.length_eq_zero_iff, List.length_tail]
    omega
  rw [Distinct, List.nodup_iff_count]
  constructor
  · intro h key
    rw [htail, ← hcount]
    exact h _
  · intro h form
    by_cases hform : form ∈ r.userData.keys.map Text.lower
    · obtain ⟨key, -, rfl⟩ := List.mem_map.1 hform
      rw [hcount, ← htail]
      exact h key
    · rw [List.count_eq_zero_of_not_mem hform]
      exact Nat.zero_le 1

/-! ## 2. Namesakes after a change -/

theorem rising_namesakes (r : Record) (key : String) : Rising (r.namesakes key) :=
  r.userData.rising.filter _

/-- Dropping a key takes its first namesake away. -/
theorem namesakes_removeUser (r : Record) (key : String) :
    (r.removeUser key).namesakes key = (r.namesakes key).tail := by
  have hrising := rising_namesakes r key
  rw [removeUser, userKey?_eq_head?]
  cases hlist : r.namesakes key with
  | nil => exact hlist
  | cons first rest =>
    rw [hlist] at hrising
    have hrest : ∀ e ∈ rest, (e.1 != first.1) = true := fun e he =>
      bne_iff_ne.2 fun heq => String.lt_irrefl first.1 (heq ▸ (List.pairwise_cons.1 hrising).1 e he)
    change (r.userData.entries.filter (·.1 != first.1)).filter _ = rest
    rw [List.filter_comm, ← namesakes, hlist, List.filter_cons_of_neg (by simp),
      List.filter_eq_self.2 hrest]

/-- Dropping a key leaves all entries as they are that mean something else. -/
theorem filter_removeUser {p : String × String → Bool}
    (hp : ∀ e, Text.lower e.1 = Text.lower key → ¬ p e = true) :
    (r.removeUser key).userData.entries.filter p = r.userData.entries.filter p := by
  rw [removeUser, userKey?_eq_head?]
  cases hlist : r.namesakes key with
  | nil => rfl
  | cons first rest =>
    have hfirst := (mem_namesakes_iff.1 (hlist ▸ List.mem_cons_self)).2
    change (r.userData.entries.filter (·.1 != first.1)).filter p = _
    rw [List.filter_filter]
    refine List.filter_congr fun e _ => ?_
    by_cases he : e.1 = first.1
    · have hneg := hp e (he ▸ hfirst)
      simp [hneg]
    · simp [he]

/-- Setting a key is dropping it and putting it in. -/
theorem userData_setUser (r : Record) (key value : String) :
    (r.setUser key value).userData = (r.removeUser key).userData.insert key value := by
  rw [setUser, removeUser]
  cases r.userKey? key <;> rfl

/-- Setting a key puts it in the place of its first namesake. -/
theorem namesakes_setUser (r : Record) (key value : String) :
    (r.setUser key value).namesakes key = insertEntry key value (r.namesakes key).tail := by
  rw [← namesakes_removeUser, namesakes, userData_setUser]
  exact Dictionary.filter_insertEntry value (fun v => by simp) (r.removeUser key).userData.rising

theorem filter_setUser {p : String × String → Bool} (value : String)
    (hp : ∀ e, Text.lower e.1 = Text.lower key → ¬ p e = true) :
    (r.setUser key value).userData.entries.filter p = r.userData.entries.filter p := by
  rw [userData_setUser, ← filter_removeUser (r := r) hp]
  exact Dictionary.filter_insertEntry_of_neg value (fun v => hp (key, v) rfl) _

theorem namesakes_removeUser_of_ne (h : Text.lower k ≠ Text.lower key) :
    (r.removeUser key).namesakes k = r.namesakes k :=
  filter_removeUser fun _ he hk => h ((beq_iff_eq.1 hk).symm.trans he)

theorem namesakes_setUser_of_ne (value : String) (h : Text.lower k ≠ Text.lower key) :
    (r.setUser key value).namesakes k = r.namesakes k :=
  filter_setUser value fun _ he hk => h ((beq_iff_eq.1 hk).symm.trans he)

/-! ## 3. Keys that differ in more than case -/

theorem Distinct.removeUser (h : r.Distinct) (key : String) : (r.removeUser key).Distinct := by
  refine distinct_iff.2 fun k => ?_
  by_cases hk : Text.lower k = Text.lower key
  · rw [namesakes_congr hk, namesakes_removeUser, distinct_iff.1 h key, List.tail_nil]
  · rw [namesakes_removeUser_of_ne hk, distinct_iff.1 h k]

theorem Distinct.setUser (h : r.Distinct) (key value : String) :
    (r.setUser key value).Distinct := by
  refine distinct_iff.2 fun k => ?_
  by_cases hk : Text.lower k = Text.lower key
  · rw [namesakes_congr hk, namesakes_setUser, distinct_iff.1 h key]
    rfl
  · rw [namesakes_setUser_of_ne value hk, distinct_iff.1 h k]

/-- An edit makes no namesakes. -/
theorem Distinct.apply (h : r.Distinct) (edit : Edit) : (edit.apply r).Distinct := by
  cases edit with
  | setUser key value => exact h.setUser key value
  | removeUser key => exact h.removeUser key
  | addInstance reference =>
    rw [Edit.apply, addInstance]
    split <;> exact h
  | removeInstance reference => exact h

/-- However a record is edited, keys that differed in more than case still do. -/
theorem Distinct.edited (h : r.Distinct) (edits : List Edit) : (r.edited edits).Distinct := by
  induction edits generalizing r with
  | nil => exact h
  | cons edit edits ih => exact ih (h.apply edit)

/-- Where keys differ in more than case, what was set is found, and nothing else changes. -/
theorem Distinct.userValue?_setUser (h : r.Distinct) (key value k : String) :
    (r.setUser key value).userValue? k =
      if Text.lower k = Text.lower key then some value else r.userValue? k := by
  split
  · rename_i hk
    rw [userValue?_congr hk, userValue?_eq_head?, namesakes_setUser, distinct_iff.1 h key]
    rfl
  · rename_i hk
    rw [userValue?_eq_head?, userValue?_eq_head?, namesakes_setUser_of_ne value hk]

theorem Distinct.userValue?_removeUser (h : r.Distinct) (key k : String) :
    (r.removeUser key).userValue? k =
      if Text.lower k = Text.lower key then none else r.userValue? k := by
  split
  · rename_i hk
    rw [userValue?_congr hk, userValue?_eq_head?, namesakes_removeUser, distinct_iff.1 h key]
    rfl
  · rename_i hk
    rw [userValue?_eq_head?, userValue?_eq_head?, namesakes_removeUser_of_ne hk]

/-- Where keys differ in more than case, each entry is found under its key. -/
theorem Distinct.userValue?_of_mem (h : r.Distinct) {e : String × String}
    (he : e ∈ r.userData.entries) : r.userValue? e.1 = some e.2 := by
  have hmem : e ∈ r.namesakes e.1 := mem_namesakes_iff.2 ⟨he, rfl⟩
  have htail := distinct_iff.1 h e.1
  rw [userValue?_eq_head?]
  cases hlist : r.namesakes e.1 with
  | nil =>
    rw [hlist] at hmem
    cases hmem
  | cons first rest =>
    rw [hlist] at hmem htail
    obtain rfl : rest = [] := htail
    rw [List.mem_singleton.1 hmem]
    rfl

/-! ## 4. What is found after a change -/

/-- A key that is set among others is in front unless the first of them comes before it. -/
theorem head?_insertEntry_iff {key value : String} {entries : List (String × String)} :
    (insertEntry key value entries).head?.map (·.2) = some value ↔
      ∀ e ∈ entries.head?, e.1 < key → e.2 = value := by
  cases entries with
  | nil => simp [insertEntry]
  | cons e rest =>
    have hrule : (∀ a ∈ (e :: rest).head?, a.1 < key → a.2 = value) ↔
        (e.1 < key → e.2 = value) := by simp
    rw [hrule, insertEntry]
    split
    · rename_i hlt
      exact ⟨fun _ h => absurd (String.lt_trans hlt h) (String.lt_irrefl key), fun _ => rfl⟩
    · rename_i hnlt
      split
      · rename_i heq
        exact ⟨fun _ h => absurd (heq ▸ h) (String.lt_irrefl key), fun _ => rfl⟩
      · rename_i hne
        have hlt : e.1 < key := String.not_le.1 fun hle =>
          hne (String.le_antisymm hle (String.not_lt.1 hnlt))
        exact ⟨fun h _ => Option.some.inj h, fun h => congrArg some (h hlt)⟩

/-- What was set is found under all spellings of the key, unless the key had a second namesake
with another value that comes before it; what was dropped is gone, unless there was a second
namesake. Entries that mean something else stay. Keys that differ in more than case have no
namesakes, whatever edits the record has gone through, so then nothing is in the way. -/
theorem userValue?_updated (r : Record) (key value : String) :
    (∀ k, Text.lower k = Text.lower key →
      ((r.setUser key value).userValue? k = some value ↔
        ∀ e ∈ (r.namesakes key).tail.head?, e.1 < key → e.2 = value) ∧
      ((r.removeUser key).userValue? k = none ↔ (r.namesakes key).tail = [])) ∧
    (r.setUser key value).strangers key = r.strangers key ∧
    (r.removeUser key).strangers key = r.strangers key ∧
    (r.Distinct → ∀ (edits : List Edit) (k : String), Text.lower k = Text.lower key →
      ((r.edited edits).setUser key value).userValue? k = some value ∧
      ((r.edited edits).removeUser key).userValue? k = none) := by
  have hstranger : ∀ e : String × String, Text.lower e.1 = Text.lower key →
      ¬ (Text.lower e.1 != Text.lower key) = true := fun e he => by simp [he]
  refine ⟨fun k hk => ⟨?_, ?_⟩, filter_setUser value hstranger, filter_removeUser hstranger,
    fun h edits k hk => ⟨?_, ?_⟩⟩
  · rw [userValue?_congr hk, userValue?_eq_head?, namesakes_setUser]
    exact head?_insertEntry_iff
  · rw [userValue?_congr hk, userValue?_eq_head?, namesakes_removeUser, Option.map_eq_none_iff,
      List.head?_eq_none_iff]
  · rw [(h.edited edits).userValue?_setUser, if_pos hk]
  · rw [(h.edited edits).userValue?_removeUser, if_pos hk]

/-- User data with two spellings of one key, and another key. -/
def spelledTwice : Record :=
  { blank with userData := .ofList [("A", "1"), ("a", "2"), ("b", "3")] }

/-- With two spellings, the second one can be set but not dropped; a single one can be both. -/
theorem userValue?_updated_twice :
    Text.lower "A" = Text.lower "a" ∧
    (spelledTwice.setUser "a" "4").userValue? "A" = some "4" ∧
    (spelledTwice.removeUser "a").userValue? "A" ≠ none ∧
    (spelledTwice.setUser "a" "4").strangers "a" = [("b", "3")] ∧
    (blank.setUser "Width" "1920").Distinct ∧ Text.lower "WIDTH" = Text.lower "width" ∧
    (((blank.setUser "Width" "1920").edited [.setUser "WIDTH" "2048"]).setUser
      "width" "4096").userValue? "WIDTH" = some "4096" := by
  have hspelled : Text.lower "A" = Text.lower "a" := by decide +kernel
  have hwidth : Text.lower "WIDTH" = Text.lower "width" := by decide +kernel
  have hdistinct : (blank.setUser "Width" "1920").Distinct := by decide +kernel
  obtain ⟨hfound, hothers, -⟩ := userValue?_updated spelledTwice "a" "4"
  obtain ⟨hset, hdropped⟩ := hfound "A" hspelled
  refine ⟨hspelled, hset.2 (by decide +kernel), fun h => ?_, hothers.trans (by decide +kernel),
    hdistinct, hwidth, ?_⟩
  · exact absurd (hdropped.1 h) (by decide +kernel)
  · exact ((userValue?_updated _ "width" "4096").2.2.2 hdistinct _ "WIDTH" hwidth).1

/-- A record can be read in which a key has two namesakes that come before it. What is set
under this key then is not found, and dropping it leaves something. -/
theorem not_userValue?_updated_capitals :
    ∃ r, decode? "\x7b\"user_data\": \x7b\"AA\": \"1\", \"Aa\": \"2\"\x7d\x7d".toUTF8 = some r ∧
      (r.setUser "aa" "3").userValue? "aa" = some "2" ∧
      (r.removeUser "aa").userValue? "aa" = some "2" := by
  refine ⟨{ blank with userData := .ofList [("AA", "1"), ("Aa", "2")] }, ?_, ?_, ?_⟩
  all_goals decide +kernel

end Record

end ShowTree
