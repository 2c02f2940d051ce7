/-
ShowTree.Proofs.Dictionary — what lists of entries have when keys are set in them.

In a list in which no key comes twice an entry is what is found under its key
(`lookupEntry_eq_some_iff`). Setting a key fits with taking some of the entries only
(`filter_insertEntry`, `filter_insertEntry_of_neg`), and setting keys that come once, one after
the other, makes a list in which each is found as it was set (`lookupEntry_foldl_insertEntry`).
Putting in keys that are new leaves the first entry of each key (`get?_foldl_insertNew`).
-/
import Mathlib.Data.List.Basic
import ShowTree.Dictionary

namespace ShowTree

namespace Dictionary

variable {β : Type} {p : String × β → Bool} {key : String} {value : β}

/-! ## 1. Entries that are found -/

theorem nodup_of_rising {entries : List (String × β)} (h : Rising entries) :
    (entries.map (·.1)).Nodup := by
  refine List.pairwise_map.2 (h.imp ?_)
  intro a b hlt heq
  exact String.lt_irrefl b.1 (heq ▸ hlt)

/-- Where no key comes twice, what is found under a key is its entry. -/
theorem lookupEntry_eq_some_iff {v : β} : ∀ {entries : List (String × β)},
    (entries.map (·.1)).Nodup → (lookupEntry key entries = some v ↔ (key, v) ∈ entries)
  | [], _ => by simp [lookupEntry]
  | (k, w) :: rest, h => by
    obtain ⟨hk, hrest⟩ := List.nodup_cons.1 h
    have ih : lookupEntry key rest = some v ↔ (key, v) ∈ rest := lookupEntry_eq_some_iff hrest
    rw [lookupEntry]
    split
    · rename_i heq
      subst heq
      have hother : (k, v) ∉ rest := fun hmem => hk (List.mem_map.2 ⟨_, hmem, rfl⟩)
      simp [hother, eq_comm]
    · rename_i hne
      simp [ih, Ne.symm hne]

theorem get?_of_mem {d : Dictionary β} {e : String × β} (h : e ∈ d.entries) :
    d.get? e.1 = some e.2 :=
  (lookupEntry_eq_some_iff (nodup_of_rising d.rising)).2 h

theorem mem_keys_iff {d : Dictionary β} : key ∈ d.keys ↔ (d.get? key).isSome := by
  rw [keys, List.mem_map, Option.isSome_iff_exists]
  constructor
  · rintro ⟨e, he, rfl⟩
    exact ⟨e.2, get?_of_mem he⟩
  · rintro ⟨v, hv⟩
    exact ⟨(key, v), mem_of_lookupEntry hv, rfl⟩

/-! ## 2. Setting one key -/

/-- A key that comes before all others is set in front of them. -/
theorem insertEntry_of_forall_lt {entries : List (String × β)} (h : ∀ e ∈ entries, key < e.1) :
    insertEntry key value entries = (key, value) :: entries := by
  cases entries with
  | nil => rfl
  | cons e rest => rw [insertEntry, if_pos (h e List.mem_cons_self)]

/-- Among the entries that are kept, a key that is kept is set in its place. -/
theorem filter_insertEntry (value : β) (hkey : ∀ v, p (key, v) = true) :
    ∀ {entries : List (String × β)}, Rising entries →
      (insertEntry key value entries).filter p = insertEntry key value (entries.filter p)
  | [], _ => by rw [insertEntry, List.filter_cons_of_pos (hkey value)]; rfl
  | (k, v) :: rest, h => by
    obtain ⟨hk, hrest⟩ := List.pairwise_cons.1 h
    have ih := filter_insertEntry value hkey hrest
    rw [insertEntry]
    split
    · rename_i hlt
      have hbelow : ∀ e ∈ ((k, v) :: rest).filter p, key < e.1 := by
        intro e he
        rcases List.mem_cons.1 (List.mem_filter.1 he).1 with rfl | he
        · exact hlt
        · exact String.lt_trans hlt (hk e he)
      rw [insertEntry_of_forall_lt hbelow, List.filter_cons_of_pos (hkey value)]
    · rename_i hnlt
      split
      · rename_i heq
        subst heq
        rw [List.filter_cons_of_pos (hkey value), List.filter_cons_of_pos (hkey v), insertEntry,
          if_neg hnlt, if_pos rfl]
      · rename_i hne
        by_cases hkept : p (k, v) = true
        · rw [List.filter_cons_of_pos hkept, List.filter_cons_of_pos hkept, insertEntry,
            if_neg hnlt, if_neg hne, ih]
        · rw [List.filter_cons_of_neg hkept, List.filter_cons_of_neg hkept, ih]

/-- Setting a key that is not kept makes no difference to the entries that are. -/
theorem filter_insertEntry_of_neg (value : β) (hkey : ∀ v, ¬ p (key, v) = true) :
    ∀ entries : List (String × β), (insertEntry key value entries).filter p = entries.filter p
  | [] => by rw [insertEntry, List.filter_cons_of_neg (hkey value)]
  | (k, v) :: rest => by
    have ih := filter_insertEntry_of_neg value hkey rest
    rw [insertEntry]
    split
    · rw [List.filter_cons_of_neg (hkey value)]
    · split
      · rename_i heq
        subst heq
        rw [List.filter_cons_of_neg (hkey value), List.filter_cons_of_neg (hkey v)]
      · rw [List.filter_cons, List.filter_cons, ih]

/-! ## 3. Setting one key after the other -/

/-- A key that comes after all others is set behind them. -/
theorem insertEntry_last :
    ∀ {entries : List (String × β)}, (∀ e ∈ entries, e.1 < key) →
      insertEntry key value entries = entries ++ [(key, value)]
  | [], _ => rfl
  | (k, v) :: rest, h => by
    have hk : k < key := h (k, v) (by simp)
    have hnlt : ¬ key < k := fun h' => String.lt_irrefl k (String.lt_trans hk h')
    have hne : key ≠ k := fun e => String.lt_irrefl k (e ▸ hk)
    rw [insertEntry, if_neg hnlt, if_neg hne, insertEntry_last fun e he => h e (by simp [he])]
    rfl

/-- A dictionary is the dictionary of its entries. -/
theorem ofList_entries (d : Dictionary β) : ofList d.entries = d := by
  have hfold : ∀ (rest : List (String × β)) (done : Dictionary β), Rising (done.entries ++ rest) →
      (rest.foldl (fun d e => d.insert e.1 e.2) done).entries = done.entries ++ rest := by
    intro rest
    induction rest with
    | nil => simp
    | cons e rest ih =>
      intro done h
      have hbelow : ∀ a ∈ done.entries, a.1 < e.1 := fun a ha =>
        (List.pairwise_append.1 h).2.2 a ha e (by simp)
      have hentries : (done.insert e.1 e.2).entries = done.entries ++ [e] :=
        insertEntry_last hbelow
      rw [List.foldl_cons, ih, hentries]
      · simp
      · rw [hentries, List.append_assoc]
        exact h
  exact ext (hfold d.entries empty d.rising)

/-- Entries under keys of their own, set one after the other, are found as they were set. -/
theorem lookupEntry_foldl_insertEntry :
    ∀ {entries : List (String × β)}, (entries.map (·.1)).Nodup → ∀ made : List (String × β),
      lookupEntry key (entries.foldl (fun es e => insertEntry e.1 e.2 es) made) =
        (lookupEntry key entries).or (lookupEntry key made)
  | [], _, _ => rfl
  | e :: rest, h, made => by
    obtain ⟨he, hrest⟩ := List.nodup_cons.1 h
    rw [List.foldl_cons, lookupEntry_foldl_insertEntry hrest, lookupEntry_insertEntry,
      lookupEntry]
    split
    · rename_i heq
      have hnone : lookupEntry key rest = none := by
        refine Option.eq_none_iff_forall_ne_some.2 fun v hv => he ?_
        exact List.mem_map.2 ⟨_, mem_of_lookupEntry hv, heq.symm⟩
      rw [hnone]
      rfl
    · rfl

theorem rising_foldl_insertEntry (entries : List (String × β)) :
    ∀ {made : List (String × β)}, Rising made →
      Rising (entries.foldl (fun es e => insertEntry e.1 e.2 es) made) := by
  induction entries with
  | nil => exact id
  | cons e rest ih => exact fun h => ih (rising_insertEntry e.1 e.2 h)

/-! ## 4. Keys that are new -/

theorem get?_insertNew (d : Dictionary β) (key k : String) (value : β) :
    (d.insertNew key value).get? k = if key = k then some ((d.get? k).getD value) else d.get? k := by
  unfold insertNew contains
  cases hget : d.get? key with
  | none =>
    rw [Option.isSome_none, if_neg Bool.false_ne_true, get?_insert]
    split
    · rename_i he
      rw [← he, hget, Option.getD_none]
    · rfl
  | some v =>
    rw [Option.isSome_some, if_pos rfl]
    split
    · rename_i he
      rw [← he, hget, Option.getD_some]
    · rfl

/-- Of entries that are put in where there is none yet, the first of a key is found. -/
theorem get?_foldl_insertNew (entries : List (String × β)) (d : Dictionary β) (k : String) :
    (entries.foldl (fun d e => d.insertNew e.1 e.2) d).get? k =
      (d.get? k).or (lookupEntry k entries) := by
  induction entries generalizing d with
  | nil => rw [List.foldl_nil, lookupEntry, Option.or_none]
  | cons e rest ih =>
    rw [List.foldl_cons, ih, get?_insertNew, lookupEntry]
    split
    · cases d.get? k <;> rfl
    · rfl

theorem lookupEntry_append (xs ys : List (String × β)) :
    lookupEntry key (xs ++ ys) = (lookupEntry key xs).or (lookupEntry key ys) := by
  induction xs with
  | nil => rfl
  | cons e xs ih =>
    rw [List.cons_append, lookupEntry, lookupEntry, ih]
    split <;> rfl

theorem lookupEntry_flatMap {α : Type} (f : α → List (String × β)) (items : List α) :
    lookupEntry key (items.flatMap f) = items.findSome? fun a => lookupEntry key (f a) := by
  induction items with
  | nil => rfl
  | cons a rest ih =>
    rw [List.flatMap_cons, lookupEntry_append, ih, List.findSome?_cons]
    cases lookupEntry key (f a) <;> rfl

/-- What is found where every key has what a function says of it. -/
theorem lookupEntry_filterMap (f : String → Option β) (keys : List String) :
    lookupEntry key (keys.filterMap fun k => (f k).map (k, ·)) =
      if key ∈ keys then f key else none := by
  induction keys with
  | nil => rfl
  | cons k keys ih =>
    rw [List.filterMap_cons]
    by_cases hk : k = key
    · subst hk
      cases hf : f k with
      | none =>
        rw [hf] at ih
        simp [ih]
      | some v => simp [lookupEntry]
    · cases hf : f k with
      | none => simp [ih, Ne.symm hk]
      | some v => simp [lookupEntry, hk, ih, Ne.symm hk]

end Dictionary

end ShowTree
