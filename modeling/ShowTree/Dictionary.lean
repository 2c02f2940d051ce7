/-
ShowTree.Dictionary — values under text keys, in the order of the keys.

A dictionary is the list of its entries with strictly rising keys, so two dictionaries
with the same entries are equal, and walking one visits the keys in code point order.
What `get?` finds after `insert` and `erase` is said by the lemmas at the end.
-/

namespace ShowTree

/-! ## 1. Lists of entries -/

/-- The entries with `key` set to `value`, in the place where a rising list has it. -/
def insertEntry {β : Type} (key : String) (value : β) : List (String × β) → List (String × β)
  | [] => [(key, value)]
  | (k, v) :: rest =>
    if key < k then (key, value) :: (k, v) :: rest
    else if key = k then (key, value) :: rest
    else (k, v) :: insertEntry key value rest

/-- The value of the first entry under `key`. -/
def lookupEntry {β : Type} (key : String) : List (String × β) → Option β
  | [] => none
  | (k, v) :: rest => if k = key then some v else lookupEntry key rest

/-- Whether the keys rise strictly. -/
def Rising {β : Type} (entries : List (String × β)) : Prop :=
  entries.Pairwise fun a b => a.1 < b.1

theorem mem_insertEntry {β : Type} {key : String} {value : β} {e : String × β} :
    ∀ {entries : List (String × β)}, e ∈ insertEntry key value entries →
      e = (key, value) ∨ e ∈ entries
  | [], h => by simp [insertEntry] at h; exact .inl h
  | (k, v) :: rest, h => by
    simp only [insertEntry] at h
    split at h
    · rcases List.mem_cons.1 h with h | h
      · exact .inl h
      · exact .inr h
    · split at h
      · rcases List.mem_cons.1 h with h | h
        · exact .inl h
        · exact .inr (List.mem_cons_of_mem _ h)
      · rcases List.mem_cons.1 h with h | h
        · exact .inr (h ▸ List.mem_cons_self)
        · rcases mem_insertEntry h with h | h
          · exact .inl h
          · exact .inr (List.mem_cons_of_mem _ h)

theorem rising_insertEntry {β : Type} (key : String) (value : β) :
    ∀ {entries : List (String × β)}, Rising entries → Rising (insertEntry key value entries)
  | [], _ => by simp [insertEntry, Rising]
  | (k, v) :: rest, h => by
    have hk := (List.pairwise_cons.1 h).1
    have hrest := (List.pairwise_cons.1 h).2
    simp only [insertEntry]
    split
    · rename_i hlt
      refine List.pairwise_cons.2 ⟨fun e he => ?_, h⟩
      rcases List.mem_cons.1 he with rfl | he
      · exact hlt
      · exact String.lt_trans hlt (hk e he)
    · split
      · rename_i heq
        subst heq
        exact List.pairwise_cons.2 ⟨hk, hrest⟩
      · rename_i hnlt hne
        refine List.pairwise_cons.2 ⟨fun e he => ?_, rising_insertEntry key value hrest⟩
        rcases mem_insertEntry he with rfl | he
        · rcases Decidable.em (k < key) with hlt | hge
          · exact hlt
          · exact absurd (String.le_antisymm (String.not_lt.1 hge) (String.not_lt.1 hnlt)) hne
        · exact hk e he

/-! ## 2. Dictionaries -/

/-- Entries under strictly rising keys. -/
structure Dictionary (β : Type) where
  entries : List (String × β)
  rising : Rising entries

namespace Dictionary

variable {β : Type}

instance [DecidableEq β] : DecidableEq (Dictionary β) := fun a b =>
  match a, b with
  | ⟨x, _⟩, ⟨y, _⟩ =>
    if h : x = y then isTrue (by subst h; rfl)
    else isFalse fun e => h (congrArg Dictionary.entries e)

def empty : Dictionary β :=
  ⟨[], List.Pairwise.nil⟩

instance : EmptyCollection (Dictionary β) := ⟨empty⟩

instance : Inhabited (Dictionary β) := ⟨empty⟩

def isEmpty (d : Dictionary β) : Bool :=
  d.entries.isEmpty

def keys (d : Dictionary β) : List String :=
  d.entries.map (·.1)

/-- The value under a key. -/
def get? (d : Dictionary β) (key : String) : Option β :=
  lookupEntry key d.entries

def contains (d : Dictionary β) (key : String) : Bool :=
  (d.get? key).isSome

/-- Sets a key, whether it is new or not. -/
def insert (d : Dictionary β) (key : String) (value : β) : Dictionary β :=
  ⟨insertEntry key value d.entries, rising_insertEntry key value d.rising⟩

/-- Sets a key that is not there; a key that is there keeps its value. -/
def insertNew (d : Dictionary β) (key : String) (value : β) : Dictionary β :=
  if d.contains key then d else d.insert key value

/-- Drops a key. -/
def erase (d : Dictionary β) (key : String) : Dictionary β :=
  ⟨d.entries.filter (·.1 != key), d.rising.filter _⟩

/-- The dictionary of a list of entries, of which the last one under a key counts. -/
def ofList (entries : List (String × β)) : Dictionary β :=
  entries.foldl (fun d e => d.insert e.1 e.2) empty

/-! ## 3. What is found after a change -/

theorem ext {a b : Dictionary β} (h : a.entries = b.entries) : a = b := by
  cases a; cases b; cases h; rfl

theorem lookupEntry_insertEntry (key k : String) (value : β) :
    ∀ entries : List (String × β), lookupEntry k (insertEntry key value entries) =
      if key = k then some value else lookupEntry k entries
  | [] => by simp [insertEntry, lookupEntry]
  | (k', v) :: rest => by
    have ih := lookupEntry_insertEntry key k value rest
    simp only [insertEntry]
    split
    · simp [lookupEntry]
    · split
      · rename_i heq
        subst heq
        by_cases h : key = k <;> simp [lookupEntry, h]
      · rename_i hne
        by_cases h : k' = k
        · subst h
          simp [lookupEntry, hne]
        · simp [lookupEntry, h, ih]

theorem mem_of_lookupEntry {β : Type} {key : String} {value : β} :
    ∀ {entries : List (String × β)}, lookupEntry key entries = some value → (key, value) ∈ entries
  | (k, v) :: rest, h => by
    rw [lookupEntry] at h
    split at h
    · rename_i hk
      rw [hk, Option.some.inj h]
      exact List.mem_cons_self
    · exact List.mem_cons_of_mem _ (mem_of_lookupEntry h)

theorem lookupEntry_filter (key k : String) : ∀ entries : List (String × β),
    lookupEntry k (entries.filter (·.1 != key)) =
      if key = k then none else lookupEntry k entries
  | [] => by simp [lookupEntry]
  | (k', v) :: rest => by
    have ih := lookupEntry_filter key k rest
    by_cases h : k' = key
    · subst h
      by_cases hk : k' = k
      · subst hk
        simpa using ih
      · simp [lookupEntry, ih, hk]
    · by_cases hk : k' = k
      · subst hk
        simp [lookupEntry, h, Ne.symm h]
      · simp [lookupEntry, h, ih, hk]

theorem get?_insert (d : Dictionary β) (key k : String) (value : β) :
    (d.insert key value).get? k = if key = k then some value else d.get? k :=
  lookupEntry_insertEntry key k value d.entries

theorem get?_erase (d : Dictionary β) (key k : String) :
    (d.erase key).get? k = if key = k then none else d.get? k :=
  lookupEntry_filter key k d.entries

end Dictionary

end ShowTree
