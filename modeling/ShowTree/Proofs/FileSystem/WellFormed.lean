/-
ShowTree.Proofs.FileSystem.WellFormed — trees whose entries form a tree.

A tree is well formed if every key is the canonical path of a place and every entry lies in
a directory. Then whatever is there, all directories down to it are there as directories
(`WellFormed.kind?_of_entry`, `WellFormed.kind?_of_down`), also when the place is reached by
a path with backslashes. What is listed are names without backslashes, all that are there
and in rising order (`WellFormed.name_of_mem_names`, `WellFormed.mem_names_of_entry`,
`Tree.pairwise_names`). A change that puts nothing under another key keeps a tree well formed
(`WellFormed.write`, `WellFormed.makeDir`, `WellFormed.rename`).
-/
import ShowTree.Proofs.FileSystem.Change
import ShowTree.Proofs.FileSystem.Listing
import ShowTree.Proofs.Layout.Sidecar

namespace ShowTree

open ShowTree.Text

/-! ## 1. Keys and their directories -/

/-- A key is cut at its last slash. -/
theorem cutKey?_eq {key : String} {front name : List Char}
    (hkey : key.toList = front ++ '/' :: name) (hname : '/' ∉ name) :
    cutKey? key = some (front, name) := by
  have hrev : key.toList.reverse = name.reverse ++ '/' :: front.reverse := by
    rw [hkey]
    simp
  rw [cutKey?, hrev, cutAt_eq_some_iff.2 ⟨rfl, by simpa using hname⟩]
  simp

theorem dirKey?_eq {key : String} {front name : List Char}
    (hkey : key.toList = front ++ '/' :: name) (hname : '/' ∉ name) (hne : name ≠ []) :
    dirKey? key = some (if front = [] then "/" else String.ofList front) := by
  have hroot : key ≠ "/" := by
    rintro rfl
    have hlen := congrArg List.length hkey
    have hpos := List.length_pos_iff.2 hne
    have hone : "/".toList.length = 1 := rfl
    simp only [List.length_append, List.length_cons] at hlen
    omega
  rw [dirKey?, if_neg hroot, cutKey?_eq hkey hname]
  cases front <;> simp

/-- Characters with slashes for backslashes. -/
def slashed (cs : List Char) : List Char :=
  cs.map fun c => if c = '\\' then '/' else c

theorem slashed_append (a b : List Char) : slashed (a ++ b) = slashed a ++ slashed b :=
  List.map_append

theorem slashed_cons (c : Char) (cs : List Char) :
    slashed (c :: cs) = (if c = '\\' then '/' else c) :: slashed cs :=
  List.map_cons

theorem slashed_of_not_mem : ∀ {cs : List Char}, '\\' ∉ cs → slashed cs = cs
  | [], _ => rfl
  | c :: cs, h => by
    have hc : c ≠ '\\' := fun e => h (by simp [e])
    rw [slashed_cons, if_neg hc, slashed_of_not_mem fun hm => h (List.mem_cons_of_mem c hm)]

theorem Path.toList_key_eq (p : Path) :
    p.key.toList = (dropSlashes (slashed p.text.toList).reverse).reverse :=
  String.toList_ofList

namespace Place

theorem stem_entry_ne_nil (dir : Place) (name : Name) : (entry dir name).stem ≠ [] := by
  simp [stem]

/-- The key of an entry whose own name is without backslashes. -/
theorem toList_key_entry (dir : Place) {name : Name} (h : '\\' ∉ name.chars) :
    (entry dir name).path.key.toList = slashed dir.stem ++ '/' :: name.chars := by
  have htext : slashed (entry dir name).path.text.toList =
      slashed dir.stem ++ '/' :: name.chars := by
    rw [toList_path_entry, slashed_append, slashed_cons, slashed_of_not_mem h]
    rfl
  have hlast : (slashed (entry dir name).path.text.toList).reverse.head? ≠ some '/' := by
    rw [htext, List.head?_reverse, List.getLast?_append, List.getLast?_cons]
    cases hc : name.chars.getLast? with
    | none => exact absurd (List.getLast?_eq_none_iff.1 hc) name.chars_ne_nil
    | some c => simpa using fun e : c = '/' => name.getLast?_chars_ne (e ▸ hc)
  rw [Path.toList_key_eq, dropSlashes_of_head? hlast, List.reverse_reverse, htext]

end Place

/-! ## 2. Well-formed trees -/

/-- A child's key ends in a slash and its name. -/
theorem exists_front_of_childName? {dir key name : String} (h : childName? dir key = some name) :
    ∃ front, key.toList = front ++ '/' :: name.toList ∧ '/' ∉ name.toList ∧ name.toList ≠ [] := by
  obtain ⟨hkey, hslash, hne⟩ := childName?_eq_some_iff.1 h
  refine ⟨if dir = "/" then [] else dir.toList, ?_, hslash, hne⟩
  rw [hkey, childFront]
  split <;> simp

namespace Tree

/-- The key is the canonical path of a place without backslashes. -/
def CanonicalKey (key : String) : Prop :=
  ∃ p ∈ Place.ofPath? ⟨key⟩, p.path.text = key ∧ p.Plain

instance (key : String) : Decidable (CanonicalKey key) :=
  inferInstanceAs (Decidable (∃ p ∈ Place.ofPath? ⟨key⟩, _))

/-- Every key is canonical, and every entry lies in a directory. -/
structure WellFormed (t : Tree) : Prop where
  canonical : ∀ key ∈ t.entries.keys, CanonicalKey key
  inDir : ∀ key ∈ t.entries.keys, ∀ above ∈ dirKey? key, t.kind? above = some true

instance (t : Tree) : Decidable t.WellFormed :=
  decidable_of_iff ((∀ key ∈ t.entries.keys, CanonicalKey key) ∧
      ∀ key ∈ t.entries.keys, ∀ above ∈ dirKey? key, t.kind? above = some true)
    ⟨fun h => ⟨h.1, h.2⟩, fun h => ⟨h.canonical, h.inDir⟩⟩

theorem isSome_of_kind? {t : Tree} {key : String} {isDir : Bool} (h : t.kind? key = some isDir) :
    (t.get? key).isSome := by
  obtain ⟨e, he, -⟩ := Option.map_eq_some_iff.1 h
  rw [he, Option.isSome_some]

/-- In a directory whose own name is without backslashes, what is listed is what is there. -/
theorem mem_names_iff {t : Tree} {p : Place} (hp : ∀ n ∈ p.names.getLast?, '\\' ∉ n.chars)
    {name : Name} (hname : '\\' ∉ name.chars) :
    name.text ∈ t.names p.path.key ↔ t.present (Place.entry p name).path = true := by
  have hfront : childFront p.path.key = slashed p.stem ++ ['/'] := by
    cases p with
    | root => rfl
    | entry dir n =>
      have hn : '\\' ∉ n.chars := hp n (by simp [Place.names])
      have hkey : (Place.entry dir n).path.key.toList = slashed (Place.entry dir n).stem := by
        rw [Place.toList_key_entry dir hn, Place.stem, slashed_append, slashed_cons,
          slashed_of_not_mem hn]
        rfl
      have hroot : (Place.entry dir n).path.key ≠ "/" := by
        intro he
        have hlen := congrArg List.length ((congrArg String.toList he).symm.trans
          (Place.toList_key_entry dir hn))
        have hpos := List.length_pos_iff.2 n.chars_ne_nil
        have hone : "/".toList.length = 1 := rfl
        simp only [hone, List.length_append, List.length_cons] at hlen
        omega
      rw [childFront, if_neg hroot, hkey]
  have hkey : (Place.entry p name).path.key.toList =
      childFront p.path.key ++ name.text.toList := by
    rw [hfront, Place.toList_key_entry p hname, List.append_assoc]
    rfl
  have hchild : childName? p.path.key (Place.entry p name).path.key = some name.text :=
    childName?_eq_some_iff.2 ⟨hkey, name.slash_not_mem_chars, name.chars_ne_nil⟩
  constructor
  · intro h
    obtain ⟨key, hmem, hsame⟩ := mem_names.1 h
    obtain ⟨hlist, -, -⟩ := childName?_eq_some_iff.1 hsame
    rw [← hkey] at hlist
    rw [present, entry?, ← String.toList_injective hlist]
    exact Dictionary.mem_keys_iff.1 hmem
  · exact fun h => mem_names.2 ⟨_, Dictionary.mem_keys_iff.2 h, hchild⟩

namespace WellFormed

variable {t t' : Tree}

theorem exists_place (h : t.WellFormed) {key : String} (hkey : (t.get? key).isSome) :
    ∃ p : Place, p.Plain ∧ p.path.text = key := by
  obtain ⟨p, -, htext, hplain⟩ := h.canonical key (Dictionary.mem_keys_iff.2 hkey)
  exact ⟨p, hplain, htext⟩

theorem kind?_of_dirKey? (h : t.WellFormed) {key above : String} (hkey : (t.get? key).isSome)
    (habove : dirKey? key = some above) : t.kind? above = some true :=
  h.inDir key (Dictionary.mem_keys_iff.2 hkey) above habove

/-- The key of the directory of what is there, by whatever path that is reached. -/
theorem key_of_entry (h : t.WellFormed) {dir : Place} {name : Name} (hname : '\\' ∉ name.chars)
    (hthere : (t.get? (Place.entry dir name).path.key).isSome) :
    dir.path.key = if slashed dir.stem = [] then "/" else String.ofList (slashed dir.stem) := by
  have hdir := h.kind?_of_dirKey? hthere (dirKey?_eq (Place.toList_key_entry dir hname)
    name.slash_not_mem_chars name.chars_ne_nil)
  cases dir with
  | root => decide
  | entry above n =>
    have hne : slashed (Place.entry above n).stem ≠ [] := by
      simp [slashed, Place.stem_entry_ne_nil]
    rw [if_neg hne] at hdir ⊢
    -- a canonical path does not end in a slash, so it is the key
    obtain ⟨q, -, hq⟩ := h.exists_place (isSome_of_kind? hdir)
    have hlist : q.path.text.toList = slashed (Place.entry above n).stem := by
      rw [hq, String.toList_ofList]
    have hlast : (slashed (Place.entry above n).stem).reverse.head? ≠ some '/' := by
      rw [List.head?_reverse, ← hlist]
      cases q with
      | root =>
        have hlen := congrArg List.length hlist
        have hpos := List.length_pos_iff.2 n.chars_ne_nil
        have hone : Place.root.path.text.toList.length = 1 := rfl
        simp only [hone, slashed, Place.stem, List.length_map, List.length_append,
          List.length_cons] at hlen
        omega
      | entry d m =>
        rw [Place.getLast?_path_entry]
        exact m.getLast?_chars_ne
    refine String.toList_injective ?_
    rw [Path.toList_key_eq, Place.toList_path_entry, ← Place.stem, dropSlashes_of_head? hlast,
      List.reverse_reverse, String.toList_ofList]

/-- What is there lies in a directory, by whatever path that is reached. -/
theorem kind?_of_entry (h : t.WellFormed) {dir : Place} {name : Name}
    (hname : '\\' ∉ name.chars) (hthere : (t.get? (Place.entry dir name).path.key).isSome) :
    t.kind? dir.path.key = some true := by
  have hdir := h.kind?_of_dirKey? hthere (dirKey?_eq (Place.toList_key_entry dir hname)
    name.slash_not_mem_chars name.chars_ne_nil)
  rw [h.key_of_entry hname hthere]
  exact hdir

/-- Above what is there, all is there, and all are directories. -/
theorem kind?_of_down (h : t.WellFormed) {p : Place} {ns : List Name}
    (hns : ∀ n ∈ ns, '\\' ∉ n.chars) (hne : ns ≠ [])
    (hthere : (t.get? (p.down ns).path.key).isSome) : t.kind? p.path.key = some true := by
  induction ns generalizing p with
  | nil => exact absurd rfl hne
  | cons n ns ih =>
    have hchild : (t.get? (Place.entry p n).path.key).isSome := by
      by_cases hlast : ns = []
      · subst hlast
        exact hthere
      · exact isSome_of_kind? (ih (fun x hx => hns x (List.mem_cons_of_mem n hx)) hlast hthere)
    exact h.kind?_of_entry (hns n List.mem_cons_self) hchild

/-! ## 3. What is listed -/

/-- What is listed in a directory are names, without backslashes. -/
theorem name_of_mem_names (h : t.WellFormed) {dir text : String} (hmem : text ∈ t.names dir) :
    ∃ name : Name, name.text = text ∧ '\\' ∉ name.chars := by
  obtain ⟨key, hkey, hchild⟩ := mem_names.1 hmem
  obtain ⟨front, hfront, hslash, hne⟩ := exists_front_of_childName? hchild
  obtain ⟨p, hplain, rfl⟩ := h.exists_place (Dictionary.mem_keys_iff.1 hkey)
  cases p with
  | root =>
    have hlen := congrArg List.length hfront
    have hpos := List.length_pos_iff.2 hne
    have hone : Place.root.path.text.toList.length = 1 := rfl
    simp only [hone, List.length_append, List.length_cons] at hlen
    omega
  | entry d n =>
    have hcut := cutKey?_eq hfront hslash
    rw [cutKey?_eq (Place.toList_path_entry d n) n.slash_not_mem_chars] at hcut
    have hname : n.chars = text.toList := (Prod.mk.inj (Option.some.inj hcut)).2
    exact ⟨n, String.toList_injective hname, hplain n (by simp [Place.names])⟩

/-- What is there is listed in its directory. -/
theorem mem_names_of_entry (h : t.WellFormed) {dir : Place} {name : Name}
    (hname : '\\' ∉ name.chars) (hthere : (t.get? (Place.entry dir name).path.key).isSome) :
    name.text ∈ t.names dir.path.key := by
  have hroot : "/" ≠ String.ofList (slashed dir.stem) := by
    intro he
    have hlist : slashed dir.stem = ['/'] := by rw [← String.toList_ofList (l := slashed _), ← he]; rfl
    cases dir with
    | root => cases hlist
    | entry above n =>
      have hlen := congrArg List.length hlist
      have hpos := List.length_pos_iff.2 n.chars_ne_nil
      simp only [slashed, Place.stem, List.length_map, List.length_append, List.length_cons,
        List.length_nil] at hlen
      omega
  have hfront : childFront dir.path.key = slashed dir.stem ++ ['/'] := by
    rw [h.key_of_entry hname hthere, childFront]
    split
    · rename_i hempty
      rw [hempty, if_pos rfl]
      rfl
    · rw [if_neg (Ne.symm hroot), String.toList_ofList]
  refine mem_names.2 ⟨_, Dictionary.mem_keys_iff.2 hthere, ?_⟩
  rw [childName?_eq_some_iff, hfront, Place.toList_key_entry dir hname, List.append_assoc]
  exact ⟨rfl, name.slash_not_mem_chars, name.chars_ne_nil⟩

end WellFormed

/-! ## 4. Changes -/

section Changes

variable {t t' : Tree}

/-- Where no directory is missing, the one above is there. -/
theorem kind?_of_missingDir? {key above : String} (h : t.missingDir? key = none)
    (habove : dirKey? key = some above) : t.kind? above = some true := by
  rw [missingDir?, habove] at h
  dsimp only at h
  split at h
  · exact kind?_dir_iff.2 ‹_›
  · cases h

theorem missingDir?_of_write {p : Path} {content : ByteArray} (h : t.write p content = .ok t') :
    t.missingDir? p.key = none := by
  unfold Tree.write at h
  split at h
  · cases h
  · rename_i hmissing
    exact hmissing

theorem missingDir?_of_makeDir {p : Path} (h : t.makeDir p = .ok t') :
    t.missingDir? p.key = none := by
  unfold Tree.makeDir at h
  split at h
  · cases h
  · split at h
    · cases h
    · rename_i hmissing
      exact hmissing

theorem missingDir?_of_rename {source target : Path} (h : t.rename source target = .ok t') :
    t.missingDir? target.key = none := by
  unfold Tree.rename at h
  split at h
  · cases h
  · rename_i hmissing
    exact hmissing

end Changes

namespace WellFormed

variable {t t' : Tree}

/-- A tree stays well formed if only one key is new and lies in a directory, and no directory
is lost. -/
theorem put (h : t.WellFormed) {key : String} {e : Entry} (hcanonical : CanonicalKey key)
    (hdir : t.missingDir? key = none) (hnew : t'.get? key = some e)
    (hfree : t.get? key ≠ some .dir ∨ e = .dir)
    (hold : ∀ k, key ≠ k → t'.get? k = t.get? k ∨ t'.get? k = none ∧ t.get? k ≠ some .dir) :
    t'.WellFormed := by
  have hlasts : ∀ k, t.kind? k = some true → t'.kind? k = some true := by
    intro k hk
    rw [kind?_dir_iff] at hk ⊢
    by_cases hsame : key = k
    · subst hsame
      rw [hnew, hfree.resolve_left fun hne => hne hk]
    · rw [(hold k hsame).resolve_right fun hlost => hlost.2 hk, hk]
  have hthere : ∀ k ∈ t'.entries.keys, key = k ∨ k ∈ t.entries.keys := by
    intro k hk
    by_cases hsame : key = k
    · exact .inl hsame
    · refine .inr (Dictionary.mem_keys_iff.2 ?_)
      have hsome : (t'.get? k).isSome := Dictionary.mem_keys_iff.1 hk
      rcases hold k hsame with hkept | hlost
      · rw [hkept] at hsome
        exact hsome
      · rw [hlost.1] at hsome
        cases hsome
  refine ⟨fun k hk => ?_, fun k hk above habove => hlasts above ?_⟩
  · rcases hthere k hk with rfl | hk
    · exact hcanonical
    · exact h.canonical k hk
  · rcases hthere k hk with rfl | hk
    · exact kind?_of_missingDir? hdir habove
    · exact h.inDir k hk above habove

theorem write (h : t.WellFormed) {p : Path} {content : ByteArray} (hp : CanonicalKey p.key)
    (happly : t.write p content = .ok t') : t'.WellFormed := by
  obtain ⟨hfree, hget⟩ := get?_write happly
  exact h.put hp (missingDir?_of_write happly) (by rw [hget, if_pos rfl]) (.inl hfree) fun k hk =>
    .inl (by rw [hget, if_neg hk])

theorem makeDir (h : t.WellFormed) {p : Path} (hp : CanonicalKey p.key)
    (happly : t.makeDir p = .ok t') : t'.WellFormed := by
  obtain ⟨-, hget⟩ := get?_makeDir happly
  exact h.put hp (missingDir?_of_makeDir happly) (by rw [hget, if_pos rfl]) (.inr rfl) fun k hk =>
    .inl (by rw [hget, if_neg hk])

theorem rename (h : t.WellFormed) {source target : Path} (hp : CanonicalKey target.key)
    (happly : t.rename source target = .ok t') : t'.WellFormed := by
  obtain ⟨content, hsource, hfree, hget⟩ := get?_rename happly
  refine h.put hp (missingDir?_of_rename happly) (by rw [hget, if_pos rfl]) (.inl hfree) fun k hk => ?_
  rw [hget, if_neg hk]
  split
  · rename_i hsame
    exact .inr ⟨rfl, by rw [← hsame, hsource]; simp⟩
  · exact .inl rfl

end WellFormed

end Tree

end ShowTree
