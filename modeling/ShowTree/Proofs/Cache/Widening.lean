/-
ShowTree.Proofs.Cache.Widening — what a tree gains when records are saved.

A session takes no directory away, and saving a record makes one at most, for metadata
(`Tree.Widened`). All else that it puts in are files. The directory above what is put in was
there, so a tree that is well formed stays so, whatever the name of the object is, even one
with backslashes in it (`canonicalKey_of_saving`, `Making.save`). And what has been there is
there still, unless it was moved away (`Watched.Holds`).
-/
import ShowTree.Proofs.Cache.Agreement
import ShowTree.Proofs.Cache.Saving
import ShowTree.Proofs.FileSystem.Building
import ShowTree.Proofs.Selector.Shape

namespace ShowTree

/-! ## 1. Keys below a directory that is there -/

theorem not_mem_slashed (cs : List Char) : '\\' ∉ slashed cs := by
  intro h
  obtain ⟨c, -, hc⟩ := List.mem_map.1 h
  split at hc
  · cases hc
  · rename_i hne
    exact hne hc

/-- What comes before the last slash of a text, and what comes after it. -/
theorem exists_last_piece {cs : List Char} (h : '/' ∈ cs) :
    ∃ front back, cs = front ++ '/' :: back ∧ '/' ∉ back := by
  obtain ⟨back, front, hcs, hback⟩ := List.eq_append_cons_of_mem (List.mem_reverse.2 h)
  refine ⟨front.reverse, back.reverse, ?_, by simpa using hback⟩
  rw [← List.reverse_reverse cs, hcs]
  simp

namespace Place

theorem two_le_length_stem {p : Place} (h : p ≠ .root) : 2 ≤ (slashed p.stem).length := by
  cases p with
  | root => exact absurd rfl h
  | entry dir name =>
    have hpos := List.length_pos_iff.2 name.chars_ne_nil
    simp only [slashed, stem, List.length_map, List.length_append, List.length_cons]
    omega

theorem slashed_stem_ne (p : Place) : slashed p.stem ≠ ['/'] := by
  intro he
  by_cases hroot : p = .root
  · subst hroot
    cases he
  · have hlen := two_le_length_stem hroot
    rw [he] at hlen
    exact absurd hlen (by decide)

theorem stem_ne_slash (q : Place) : q.stem ≠ ['/'] := by
  have hslashed := q.slashed_stem_ne
  intro he
  rw [he] at hslashed
  exact hslashed rfl

/-- A place is told from its path by the characters before the next slash. -/
theorem stem_eq_of_text {q : Place} {front : List Char} (hfront : front ≠ ['/'])
    (h : q.path.text = if front = [] then "/" else String.ofList front) : q.stem = front := by
  rw [text_path_eq_stem] at h
  by_cases hq : q.stem = [] <;> by_cases hfront' : front = []
  · rw [hq, hfront']
  · rw [if_pos hq, if_neg hfront'] at h
    exact absurd (by rw [← String.toList_ofList (l := front), ← h]; rfl) hfront
  · rw [if_neg hq, if_pos hfront'] at h
    exact absurd (by rw [← String.toList_ofList (l := q.stem), h]; rfl) q.stem_ne_slash
  · rw [if_neg hq, if_neg hfront'] at h
    rw [← String.toList_ofList (l := q.stem), h, String.toList_ofList]

/-- The last piece of a name between slashes and backslashes is a name, if it ends in neither of
these nor in a dot. -/
theorem exists_last_piece_of_name {name : Name} {c : Char} (hlast : name.chars.getLast? = some c)
    (hdot : c ≠ '.') (hback : c ≠ '\\') :
    ∃ front back : List Char, '/' :: slashed name.chars = front ++ '/' :: back ∧
      back.getLast? = some c ∧ IsName (String.ofList back) := by
  have hslashedLast : (slashed name.chars).getLast? = some c := by
    rw [slashed, List.getLast?_map, hlast, Option.map_some, if_neg hback]
  obtain ⟨front, back, hsplit, hslash⟩ :=
    exists_last_piece (List.mem_cons_self (a := '/') (l := slashed name.chars))
  have hbackLast : back.getLast? = some c := by
    have hboth := congrArg List.getLast? hsplit
    rw [List.getLast?_cons, hslashedLast, List.getLast?_append, List.getLast?_cons] at hboth
    cases hb : back.getLast? with
    | none =>
      rw [hb] at hboth
      have hslash : c = '/' := Option.some.inj hboth
      exact absurd (hslash ▸ hlast) name.getLast?_chars_ne
    | some d =>
      rw [hb] at hboth
      exact hboth.symm
  refine ⟨front, back, hsplit, hbackLast, Segment.isName_of_piece ?_ ?_ ?_ hslash⟩ <;> rintro rfl
  · cases hbackLast
  · exact hdot (Option.some.inj hbackLast).symm
  · exact hdot (Option.some.inj hbackLast).symm

/-- The key of an entry ends in a name, if the last character of the entry's own name is neither
a dot nor a backslash. -/
theorem exists_last_name {dir : Place} {name : Name} {c : Char} (hlast : name.chars.getLast? = some c)
    (hdot : c ≠ '.') (hback : c ≠ '\\') (hdir : dir ≠ .root ∨ '\\' ∉ name.chars) :
    ∃ (front : List Char) (last : Name), (entry dir name).path.key.toList = front ++ '/' :: last.chars ∧
      '\\' ∉ last.chars ∧ front ≠ ['/'] := by
  by_cases hname : '\\' ∈ name.chars
  · obtain ⟨front, back, hsplit, hbackLast, hisName⟩ := exists_last_piece_of_name hlast hdot hback
    have htext : slashed (entry dir name).path.text.toList =
        slashed dir.stem ++ front ++ '/' :: back := by
      rw [toList_path_entry, slashed_append, slashed_cons, if_neg (by decide), hsplit,
        List.append_assoc]
    have hplain : '\\' ∉ back := by
      have hnone := not_mem_slashed (entry dir name).path.text.toList
      rw [htext] at hnone
      exact fun hmem => hnone (by simp [hmem])
    refine ⟨slashed dir.stem ++ front, ⟨_, hisName⟩, ?_, by simpa [Name.chars] using hplain, ?_⟩
    · have hhead : (slashed (entry dir name).path.text.toList).reverse.head? ≠ some '/' := by
        rw [htext, List.head?_reverse, List.getLast?_append, List.getLast?_cons, hbackLast]
        exact fun e => name.getLast?_chars_ne (Option.some.inj e ▸ hlast)
      rw [Path.toList_key_eq, dropSlashes_of_head? hhead, List.reverse_reverse, htext]
      simp [Name.chars]
    · intro he
      have hlen := two_le_length_stem (hdir.resolve_right (not_not_intro hname))
      have hlen' := congrArg List.length he
      simp only [List.length_append, List.length_singleton] at hlen'
      omega
  · exact ⟨slashed dir.stem, name, toList_key_entry dir hname, hname, dir.slashed_stem_ne⟩

end Place

namespace Tree

variable {t t' : Tree}

/-- A key is canonical if it ends in a name, and what comes before is the key of a directory that
is there. -/
theorem WellFormed.canonicalKey (h : t.WellFormed) {key : String} {front : List Char} {name : Name}
    (hkey : key.toList = front ++ '/' :: name.chars) (hname : '\\' ∉ name.chars)
    (hfront : front ≠ ['/']) (hdir : t.missingDir? key = none) : CanonicalKey key := by
  have habove := kind?_of_missingDir? hdir
    (dirKey?_eq hkey name.slash_not_mem_chars name.chars_ne_nil)
  obtain ⟨q, hq, htext⟩ := h.exists_place (isSome_of_kind? habove)
  have hstem := Place.stem_eq_of_text hfront htext
  have hentry : (Place.entry q name).path.key = key := by
    refine String.toList_injective ?_
    rw [Place.key_path (hq.entry hname), Place.toList_path_entry, hstem, hkey]
  exact hentry ▸ (hq.entry hname).canonicalKey

theorem WellFormed.canonicalKey_entry (h : t.WellFormed) {dir : Place} {name : Name} {c : Char}
    (hlast : name.chars.getLast? = some c) (hdot : c ≠ '.') (hback : c ≠ '\\')
    (hroot : dir ≠ .root ∨ '\\' ∉ name.chars)
    (hdir : t.missingDir? (Place.entry dir name).path.key = none) :
    CanonicalKey (Place.entry dir name).path.key := by
  obtain ⟨front, last, hkey, hplain, hfront⟩ := Place.exists_last_name hlast hdot hback hroot
  exact h.canonicalKey hkey hplain hfront hdir

/-! ## 2. Changes in general -/

theorem missingDir?_of_apply {change : Change} (h : change.apply t = .ok t') :
    t.missingDir? change.target.key = none := by
  cases change with
  | write p content =>
    rw [Change.apply] at h
    exact missingDir?_of_write h
  | makeDir p =>
    rw [Change.apply] at h
    exact missingDir?_of_makeDir h
  | rename source target =>
    rw [Change.apply] at h
    exact missingDir?_of_rename h

theorem WellFormed.apply (h : t.WellFormed) {change : Change}
    (hkey : CanonicalKey change.target.key) (happly : change.apply t = .ok t') : t'.WellFormed := by
  cases change with
  | write p content =>
    rw [Change.apply] at happly
    exact h.write hkey happly
  | makeDir p =>
    rw [Change.apply] at happly
    exact h.makeDir hkey happly
  | rename source target =>
    rw [Change.apply] at happly
    exact h.rename hkey happly

/-- No change takes a directory away. -/
theorem kind?_apply {change : Change} (happly : change.apply t = .ok t') {key : String}
    (h : t.kind? key = some true) : t'.kind? key = some true := by
  cases change with
  | write p content =>
    rw [Change.apply] at happly
    exact kind?_write happly h
  | makeDir p =>
    rw [Change.apply] at happly
    exact kind?_makeDir happly h
  | rename source target =>
    rw [Change.apply] at happly
    obtain ⟨content, hsource, -⟩ := get?_rename happly
    refine kind?_rename happly (fun hkey => ?_) h
    rw [← hkey, kind?, hsource] at h
    cases h

/-- A change makes no directory but the one that it is to make. -/
theorem kind?_of_apply {change : Change} (happly : change.apply t = .ok t') {key : String}
    (h : t'.kind? key = some true) :
    t.kind? key = some true ∨ ∃ p, change = .makeDir p ∧ p.key = key := by
  cases change with
  | write p content =>
    rw [Change.apply] at happly
    rw [kind?, (get?_write happly).2] at h
    split at h
    · cases h
    · exact .inl h
  | makeDir p =>
    rw [Change.apply] at happly
    rw [kind?, (get?_makeDir happly).2] at h
    split at h
    · rename_i hkey
      exact .inr ⟨p, rfl, hkey⟩
    · exact .inl h
  | rename source target =>
    rw [Change.apply] at happly
    obtain ⟨content, -, -, hget⟩ := get?_rename happly
    rw [kind?, hget] at h
    split at h
    · cases h
    · split at h
      · cases h
      · exact .inl h

/-- No directory is lost, and all that are new have such a key. -/
structure Widened (new : String → Prop) (t t' : Tree) : Prop where
  kept : ∀ {key}, t.kind? key = some true → t'.kind? key = some true
  made : ∀ {key}, t'.kind? key = some true → t.kind? key = some true ∨ new key

namespace Widened

variable {new : String → Prop} {t'' : Tree}

theorem refl (t : Tree) : Widened new t t :=
  ⟨fun h => h, .inl⟩

theorem apply (h : Widened new t t') {change : Change} (happly : change.apply t' = .ok t'')
    (hnew : ∀ p, change = .makeDir p → new p.key) : Widened new t t'' := by
  refine ⟨fun hkey => kind?_apply happly (h.kept hkey), fun hkey => ?_⟩
  rcases kind?_of_apply happly hkey with hold | ⟨p, hmake, rfl⟩
  · exact h.made hold
  · exact .inr (hnew p hmake)

end Widened

end Tree

/-! ## 3. Making objects in a watched tree -/

/-- Something is at a path, or what was there has been moved away. -/
def Watched.Holds (w : Watched) (p : Path) : Prop :=
  w.tree.present p = true ∨ p.key ∈ (movedAway w.log).map Path.key

theorem Watched.Holds.granted {w : Watched} {p : Path} (h : w.Holds p) {change : Change} {t : Tree}
    (happly : change.apply w.tree = .ok t) : (w.granted change t).Holds p := by
  rcases h with hthere | hmoved
  · have hkind : ∃ isDir, w.tree.kind? p.key = some isDir := by
      obtain ⟨e, he⟩ := Option.isSome_iff_exists.1 hthere
      exact ⟨e.isDir, by rw [Tree.kind?, Tree.get?, ← Tree.entry?, he]; rfl⟩
    obtain ⟨isDir, hkind⟩ := hkind
    cases change with
    | write q content =>
      rw [Change.apply] at happly
      exact .inl (Tree.isSome_of_kind? (Tree.kind?_write happly hkind))
    | makeDir q =>
      rw [Change.apply] at happly
      exact .inl (Tree.isSome_of_kind? (Tree.kind?_makeDir happly hkind))
    | rename source target =>
      rw [Change.apply] at happly
      by_cases hsource : source.key = p.key
      · exact .inr (hsource ▸ List.mem_cons_self)
      · exact .inl (Tree.isSome_of_kind? (Tree.kind?_rename happly hsource hkind))
  · cases change with
    | rename source target => exact .inr (List.mem_cons_of_mem _ hmoved)
    | _ => exact .inr hmoved

theorem Watched.Holds.refused {w : Watched} {p : Path} (h : w.Holds p) (change : Change)
    (e : FileError) : (w.refused change e).Holds p := by
  cases change <;> exact h

/-- What objects are made in: a well-formed tree that has been widened from `t`, and that holds
what has been made or was there. -/
structure Making (t : Tree) (new : String → Prop) (made : List Path) (w : Watched) : Prop where
  wellFormed : w.tree.WellFormed
  widened : t.Widened new w.tree
  holds : ∀ p ∈ made, w.Holds p

namespace Making

variable {t : Tree} {new : String → Prop} {made : List Path} {w w' : Watched}

theorem granted (h : Making t new made w) {change : Change} {t' : Tree}
    (happly : change.apply w.tree = .ok t') (hkey : Tree.CanonicalKey change.target.key)
    (hnew : ∀ p, change = .makeDir p → new p.key) : Making t new made (w.granted change t') where
  wellFormed := h.wellFormed.apply hkey happly
  widened := h.widened.apply happly hnew
  holds p hp := (h.holds p hp).granted happly

theorem refused (h : Making t new made w) (change : Change) (e : FileError) :
    Making t new made (w.refused change e) where
  wellFormed := h.wellFormed
  widened := h.widened
  holds p hp := (h.holds p hp).refused change e

theorem cons (h : Making t new made w) {p : Path} (hp : w.Holds p) : Making t new (p :: made) w :=
  ⟨h.wellFormed, h.widened, List.forall_mem_cons.2 ⟨hp, h.holds⟩⟩

theorem of_subset {made' : List Path} (h : Making t new made w) (hsubset : made' ⊆ made) :
    Making t new made' w :=
  ⟨h.wellFormed, h.widened, fun p hp => h.holds p (hsubset hp)⟩

end Making

/-! ## 4. Saving -/

/-- What saving a record asks for, if all is granted. -/
def Place.savingChanges (p : Place) (isDir : Bool) (content : ByteArray) : List Change :=
  [.makeDir (p.recordHolder isDir).metaDir.path, .write (p.draftPlace isDir).path content,
    .rename (p.draftPlace isDir).path (p.recordPlace isDir).path]

/-- Where these changes can be made, they put something under canonical keys. -/
theorem canonicalKey_of_saving {t t' : Tree} (h : t.WellFormed) {p : Place} {isDir : Bool}
    {content : ByteArray} {change : Change} (hchange : change ∈ p.savingChanges isDir content)
    (happly : change.apply t = .ok t') : Tree.CanonicalKey change.target.key := by
  have hdir := Tree.missingDir?_of_apply happly
  simp only [Place.savingChanges, List.mem_cons, List.not_mem_nil, or_false] at hchange
  rcases hchange with rfl | rfl | rfl
  · exact h.canonicalKey_entry (c := 'a') (by decide) (by decide) (by decide) (.inr (by decide)) hdir
  · exact h.canonicalKey_entry (Place.getLast?_append_draftEnding _) (by decide) (by decide)
      (.inl (by simp [Place.metaDir])) hdir
  · exact h.canonicalKey_entry (p.getLast?_recordName isDir) (by decide) (by decide)
      (.inl (by simp [Place.metaDir])) hdir

/-- What the three changes keep, granted or refused, is kept by saving. -/
theorem SaveCourse.keeps {K : Watched → Prop} {w w' : Watched} {dir draft file : Path}
    {content : ByteArray} {r : Except Failure Unit}
    (h : SaveCourse w dir draft file content r w')
    (hgranted : ∀ {w t} change, change ∈ [.makeDir dir, .write draft content, .rename draft file] →
      change.apply w.tree = .ok t → K w → K (w.granted change t))
    (hrefused : ∀ {w} change e, K w → K (w.refused change e)) (hw : K w) : K w' := by
  have hmade : ∀ {w₁}, DirMade w dir w₁ → K w₁ := by
    rintro w₁ (made | taken)
    · exact hgranted _ (by simp) made hw
    · exact hrefused _ _ hw
  cases h with
  | noDir free => exact hrefused _ _ hw
  | noDraft made => exact hrefused _ _ (hmade made)
  | notMoved made written => exact hrefused _ _ (hgranted _ (by simp) written (hmade made))
  | saved made written moved =>
    exact hgranted _ (by simp) moved (hgranted _ (by simp) written (hmade made))

/-- Saving makes no directories but those for metadata. -/
theorem Making.save {t : Tree} {new : String → Prop} {made : List Path} {w w' : Watched} {p : Place}
    {isDir : Bool} {content : ByteArray} {r : Except Failure Unit} (h : Making t new made w)
    (hnew : ∀ dir : Place, new dir.metaDir.path.key)
    (course : SaveCourse w (p.recordHolder isDir).metaDir.path (p.draftPlace isDir).path
      (p.recordPlace isDir).path content r w') : Making t new made w' := by
  refine course.keeps (fun change hchange happly hw => ?_) (fun change e hw => hw.refused change e) h
  refine hw.granted happly (canonicalKey_of_saving hw.wellFormed hchange happly) ?_
  rintro q rfl
  simp only [List.mem_cons, List.not_mem_nil, or_false, Change.makeDir.injEq, reduceCtorEq] at hchange
  exact hchange ▸ hnew _

end ShowTree
