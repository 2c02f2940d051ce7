/-
ShowTree.Proofs.Prototype.Standing — what saving a record does to everything else.

Saving a record makes at most a directory for metadata and a draft, and moves the draft
into place. So at every moment of it each record is the old one, or is the one that is
saved (`SaveCourse.effect`), and everything stays in its kind, but that a file may go and
come back where drafts are written (`Tree.Fixed`). What is no such file, nor below one, is as
sure to be there later as it is now (`Tree.Standing`).
-/
import ShowTree.Proofs.Cache.Saving
import ShowTree.Proofs.Cache.Truthful

namespace ShowTree

/-! ## 1. Where drafts are written -/

namespace Place

/-- The place is one at which drafts are written. -/
def IsDraft (p : Place) : Prop :=
  ∃ q isDir, p = draftPlace q isDir

/-- What is at the place in this kind stays there: only a file that is at the place of a
draft is moved away. -/
def Lasts (p : Place) (isDir : Bool) : Prop :=
  p.IsDraft → isDir = true

theorem not_isDraft_of_metaName_not_mem {p : Place} (h : Layout.metaName ∉ p.names) :
    ¬ p.IsDraft := by
  rintro ⟨q, isDir, rfl⟩
  exact h (metaName_mem_below _ _)

end Place

/-! ## 2. Kinds that last -/

namespace Tree

/-- The object is there in this kind, or it is a draft that is gone. -/
def Fixed (t : Tree) (p : Place) (isDir : Bool) : Prop :=
  t.kind? p.path.key = some isDir ∨ t.kind? p.path.key = none ∧ isDir = false ∧ p.IsDraft

/-- The object is there, and so is all above it, and none of it will be moved away. -/
structure Standing (t : Tree) (p : Place) : Prop where
  plain : p.Plain
  there : ∀ a ∈ p.upward, ∃ isDir, t.kind? a.path.key = some isDir ∧ a.Lasts isDir

theorem Fixed.unique {t : Tree} {p : Place} {a b : Bool} (ha : t.Fixed p a) (hb : t.Fixed p b) :
    a = b := by
  rcases ha with ha | ⟨hnone, rfl, -⟩
  · rcases hb with hb | ⟨hnone, rfl, -⟩
    · rw [ha] at hb
      exact Option.some.inj hb
    · rw [ha] at hnone
      cases hnone
  · rcases hb with hb | ⟨-, rfl, -⟩
    · rw [hnone] at hb
      cases hb
    · rfl

theorem Fixed.kind? {t : Tree} {p : Place} {isDir : Bool} (h : t.Fixed p isDir)
    (hp : p.Lasts isDir) : t.kind? p.path.key = some isDir := by
  rcases h with h | ⟨-, hfile, hdraft⟩
  · exact h
  · rw [hp hdraft] at hfile
    cases hfile

theorem Standing.lasts {t : Tree} {p : Place} (h : t.Standing p) {isDir : Bool}
    (hkind : t.kind? p.path.key = some isDir) : p.Lasts isDir := by
  obtain ⟨b, hb, hlasts⟩ := h.there p p.self_mem_upward
  rw [hkind] at hb
  exact Option.some.inj hb ▸ hlasts

/-- Nothing happened to records and kinds. -/
structure Still (t t' : Tree) : Prop where
  record : ∀ (p : Place) isDir, p.Plain →
    t'.recordOf .default p.path isDir = t.recordOf .default p.path isDir
  fixed : ∀ (p : Place) isDir, p.Plain → t.Fixed p isDir → t'.Fixed p isDir

/-- One record was saved, and nothing happened to other records and to kinds. -/
structure Stored (t t' : Tree) (p : Place) (isDir : Bool) (r : Record) : Prop where
  record : t'.recordOf .default p.path isDir = .ok r
  others : ∀ (q : Place) b, q.Plain → p ≠ q ∨ isDir ≠ b →
    t'.recordOf .default q.path b = t.recordOf .default q.path b
  fixed : ∀ (q : Place) b, q.Plain → t.Fixed q b → t'.Fixed q b

variable {t t' t'' : Tree}

theorem Still.refl (t : Tree) : Still t t :=
  ⟨fun _ _ _ => rfl, fun _ _ _ h => h⟩

theorem Still.trans (h : Still t t') (h' : Still t' t'') : Still t t'' where
  record p isDir hp := (h'.record p isDir hp).trans (h.record p isDir hp)
  fixed p isDir hp hfixed := h'.fixed p isDir hp (h.fixed p isDir hp hfixed)

theorem Still.stored {p : Place} {isDir : Bool} {r : Record} (h : Still t t')
    (h' : Stored t' t'' p isDir r) : Stored t t'' p isDir r where
  record := h'.record
  others q b hq hne := (h'.others q b hq hne).trans (h.record q b hq)
  fixed q b hq hfixed := h'.fixed q b hq (h.fixed q b hq hfixed)

/-- What stands does so for as long as kinds last. -/
theorem Standing.of_fixed {p : Place} (h : t.Standing p)
    (hfixed : ∀ (q : Place) b, q.Plain → t.Fixed q b → t'.Fixed q b) : t'.Standing p where
  plain := h.plain
  there a ha := by
    obtain ⟨isDir, hkind, hlasts⟩ := h.there a ha
    exact ⟨isDir, (hfixed a isDir (h.plain.of_mem_upward ha) (.inl hkind)).kind? hlasts, hlasts⟩

/-! ## 3. The three steps of saving -/

theorem still_makeDir {dir : Place} (hdir : dir.Plain)
    (happly : t.makeDir dir.metaDir.path = .ok t') : Still t t' := by
  obtain ⟨-, hget⟩ := get?_makeDir happly
  refine ⟨fun p isDir hp => recordOf_congr ?_, fun p isDir hp hfixed => ?_⟩
  · rw [hget, if_neg (Place.metaDir_key_ne_record hdir hp isDir)]
  · rcases hfixed with hkind | ⟨hnone, hfile, hdraft⟩
    · exact .inl (kind?_makeDir happly hkind)
    · refine .inr ⟨?_, hfile, hdraft⟩
      have hne : dir.metaDir.path.key ≠ p.path.key := by
        intro hkey
        obtain ⟨q, b, rfl⟩ := hdraft
        exact q.draftPlace_ne_metaDir dir b (Place.key_injective hdir.metaDir hp hkey).symm
      rw [kind?, hget, if_neg hne]
      exact hnone

theorem still_write {p : Place} {isDir : Bool} (hp : p.Plain) {content : ByteArray}
    (happly : t.write (p.draftPlace isDir).path content = .ok t') : Still t t' := by
  obtain ⟨-, hget⟩ := get?_write happly
  refine ⟨fun q b hq => recordOf_congr ?_, fun q b hq hfixed => ?_⟩
  · rw [hget, if_neg (Place.draft_key_ne_record hp hq isDir b)]
  · rcases hfixed with hkind | ⟨hnone, hfile, hdraft⟩
    · exact .inl (kind?_write happly hkind)
    · by_cases hkey : (p.draftPlace isDir).path.key = q.path.key
      · refine .inl ?_
        rw [kind?, hget, if_pos hkey, hfile]
        rfl
      · refine .inr ⟨?_, hfile, hdraft⟩
        rw [kind?, hget, if_neg hkey]
        exact hnone

theorem stored_rename {p : Place} {isDir : Bool} {r : Record} (hp : p.Plain)
    (hproto : r.proto ≠ some "")
    (hdraft : t.get? (p.draftPlace isDir).path.key = some (.file r.encode.toUTF8))
    (happly : t.rename (p.draftPlace isDir).path (p.recordPlace isDir).path = .ok t') :
    Stored t t' p isDir r := by
  obtain ⟨content, hcontent, -, hget⟩ := get?_rename happly
  obtain rfl : r.encode.toUTF8 = content := by
    rw [hdraft] at hcontent
    exact Entry.file.inj (Option.some.inj hcontent)
  refine ⟨recordOf_of_get? (by rw [hget, if_pos rfl]) hproto, fun q b hq hne => ?_,
    fun q b hq hfixed => ?_⟩
  · refine recordOf_congr ?_
    rw [hget, if_neg (Place.record_key_ne hp hq isDir b hne),
      if_neg (Place.draft_key_ne_record hp hq isDir b)]
  · by_cases hkey : (p.draftPlace isDir).path.key = q.path.key
    · -- the draft is gone, and counts as the file that it was
      obtain rfl : p.draftPlace isDir = q := Place.key_injective (hp.draftPlace isDir) hq hkey
      have hfile : t.Fixed (p.draftPlace isDir) false := .inl (by rw [kind?, hdraft]; rfl)
      refine .inr ⟨?_, hfixed.unique hfile, p, isDir, rfl⟩
      have hne : (p.recordPlace isDir).path.key ≠ (p.draftPlace isDir).path.key :=
        (Place.draft_key_ne_record hp hp isDir isDir).symm
      rw [kind?, hget, if_neg hne, if_pos rfl]
      rfl
    · rcases hfixed with hkind | ⟨hnone, hfile, hisDraft⟩
      · exact .inl (kind?_rename happly hkey hkind)
      · refine .inr ⟨?_, hfile, hisDraft⟩
        have hne : (p.recordPlace isDir).path.key ≠ q.path.key := by
          intro hrecord
          obtain ⟨x, b', rfl⟩ := hisDraft
          exact p.recordPlace_ne_draftPlace x isDir b'
            (Place.key_injective (hp.recordPlace isDir) hq hrecord)
        rw [kind?, hget, if_neg hne, if_neg hkey]
        exact hnone

end Tree

/-! ## 4. The courses of saving -/

/-- At every moment between two states of a watched tree, `P` holds of the tree. -/
def Moments (P : Tree → Prop) (w w' : Watched) : Prop :=
  ∀ a ∈ w'.log, a ∈ w.log ∨ P a.after

namespace Moments

variable {P : Tree → Prop} {w w' : Watched} {change : Change}

theorem refl (w : Watched) : Moments P w w :=
  fun _ ha => .inl ha

theorem granted {t : Tree} (h : Moments P w w') (ht : P t) :
    Moments P w (w'.granted change t) := by
  intro a ha
  rcases List.mem_cons.1 ha with rfl | ha
  · exact .inr ht
  · exact h a ha

theorem refused {e : FileError} (h : Moments P w w') (ht : P w'.tree) :
    Moments P w (w'.refused change e) := by
  intro a ha
  rcases List.mem_cons.1 ha with rfl | ha
  · exact .inr ht
  · exact h a ha

end Moments

/-- Making the directory for records leaves records and kinds alone. -/
theorem DirMade.still {w w' : Watched} {dir : Place} (hdir : dir.Plain)
    (made : DirMade w dir.metaDir.path w') :
    Tree.Still w.tree w'.tree ∧ Moments (Tree.Still w.tree) w w' := by
  cases made with
  | new made =>
    have hstill := Tree.still_makeDir hdir made
    exact ⟨hstill, (Moments.refl w).granted hstill⟩
  | old taken => exact ⟨.refl _, (Moments.refl w).refused (.refl _)⟩

/-- At every moment of saving a record, either nothing happened to records and kinds, or
this record was saved; and the latter is so in the end if saving succeeded. -/
theorem SaveCourse.effect {w w' : Watched} {p : Place} {isDir : Bool} {r : Record}
    {result : Except Failure Unit} (hp : p.Plain) (hproto : r.proto ≠ some "")
    (course : SaveCourse w (p.recordHolder isDir).metaDir.path (p.draftPlace isDir).path
      (p.recordPlace isDir).path r.encode.toUTF8 result w') :
    Moments (fun t => Tree.Still w.tree t ∨ Tree.Stored w.tree t p isDir r) w w' ∧
      match result with
      | .ok () => Tree.Stored w.tree w'.tree p isDir r
      | .error _ => Tree.Still w.tree w'.tree := by
  have hmade : ∀ {w₁}, DirMade w (p.recordHolder isDir).metaDir.path w₁ →
      Tree.Still w.tree w₁.tree ∧
        Moments (fun t => Tree.Still w.tree t ∨ Tree.Stored w.tree t p isDir r) w w₁ := by
    intro w₁ made
    obtain ⟨hstill, hlog⟩ := made.still (hp.recordHolder isDir)
    exact ⟨hstill, fun a ha => (hlog a ha).imp id .inl⟩
  have hwritten : ∀ {t t'}, t.write (p.draftPlace isDir).path r.encode.toUTF8 = .ok t' →
      Tree.Still t t' ∧ t'.get? (p.draftPlace isDir).path.key = some (.file r.encode.toUTF8) := by
    intro t t' written
    exact ⟨Tree.still_write hp written, by rw [(Tree.get?_write written).2, if_pos rfl]⟩
  cases course with
  | noDir free => exact ⟨(Moments.refl w).refused (.inl (.refl _)), .refl _⟩
  | noDraft made =>
    obtain ⟨hstill, hlog⟩ := hmade made
    exact ⟨hlog.refused (.inl hstill), hstill⟩
  | notMoved made written =>
    obtain ⟨hstill, hlog⟩ := hmade made
    have hdraft := hstill.trans (hwritten written).1
    exact ⟨(hlog.granted (.inl hdraft)).refused (.inl hdraft), hdraft⟩
  | saved made written moved =>
    obtain ⟨hstill, hlog⟩ := hmade made
    have hdraft := hstill.trans (hwritten written).1
    have hstored := hdraft.stored (Tree.stored_rename hp hproto (hwritten written).2 moved)
    exact ⟨(hlog.granted (.inl hdraft)).granted (.inr hstored), hstored⟩

end ShowTree
