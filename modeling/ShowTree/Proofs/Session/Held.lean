/-
ShowTree.Proofs.Session.Held — what was put in a tree is there afterwards.

No request takes a directory away or writes over it. A file is moved away or written over only when
a record is saved of which it is the draft, or the record itself. So what was put in the tree since
some moment is there as it was, or it was a file and one of the attempts since then was to save such
a record (`Watched.HoldsSince`), and this is so in particular of an empty object that was made
(`triple_createObject_made`).
-/
import ShowTree.Proofs.Session.Frame

namespace ShowTree

/-! ## 1. What is there since -/

/-- Whether an attempt was the last step of saving a record, and its draft or the record itself has
this key. -/
def Attempt.Saves (a : Attempt) (key : String) : Prop :=
  ∃ (p : Place) (isDir : Bool),
    a.change = .rename (p.draftPlace isDir).path (p.recordPlace isDir).path ∧
      (key = (p.draftPlace isDir).path.key ∨ key = (p.recordPlace isDir).path.key)

/-- What was put under a key since `w₀` is there, or it was a file and a record has been saved over
it or from it. -/
def Watched.HoldsSince (w w₀ : Watched) (key : String) (e : Entry) : Prop :=
  ∃ recent, w.log = recent ++ w₀.log ∧
    (w.tree.get? key = some e ∨ e.isDir = false ∧ ∃ a ∈ recent, a.Saves key)

namespace Watched.HoldsSince

variable {w w' w₀ : Watched} {key : String} {e : Entry}

/-- One attempt more, which leaves what is there unless it saves a record. -/
theorem step (h : w.HoldsSince w₀ key e) {a : Attempt} (hlog : w'.log = a :: w.log)
    (hthere : w.tree.get? key = some e → w'.tree.get? key = some e ∨ e.isDir = false ∧ a.Saves key) :
    w'.HoldsSince w₀ key e := by
  obtain ⟨recent, hrecent, hold | ⟨hfile, b, hb, hsaves⟩⟩ := h
  · refine ⟨a :: recent, by rw [hlog, hrecent, List.cons_append], ?_⟩
    exact (hthere hold).imp id fun hsaves => ⟨hsaves.1, a, List.mem_cons_self, hsaves.2⟩
  · refine ⟨a :: recent, by rw [hlog, hrecent, List.cons_append], .inr ⟨hfile, b, ?_, hsaves⟩⟩
    exact List.mem_cons_of_mem _ hb

theorem refused (h : w.HoldsSince w₀ key e) (change : Change) (err : FileError) :
    (w.refused change err).HoldsSince w₀ key e :=
  h.step rfl .inl

theorem granted (h : w.HoldsSince w₀ key e) {change : Change} {t : Tree}
    (hthere : w.tree.get? key = some e → t.get? key = some e) :
    (w.granted change t).HoldsSince w₀ key e :=
  h.step rfl fun hold => .inl (hthere hold)

end Watched.HoldsSince

/-! ## 2. Saving -/

namespace Tree

variable {t t' : Tree} {key : String} {e : Entry}

/-- Making a directory leaves what is there. -/
theorem get?_makeDir_of_some {p : Path} (happly : t.makeDir p = .ok t') (h : t.get? key = some e) :
    t'.get? key = some e := by
  obtain ⟨hnone, hget⟩ := get?_makeDir happly
  rw [hget, if_neg, h]
  rintro rfl
  rw [hnone] at h
  cases h

/-- Writing leaves directories, and files that are not written. -/
theorem get?_write_of_some {p : Path} {content : ByteArray} (happly : t.write p content = .ok t')
    (h : t.get? key = some e) (hne : e.isDir = false → key ≠ p.key) : t'.get? key = some e := by
  obtain ⟨hdir, hget⟩ := get?_write happly
  rw [hget, if_neg, h]
  rintro rfl
  cases e with
  | dir => exact hdir h
  | file content => exact hne rfl rfl

/-- Moving leaves directories, and files that are neither moved nor taken the place of. -/
theorem get?_rename_of_some {source target : Path} (happly : t.rename source target = .ok t')
    (h : t.get? key = some e) (hne : e.isDir = false → key ≠ source.key ∧ key ≠ target.key) :
    t'.get? key = some e := by
  obtain ⟨content, hsource, htarget, hget⟩ := get?_rename happly
  have hneither : key ≠ source.key ∧ key ≠ target.key := by
    cases e with
    | dir =>
      constructor
      · rintro rfl
        rw [hsource] at h
        cases h
      · rintro rfl
        exact htarget h
    | file content => exact hne rfl
  rw [hget, if_neg (Ne.symm hneither.2), if_neg (Ne.symm hneither.1), h]

end Tree

theorem SaveCourse.holdsSince {w w' w₀ : Watched} {key : String} {e : Entry} {p : Place}
    {isDir : Bool} {content : ByteArray} {r : Except Failure Unit}
    (course : SaveCourse w (p.recordHolder isDir).metaDir.path (p.draftPlace isDir).path
      (p.recordPlace isDir).path content r w') (h : w.HoldsSince w₀ key e) :
    w'.HoldsSince w₀ key e := by
  by_cases htouched : e.isDir = false ∧
      (key = (p.draftPlace isDir).path.key ∨ key = (p.recordPlace isDir).path.key)
  · -- the draft is written over the file before the attempt that tells of it
    obtain ⟨hfile, hkey⟩ := htouched
    have hmade : ∀ {w₁}, DirMade w (p.recordHolder isDir).metaDir.path w₁ →
        w₁.HoldsSince w₀ key e := by
      rintro w₁ (made | taken)
      · exact h.granted (Tree.get?_makeDir_of_some made)
      · exact h.refused _ _
    have hmoved : ∀ {w₁ w₂ : Watched} {a b : Attempt}, w₁.HoldsSince w₀ key e →
        w₂.log = a :: b :: w₁.log → a.Saves key → w₂.HoldsSince w₀ key e := by
      rintro w₁ w₂ a b ⟨recent, hrecent, -⟩ hlog hsaves
      refine ⟨a :: b :: recent, by rw [hlog, hrecent]; rfl, .inr ⟨hfile, a, ?_, hsaves⟩⟩
      exact List.mem_cons_self
    cases course with
    | noDir free => exact h.refused _ _
    | noDraft made => exact (hmade made).refused _ _
    | notMoved made written => exact hmoved (hmade made) rfl ⟨p, isDir, rfl, hkey⟩
    | saved made written moved => exact hmoved (hmade made) rfl ⟨p, isDir, rfl, hkey⟩
  · have hne : e.isDir = false →
        key ≠ (p.draftPlace isDir).path.key ∧ key ≠ (p.recordPlace isDir).path.key := fun hfile =>
      not_or.1 fun hkey => htouched ⟨hfile, hkey⟩
    refine course.keeps (K := fun w => w.HoldsSince w₀ key e) (fun change hchange happly hw => ?_)
      (fun change err hw => hw.refused change err) h
    simp only [List.mem_cons, List.not_mem_nil, or_false] at hchange
    rcases hchange with rfl | rfl | rfl <;> rw [Change.apply] at happly
    · exact hw.granted (Tree.get?_makeDir_of_some happly)
    · exact hw.granted fun hthere => Tree.get?_write_of_some happly hthere fun hfile => (hne hfile).1
    · exact hw.granted fun hthere => Tree.get?_rename_of_some happly hthere hne

/-! ## 3. Making objects -/

/-- Of a session: what was put in is there, or a record has been saved over it or from it. -/
def Holding (w₀ : Watched) (key : String) (e : Entry) : Assertion Watched :=
  fun c w => c.layout = .default ∧ w.HoldsSince w₀ key e

section Making

variable {kind : ObjectKind} {proto : Option String} {p : Path}

theorem sustained_holding (w₀ : Watched) (key : String) (e : Entry) :
    Sustained (fun w p st => w.tree.stat p = .ok st)
      (fun w p isDir r => w.tree.recordOf .default p isDir = .ok r) (Holding w₀ key e) :=
  Sustained.of_courses SaveCourse.holdsSince

/-- Making an object where there is nothing leaves what was put in before. -/
theorem triple_createObject_holding (w₀ : Watched) (key : String) (e : Entry) :
    Triple (fun c w => Holding w₀ key e c w ∧ w.tree.present p = false)
      (Session.createObject kind proto p) (fun _ => Holding w₀ key e)
      (fun _ => Holding w₀ key e) := by
  refine (sustained_holding w₀ key e).createObject (triple_makeEmpty_of_change
    (fun {c w t} hi happly => ⟨hi.1.1, hi.1.2.granted fun hthere => ?_⟩)
    fun err hi => ⟨hi.1.1, hi.1.2.refused _ err⟩) proto
  rw [ObjectKind.get?_of_change happly, if_neg, hthere]
  rintro rfl
  rw [Tree.get?_of_absent hi.2] at hthere
  cases hthere

/-- An empty object that was made is there afterwards. -/
theorem triple_createObject_made (w₀ : Watched) :
    Triple (fun c w => c.layout = .default ∧ w = w₀) (Session.createObject kind proto p)
      (fun _ => Holding w₀ p.key kind.entry) (fun _ _ _ => True) := by
  have hsustained := sustained_holding w₀ p.key kind.entry
  refine hsustained.steady.createObject (fun place => hsustained.reading fun hcalm =>
    hcalm.keeps_chooseProto place proto) (triple_makeEmpty_of_change ?_ fun _ _ => trivial)
    fun _ _ _ => trivial
  rintro c w t ⟨hlayout, rfl⟩ happly
  refine ⟨hlayout, [_], rfl, .inl ?_⟩
  rw [Watched.granted, ObjectKind.get?_of_change happly, if_pos rfl]

end Making

end ShowTree
