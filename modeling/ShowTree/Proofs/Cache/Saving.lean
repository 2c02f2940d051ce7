/-
ShowTree.Proofs.Cache.Saving — writing records, and the links that are made of it.

Saving makes the directory for records, writes a draft and moves it into place, and stops
at the first of the three that is refused (`run_save`); on a watched tree that is one of
four courses (`saveCourse_of_run`, `triple_save_of_courses`). Linking an object to its prototype is then meeting
objects, and editing one record at a time that is saved at once; so what these two keep is
kept by linking too (`Steady.setProto`).
-/
import ShowTree.Proofs.Cache.Reading
import ShowTree.Proofs.FileSystem.Change
import ShowTree.Proofs.Layout.Sidecar

namespace ShowTree

variable {σ : Type} [FileSystem (StateM σ)]

/-! ## 1. Saving, step by step -/

namespace Cache

theorem run_makeRecordDir {file dir : Path} (hdir : file.parent? = some dir) (c : Cache) (s : σ) :
    ((makeRecordDir file : Work (StateM σ) Unit).run.run c).run s =
      let made := (FileSystem.makeDir dir : StateM σ _).run s
      match made.1 with
      | .ok () => ((.ok (), c), made.2)
      | .error e => ((if e.isTaken then .ok () else .error (.io dir e), c), made.2) := by
  rw [makeRecordDir, hdir]
  dsimp only
  rw [run_bind, run_query]
  dsimp only
  cases ((FileSystem.makeDir dir : StateM σ _).run s).1 with
  | ok _ => rfl
  | error e =>
    dsimp only
    split <;> rfl

/-- What saving a record comes to, step by step. -/
theorem run_save (p : Place) (c : Cache) (s : σ) :
    ((save p : Work (StateM σ) Unit).run.run c).run s =
      match c.node? p with
      | none => ((.ok (), c), s)
      | some n =>
        let file := c.layout.recordPath p.path n.stat.isDir
        let draft := Layout.draftPath file
        let made := ((makeRecordDir file : Work (StateM σ) Unit).run.run c).run s
        match made.1.1 with
        | .error e => ((.error e, made.1.2), made.2)
        | .ok () =>
          let written := (FileSystem.write draft n.record.encode.toUTF8 : StateM σ _).run made.2
          match written.1 with
          | .error e => ((.error (.io draft e), made.1.2), written.2)
          | .ok () =>
            let moved := (FileSystem.rename draft file : StateM σ _).run written.2
            ((moved.1.mapError (.io file), made.1.2), moved.2) := by
  rw [save, run_bind, run_get]
  dsimp only
  cases c.node? p with
  | none => rfl
  | some n =>
    dsimp only
    rw [run_bind, run_get]
    dsimp only
    rw [run_bind]
    rcases ((makeRecordDir (c.layout.recordPath p.path n.stat.isDir) : Work (StateM σ) Unit).run.run
      c).run s with ⟨⟨r, c₁⟩, s₁⟩
    cases r with
    | error e => rfl
    | ok _ =>
      dsimp only
      rw [run_bind, run_call]
      cases ((FileSystem.write (Layout.draftPath (c.layout.recordPath p.path n.stat.isDir))
          n.record.encode.toUTF8 : StateM σ _).run s₁).1 with
      | error e => rfl
      | ok _ =>
        dsimp only [Except.mapError]
        rw [run_call]
        rfl

/-- Saving keeps what the three changes it asks for keep. -/
theorem keeps_save_of_changes {I : Assertion σ}
    (hmakeDir : ∀ p c s, I c s → I c ((FileSystem.makeDir p : StateM σ _).run s).2)
    (hwrite : ∀ p content c s, I c s → I c ((FileSystem.write p content : StateM σ _).run s).2)
    (hrename : ∀ source target c s, I c s →
      I c ((FileSystem.rename source target : StateM σ _).run s).2) (p : Place) :
    Keeps I (save p : Work (StateM σ) Unit) := by
  have hdir : ∀ file, Keeps I (makeRecordDir file : Work (StateM σ) Unit) := by
    intro file
    unfold makeRecordDir
    split
    · exact Keeps.pure _
    · refine Keeps.bind (Keeps.query (hmakeDir _)) fun answer => ?_
      cases answer with
      | ok _ => exact Keeps.pure _
      | error e => exact Keeps.ite (Keeps.pure _) (Keeps.throw _)
  refine Keeps.bind Keeps.get fun c => ?_
  split
  · exact Keeps.pure _
  · refine Keeps.bind Keeps.get fun _ => Keeps.bind (hdir _) fun _ => ?_
    exact Keeps.bind (Keeps.call (hwrite _ _)) fun _ => Keeps.call (hrename _ _)

/-- Saving leaves the cache alone. -/
theorem keeps_save {J : Cache → Prop} (p : Place) :
    Keeps (fun c (_ : σ) => J c) (save p : Work (StateM σ) Unit) :=
  keeps_save_of_changes (fun _ _ _ h => h) (fun _ _ _ _ h => h) (fun _ _ _ _ h => h) p

end Cache

/-! ## 2. Saving in a watched tree -/

section Watched

open Watched

/-- The directory for records has been made, or there is something in its place. -/
inductive DirMade (w : Watched) (dir : Path) : Watched → Prop
  | new {t : Tree} (made : w.tree.makeDir dir = .ok t) : DirMade w dir (w.granted (.makeDir dir) t)
  | old {e : FileError} (taken : e.isTaken = true) : DirMade w dir (w.refused (.makeDir dir) e)

/-- How far saving the record of an object can come, with what becomes of the tree. -/
inductive SaveCourse (w : Watched) (dir draft file : Path) (content : ByteArray) :
    Except Failure Unit → Watched → Prop
  | noDir {e : FileError} (free : e.isTaken = false) :
    SaveCourse w dir draft file content (.error (.io dir e)) (w.refused (.makeDir dir) e)
  | noDraft {e : FileError} {w₁ : Watched} (made : DirMade w dir w₁) :
    SaveCourse w dir draft file content (.error (.io draft e)) (w₁.refused (.write draft content) e)
  | notMoved {e : FileError} {w₁ : Watched} {t : Tree} (made : DirMade w dir w₁)
    (written : w₁.tree.write draft content = .ok t) :
    SaveCourse w dir draft file content (.error (.io file e))
      ((w₁.granted (.write draft content) t).refused (.rename draft file) e)
  | saved {w₁ : Watched} {t t' : Tree} (made : DirMade w dir w₁)
    (written : w₁.tree.write draft content = .ok t) (moved : t.rename draft file = .ok t') :
    SaveCourse w dir draft file content (.ok ())
      ((w₁.granted (.write draft content) t).granted (.rename draft file) t')

/-- Making the directory changes nothing under any other key. -/
theorem DirMade.get?_eq {w w₁ : Watched} {dir : Path} (h : DirMade w dir w₁) {k : String}
    (hk : dir.key ≠ k) : w₁.tree.get? k = w.tree.get? k := by
  cases h with
  | new made => rw [granted, (Tree.get?_makeDir made).2, if_neg hk]
  | old taken => rfl

/-- What is there stays in its kind. -/
theorem DirMade.kind?_eq {w w₁ : Watched} {dir : Path} (h : DirMade w dir w₁) {k : String}
    {isDir : Bool} (hk : w.tree.kind? k = some isDir) : w₁.tree.kind? k = some isDir := by
  cases h with
  | new made => exact Tree.kind?_makeDir made hk
  | old taken => exact hk

namespace SaveCourse

variable {w w' : Watched} {dir draft file : Path} {content : ByteArray} {r : Except Failure Unit}

/-- Only when saving has succeeded is anything else there than before, but for the directory
and the draft, and then it is the record with its new content. -/
theorem get?_eq (h : SaveCourse w dir draft file content r w') {k : String} (hdir : dir.key ≠ k)
    (hdraft : draft.key ≠ k) : w'.tree.get? k =
      if r.isOk ∧ file.key = k then some (.file content) else w.tree.get? k := by
  cases h with
  | noDir free => rfl
  | noDraft made => exact made.get?_eq hdir
  | notMoved made written =>
    rw [refused, granted, (Tree.get?_write written).2, if_neg hdraft]
    exact made.get?_eq hdir
  | saved made written moved =>
    obtain ⟨_, hsource, -, hget⟩ := Tree.get?_rename moved
    rw [(Tree.get?_write written).2, if_pos rfl] at hsource
    obtain rfl := Entry.file.inj (Option.some.inj hsource)
    rw [granted, hget, if_neg hdraft, (Tree.get?_write written).2, if_neg hdraft,
      made.get?_eq hdir]
    simp [Except.isOk, Except.toBool]

/-- What is there stays in its kind, but for the draft, which may be moved away. -/
theorem kind?_eq (h : SaveCourse w dir draft file content r w') {k : String} {isDir : Bool}
    (hk : w.tree.kind? k = some isDir) (hdraft : draft.key ≠ k) :
    w'.tree.kind? k = some isDir := by
  cases h with
  | noDir free => exact hk
  | noDraft made => exact made.kind?_eq hk
  | notMoved made written => exact Tree.kind?_write written (made.kind?_eq hk)
  | saved made written moved =>
    exact Tree.kind?_rename moved hdraft (Tree.kind?_write written (made.kind?_eq hk))

/-- When saving has succeeded, the draft is gone. -/
theorem get?_draft (h : SaveCourse w dir draft file content (.ok ()) w')
    (hne : file.key ≠ draft.key) : w'.tree.get? draft.key = none := by
  cases h with
  | saved made written moved =>
    obtain ⟨_, -, -, hget⟩ := Tree.get?_rename moved
    rw [granted, hget, if_neg hne, if_pos rfl]

end SaveCourse

theorem run_makeRecordDir_cases {file dir : Path} (hdir : file.parent? = some dir) (c : Cache)
    (w : Watched) :
    (∃ w₁, DirMade w dir w₁ ∧
      ((Cache.makeRecordDir file : Work (StateM Watched) Unit).run.run c).run w =
        ((.ok (), c), w₁)) ∨
    ∃ e, e.isTaken = false ∧
      ((Cache.makeRecordDir file : Work (StateM Watched) Unit).run.run c).run w =
        ((.error (.io dir e), c), w.refused (.makeDir dir) e) := by
  rw [Cache.run_makeRecordDir hdir]
  dsimp only
  rcases run_attempt_cases (.makeDir dir) w with ⟨t, ht, hrun⟩ | ⟨e, hrun⟩
  · rw [show (FileSystem.makeDir dir : StateM Watched _).run w = _ from hrun]
    exact .inl ⟨_, .new ht, rfl⟩
  · rw [show (FileSystem.makeDir dir : StateM Watched _).run w = _ from hrun]
    dsimp only
    cases htaken : e.isTaken with
    | true => exact .inl ⟨_, .old htaken, rfl⟩
    | false => exact .inr ⟨e, htaken, rfl⟩

/-- Saving the record of an object that has been met takes one of these courses. -/
theorem saveCourse_of_run {c : Cache} (hlayout : c.layout = .default) {p : Place} {n : Node}
    (hn : c.node? p = some n) (w : Watched) :
    ∃ r w', ((Cache.save p : Work (StateM Watched) Unit).run.run c).run w = ((r, c), w') ∧
      SaveCourse w (p.recordHolder n.stat.isDir).metaDir.path (p.draftPlace n.stat.isDir).path
        (p.recordPlace n.stat.isDir).path n.record.encode.toUTF8 r w' := by
  rw [Cache.run_save, hn, hlayout]
  dsimp only
  rw [Place.recordPath_path, Place.draftPath_path]
  rcases run_makeRecordDir_cases (Place.parent?_recordPlace p n.stat.isDir) c w with
    ⟨w₁, hmade, hrun⟩ | ⟨e, hfree, hrun⟩
  · rw [hrun]
    dsimp only
    rcases run_attempt_cases (.write (p.draftPlace n.stat.isDir).path n.record.encode.toUTF8) w₁
      with ⟨t, ht, hrun⟩ | ⟨e, hrun⟩
    · rw [show (FileSystem.write _ _ : StateM Watched _).run w₁ = _ from hrun]
      dsimp only
      rcases run_attempt_cases (.rename (p.draftPlace n.stat.isDir).path
        (p.recordPlace n.stat.isDir).path) (w₁.granted _ t) with ⟨t', ht', hrun⟩ | ⟨e, hrun⟩
      · rw [show (FileSystem.rename _ _ : StateM Watched _).run _ = _ from hrun]
        exact ⟨_, _, rfl, .saved hmade ht ht'⟩
      · rw [show (FileSystem.rename _ _ : StateM Watched _).run _ = _ from hrun]
        exact ⟨_, _, rfl, .notMoved hmade ht⟩
    · rw [show (FileSystem.write _ _ : StateM Watched _).run w₁ = _ from hrun]
      exact ⟨_, _, rfl, .noDraft hmade⟩
  · rw [hrun]
    exact ⟨_, _, rfl, .noDir hfree⟩

/-- Saving does nothing for an object that has not been met; otherwise it takes one of its
courses, so what is to hold after it is shown for these. -/
theorem triple_save_of_courses {P Q R : Assertion Watched} {p : Place}
    (hlayout : ∀ {c w}, P c w → c.layout = .default)
    (hunmet : ∀ {c w}, P c w → c.node? p = none → Q c w)
    (hcourse : ∀ {c n w r w'}, P c w → c.node? p = some n →
      SaveCourse w (p.recordHolder n.stat.isDir).metaDir.path (p.draftPlace n.stat.isDir).path
        (p.recordPlace n.stat.isDir).path n.record.encode.toUTF8 r w' →
      Outcome (fun _ => Q) (fun _ => R) r c w') :
    Triple P (Cache.save p) (fun _ => Q) (fun _ => R) := by
  intro c w hi
  cases hn : c.node? p with
  | none =>
    rw [Cache.run_save, hn]
    exact hunmet hi hn
  | some n =>
    obtain ⟨r, w', hrun, course⟩ := saveCourse_of_run (hlayout hi) hn w
    rw [hrun]
    exact hcourse hi hn course

end Watched

/-! ## 3. Linking -/

/-- A change of records that leaves their marks as roots of shows alone, makes no empty
reference to a prototype, and lists no instance twice. -/
structure Record.Proper (change : Record → Record) : Prop where
  mark : ∀ r, (change r).isShowRoot = r.isShowRoot
  proto : ∀ r : Record, r.proto ≠ some "" → (change r).proto ≠ some ""
  nodup : ∀ r : Record, r.instances.Nodup → (change r).instances.Nodup

theorem Record.proper_removeInstance (own : String) : Proper (·.removeInstance own) :=
  ⟨fun _ => rfl, fun _ h => h, fun _ h => h.filter _⟩

theorem Record.proper_addInstance (own : String) : Proper (·.addInstance own) := by
  constructor
  · intro r
    unfold addInstance
    split <;> rfl
  · intro r h
    unfold addInstance
    split <;> exact h
  · intro r h
    unfold addInstance
    split
    · exact h
    · rename_i hnew
      rw [List.nodup_append]
      refine ⟨h, by simp, ?_⟩
      rintro a ha b hb rfl
      exact hnew (List.contains_iff_mem.2 (List.mem_singleton.1 hb ▸ ha))

/-- Making an object refer to a prototype, as one from which nothing is made. -/
theorem Record.proper_link {reference : String} (h : reference ≠ "") :
    Proper fun r => { r with proto := some reference, instances := [] } :=
  ⟨fun _ => rfl, fun _ _ he => h (Option.some.inj he), fun _ _ => List.nodup_nil⟩

/-- An assertion that is kept by meeting an object, and by changing a record and saving it
at once. -/
structure Steady (I : Assertion σ) : Prop where
  meet : ∀ p, Keeps I (Cache.meet p)
  edit : ∀ p change, Record.Proper change →
    Keeps I (do modify (·.editRecord p change); Cache.save p : Work (StateM σ) Unit)

theorem reference?_ne_empty {showRoot : Place} {p : Path} {reference : String}
    (h : reference? showRoot p = some reference) : reference ≠ "" := by
  obtain ⟨parts, -, rfl⟩ := Option.map_eq_some_iff.1 h
  intro he
  have := congrArg String.toList he
  simp at this

namespace Steady

variable {I : Assertion σ}

theorem meetPath (h : Steady I) (p : Path) : Keeps I (Cache.meetPath p) :=
  Keeps.bind (Keeps.ofExcept _) fun place => Keeps.bind (h.meet place) fun _ => Keeps.pure _

/-- Changing a record and saving it, before anything else is done. -/
theorem editThen {α : Type} (h : Steady I) {p : Place} {change : Record → Record}
    (hchange : Record.Proper change) {rest : Unit → Work (StateM σ) α}
    (hrest : ∀ u, Keeps I (rest u)) :
    Keeps I (do modify (·.editRecord p change); let u ← Cache.save p; rest u) := by
  rw [← bind_assoc]
  exact Keeps.bind (h.edit p change hchange) hrest

theorem showRelative (h : Steady I) (p : Path) :
    Triple I (Cache.showRelative p) (fun reference c s => I c s ∧ reference ≠ "") (fun _ => I) := by
  refine Triple.bind (h.meetPath p) fun place => Triple.bind Keeps.get fun c => ?_
  split
  · rename_i reference hreference
    obtain ⟨above, -, habove⟩ := Option.bind_eq_some_iff.1 hreference
    exact Triple.pure fun _ _ hi => ⟨hi, reference?_ne_empty habove⟩
  · exact Keeps.throw _

theorem unlink (h : Steady I) (p : Place) (own : String) : Keeps I (Cache.unlink p own) := by
  refine Keeps.bind Keeps.get fun c => ?_
  split
  · exact Keeps.pure _
  · rename_i old _
    have hmeet : Keeps I (do
        let place ← Work.ofExcept ((← get).resolveReference old p)
        (Cache.meet place : Work (StateM σ) Unit)
        pure place) :=
      Keeps.bind Keeps.get fun _ => Keeps.bind (Keeps.ofExcept _) fun place =>
        Keeps.bind (h.meet place) fun _ => Keeps.pure _
    refine Keeps.bind (Keeps.attempt hmeet) fun found => ?_
    cases found with
    | ok place => exact h.edit place _ (Record.proper_removeInstance own)
    | error e => exact Keeps.ite (Keeps.pure _) (Keeps.throw _)

theorem setProto (h : Steady I) (p : Place) (proto : Path) : Keeps I (Cache.setProto p proto) := by
  refine Triple.bind (h.showRelative proto) fun reference => ?_
  refine Triple.of_fact fun hreference => ?_
  refine Keeps.bind ((h.showRelative p.path).imp (fun _ _ hi => hi) (fun _ _ _ hi => hi.1)
    fun _ _ _ hi => hi) fun own => ?_
  refine Keeps.bind (h.unlink p own) fun _ => ?_
  refine h.editThen (Record.proper_link hreference) fun _ => ?_
  exact Keeps.bind (h.meetPath proto) fun place => h.edit place _ (Record.proper_addInstance own)

end Steady

end ShowTree
