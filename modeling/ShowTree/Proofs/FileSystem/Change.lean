/-
ShowTree.Proofs.FileSystem.Change — what a tree holds after a change.

A change that was made puts one key in place, and a move takes one away besides; all other
keys are as they were (`get?_write`, `get?_makeDir`, `get?_rename`). No change makes a file
of a directory or the other way round (`kind?_write` and what follows it): an object keeps
its kind for as long as it is there, and only a move takes one away. An attempt on a
watched tree that was granted has made its change, and one that was not has made none
(`run_attempt_cases`).
-/
import ShowTree.FileSystem.Watched

namespace ShowTree

/-- Whether an object is a directory. -/
def Entry.isDir : Entry → Bool
  | .file _ => false
  | .dir => true

namespace Tree

variable {t t' : Tree}

/-- The object under a key. -/
def get? (t : Tree) (key : String) : Option Entry :=
  t.entries.get? key

/-- Whether the object is a directory, if there is one. -/
def kind? (t : Tree) (key : String) : Option Bool :=
  (t.get? key).map Entry.isDir

/-! ## 1. One change -/

theorem isDir_eq_false {p : Path} (h : t.isDir p = false) : t.get? p.key ≠ some .dir := by
  intro he
  rw [isDir, show t.entry? p = _ from he] at h
  exact absurd h (by simp)

theorem get?_of_absent {p : Path} (h : t.present p = false) : t.get? p.key = none := by
  have hnone : t.entry? p = none := by simpa [present] using h
  exact hnone

theorem get?_write {p : Path} {content : ByteArray} (h : t.write p content = .ok t') :
    t.get? p.key ≠ some .dir ∧
      ∀ k, t'.get? k = if p.key = k then some (.file content) else t.get? k := by
  unfold write at h
  split at h
  · cases h
  · cases hdir : t.isDir p with
    | true => simp [hdir] at h
    | false =>
      rw [hdir, if_neg Bool.false_ne_true] at h
      cases h
      exact ⟨isDir_eq_false hdir, fun k => Dictionary.get?_insert _ _ _ _⟩

theorem get?_makeDir {p : Path} (h : t.makeDir p = .ok t') :
    t.get? p.key = none ∧ ∀ k, t'.get? k = if p.key = k then some .dir else t.get? k := by
  unfold makeDir at h
  cases hp : t.present p with
  | true => simp [hp] at h
  | false =>
    rw [hp, if_neg Bool.false_ne_true] at h
    split at h
    · cases h
    · cases h
      exact ⟨get?_of_absent hp, fun k => Dictionary.get?_insert _ _ _ _⟩

theorem get?_rename {source target : Path} (h : t.rename source target = .ok t') :
    ∃ content, t.get? source.key = some (.file content) ∧ t.get? target.key ≠ some .dir ∧
      ∀ k, t'.get? k = if target.key = k then some (.file content)
        else if source.key = k then none else t.get? k := by
  unfold rename at h
  split at h
  · cases h
  · split at h
    · cases h
    · cases h
    · rename_i content hsource
      cases hdir : t.isDir target with
      | true => simp [hdir] at h
      | false =>
        rw [hdir, if_neg Bool.false_ne_true] at h
        cases h
        refine ⟨content, hsource, isDir_eq_false hdir, fun k => ?_⟩
        rw [get?, Dictionary.get?_insert, Dictionary.get?_erase]
        rfl

/-! ## 2. What is asked of a tree -/

/-- What reading answers depends on the object under the key alone. -/
theorem read_congr {p : Path} (h : t'.get? p.key = t.get? p.key) : t'.read p = t.read p := by
  rw [read, read, show t'.entry? p = t.entry? p from h]

theorem read_eq_of_get? {p : Path} {content : ByteArray}
    (h : t.get? p.key = some (.file content)) : t.read p = .ok content := by
  rw [read, show t.entry? p = _ from h]

/-- A tree knows about an object what it is, and about no other. -/
theorem stat_eq_of_get? {p : Path} {e : Entry} (h : t.get? p.key = some e) :
    ∃ st, t.stat p = .ok st ∧ st.isDir = e.isDir := by
  rw [stat, show t.entry? p = some e from h]
  cases e with
  | file content => exact ⟨_, rfl, rfl⟩
  | dir => exact ⟨_, rfl, rfl⟩

theorem kind?_eq_some_iff {p : Path} {isDir : Bool} :
    t.kind? p.key = some isDir ↔ ∃ st, t.stat p = .ok st ∧ st.isDir = isDir := by
  cases he : t.get? p.key with
  | none =>
    rw [kind?, he, stat, show t.entry? p = none from he]
    simp
  | some e =>
    obtain ⟨st, hst, hdir⟩ := stat_eq_of_get? he
    rw [kind?, he, hst, Option.map_some, Option.some.injEq, ← hdir]
    constructor
    · intro h
      exact ⟨st, rfl, h⟩
    · rintro ⟨st', hst', h⟩
      rw [Except.ok.inj hst', h]

/-! ## 3. Kinds -/

/-- What is there and is no directory is a file. -/
theorem kind?_eq_false {key : String} {isDir : Bool} (h : t.get? key ≠ some .dir)
    (hk : t.kind? key = some isDir) : isDir = false := by
  obtain ⟨e, he, rfl⟩ := Option.map_eq_some_iff.1 hk
  cases e with
  | file content => rfl
  | dir => exact absurd he h

theorem kind?_dir_iff {key : String} : t.kind? key = some true ↔ t.get? key = some .dir := by
  rw [kind?, Option.map_eq_some_iff]
  constructor
  · rintro ⟨e, he, hdir⟩
    cases e with
    | file content => cases hdir
    | dir => exact he
  · exact fun h => ⟨.dir, h, rfl⟩

theorem kind?_write {p : Path} {content : ByteArray} (h : t.write p content = .ok t') {k : String}
    {isDir : Bool} (hk : t.kind? k = some isDir) : t'.kind? k = some isDir := by
  obtain ⟨hdir, hget⟩ := get?_write h
  rw [kind?, hget]
  split
  · rename_i he
    subst he
    rw [kind?_eq_false hdir hk]
    rfl
  · exact hk

theorem kind?_makeDir {p : Path} (h : t.makeDir p = .ok t') {k : String} {isDir : Bool}
    (hk : t.kind? k = some isDir) : t'.kind? k = some isDir := by
  obtain ⟨hnone, hget⟩ := get?_makeDir h
  rw [kind?, hget]
  split
  · rename_i he
    subst he
    simp [kind?, hnone] at hk
  · exact hk

theorem kind?_rename {source target : Path} (h : t.rename source target = .ok t') {k : String}
    {isDir : Bool} (hne : source.key ≠ k) (hk : t.kind? k = some isDir) :
    t'.kind? k = some isDir := by
  obtain ⟨content, hsource, hdir, hget⟩ := get?_rename h
  rw [kind?, hget, if_neg hne]
  split
  · rename_i he
    subst he
    rw [kind?_eq_false hdir hk]
    rfl
  · exact hk

end Tree

/-! ## 4. Attempts -/

namespace Watched

/-- The watched tree after a change that was made. -/
def granted (w : Watched) (change : Change) (t : Tree) : Watched :=
  { w with tree := t, log := ⟨change, .ok (), t⟩ :: w.log }

/-- The watched tree after a change that was not. -/
def refused (w : Watched) (change : Change) (e : FileError) : Watched :=
  { w with log := ⟨change, .error e, w.tree⟩ :: w.log }

theorem run_attempt (change : Change) (w : Watched) :
    (attempt change).run w =
      let out := match w.refusal w.log.length with
        | some e => (Except.error e, w.tree)
        | none => Tree.change change.apply w.tree
      (out.1, { w with tree := out.2, log := ⟨change, out.1, out.2⟩ :: w.log }) :=
  rfl

/-- An attempt is either granted and makes its change, or refused and changes nothing. -/
theorem run_attempt_cases (change : Change) (w : Watched) :
    (∃ t, change.apply w.tree = .ok t ∧ (attempt change).run w = (.ok (), w.granted change t)) ∨
      ∃ e, (attempt change).run w = (.error e, w.refused change e) := by
  rw [run_attempt]
  cases w.refusal w.log.length with
  | some e => exact .inr ⟨e, rfl⟩
  | none =>
    dsimp only [Tree.change]
    cases change.apply w.tree with
    | ok t => exact .inl ⟨t, rfl, rfl⟩
    | error e => exact .inr ⟨e, rfl⟩

end Watched

end ShowTree
