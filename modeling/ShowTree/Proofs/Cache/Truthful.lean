/-
ShowTree.Proofs.Cache.Truthful — reading where a tree gives the answers.

The record of an object is what its file holds (`Tree.recordOf`), so it changes only with
that file. A file system is truthful if it answers questions as the tree in its state does,
and does not change in answering. Then what has been met is described by that tree
(`Truthful.calm`), and an object is met unless there is nothing at its place or above it,
or no record can be read there (`Truthful.meet_error`).
-/
import ShowTree.Proofs.Cache.Reading
import ShowTree.Proofs.FileSystem.Change
import ShowTree.Proofs.Layout.Sidecar
import ShowTree.Proofs.Record.RoundTrip

namespace ShowTree

variable {σ : Type} [FileSystem (StateM σ)]

/-! ## 1. Records in a tree -/

/-- The record of an object as a tree keeps it. -/
def Tree.recordOf (t : Tree) (layout : Layout) (p : Path) (isDir : Bool) : Except Failure Record :=
  Cache.recordIn (layout.recordPath p isDir) (t.read (layout.recordPath p isDir))

/-- A record depends on what is under its own key alone. -/
theorem Tree.recordOf_congr {t t' : Tree} {p : Place} {isDir : Bool}
    (h : t'.get? (p.recordPlace isDir).path.key = t.get? (p.recordPlace isDir).path.key) :
    t'.recordOf .default p.path isDir = t.recordOf .default p.path isDir := by
  rw [recordOf, recordOf, Place.recordPath_path, read_congr h]

/-- The record that an object holds, if it is one. -/
def Entry.record? : Entry → Option Record
  | .file content => Record.decode? content
  | .dir => none

/-- What is read is blank, or a record that an object holds. -/
theorem Tree.recordOf_cases {t : Tree} {layout : Layout} {p : Path} {isDir : Bool} {r : Record}
    (h : t.recordOf layout p isDir = .ok r) :
    t.entry? (layout.recordPath p isDir) = none ∧ r = .blank ∨
      ∃ e, t.entry? (layout.recordPath p isDir) = some e ∧ e.record? = some r := by
  rw [recordOf, read] at h
  cases hentry : t.entry? (layout.recordPath p isDir) with
  | none =>
    rw [hentry] at h
    exact .inl ⟨rfl, (Except.ok.inj h).symm⟩
  | some e =>
    rw [hentry] at h
    refine .inr ⟨e, rfl, ?_⟩
    cases e with
    | dir => cases h
    | file content =>
      cases hdecode : Record.decode? content with
      | none => simp [Cache.recordIn, hdecode] at h
      | some record =>
        rw [Cache.recordIn, hdecode] at h
        exact hdecode.trans (congrArg some (Except.ok.inj h))

/-- A record that was written is the one that is kept. -/
theorem Tree.recordOf_of_get? {t : Tree} {p : Place} {isDir : Bool} {r : Record}
    (h : t.get? (p.recordPlace isDir).path.key = some (.file r.encode.toUTF8))
    (hproto : r.proto ≠ some "") : t.recordOf .default p.path isDir = .ok r := by
  rw [recordOf, Place.recordPath_path, read_eq_of_get? h, Cache.recordIn,
    Record.decode?_encode hproto]

/-- A record that was read does not have an empty reference to a prototype. -/
theorem Cache.proto_ne_empty_of_recordIn {file : Path} {answer : Except FileError ByteArray}
    {r : Record} (h : recordIn file answer = .ok r) : r.proto ≠ some "" := by
  cases answer with
  | ok content =>
    cases hdecode : Record.decode? content with
    | none => simp [recordIn, hdecode] at h
    | some record =>
      rw [recordIn, hdecode] at h
      exact Except.ok.inj h ▸ Record.proto_ne_empty_of_decode? hdecode
  | error e =>
    rw [recordIn] at h
    split at h
    · exact Except.ok.inj h ▸ (by decide : Record.blank.proto ≠ some "")
    · cases h

theorem Tree.proto_ne_empty_of_recordOf {t : Tree} {layout : Layout} {p : Path} {isDir : Bool}
    {r : Record} (h : t.recordOf layout p isDir = .ok r) : r.proto ≠ some "" :=
  Cache.proto_ne_empty_of_recordIn h

/-- All places that have been met are without backslashes. -/
def Cache.Plain (c : Cache) : Prop :=
  ∀ n ∈ c.nodes, n.place.Plain

instance (c : Cache) : Decidable c.Plain :=
  inferInstanceAs (Decidable (∀ n ∈ c.nodes, _))

/-! ## 2. Questions -/

/-- Questions are answered by the tree in the state, and leave the state alone. -/
structure Truthful (view : σ → Tree) : Prop where
  stat : ∀ p s, (FileSystem.stat p : StateM σ _).run s = ((view s).stat p, s)
  read : ∀ p s, (FileSystem.read p : StateM σ _).run s = ((view s).read p, s)
  list : ∀ p s, (FileSystem.list p : StateM σ _).run s = ((view s).list p, s)
  present : ∀ p s, (FileSystem.present p : StateM σ _).run s = ((view s).present p, s)
  isDir : ∀ p s, (FileSystem.isDir p : StateM σ _).run s = ((view s).isDir p, s)

theorem truthful_tree : Truthful (fun t : Tree => t) :=
  ⟨fun _ _ => rfl, fun _ _ => rfl, fun _ _ => rfl, fun _ _ => rfl, fun _ _ => rfl⟩

theorem truthful_watched : Truthful Watched.tree :=
  ⟨fun _ _ => rfl, fun _ _ => rfl, fun _ _ => rfl, fun _ _ => rfl, fun _ _ => rfl⟩

namespace Truthful

variable {view : σ → Tree}

/-- What is said of caches with one layout is calm if it survives adding an object as the
tree describes it. -/
theorem calm (h : Truthful view) {s₀ : σ} {layout : Layout} {J : Cache → Prop}
    (hlayout : ∀ c, J c → c.layout = layout)
    (hadd : ∀ c p st r, J c → c.node? p = none → (∀ dir, p.dir? = some dir → (c.node? dir).isSome) →
      (view s₀).stat p.path = .ok st → (view s₀).recordOf layout p.path st.isDir = .ok r →
      J (c.add p st r)) :
    Calm (fun p st => (view s₀).stat p = .ok st)
      (fun p isDir r => (view s₀).recordOf layout p isDir = .ok r) (fun c s => s = s₀ ∧ J c) where
  stat p c s hi := by
    rw [h.stat, hi.1]
    exact ⟨⟨rfl, hi.2⟩, fun _ hst => hst⟩
  load p isDir c₀ := by
    rintro c s ⟨⟨rfl, hi⟩, rfl⟩
    rw [Cache.run_loadRecord]
    dsimp only
    rw [h.read, hlayout c hi]
    cases hr : Cache.recordIn (layout.recordPath p isDir)
        ((view s).read (layout.recordPath p isDir)) with
    | ok r => exact ⟨⟨⟨rfl, hi⟩, rfl⟩, hr⟩
    | error e => exact ⟨⟨rfl, hi⟩, rfl⟩
  list p c s hi := by
    rw [h.list]
    exact hi
  present p c s hi := by
    rw [h.present]
    exact hi
  isDir p c s hi := by
    rw [h.isDir]
    exact hi
  add c s p st r hi hnew hdir hst hr := ⟨hi.1, hadd c p st r hi.2 hnew hdir hst hr⟩

end Truthful

/-! ## 3. What cannot be met -/

/-- The object at a place is not met, for this reason. -/
def Tree.Bars (t : Tree) (layout : Layout) (e : Failure) (p : Place) : Prop :=
  (∃ err, t.stat p.path = .error err ∧ e = .io p.path err) ∨
    ∃ st, t.stat p.path = .ok st ∧ t.recordOf layout p.path st.isDir = .error e

/-- What is there is not barred for being nowhere. -/
theorem Tree.Bars.isNotFound_eq_false {t : Tree} {layout : Layout} {e : Failure} {p : Place}
    (h : t.Bars layout e p) {isDir : Bool} (hkind : t.kind? p.path.key = some isDir) :
    e.isNotFound = false := by
  rcases h with ⟨err, hstat, -⟩ | ⟨st, -, hrecord⟩
  · obtain ⟨st, hst, -⟩ := Tree.kind?_eq_some_iff.1 hkind
    rw [hst] at hstat
    cases hstat
  · unfold recordOf Cache.recordIn at hrecord
    split at hrecord
    · split at hrecord <;> cases hrecord
      rfl
    · rename_i err _
      cases herr : err.isNotFound with
      | true => rw [herr] at hrecord; cases hrecord
      | false =>
        rw [herr] at hrecord
        cases hrecord
        exact herr

namespace Truthful

variable {view : σ → Tree}

theorem meetAfter_error (h : Truthful view) {s₀ : σ} {layout : Layout} {above : Failure → Prop}
    (p : Place) {meetDir : Work (StateM σ) Unit}
    (hdir : Triple (fun c s => s = s₀ ∧ c.layout = layout) meetDir
      (fun _ c s => s = s₀ ∧ c.layout = layout) (fun e _ _ => above e)) :
    Triple (fun c s => s = s₀ ∧ c.layout = layout) (Cache.meetAfter p meetDir)
      (fun _ c s => s = s₀ ∧ c.layout = layout)
      (fun e _ _ => above e ∨ (view s₀).Bars layout e p) := by
  intro c s hi
  obtain ⟨rfl, rfl⟩ := hi
  rw [Cache.run_meetAfter]
  split
  · exact ⟨rfl, rfl⟩
  · dsimp only
    rw [h.stat]
    cases hst : (view s).stat p.path with
    | error err => exact .inr (.inl ⟨err, hst, rfl⟩)
    | ok st =>
      have hmet := hdir c s ⟨rfl, rfl⟩
      dsimp only
      generalize (meetDir.run.run c).run s = out at hmet ⊢
      obtain ⟨⟨r, c'⟩, s'⟩ := out
      cases r with
      | error e => exact .inl hmet
      | ok _ =>
        obtain ⟨hs, hlayout⟩ := hmet
        dsimp only at hs hlayout ⊢
        rw [hs, h.read, hlayout]
        cases hr : (view s).recordOf c.layout p.path st.isDir with
        | error e =>
          rw [show Cache.recordIn _ _ = _ from hr]
          exact .inr (.inr ⟨st, hst, hr⟩)
        | ok r =>
          rw [show Cache.recordIn _ _ = _ from hr]
          exact ⟨rfl, hlayout⟩

/-- An object is met unless, there or above, the tree knows of nothing or has no record
that can be read. -/
theorem meet_error (h : Truthful view) {s₀ : σ} {layout : Layout} : ∀ p : Place,
    Triple (fun c s => s = s₀ ∧ c.layout = layout) (Cache.meet p)
      (fun _ c s => s = s₀ ∧ c.layout = layout)
      (fun e _ _ => ∃ q ∈ p.upward, (view s₀).Bars layout e q)
  | .root => by
    have hnothing : Triple (fun c s => s = s₀ ∧ c.layout = layout)
        (pure () : Work (StateM σ) Unit) (fun _ c s => s = s₀ ∧ c.layout = layout)
        (fun _ _ _ => False) := Triple.pure fun _ _ hi => hi
    refine (h.meetAfter_error .root hnothing).imp (fun _ _ hi => hi) (fun _ _ _ hi => hi) ?_
    rintro e c s (hf | hbars)
    · exact hf.elim
    · exact ⟨.root, by simp [Place.upward], hbars⟩
  | .entry dir name => by
    refine (h.meetAfter_error (.entry dir name) (meet_error h dir)).imp
      (fun _ _ hi => hi) (fun _ _ _ hi => hi) ?_
    rintro e c s (⟨q, hq, hbars⟩ | hbars)
    · exact ⟨q, List.mem_cons_of_mem _ hq, hbars⟩
    · exact ⟨_, Place.self_mem_upward _, hbars⟩

end Truthful

end ShowTree
