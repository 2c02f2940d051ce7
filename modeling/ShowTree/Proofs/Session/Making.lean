/-
ShowTree.Proofs.Session.Making — what making many objects leaves behind.

Going through a batch of targets, every one is done, left alone or failed, and nothing is
done or left alone but what something is at, unless it was moved away since (`InBatch`).
Meanwhile the working directory stays in its show, the tree stays well formed, and its only
new directories are those for metadata and objects that were asked for (`MakingIn`).
-/
import ShowTree.Proofs.Cache.Widening
import ShowTree.Proofs.Prototype.Following
import ShowTree.Proofs.Session.Frame

namespace ShowTree

/-! ## 1. Batches -/

/-- What a batch tells of its targets: one after the other, each was taken down as done, as there
already or as failed. -/
inductive Batch.Tells : Batch → List Path → Prop
  | empty : Tells .empty []
  | addDone {b : Batch} {targets : List Path} (h : Tells b targets) (p : Path) :
    Tells (b.addDone p) (targets ++ [p])
  | addSkipped {b : Batch} {targets : List Path} (h : Tells b targets) (p : Path) :
    Tells (b.addSkipped p) (targets ++ [p])
  | addFailed {b : Batch} {targets : List Path} (h : Tells b targets) (p : Path) (r : Refusal) :
    Tells (b.addFailed p r) (targets ++ [p])

namespace Batch.Tells

variable {b : Batch} {targets : List Path}

theorem done (h : b.Tells targets) : b.done.Sublist targets := by
  induction h with
  | empty => exact .slnil
  | addDone _ p ih => exact ih.append (.refl _)
  | addSkipped _ p ih => exact ih.trans (List.sublist_append_left _ _)
  | addFailed _ p r ih => exact ih.trans (List.sublist_append_left _ _)

theorem skipped (h : b.Tells targets) : b.skipped.Sublist targets := by
  induction h with
  | empty => exact .slnil
  | addDone _ p ih => exact ih.trans (List.sublist_append_left _ _)
  | addSkipped _ p ih => exact ih.append (.refl _)
  | addFailed _ p r ih => exact ih.trans (List.sublist_append_left _ _)

theorem all (h : b.Tells targets) :
    (b.done ++ b.skipped ++ b.failed.map Prod.fst).Perm targets := by
  induction h with
  | empty => exact .nil
  | @addDone b targets _ p ih =>
    refine List.Perm.trans ?_ (ih.append_right [p])
    simp only [Batch.addDone, List.append_assoc]
    exact (List.perm_append_comm.append_left b.done).trans (by simp)
  | @addSkipped b targets _ p ih =>
    refine List.Perm.trans ?_ (ih.append_right [p])
    simp only [Batch.addSkipped, List.append_assoc]
    exact (List.perm_append_comm.append_left b.skipped).append_left b.done
  | addFailed _ p r ih => simpa [Batch.addFailed] using ih.append_right [p]

/-- If nothing failed, every target is done or was there already. -/
theorem perm_of_failed_eq_nil (h : b.Tells targets) (hfailed : b.failed = []) :
    (b.done ++ b.skipped).Perm targets := by
  simpa [hfailed] using h.all

end Batch.Tells

/-! ## 2. The working directory -/

/-- The working directory has been met, in a show or in none. -/
structure Cache.Settled (dir : Place) (showRoot : Option Place) (c : Cache) : Prop where
  layout : c.layout = .default
  workingPlace : c.workingPlace = dir
  met : (c.node? dir).isSome
  showAt : c.showAt dir = showRoot

namespace Cache.Settled

variable {dir : Place} {showRoot : Option Place} {c : Cache}

theorem add (h : c.Settled dir showRoot) (p : Place) (st : Stat) (r : Record) :
    (c.add p st r).Settled dir showRoot where
  layout := h.layout
  workingPlace := h.workingPlace
  met := by
    obtain ⟨n, hn⟩ := Option.isSome_iff_exists.1 h.met
    rw [Cache.node?_add, hn, Option.some_or, Option.isSome_some]
  showAt := by
    rw [Cache.showAt, Cache.nodeAt_add h.met]
    exact h.showAt

theorem editRecord (h : c.Settled dir showRoot) (p : Place) (change : Record → Record) :
    (c.editRecord p change).Settled dir showRoot where
  layout := h.layout
  workingPlace := h.workingPlace
  met := by
    rw [Cache.node?_editRecord, Option.isSome_map]
    exact h.met
  showAt := (Cache.showAt_editRecord c p dir change).trans h.showAt

end Cache.Settled

/-! ## 3. One object after the other -/

/-- What a session is like while it makes objects. -/
def MakingIn (dir : Place) (showRoot : Option Place) (t : Tree) (new : String → Prop)
    (made : List Path) : Assertion Watched :=
  fun c w => c.Settled dir showRoot ∧ Making t new made w

section Making

variable {dir : Place} {showRoot : Option Place} {t : Tree} {new : String → Prop}
variable {made : List Path}

theorem calm_makingIn (w₀ : Watched) : Calm (fun p st => w₀.tree.stat p = .ok st)
    (fun p isDir r => w₀.tree.recordOf .default p isDir = .ok r)
    (fun c w => w = w₀ ∧ MakingIn dir showRoot t new made c w₀) :=
  truthful_watched.calm (fun _ h => h.1.layout) fun _ p st r h _ _ _ _ => ⟨h.1.add p st r, h.2⟩

/-- Linking an object makes directories for metadata at most. -/
theorem steady_makingIn (hnew : ∀ dir : Place, new dir.metaDir.path.key) :
    Steady (MakingIn dir showRoot t new made) where
  meet p := Keeps.of_calm calm_makingIn fun hcalm => hcalm.keeps_meet p
  edit p change _ := by
    refine Keeps.bind (Triple.modify fun c w h => ⟨h.1.editRecord p change, h.2⟩) fun _ => ?_
    exact triple_save_of_courses (fun h => h.1.layout) (fun h _ => h) fun h _ course =>
      Outcome.any ⟨h.1, h.2.save hnew course⟩

/-- Making an empty object where one is to be made. -/
theorem triple_makeEmpty_makingIn {kind : ObjectKind} {p : Path} (hkey : Tree.CanonicalKey p.key)
    (hnew : new p.key) :
    Triple (MakingIn dir showRoot t new made) (Session.makeEmpty kind p)
      (fun _ => MakingIn dir showRoot t new (p :: made))
      (fun _ => MakingIn dir showRoot t new made) := by
  rw [← kind.target_change p] at hkey
  refine triple_makeEmpty_of_change (fun {c w t'} h happly => ?_) fun e h =>
    ⟨h.1, h.2.refused _ e⟩
  have hthere : t'.present p = true := by
    have hget := ObjectKind.get?_of_change happly p.key
    rw [if_pos rfl] at hget
    rw [Tree.present, show t'.entry? p = _ from hget]
    rfl
  have hdir : ∀ q, kind.change p = .makeDir q → new q.key := by
    intro q hq
    rw [← kind.target_change p, hq] at hnew
    exact hnew
  exact ⟨h.1, (h.2.granted happly hkey hdir).cons (.inl hthere)⟩

/-- Making an object, linked to its prototype. -/
theorem triple_createObject (hnew : ∀ dir : Place, new dir.metaDir.path.key) {kind : ObjectKind}
    {proto : Option String} {p : Path} (hkey : Tree.CanonicalKey p.key) (hp : new p.key) :
    Triple (MakingIn dir showRoot t new made) (Session.createObject kind proto p)
      (fun _ => MakingIn dir showRoot t new (p :: made))
      (fun _ => MakingIn dir showRoot t new made) := by
  refine (steady_makingIn hnew).createObject (fun place => ?_)
    (triple_makeEmpty_makingIn hkey hp) fun c w h =>
      ⟨h.1, h.2.of_subset (List.subset_cons_self _ _)⟩
  exact Keeps.of_calm calm_makingIn fun hcalm => hcalm.keeps_chooseProto place proto

/-! ## 4. Batches of objects -/

/-- What is left of a session that has gone through these targets. -/
def InBatch (dir : Place) (showRoot : Option Place) (t : Tree) (new : String → Prop)
    (targets : List Path) (b : Batch) : Assertion Watched :=
  fun c w => b.Tells targets ∧ MakingIn dir showRoot t new (b.done ++ b.skipped) c w

/-- One target more. -/
theorem leads_recordNew_inBatch (hnew : ∀ dir : Place, new dir.metaDir.path.key) {kind : ObjectKind}
    {proto : Option String} {p : Path} (hkey : Tree.CanonicalKey p.key) (hp : new p.key)
    (targets : List Path) (b : Batch) :
    Leads (InBatch dir showRoot t new targets b)
      (Session.recordNew (Session.createObject kind proto) p b)
      (InBatch dir showRoot t new (targets ++ [p])) := by
  refine leads_recordNew_of ?_ ?_
  · rintro c w ⟨htells, hsettled, hmaking⟩ hthere
    refine ⟨htells.addSkipped p, hsettled, (hmaking.cons (.inl hthere)).of_subset ?_⟩
    simp [Batch.addSkipped]
  · have hcreate : Triple (MakingIn dir showRoot t new (b.done ++ b.skipped))
        (Session.createObject kind proto p)
        (fun _ => MakingIn dir showRoot t new (p :: (b.done ++ b.skipped)))
        (fun _ => MakingIn dir showRoot t new (b.done ++ b.skipped)) :=
      triple_createObject hnew hkey hp
    rintro c w ⟨⟨htells, hmaking⟩, -⟩
    refine hcreate.imp (fun _ _ h => h) ?_ ?_ c w hmaking
    · rintro _ c w ⟨hsettled, hmaking⟩
      refine ⟨htells.addDone p, hsettled, hmaking.of_subset ?_⟩
      simp [Batch.addDone]
    · exact fun e c w hmaking => ⟨htells.addFailed p _, hmaking⟩

/-- All targets, one after the other. -/
theorem triple_createAll (hnew : ∀ dir : Place, new dir.metaDir.path.key) (kind : ObjectKind)
    (proto : Option String) {targets : List Path}
    (htargets : ∀ p ∈ targets, Tree.CanonicalKey p.key ∧ new p.key) :
    Triple (fun c w => c.Settled dir showRoot ∧ w.tree.WellFormed ∧ w.tree = t)
      (Session.forEach (Session.recordNew (Session.createObject kind proto)) targets :
        Action (StateM Watched) Batch)
      (InBatch dir showRoot t new targets) (fun _ _ _ => False) := by
  have hfold : Leads (InBatch dir showRoot t new [] .empty)
      (targets.foldlM (fun b p => Session.recordNew (Session.createObject kind proto) p b) .empty)
      (InBatch dir showRoot t new targets) :=
    Leads.foldlM_each [] Batch.empty fun p hp before b =>
      leads_recordNew_inBatch hnew (htargets p hp).1 (htargets p hp).2 before b
  rintro c w ⟨hsettled, hwell, rfl⟩
  exact hfold c w ⟨.empty, hsettled, hwell, .refl _, by simp [Batch.empty]⟩

end Making

end ShowTree
