/-
ShowTree.Proofs.Selector.Repetition — searching a file system again that has not changed.

While the file system stays as it is, whether an object can be met is settled from the
start (`refusal?`), and meeting more objects does not change it (`Grows.refusal?_eq`). So
work that only meets objects comes to the same when it is done again, however many objects
have been met in between, and meets nothing new (`Settles`). This holds of meeting one
object (`settles_meet`) and of a whole search (`settles_visits`), so a cursor that has come
to its end enumerates the same places again.
-/
import ShowTree.Proofs.Cache.Arena
import ShowTree.Proofs.Selector.Enumeration

namespace ShowTree

variable {σ : Type} [FileSystem (StateM σ)] {s : σ}

/-! ## 1. What can be met -/

/-- Questions leave the file system as it is. -/
structure Still (s : σ) : Prop where
  stat : ∀ p, ((FileSystem.stat p : StateM σ _).run s).2 = s
  read : ∀ p, ((FileSystem.read p : StateM σ _).run s).2 = s
  list : ∀ p, ((FileSystem.list p : StateM σ _).run s).2 = s

namespace Cache

/-- Why an object cannot be met, if it cannot, by why its directory cannot. -/
def refusalAfter? (s : σ) (c : Cache) (p : Place) (above : Option Failure) : Option Failure :=
  if (c.node? p).isSome then none
  else
    match ((FileSystem.stat p.path : StateM σ _).run s).1 with
    | .error e => some (.io p.path e)
    | .ok stat =>
      match above with
      | some e => some e
      | none =>
        let file := c.layout.recordPath p.path stat.isDir
        match recordIn file ((FileSystem.read file : StateM σ _).run s).1 with
        | .error e => some e
        | .ok _ => none

/-- Why the object at a place cannot be met, if it cannot. -/
def refusal? (s : σ) (c : Cache) : Place → Option Failure
  | .root => refusalAfter? s c .root none
  | .entry dir name => refusalAfter? s c (.entry dir name) (refusal? s c dir)

/-- The answer to meeting an object, by what stands against it. -/
def verdict : Option Failure → Except Failure Unit
  | some e => .error e
  | none => .ok ()

end Cache

open Cache

/-- A later cache has met more of what could be met. -/
structure Grows (s : σ) (c c' : Cache) : Prop where
  layout : c'.layout = c.layout
  grown : Grown c.nodes → Grown c'.nodes
  old : ∀ p n, c.node? p = some n → c'.node? p = some n
  new : ∀ p, (c'.node? p).isSome → refusal? s c p = none

theorem refusal?_of_met {c : Cache} {p : Place} (h : (c.node? p).isSome) :
    refusal? s c p = none := by
  cases p <;> simp [refusal?, refusalAfter?, h]

namespace Grows

variable {c c' c'' : Cache}

theorem refl (c : Cache) : Grows s c c :=
  ⟨rfl, id, fun _ _ h => h, fun _ h => refusal?_of_met h⟩

theorem met (h : Grows s c c') {p : Place} (hp : (c.node? p).isSome) : (c'.node? p).isSome := by
  obtain ⟨n, hn⟩ := Option.isSome_iff_exists.1 hp
  rw [h.old p n hn]
  rfl

/-- Meeting more does not change what can be met. -/
theorem refusal?_eq (h : Grows s c c') : ∀ p : Place, refusal? s c' p = refusal? s c p := by
  have hafter : ∀ (p : Place) (above : Option Failure),
      ((c'.node? p).isSome → refusalAfter? s c p above = none) →
      refusalAfter? s c' p above = refusalAfter? s c p above := by
    intro p above hnew
    cases hp' : (c'.node? p).isSome with
    | true => rw [hnew hp', refusalAfter?, if_pos hp']
    | false =>
      have hp : (c.node? p).isSome ≠ true := fun hp => by rw [h.met hp] at hp'; cases hp'
      rw [refusalAfter?, refusalAfter?, if_neg (by simp [hp']), if_neg hp, h.layout]
  intro p
  induction p with
  | root => exact hafter _ _ (h.new .root)
  | entry dir name ih =>
    have hnew := h.new (.entry dir name)
    rw [refusal?] at hnew
    rw [refusal?, refusal?, ih]
    exact hafter _ _ hnew

theorem trans (h : Grows s c c') (h' : Grows s c' c'') : Grows s c c'' where
  layout := h'.layout.trans h.layout
  grown hg := h'.grown (h.grown hg)
  old p n hn := h'.old p n (h.old p n hn)
  new p hp := by
    rw [← h.refusal?_eq p]
    exact h'.new p hp

/-- What is refused has not been met, however much has been met since. -/
theorem not_met (h : Grows s c c') {p : Place} {e : Failure} (he : refusal? s c p = some e) :
    ¬ (c'.node? p).isSome := by
  intro hmet
  have hnone := refusal?_of_met (s := s) hmet
  rw [h.refusal?_eq, he] at hnone
  cases hnone

theorem nodeAt_eq (h : Grows s c c') {p : Place} (hp : (c.node? p).isSome) :
    c'.nodeAt p = c.nodeAt p := by
  obtain ⟨n, hn⟩ := Option.isSome_iff_exists.1 hp
  rw [nodeAt, nodeAt, hn, h.old p n hn]

theorem isDirAt_eq (h : Grows s c c') {p : Place} (hp : (c.node? p).isSome) :
    c'.isDirAt p = c.isDirAt p := by
  rw [isDirAt, isDirAt, h.nodeAt_eq hp]

theorem showAt_eq (h : Grows s c c') {p : Place} (hp : (c.node? p).isSome) :
    c'.showAt p = c.showAt p := by
  rw [showAt, showAt, h.nodeAt_eq hp]

/-- A cache grows by an object that is not refused. -/
theorem add {p : Place} {stat : Stat} {record : Record} (hfresh : c.node? p = none)
    (hdir : ∀ dir, p.dir? = some dir → (c.node? dir).isSome) (hok : refusal? s c p = none) :
    Grows s c (c.add p stat record) where
  layout := rfl
  grown hg := hg.add hfresh hdir
  old q n hq := by
    rw [node?_add, hq]
    rfl
  new q hq := by
    by_cases he : p = q
    · rw [← he, hok]
    · exact refusal?_of_met (by simpa [node?_add, he] using hq)

end Grows

/-! ## 2. Work that settles -/

/-- Work comes to `a` and `c'`, and to `a` again whenever it is done with a cache that has
grown from `c'`, which it then leaves as it is. -/
structure Settles {α : Type} (s : σ) (w : StateT Cache (StateM σ) α) (c : Cache) (a : α)
    (c' : Cache) : Prop where
  once : (w.run c).run s = ((a, c'), s)
  grows : Grows s c c'
  again : ∀ c'', Grows s c' c'' → (w.run c'').run s = ((a, c''), s)

/-- Work that leaves the cache alone, and comes to the same when the cache grows. -/
theorem settles_of_same {α : Type} {w : StateT Cache (StateM σ) α} {c : Cache} {a : α}
    (h : ∀ d, Grows s c d → (w.run d).run s = ((a, d), s)) : Settles s w c a c :=
  ⟨h c (.refl c), .refl c, h⟩

namespace Settles

variable {α β : Type} {c c' c'' : Cache}

theorem pure (a : α) (c : Cache) : Settles s (Pure.pure a) c a c :=
  ⟨rfl, .refl c, fun _ _ => rfl⟩

theorem bind {w : StateT Cache (StateM σ) α} {f : α → StateT Cache (StateM σ) β} {a : α} {b : β}
    (hw : Settles s w c a c') (hf : Settles s (f a) c' b c'') : Settles s (w >>= f) c b c'' where
  once := (run_bind_of_eq hw.once).trans hf.once
  grows := hw.grows.trans hf.grows
  again d hd := (run_bind_of_eq (hw.again d (hf.grows.trans hd))).trans (hf.again d hd)

/-- Work that is the same as other work with every cache that grows from this one. -/
theorem of_run_eq {w v : StateT Cache (StateM σ) α} {a : α}
    (h : ∀ d, Grows s c d → (w.run d).run s = (v.run d).run s) (hv : Settles s v c a c') :
    Settles s w c a c' where
  once := (h c (.refl c)).trans hv.once
  grows := hv.grows
  again d hd := (h d (hv.grows.trans hd)).trans (hv.again d hd)

variable {w : Work (StateM σ) α} {f : α → Work (StateM σ) β}

/-- Work that fails, and then does not go on. -/
theorem fail_bind {e : Failure} (hw : Settles s w.run c (.error e) c') :
    Settles s (w >>= f).run c (.error e) c' where
  once := by rw [run_bind, hw.once]
  grows := hw.grows
  again d hd := by rw [run_bind, hw.again d hd]

/-- Work that succeeds, and then goes on. -/
theorem ok_bind {a : α} {r : Except Failure β} (hw : Settles s w.run c (.ok a) c')
    (hf : Settles s (f a).run c' r c'') : Settles s (w >>= f).run c r c'' where
  once := by rw [run_bind, hw.once, ← hf.once]
  grows := hw.grows.trans hf.grows
  again d hd := by rw [run_bind, hw.again d (hf.grows.trans hd), ← hf.again d hd]

theorem map {g : α → β} {r : Except Failure α} (hw : Settles s w.run c r c') :
    Settles s (g <$> w).run c (r.map g) c' := by
  rw [map_eq_pure_bind]
  cases r with
  | error e => exact hw.fail_bind
  | ok a => exact hw.ok_bind (.pure _ c')

end Settles

/-! ## 3. Meeting objects -/

section MeetAfter

variable {c c₁ : Cache} {p : Place} {meetDir : Work (StateM σ) Unit}

/-- An object that can be met is described, its directory can be met, and its record be read. -/
theorem refusalAfter?_eq_none {above : Option Failure} (hmet : ¬ (c.node? p).isSome)
    (h : refusalAfter? s c p above = none) :
    ∃ stat record, ((FileSystem.stat p.path : StateM σ _).run s).1 = .ok stat ∧ above = none ∧
      recordIn (c.layout.recordPath p.path stat.isDir)
        ((FileSystem.read (c.layout.recordPath p.path stat.isDir) : StateM σ _).run s).1 =
          .ok record := by
  rw [refusalAfter?, if_neg hmet] at h
  cases hstat : ((FileSystem.stat p.path : StateM σ _).run s).1 with
  | error e =>
    rw [hstat] at h
    cases h
  | ok stat =>
    simp only [hstat] at h
    cases above with
    | some e => cases h
    | none =>
      dsimp only at h
      split at h
      · cases h
      · exact ⟨stat, _, rfl, rfl, ‹_›⟩

theorem settles_stat (hs : Still s) (c : Cache) (p : Path) :
    Settles s (Work.call p (FileSystem.stat p)).run c
      (((FileSystem.stat p : StateM σ _).run s).1.mapError (.io p)) c :=
  settles_of_same fun d _ => by rw [run_call, hs.stat]

theorem settles_loadRecord (hs : Still s) (c : Cache) (p : Path) (isDir : Bool) :
    Settles s (Cache.loadRecord p isDir).run c (recordIn (c.layout.recordPath p isDir)
      ((FileSystem.read (c.layout.recordPath p isDir) : StateM σ _).run s).1) c := by
  refine settles_of_same fun d hd => ?_
  rw [run_loadRecord, hd.layout]
  dsimp only
  rw [hs.read]

/-- What meeting an object does that has not been met. -/
theorem run_meetAfter_of_fresh (hp : ¬ (c.node? p).isSome) :
    ((Cache.meetAfter p meetDir).run.run c).run s = ((do
      let stat ← Work.call p.path (FileSystem.stat p.path)
      meetDir
      let record ← Cache.loadRecord p.path stat.isDir
      modify (·.add p stat record) : Work (StateM σ) Unit).run.run c).run s := by
  rw [Cache.meetAfter, run_bind, run_get]
  dsimp only
  rw [Option.not_isSome_iff_eq_none.1 hp]

/-- Where meeting an object fails, it fails at the same point with every later cache. Then the
directory has not been met, or it has been and nothing more. -/
theorem settles_meetAfter_of_refused (hs : Still s) {above : Option Failure} {e : Failure}
    (he : refusal? s c p = some e) (hp : refusalAfter? s c p above = some e)
    (hdir : Settles s meetDir.run c (verdict above) c₁) :
    ∃ c', (c' = c ∨ c' = c₁) ∧ Settles s (Cache.meetAfter p meetDir).run c (.error e) c' := by
  have hfresh : ∀ d, Grows s c d → ((Cache.meetAfter p meetDir).run.run d).run s = _ :=
    fun d hd => run_meetAfter_of_fresh (hd.not_met he)
  have hask := settles_stat hs c p.path
  rw [refusalAfter?, if_neg ((Grows.refl c).not_met he)] at hp
  cases hstat : ((FileSystem.stat p.path : StateM σ _).run s).1 with
  | error _ =>
    rw [hstat] at hp hask
    cases hp
    exact ⟨c, .inl rfl, .of_run_eq hfresh hask.fail_bind⟩
  | ok stat =>
    rw [hstat] at hask
    simp only [hstat] at hp
    refine ⟨c₁, .inr rfl, .of_run_eq hfresh (hask.ok_bind ?_)⟩
    cases above with
    | some _ =>
      cases hp
      exact hdir.fail_bind
    | none =>
      refine hdir.ok_bind ?_
      have hload := settles_loadRecord hs c₁ p.path stat.isDir
      rw [hdir.grows.layout] at hload
      dsimp only at hp
      split at hp
      · cases hp
        rename_i hrecord
        rw [hrecord] at hload
        exact hload.fail_bind
      · cases hp

/-- Where meeting an object succeeds, it is added once. -/
theorem settles_meetAfter_of_added (hs : Still s) (hmet : ¬ (c.node? p).isSome)
    (hp : refusalAfter? s c p none = none) (hok : refusal? s c p = none)
    (hdir : Settles s meetDir.run c (.ok ()) c₁) (hfresh : c₁.node? p = none)
    (habove : ∀ dir, p.dir? = some dir → (c₁.node? dir).isSome) :
    ∃ stat record,
      Settles s (Cache.meetAfter p meetDir).run c (.ok ()) (c₁.add p stat record) := by
  obtain ⟨stat, record, hstat, -, hrecord⟩ := refusalAfter?_eq_none hmet hp
  rw [← hdir.grows.layout] at hrecord
  have hadd : Grows s c₁ (c₁.add p stat record) :=
    Grows.add hfresh habove (by rw [hdir.grows.refusal?_eq, hok])
  refine ⟨stat, record, ?_, hdir.grows.trans hadd, fun d hd => ?_⟩
  · have hask := (settles_stat hs c p.path).once
    have hload := (settles_loadRecord hs c₁ p.path stat.isDir).once
    rw [hstat] at hask
    rw [hrecord] at hload
    rw [run_meetAfter_of_fresh hmet, run_bind, hask]
    dsimp only [Except.mapError]
    rw [run_bind, hdir.once]
    dsimp only
    rw [run_bind, hload]
    rfl
  · rw [run_meetAfter, if_pos (hd.met node?_add_isSome)]

/-- What meeting an object after its directory comes to, given the same of the directory. -/
theorem settles_meetAfter (hs : Still s) {above : Option Failure}
    (hp : refusal? s c p = refusalAfter? s c p above)
    (hdir : Settles s meetDir.run c (verdict above) c₁)
    (habove : above = none → ∀ dir, p.dir? = some dir → (c₁.node? dir).isSome)
    (hnew : ∀ q, (c₁.node? q).isSome → (c.node? q).isSome ∨ q ∈ p.upward.tail) :
    ∃ c', Settles s (Cache.meetAfter p meetDir).run c (verdict (refusal? s c p)) c' ∧
      (refusal? s c p = none → (c'.node? p).isSome) ∧
      ∀ q, (c'.node? q).isSome → (c.node? q).isSome ∨ q ∈ p.upward := by
  have hnew' : ∀ q, (c₁.node? q).isSome → (c.node? q).isSome ∨ q ∈ p.upward :=
    fun q hq => (hnew q hq).imp_right List.mem_of_mem_tail
  by_cases hmet : (c.node? p).isSome
  · rw [refusal?_of_met hmet]
    refine ⟨c, settles_of_same fun d hd => ?_, fun _ => hmet, fun q hq => .inl hq⟩
    rw [run_meetAfter, if_pos (hd.met hmet)]
    rfl
  · cases he : refusal? s c p with
    | some e =>
      obtain ⟨c', hc', hsettles⟩ := settles_meetAfter_of_refused hs he (hp ▸ he) hdir
      refine ⟨c', hsettles, by simp, fun q hq => ?_⟩
      rcases hc' with rfl | rfl
      · exact .inl hq
      · exact hnew' q hq
    | none =>
      rw [he] at hp
      obtain ⟨-, -, -, rfl, -⟩ := refusalAfter?_eq_none hmet hp.symm
      have hfresh : c₁.node? p = none := by
        refine Option.not_isSome_iff_eq_none.1 fun hmet₁ => ?_
        exact (hnew p hmet₁).elim hmet Place.self_not_mem_tail_upward
      obtain ⟨stat, record, hsettles⟩ :=
        settles_meetAfter_of_added hs hmet hp.symm he hdir hfresh (habove rfl)
      refine ⟨_, hsettles, fun _ => node?_add_isSome, fun q hq => ?_⟩
      by_cases heq : p = q
      · exact .inr (heq ▸ p.self_mem_upward)
      · exact hnew' q (by simpa [node?_add, heq] using hq)

end MeetAfter

/-- What meeting an object comes to. -/
theorem settles_meet (hs : Still s) (c : Cache) : ∀ p : Place,
    ∃ c', Settles s (Cache.meet p).run c (verdict (refusal? s c p)) c' ∧
      (refusal? s c p = none → (c'.node? p).isSome) ∧
      ∀ q, (c'.node? q).isSome → (c.node? q).isSome ∨ q ∈ p.upward
  | .root => by
    refine settles_meetAfter hs rfl (Settles.pure _ c) ?_ fun q hq => .inl hq
    intro _ dir hdir
    cases hdir
  | .entry dir name => by
    obtain ⟨c₁, hsettles, hmet, honly⟩ := settles_meet hs c dir
    refine settles_meetAfter hs rfl hsettles ?_ honly
    intro habove _ hdir
    cases hdir
    exact hmet habove

theorem settles_meetPath (hs : Still s) (c : Cache) (p : Path) :
    ∃ r c', Settles s (Cache.meetPath p).run c r c' ∧
      ∀ place, r = .ok place → (c'.node? place).isSome := by
  have hask : ∀ r, p.toPlace = r →
      Settles s (Work.ofExcept p.toPlace : Work (StateM σ) _).run c r c := by
    rintro _ rfl
    exact settles_of_same fun d _ => run_ofExcept p.toPlace d s
  cases hp : p.toPlace with
  | error e =>
    exact ⟨.error e, c, (hask _ hp).fail_bind, fun _ h => by cases h⟩
  | ok place =>
    obtain ⟨c', hsettles, hmet, -⟩ := settles_meet hs c place
    cases hrefusal : refusal? s c place with
    | some e =>
      rw [hrefusal] at hsettles
      exact ⟨.error e, c', (hask _ hp).ok_bind hsettles.fail_bind, fun _ h => by cases h⟩
    | none =>
      rw [hrefusal] at hsettles
      refine ⟨.ok place, c', (hask _ hp).ok_bind (hsettles.ok_bind (.pure _ c')), fun _ h => ?_⟩
      cases h
      exact hmet hrefusal

/-- The answer where an object need not be there. -/
def ifPresent : Except Failure Place → Except Failure (Option Place)
  | .ok place => .ok (some place)
  | .error e => if e.isNotFound then .ok none else .error e

theorem settles_meetIfPresent (hs : Still s) (c : Cache) (p : Path) :
    ∃ r c', Settles s (Cache.meetIfPresent p).run c r c' ∧
      ∀ place, r = .ok (some place) → (c'.node? place).isSome := by
  obtain ⟨r, c', hsettles, hmet⟩ := settles_meetPath hs c p
  have hrun : ∀ d d', ((Cache.meetPath p : Work (StateM σ) _).run.run d).run s = ((r, d'), s) →
      ((Cache.meetIfPresent p : Work (StateM σ) _).run.run d).run s = ((ifPresent r, d'), s) := by
    intro d d' hd
    rw [Cache.meetIfPresent, run_bind, run_attempt, hd]
    cases r with
    | ok place => rfl
    | error e => cases h : e.isNotFound <;> simp only [ifPresent, h] <;> rfl
  refine ⟨_, c', ⟨hrun _ _ hsettles.once, hsettles.grows, fun d hd => ?_⟩, ?_⟩
  · exact hrun _ _ (hsettles.again d hd)
  · intro place h
    cases r with
    | ok found => cases h; exact hmet place rfl
    | error e =>
      simp only [ifPresent] at h
      split at h <;> cases h

/-! ## 4. Searching -/

theorem settles_listVisible (hs : Still s) (c : Cache) (p : Path) :
    ∃ r, Settles s (Cache.listVisible p).run c r c := by
  refine ⟨(((FileSystem.list p : StateM σ _).run s).1.mapError (.io p)).map
    (·.filter (· != c.layout.metaDir)), settles_of_same fun d hd => ?_⟩
  rw [Cache.listVisible, run_bind, run_call, hs.list, ← hd.layout]
  cases ((FileSystem.list p : StateM σ _).run s).1 <;> rfl

theorem settles_children (hs : Still s) {c : Cache} {seed : Place}
    (hseed : (c.node? seed).isSome) :
    ∃ r, Settles s (Cache.children seed).run c r c := by
  have hrun : ∀ d, Grows s c d → ((Cache.children seed : Work (StateM σ) _).run.run d).run s =
      ((if c.isDirAt seed then Cache.listVisible seed.path else pure [] :
        Work (StateM σ) _).run.run d).run s := by
    intro d hd
    rw [Cache.children, run_bind, run_get, ← hd.isDirAt_eq hseed]
  cases hdir : c.isDirAt seed with
  | false =>
    rw [hdir] at hrun
    exact ⟨.ok [], .of_run_eq hrun (.pure _ c)⟩
  | true =>
    rw [hdir] at hrun
    obtain ⟨r, hlist⟩ := settles_listVisible hs c seed.path
    exact ⟨r, .of_run_eq hrun hlist⟩

theorem upBy_mem_upward : ∀ (levels : Nat) (p : Place), p.upBy levels ∈ p.upward
  | 0, p => by simp [Place.upBy, Place.self_mem_upward]
  | _ + 1, .root => by simp [Place.upBy, Place.upward]
  | levels + 1, .entry dir name => List.mem_cons_of_mem _ (upBy_mem_upward levels dir)

theorem run_candidate_showRoot (seed : Place) (c : Cache) :
    ((Segment.candidate seed .showRoot : Work (StateM σ) _).run.run c).run s =
      ((match c.showAt seed with
        | some place => .ok (some place)
        | none => .error (.unresolvedShow seed.path), c), s) := by
  rw [Segment.candidate, run_bind, run_get]
  dsimp only
  cases c.showAt seed <;> rfl

theorem settles_candidate_showRoot {c : Cache} (hg : Grown c.nodes) {seed : Place}
    (hseed : (c.node? seed).isSome) :
    ∃ r, Settles s (Segment.candidate seed .showRoot : Work (StateM σ) _).run c r c ∧
      ∀ place, r = .ok (some place) → (c.node? place).isSome := by
  cases hshow : c.showAt seed with
  | none =>
    refine ⟨.error (.unresolvedShow seed.path), settles_of_same fun d hd => ?_,
      fun _ h => by cases h⟩
    rw [run_candidate_showRoot, hd.showAt_eq hseed, hshow]
  | some found =>
    refine ⟨.ok (some found), settles_of_same fun d hd => ?_, fun _ h => ?_⟩
    · rw [run_candidate_showRoot, hd.showAt_eq hseed, hshow]
    · cases h
      exact hg.met_of_mem_upward hseed (hg.showAt_mem_upward hshow).2

theorem settles_candidate_name (hs : Still s) {c : Cache} {seed : Place}
    (hseed : (c.node? seed).isSome) (text : String) :
    ∃ r c', Settles s (Segment.candidate seed (.name text) : Work (StateM σ) _).run c r c' ∧
      ∀ place, r = .ok (some place) → (c'.node? place).isSome := by
  have hrun : ∀ d, Grows s c d →
      ((Segment.candidate seed (.name text) : Work (StateM σ) _).run.run d).run s =
        ((if c.isDirAt seed then Cache.meetIfPresent (seed.path.join text) else pure none :
          Work (StateM σ) _).run.run d).run s := by
    intro d hd
    rw [Segment.candidate, run_bind, run_get, ← hd.isDirAt_eq hseed]
  cases hdir : c.isDirAt seed with
  | false =>
    rw [hdir] at hrun
    exact ⟨.ok none, c, .of_run_eq hrun (.pure _ c), fun _ h => by cases h⟩
  | true =>
    rw [hdir] at hrun
    obtain ⟨r, c', hsettles, hmet⟩ := settles_meetIfPresent hs c (seed.path.join text)
    exact ⟨r, c', .of_run_eq hrun hsettles, hmet⟩

theorem settles_candidate (hs : Still s) {c : Cache} (hg : Grown c.nodes) {seed : Place}
    (hseed : (c.node? seed).isSome) (segment : Segment) :
    ∃ r c', Settles s (segment.candidate seed).run c r c' ∧
      ∀ place, r = .ok (some place) → (c'.node? place).isSome := by
  cases segment with
  | fileRoot =>
    obtain ⟨r, c', hsettles, hmet⟩ := settles_meetPath hs c ⟨"/"⟩
    refine ⟨r.map some, c', hsettles.map, fun place h => ?_⟩
    cases r with
    | error e => cases h
    | ok found => cases h; exact hmet place rfl
  | showRoot =>
    obtain ⟨r, hsettles, hmet⟩ := settles_candidate_showRoot (s := s) hg hseed
    exact ⟨r, c, hsettles, hmet⟩
  | up levels =>
    refine ⟨.ok (some (seed.upBy levels)), c, settles_of_same fun _ _ => rfl, ?_⟩
    intro place h
    cases h
    exact hg.met_of_mem_upward hseed (upBy_mem_upward levels seed)
  | name text => exact settles_candidate_name hs hseed text
  | wildcard pattern => exact ⟨.ok none, c, settles_of_same fun _ _ => rfl, fun _ h => by cases h⟩

/-- What searching on from what was found comes to. -/
theorem settles_goOn {onward : Place → StateT Cache (StateM σ) Harvest} {c : Cache}
    (honward : ∀ place, (c.node? place).isSome →
      ∃ found c', Settles s (onward place) c found c')
    {r : Except Failure (Option Place)}
    (hr : ∀ place, r = .ok (some place) → (c.node? place).isSome) :
    ∃ found c', Settles s (Segment.goOn onward r) c found c' := by
  rcases r with e | found | place
  · exact ⟨_, _, .pure _ c⟩
  · exact ⟨_, _, .pure _ c⟩
  · exact honward place (hr place rfl)

/-- Trying one name after the other comes to what it comes to for each of them, up to the first
failure. -/
theorem settles_inTurn (hs : Still s) {rest : List Segment} {seed : Place}
    (hrest : ∀ {c : Cache} {seed : Place}, Grown c.nodes → (c.node? seed).isSome →
      ∃ found c', Settles s (Segment.visits rest seed) c found c') :
    ∀ (names : List String) {c : Cache}, Grown c.nodes → (c.node? seed).isSome →
      ∃ found c', Settles s (Segment.inTurn (Segment.below rest seed) names) c found c'
  | [], c, _, _ => ⟨_, c, .pure _ c⟩
  | name :: names, c, hg, hseed => by
    obtain ⟨r, c₁, hask, hmet⟩ := settles_meetIfPresent hs c (seed.path.join name)
    have hg₁ := hask.grows.grown hg
    obtain ⟨first, c₂, hfirst⟩ := settles_goOn (fun _ hp => hrest hg₁ hp) hmet
    have hbelow : Settles s (Segment.below rest seed name) c first c₂ := hask.bind hfirst
    cases hfailure : first.failure with
    | some e =>
      refine ⟨⟨first.places, some e⟩, c₂, hbelow.bind ?_⟩
      rw [hfailure]
      exact .pure _ c₂
    | none =>
      obtain ⟨others, c₃, hothers⟩ := settles_inTurn hs hrest names (hbelow.grows.grown hg)
        (hbelow.grows.met hseed)
      refine ⟨⟨first.places ++ others.places, others.failure⟩, c₃, hbelow.bind ?_⟩
      rw [hfailure]
      exact hothers.bind (.pure _ c₃)

/-- What a whole search comes to, from an object that has been met. -/
theorem settles_visits (hs : Still s) : ∀ (segments : List Segment) {c : Cache} {seed : Place},
    Grown c.nodes → (c.node? seed).isSome →
    ∃ found c', Settles s (Segment.visits segments seed) c found c'
  | [], c, _, _, _ => ⟨_, c, .pure _ c⟩
  | segment :: rest, c, seed, hg, hseed => by
    have ih : ∀ {c : Cache} {seed : Place}, Grown c.nodes → (c.node? seed).isSome →
        ∃ found c', Settles s (Segment.visits rest seed) c found c' := settles_visits hs rest
    by_cases hwild : ∃ pattern, segment = .wildcard pattern
    · obtain ⟨pattern, rfl⟩ := hwild
      obtain ⟨r, hlist⟩ := settles_children hs hseed
      cases r with
      | error e => exact ⟨_, c, hlist.bind (.pure _ c)⟩
      | ok names =>
        obtain ⟨found, c', hfound⟩ :=
          settles_inTurn hs ih (names.filter (Wildcard.accepts pattern)) hg hseed
        exact ⟨found, c', hlist.bind hfound⟩
    · rw [Segment.visits_single fun pattern h => hwild ⟨pattern, h⟩]
      obtain ⟨r, c₁, hask, hmet⟩ := settles_candidate hs hg hseed segment
      obtain ⟨found, c', hfound⟩ := settles_goOn (fun _ hp => ih (hask.grows.grown hg) hp) hmet
      exact ⟨found, c', hask.bind hfound⟩

/-! ## 5. Cursors -/

/-- A cursor enumerates what the recursive search finds, and leaves the cache that the search
leaves. When it comes to its end, it is back at the start, and enumerates the same again. -/
theorem cursor_enumerates {selector : Selector} (hselector : selector.segments ≠ [])
    {c : Cache} (hc : Reachable σ c) {seed : Place} (hseed : (c.node? seed).isSome)
    (hs : Still s) :
    ∃ found c' left,
      ((Segment.visits selector.segments seed : StateT Cache (StateM σ) _).run c).run s =
        ((found, c'), s) ∧
      Drains (pulling fun cursor : Cursor => cursor.next seed) (.ofSelector selector, c, s) found
        (left, c', s) ∧
      (found.failure = none → left = .ofSelector selector ∧
        Drains (pulling fun cursor : Cursor => cursor.next seed) (left, c', s) found
          (left, c', s)) := by
  obtain ⟨found, c', hsettles⟩ := settles_visits hs selector.segments hc.grown hseed
  obtain ⟨left, hd, hleft⟩ := Cursor.enumerates_next hselector seed c s
  obtain ⟨left', hd', hleft'⟩ := Cursor.enumerates_next hselector seed c' s
  rw [hsettles.once] at hd hleft
  rw [hsettles.again c' (.refl c')] at hd' hleft'
  refine ⟨found, c', left, hsettles.once, hd, fun hdone => ?_⟩
  have hl := hleft hdone
  have hl' := hleft' hdone
  subst hl hl'
  exact ⟨rfl, hd'⟩

theorem still_tree (t : Tree) : Still t :=
  ⟨fun _ => rfl, fun _ => rfl, fun _ => rfl⟩

/-- For instance the files of one name in all directories of a directory. -/
theorem cursor_enumerates_files :
    let tree := Tree.ofFiles [(⟨"/a/x/1"⟩, .empty), (⟨"/a/x/2"⟩, .empty), (⟨"/a/y/1"⟩, .empty)]
    let cursor := Cursor.ofSelector ⟨[.wildcard "*", .name "1"]⟩
    let seed := (Place.ofPath? ⟨"/a"⟩).getD .root
    ∃ c found c', Reachable Tree c ∧ (c.node? seed).isSome ∧
      found.places.map (·.path.text) = ["/a/x/1", "/a/y/1"] ∧ found.failure = none ∧
      Drains (pulling fun cursor : Cursor => cursor.next seed) (cursor, c, tree) found
        (cursor, c', tree) ∧
      Drains (pulling fun cursor : Cursor => cursor.next seed) (cursor, c', tree) found
        (cursor, c', tree) := by
  intro tree cursor seed
  have hc := (Reachable.empty .default .root).deed (.meet ⟨"/a"⟩) tree
  have hseed : (((((Deed.meet ⟨"/a"⟩).run : StateT Cache (StateM Tree) Unit).run
      ⟨.default, .root, []⟩).run tree).1.2.node? seed).isSome := by decide +kernel
  have hselector : cursor.selector.segments ≠ [] := by decide
  obtain ⟨found, c', left, hvisits, hd, hdone⟩ :=
    cursor_enumerates hselector hc hseed (still_tree tree)
  have hfound : _ = found := congrArg (fun out => out.1.1) hvisits
  have hfailure : found.failure = none := by
    rw [← hfound]
    decide +kernel
  have hplaces : found.places.map (·.path.text) = ["/a/x/1", "/a/y/1"] := by
    rw [← hfound]
    decide +kernel
  obtain ⟨rfl, hagain⟩ := hdone hfailure
  exact ⟨_, found, c', hc, hseed, hplaces, hfailure, hd, hagain⟩

end ShowTree
