/-
ShowTree.Proofs.Selector.Evaluation — evaluating an expression again.

While the file system stays as it is, describing an object that has been met settles, and so
does a search that describes what it finds (`settles_search`), wherever it fails. So an
expression comes to the same again on the cache that it left, and leaves that cache as it is,
also when it is evaluated with a cursor that an earlier use has left in any state
(`eval_again`).
-/
import ShowTree.Proofs.Selector.Recital
import ShowTree.Proofs.Selector.Repetition

namespace ShowTree

variable {σ α β : Type} [FileSystem (StateM σ)] {s : σ}

/-! ## 1. Work that can fail and settles -/

/-- Work comes to some answer, and to the same again whenever it is done with a later cache. -/
def WorkSettles (s : σ) (w : Work (StateM σ) α) (c : Cache) : Prop :=
  ∃ r c', Settles s w.run c r c'

theorem WorkSettles.pure (a : α) (c : Cache) :
    WorkSettles s (Pure.pure a : Work (StateM σ) α) c :=
  ⟨.ok a, c, .pure _ c⟩

/-- After work that settles comes other work that settles. -/
theorem WorkSettles.bind {w : Work (StateM σ) α} {f : α → Work (StateM σ) β} {c c' : Cache}
    {r : Except Failure α} (hw : Settles s w.run c r c')
    (hf : ∀ a, r = .ok a → WorkSettles s (f a) c') : WorkSettles s (w >>= f) c := by
  cases r with
  | error e => exact ⟨.error e, c', hw.fail_bind⟩
  | ok a =>
    obtain ⟨r', c'', hsettles⟩ := hf a rfl
    exact ⟨r', c'', hw.ok_bind hsettles⟩

/-- Work with a cache whose objects are in order and that has met the place to start from. -/
def SettlesFrom (s : σ) (w : Place → Work (StateM σ) α) : Prop :=
  ∀ {c : Cache} {p : Place}, Grown c.nodes → (c.node? p).isSome → WorkSettles s (w p) c

/-- Work for each item settles if the work for one item does. -/
theorem settles_gather {f : α → Work (StateM σ) (List β)} {seed : Place}
    (hf : ∀ a, ∀ {c : Cache}, Grown c.nodes → (c.node? seed).isSome → WorkSettles s (f a) c) :
    ∀ (items : List α) {c : Cache}, Grown c.nodes → (c.node? seed).isSome →
      WorkSettles s (Work.gather f items) c
  | [], c, _, _ => .pure _ c
  | a :: items, c, hg, hseed => by
    obtain ⟨r, c₁, hfirst⟩ := hf a hg hseed
    refine .bind hfirst fun found _ => ?_
    obtain ⟨r', c₂, hothers⟩ := settles_gather hf items (hfirst.grows.grown hg)
      (hfirst.grows.met hseed)
    exact .bind hothers fun others _ => .pure _ c₂

/-! ## 2. Searching and describing -/

namespace Expression

/-- What a formula says about an object with what has been met; without one, the path. -/
def description (formula : Option Formula) (c : Cache) (p : Place) : Except Failure Value :=
  match formula with
  | some f => f.eval (c.nodeAt p)
  | none => .ok p.toValue

omit [FileSystem (StateM σ)] in
theorem run_describe (formula : Option Formula) (p : Place) (c : Cache) (s : σ) :
    ((describe formula p : Work (StateM σ) Value).run.run c).run s =
      ((description formula c p, c), s) := by
  cases formula <;> rfl

/-- Of an object that has been met, the same is said later. -/
theorem description_eq {formula : Option Formula} {c d : Cache} (h : Grows s c d) {p : Place}
    (hp : (c.node? p).isSome) : description formula d p = description formula c p := by
  cases formula with
  | none => rfl
  | some f => rw [description, description, h.nodeAt_eq hp]

end Expression

/-- What is said of an object that has been met stays the same. -/
theorem settles_describe (formula : Option Formula) :
    SettlesFrom s (Expression.describe formula) := by
  intro c p _ hp
  refine ⟨Expression.description formula c p, c, settles_of_same fun d hd => ?_⟩
  rw [Expression.run_describe, Expression.description_eq hd hp]

/-- What follows from an object that was asked for, and is met if it was found. -/
theorem settles_found {onward : Place → Work (StateM σ) (List β)} (honward : SettlesFrom s onward)
    {ask : Work (StateM σ) (Option Place)} {c : Cache} (hg : Grown c.nodes)
    (hask : ∃ r c', Settles s ask.run c r c' ∧
      ∀ place, r = .ok (some place) → (c'.node? place).isSome) :
    WorkSettles s (do
      match ← ask with
      | some found => onward found
      | none => pure []) c := by
  obtain ⟨r, c₁, hsettles, hmet⟩ := hask
  refine .bind hsettles fun found hr => ?_
  cases found with
  | none => exact .pure _ c₁
  | some p => exact honward (hsettles.grows.grown hg) (hmet p hr)

/-- A whole search that tells of what it finds. -/
theorem settles_search (hs : Still s) {visit : Place → Work (StateM σ) β}
    (hvisit : SettlesFrom s visit) :
    ∀ segments : List Segment, SettlesFrom s (Segment.search visit segments)
  | [], c, p, hg, hp => by
    obtain ⟨r, c', hsettles⟩ := hvisit hg hp
    exact .bind hsettles fun b _ => .pure _ c'
  | segment :: rest, c, seed, hg, hseed => by
    have ih : SettlesFrom s (Segment.search visit rest) := settles_search hs hvisit rest
    by_cases hwild : ∃ pattern, segment = .wildcard pattern
    · obtain ⟨pattern, rfl⟩ := hwild
      obtain ⟨r, hlist⟩ := settles_children hs hseed
      refine .bind hlist fun names _ => ?_
      exact settles_gather (fun name c hg _ =>
        settles_found ih hg (settles_meetIfPresent hs c (seed.path.join name))) _ hg hseed
    · rw [Cursor.search_single fun pattern h => hwild ⟨pattern, h⟩]
      exact settles_found ih hg (settles_candidate hs hg hseed segment)

/-- Evaluating an expression, with or without a selector. -/
theorem settles_eval (hs : Still s) (e : Expression) :
    SettlesFrom s (fun dir => (e.eval dir : Work (StateM σ) Value)) := by
  intro c dir hg hdir
  cases hselector : e.selector with
  | none =>
    refine ⟨(e.formula.getD .everything).eval (c.nodeAt dir), c, settles_of_same fun d hd => ?_⟩
    rw [Expression.run_eval_of_none hselector, hd.nodeAt_eq hdir]
  | some selector =>
    dsimp only
    rw [Expression.eval, hselector]
    dsimp only
    rw [map_eq_pure_bind, Selector.search]
    split
    · have hnothing : Settles s (pure [] : Work (StateM σ) (List Value)).run c (.ok []) c :=
        .pure _ c
      exact .bind hnothing fun values _ => .pure _ c
    · obtain ⟨r, c', hsearch⟩ := settles_search hs (settles_describe e.formula) selector.segments
        hg hdir
      exact .bind hsearch fun values _ => .pure _ c'

/-! ## 3. Evaluating again -/

/-- While the file system stays as it is, evaluating an expression comes to some answer, a
value or a failure, and leaves some cache; on that cache it comes to the same again, and leaves
it as it is. Both times the same is what evaluating with a cursor comes to, in whatever state
an earlier use left the cursor. -/
theorem eval_again (e : Expression) {c : Cache} (hc : Reachable σ c) {dir : Place}
    (hdir : (c.node? dir).isSome) (hs : Still s) :
    ∃ answer c₁, ∀ d ∈ [c, c₁],
      ((e.eval dir : Work (StateM σ) Value).run.run d).run s = ((answer, c₁), s) ∧
      ∀ cursor : Option Cursor, cursor.map Cursor.selector = e.selector →
        ∃ left : Option Cursor, left.map Cursor.selector = e.selector ∧
          ∀ out, Evaluates e.formula dir (cursor, d, s) out ↔ out = (answer, left, c₁, s) := by
  obtain ⟨answer, c₁, hsettles⟩ := settles_eval hs e hc.grown hdir
  refine ⟨answer, c₁, fun d hd => ?_⟩
  have hrun : ((e.eval dir : Work (StateM σ) Value).run.run d).run s = ((answer, c₁), s) := by
    rcases List.mem_cons.1 hd with rfl | hd
    · exact hsettles.once
    · obtain rfl := List.mem_singleton.1 hd
      exact hsettles.again d (.refl d)
  refine ⟨hrun, fun cursor hcursor => ?_⟩
  obtain ⟨left, hleft, hiff⟩ := evaluates_iff hcursor dir d s
  rw [hrun] at hiff
  exact ⟨left, hleft, hiff⟩

/-- For instance where the second name that is looked for has a record that cannot be read: the
directory has been met then, and is met no more. -/
theorem eval_again_unreadable :
    let tree := Tree.ofFiles [(⟨"/a/x"⟩, .empty), (⟨"/a/.meta/x._"⟩, "\x7b".toUTF8)]
    let e : Expression := ⟨"*/x", some ⟨[.wildcard "*", .name "x"]⟩, none⟩
    ∃ c answer c₁, Reachable Tree c ∧ c.nodes.length = 1 ∧ c₁.nodes.length = 2 ∧
      Except.isOk answer = false ∧ ∀ d ∈ [c, c₁],
        ((e.eval .root : Work (StateM Tree) Value).run.run d).run tree = ((answer, c₁), tree) := by
  intro tree e
  have hc := (Reachable.empty .default .root).deed (.meet ⟨"/"⟩) tree
  generalize hstart : ((((Deed.meet ⟨"/"⟩).run : StateT Cache (StateM Tree) Unit).run
    ⟨.default, .root, []⟩).run tree).1.2 = c at hc
  have hroot : (c.node? .root).isSome := by
    rw [← hstart]
    decide +kernel
  obtain ⟨answer, c₁, hrun⟩ := eval_again e hc hroot (still_tree tree)
  have honce := (hrun c List.mem_cons_self).1
  have hanswer : (((e.eval .root : Work (StateM Tree) Value).run.run c).run tree).1.1 = answer :=
    congrArg (fun out => out.1.1) honce
  have hleft : (((e.eval .root : Work (StateM Tree) Value).run.run c).run tree).1.2 = c₁ :=
    congrArg (fun out => out.1.2) honce
  subst hstart hanswer hleft
  exact ⟨_, _, _, hc, by decide +kernel, by decide +kernel, by decide +kernel,
    fun d hd => (hrun d hd).1⟩

end ShowTree
