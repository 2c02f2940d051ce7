/-
ShowTree.Proofs.Selector.Described — working a formula out for what a selector finds.

An expression with a selector and a formula goes to and fro between the two: the formula is
worked out for an object with what has been met by then, and only then the next object is
looked for. While the file system stays as it is, this comes to the same as looking for all
objects first, and working the formula out for them afterwards (`tells_search`): what has been
met keeps what is known about it, and working out a formula meets nothing. Only the failure
that comes first is told, so it can be that of the formula for an object, or that of the
search (`eval_formula`).
-/
import ShowTree.Proofs.Selector.Evaluation

namespace ShowTree

/-! ## 1. Describing what was found -/

namespace Harvest

variable {β : Type}

/-- What is told of all that a search has come to: what is said of the places, one after the
other, unless something cannot be said of one of them, and then the failure of the search. -/
def described (tell : Place → Except Failure β) (found : Harvest) : Except Failure (List β) := do
  let values ← found.places.mapM tell
  match found.failure with
  | some e => throw e
  | none => pure values

variable {tell : Place → Except Failure β} {places : List Place}

theorem described_none (tell : Place → Except Failure β) (places : List Place) :
    described tell ⟨places, none⟩ = places.mapM tell := by
  rw [described]
  cases places.mapM tell <;> rfl

/-- A search that failed makes no list. -/
theorem described_some (tell : Place → Except Failure β) (places : List Place) (e : Failure) :
    ∃ e', described tell ⟨places, some e⟩ = .error e' := by
  rw [described]
  cases places.mapM tell with
  | error e' => exact ⟨e', rfl⟩
  | ok values => exact ⟨e, rfl⟩

/-- After a place of which nothing can be said, other places make no difference. -/
theorem described_append_of_error {e : Failure} (h : places.mapM tell = .error e)
    (others : Harvest) :
    described tell ⟨places ++ others.places, others.failure⟩ = .error e := by
  rw [described, List.mapM_append, h]
  rfl

theorem described_append_of_ok {values : List β} (h : places.mapM tell = .ok values)
    (others : Harvest) :
    described tell ⟨places ++ others.places, others.failure⟩ =
      (others.described tell).map (values ++ ·) := by
  rw [described, List.mapM_append, h, described]
  cases others.places.mapM tell with
  | error e => rfl
  | ok rest => cases others.failure <;> rfl

end Harvest

/-- Going through places depends on what is said of them only. -/
theorem mapM_congr_of_mem {β : Type} {tell tell' : Place → Except Failure β} :
    ∀ {places : List Place}, (∀ p ∈ places, tell p = tell' p) →
      places.mapM tell = places.mapM tell'
  | [], _ => rfl
  | p :: places, h => by
    have hothers := mapM_congr_of_mem fun q hq => h q (List.mem_cons_of_mem p hq)
    rw [List.mapM_cons, List.mapM_cons, h p List.mem_cons_self, hothers]

variable {σ : Type} [FileSystem (StateM σ)] {s : σ} {formula : Option Formula} {c d : Cache}

open Expression

/-! ## 2. Searching and describing in turn -/

/-- Of two searches from one cache, the first finds `found` and leaves `c₁`. The second
describes what it finds before it goes on. It comes to what is told of `found` with `c₁`, and
leaves `c₁` too unless something cannot be said. -/
structure Tells (s : σ) (formula : Option Formula) (visits : StateT Cache (StateM σ) Harvest)
    (search : Work (StateM σ) (List Value)) (c : Cache) (found : Harvest) (c₁ c₂ : Cache) :
    Prop where
  visited : (visits.run c).run s = ((found, c₁), s)
  grows : Grows s c c₁
  met : ∀ p ∈ found.places, (c₁.node? p).isSome
  told : (search.run.run c).run s = ((found.described (description formula c₁), c₂), s)
  same : (found.places.mapM (description formula c₁)).isOk → c₂ = c₁

/-- Both searches ask for the same object and go on from it, if it is there. -/
theorem tells_through {onward : Place → StateT Cache (StateM σ) Harvest}
    {search : Place → Work (StateM σ) (List Value)} {ask : Work (StateM σ) (Option Place)}
    {r : Except Failure (Option Place)} {c₁ : Cache} (hask : Settles s ask.run c r c₁)
    (honward : ∀ p, r = .ok (some p) →
      ∃ found c₂ c₃, Tells s formula (onward p) (search p) c₁ found c₂ c₃) :
    ∃ found c₂ c₃, Tells s formula (Segment.through ask onward) (do
      match ← ask with
      | some found => search found
      | none => pure []) c found c₂ c₃ := by
  have hvisit : ((Segment.through ask onward).run c).run s =
      ((Segment.goOn onward r).run c₁).run s := run_bind_of_eq hask.once
  rcases r with e | none | p
  · refine ⟨⟨[], some e⟩, c₁, c₁, hvisit, hask.grows, by simp, ?_, fun _ => rfl⟩
    rw [run_bind, hask.once]
    rfl
  · refine ⟨⟨[], none⟩, c₁, c₁, hvisit, hask.grows, by simp, ?_, fun _ => rfl⟩
    rw [run_bind, hask.once]
    rfl
  · obtain ⟨found, c₂, c₃, h⟩ := honward p rfl
    refine ⟨found, c₂, c₃, hvisit.trans h.visited, hask.grows.trans h.grows, h.met, ?_, h.same⟩
    rw [run_bind, hask.once]
    exact h.told

section Turns

variable {α : Type} {visits : α → StateT Cache (StateM σ) Harvest}
variable {search : α → Work (StateM σ) (List Value)} {a : α} {items : List α}
variable {places : List Place} {c₁ c₂ c₃ c₄ : Cache}

/-- Neither search goes on after a failure. -/
theorem Tells.stops {e : Failure}
    (h : Tells s formula (visits a) (search a) c ⟨places, some e⟩ c₁ c₂) :
    Tells s formula (Segment.inTurn visits (a :: items)) (Work.gather search (a :: items)) c
      ⟨places, some e⟩ c₁ c₂ where
  visited := Segment.run_inTurn_cons h.visited
  grows := h.grows
  met := h.met
  told := by
    obtain ⟨e', hfailed⟩ := Harvest.described_some (description formula c₁) places e
    rw [run_gather_cons, h.told, hfailed]
  same := h.same

/-- Both searches go on with the other items, unless the second one has failed by then. What was
said of the first places is what is said of them in the end, although the other places had not
been met. -/
theorem Tells.goes_on {others : Harvest}
    (h : Tells s formula (visits a) (search a) c ⟨places, none⟩ c₁ c₂)
    (hothers : Tells s formula (Segment.inTurn visits items) (Work.gather search items) c₁ others
      c₃ c₄) :
    ∃ c₅, Tells s formula (Segment.inTurn visits (a :: items))
      (Work.gather search (a :: items)) c ⟨places ++ others.places, others.failure⟩ c₃ c₅ := by
  have hvisit : ((Segment.inTurn visits (a :: items)).run c).run s =
      ((⟨places ++ others.places, others.failure⟩, c₃), s) := by
    rw [Segment.run_inTurn_cons h.visited, hothers.visited]
  have hmet : ∀ p ∈ places ++ others.places, (c₃.node? p).isSome := by
    intro p hp
    rcases List.mem_append.1 hp with hp | hp
    · exact hothers.grows.met (h.met p hp)
    · exact hothers.met p hp
  have hkept : places.mapM (description formula c₃) = places.mapM (description formula c₁) :=
    mapM_congr_of_mem fun p hp => description_eq hothers.grows (h.met p hp)
  have htold := run_gather_cons search a items c s
  rw [h.told, Harvest.described_none] at htold
  cases hfirst : places.mapM (description formula c₁) with
  | error e =>
    rw [hfirst] at hkept htold
    refine ⟨c₂, hvisit, h.grows.trans hothers.grows, hmet, ?_, fun hok => ?_⟩
    · rw [htold, Harvest.described_append_of_error hkept]
    · rw [List.mapM_append, hkept] at hok
      cases hok
  | ok values =>
    obtain rfl : c₂ = c₁ := h.same (by rw [hfirst]; rfl)
    rw [hfirst] at hkept htold
    refine ⟨c₄, hvisit, h.grows.trans hothers.grows, hmet, ?_, fun hok => hothers.same ?_⟩
    · rw [htold, Harvest.described_append_of_ok hkept]
      simp only [hothers.told]
    · rw [List.mapM_append, hkept] at hok
      cases hrest : others.places.mapM (description formula c₃) with
      | error e =>
        rw [hrest] at hok
        cases hok
      | ok rest => rfl

/-- Both searches try one item after the other. -/
theorem tells_inTurn {seed : Place}
    (hitem : ∀ a, ∀ {c : Cache}, Grown c.nodes → (c.node? seed).isSome →
      ∃ found c₁ c₂, Tells s formula (visits a) (search a) c found c₁ c₂) :
    ∀ (items : List α) {c : Cache}, Grown c.nodes → (c.node? seed).isSome →
      ∃ found c₁ c₂,
        Tells s formula (Segment.inTurn visits items) (Work.gather search items) c found c₁ c₂
  | [], c, _, _ => ⟨⟨[], none⟩, c, c, rfl, .refl c, by simp, rfl, fun _ => rfl⟩
  | a :: items, c, hg, hseed => by
    obtain ⟨⟨places, failure⟩, c₁, c₂, hfirst⟩ := hitem a hg hseed
    cases failure with
    | some e => exact ⟨_, c₁, c₂, hfirst.stops⟩
    | none =>
      obtain ⟨others, c₃, c₄, hothers⟩ :=
        tells_inTurn hitem items (hfirst.grows.grown hg) (hfirst.grows.met hseed)
      obtain ⟨c₅, h⟩ := hfirst.goes_on hothers
      exact ⟨_, c₃, c₅, h⟩

end Turns

/-- A search along segments, and the one that describes what it finds. -/
theorem tells_search (hs : Still s) (formula : Option Formula) :
    ∀ (segments : List Segment) {c : Cache} {seed : Place}, Grown c.nodes →
      (c.node? seed).isSome → ∃ found c₁ c₂,
        Tells s formula (Segment.visits segments seed)
          (Segment.search (describe formula) segments seed) c found c₁ c₂
  | [], c, seed, _, hseed => by
    refine ⟨⟨[seed], none⟩, c, c, rfl, .refl c, by simpa using hseed, ?_, fun _ => rfl⟩
    rw [Cursor.run_search_nil, run_describe, Harvest.described_none, List.mapM_cons]
    cases description formula c seed <;> rfl
  | segment :: rest, c, seed, hg, hseed => by
    have ih : ∀ {c : Cache} {seed : Place}, Grown c.nodes → (c.node? seed).isSome →
        ∃ found c₁ c₂, Tells s formula (Segment.visits rest seed)
          (Segment.search (describe formula) rest seed) c found c₁ c₂ :=
      tells_search hs formula rest
    by_cases hwild : ∃ pattern, segment = .wildcard pattern
    · obtain ⟨pattern, rfl⟩ := hwild
      have hbelow : ∀ (name : String) {c : Cache}, Grown c.nodes → (c.node? seed).isSome →
          ∃ found c₁ c₂, Tells s formula (Segment.below rest seed name)
            (Cursor.below (describe formula) rest seed name) c found c₁ c₂ := by
        intro name c hg _
        obtain ⟨r, c₁, hask, hmet⟩ := settles_meetIfPresent hs c (seed.path.join name)
        exact tells_through hask fun p hp => ih (hask.grows.grown hg) (hmet p hp)
      obtain ⟨r, hlist⟩ := settles_children hs hseed
      cases r with
      | error e =>
        refine ⟨⟨[], some e⟩, c, c, run_bind_of_eq hlist.once, .refl c, by simp, ?_, fun _ => rfl⟩
        rw [Segment.search, run_bind, hlist.once]
        rfl
      | ok names =>
        obtain ⟨found, c₁, c₂, hfound⟩ :=
          tells_inTurn hbelow (names.filter (Wildcard.accepts pattern)) hg hseed
        refine ⟨found, c₁, c₂, (run_bind_of_eq hlist.once).trans hfound.visited, hfound.grows,
          hfound.met, ?_, hfound.same⟩
        rw [Segment.search, run_bind, hlist.once]
        exact hfound.told
    · rw [Segment.visits_single fun pattern h => hwild ⟨pattern, h⟩,
        Cursor.search_single fun pattern h => hwild ⟨pattern, h⟩]
      obtain ⟨r, c₁, hask, hmet⟩ := settles_candidate hs hg hseed segment
      exact tells_through hask fun p hp => ih (hask.grows.grown hg) (hmet p hp)

/-! ## 3. Expressions -/

/-- What a cursor gives, and what the search that describes its matches comes to. -/
theorem exists_described (hs : Still s) (formula : Option Formula) (selector : Selector)
    (hg : Grown c.nodes) {dir : Place} (hdir : (c.node? dir).isSome) :
    ∃ found left c₁ c₂,
      Drains (pulling fun cursor : Cursor => cursor.next dir) (.ofSelector selector, c, s) found
        (left, c₁, s) ∧
      (∀ p ∈ found.places, (c₁.node? p).isSome) ∧
      ((selector.search (describe formula) dir : Work (StateM σ) _).run.run c).run s =
        ((found.described (description formula c₁), c₂), s) ∧
      ((found.places.mapM (description formula c₁)).isOk → c₂ = c₁) := by
  by_cases hne : selector.segments = []
  · refine ⟨⟨[], none⟩, _, c, c, .done (Cursor.pulling_next_of_nil hne dir c s), by simp, ?_,
      fun _ => rfl⟩
    rw [Selector.search, hne, List.isEmpty_nil, if_pos rfl]
    rfl
  · obtain ⟨found, c₁, c₂, h⟩ := tells_search hs formula selector.segments hg hdir
    obtain ⟨left, hdrains, -⟩ := Cursor.enumerates_next hne dir c s
    rw [h.visited] at hdrains
    refine ⟨found, left, c₁, c₂, hdrains, h.met, ?_, h.same⟩
    rw [Selector.search, if_neg (by simpa using hne)]
    exact h.told

/-- What an expression with a selector comes to, by what its search comes to. -/
theorem run_eval_selector {source : String} {selector : Selector} {dir : Place} {c' : Cache}
    {s' : σ} {answer : Except Failure (List Value)}
    (h : ((selector.search (describe formula) dir : Work (StateM σ) _).run.run c).run s =
      ((answer, c'), s')) :
    ((Expression.eval ⟨source, some selector, formula⟩ dir : Work (StateM σ) Value).run.run c).run
      s = ((answer.map .list, c'), s') := by
  rw [Expression.eval]
  dsimp only
  rw [map_eq_pure_bind, run_bind, h]
  cases answer <;> rfl

/-- Every place has a path. -/
theorem mapM_paths (places : List Place) (c : Cache) :
    places.mapM (description none c) = .ok (places.map Place.toValue) :=
  List.mapM_pure

/-- While the file system stays as it is, an expression with a selector and a formula comes to
what is told of the matches of the selector alone. A cursor of the selector gives `found`, from
whatever state it is set back. The selector alone tells the paths of all places found, or the
failure that ended the search. The selector with the formula tells what the formula says about
each of these places, or the first failure: that of the formula for one of them, or else that
of the search. The places are met in the cache that the selector alone leaves, and the formula
speaks of them as they are there; if it can say something about each, it leaves that cache
too. -/
theorem eval_formula (selector : Selector) (formula : Formula) (source source' : String)
    (hc : Reachable σ c) {dir : Place} (hdir : (c.node? dir).isSome) (hs : Still s) :
    ∃ (found : Harvest) (c₁ c₂ : Cache),
      (∀ cursor : Cursor, cursor.selector = selector → ∃ left,
        Drains (pulling fun cursor : Cursor => cursor.next dir) (cursor.reset, c, s) found
          (left, c₁, s)) ∧
      (∀ p ∈ found.places, (c₁.node? p).isSome) ∧
      ((Expression.eval ⟨source, some selector, none⟩ dir : Work (StateM σ) Value).run.run c).run
        s = ((match found.failure with
          | some e => .error e
          | none => .ok (.list (found.places.map Place.toValue)), c₁), s) ∧
      ((Expression.eval ⟨source', some selector, some formula⟩ dir :
          Work (StateM σ) Value).run.run c).run s =
        (((found.described fun p => formula.eval (c₁.nodeAt p)).map .list, c₂), s) ∧
      ((found.places.mapM fun p => formula.eval (c₁.nodeAt p)).isOk → c₂ = c₁) := by
  obtain ⟨found, left, c₁, c₂, hdrains, hmet, htold, hsame⟩ :=
    exists_described hs (some formula) selector hc.grown hdir
  obtain ⟨found', left', c₁', c₂', hdrains', -, hpaths, hsame'⟩ :=
    exists_described hs none selector hc.grown hdir
  obtain ⟨rfl, hend⟩ := hdrains.unique hdrains'
  cases hend
  obtain rfl : c₂' = c₁ := hsame' (by rw [mapM_paths]; rfl)
  refine ⟨found, c₂', c₂, ?_, hmet, ?_, run_eval_selector htold, hsame⟩
  · rintro cursor rfl
    exact ⟨left, hdrains⟩
  · rw [run_eval_selector hpaths, Harvest.described, mapM_paths]
    cases found.failure <;> rfl

/-- For instance in a directory where the first file has no field `w`, and the second one a
record that cannot be read: which failure is told depends on the formula. -/
theorem eval_formula_first_failure :
    let tree := Tree.ofFiles
      [(⟨"/a/1"⟩, .empty), (⟨"/a/2"⟩, .empty), (⟨"/a/.meta/2._"⟩, "\x7b".toUTF8)]
    let selector : Selector := ⟨[.name "a", .wildcard "*"]⟩
    ∃ (c : Cache) (found : Harvest) (c₁ c₂ : Cache), Reachable Tree c ∧
      found.places.map (·.path.text) = ["/a/1"] ∧
      found.failure = some (.badRecord ⟨"/a/.meta/2._"⟩) ∧
      ((Expression.eval ⟨"a/*", some selector, none⟩ .root :
        Work (StateM Tree) Value).run.run c).run tree =
          ((.error (.badRecord ⟨"/a/.meta/2._"⟩), c₁), tree) ∧
      ((Expression.eval ⟨"a/*:w", some selector, some (.field "w" [])⟩ .root :
        Work (StateM Tree) Value).run.run c).run tree =
          ((.error (.unknownField "w"), c₂), tree) := by
  intro tree selector
  have hc := (Reachable.empty .default .root).deed (.meet ⟨"/"⟩) tree
  generalize hstart : ((((Deed.meet ⟨"/"⟩).run : StateT Cache (StateM Tree) Unit).run
    ⟨.default, .root, []⟩).run tree).1.2 = c at hc
  have hroot : (c.node? .root).isSome := by
    rw [← hstart]
    decide +kernel
  obtain ⟨found, c₁, c₂, hcursor, -, hpaths, hformula, -⟩ :=
    eval_formula selector (.field "w" []) "a/*" "a/*:w" hc hroot (still_tree tree)
  have hfound : (((Segment.visits selector.segments .root : StateT Cache (StateM Tree) _).run
      c).run tree).1.1 = found := by
    have hselector : selector.segments ≠ [] := by decide
    obtain ⟨left, hdrains⟩ := hcursor (.ofSelector selector) rfl
    obtain ⟨left', hdrains', -⟩ := Cursor.enumerates_next hselector .root c tree
    exact (hdrains'.unique hdrains).1
  have hfailure : found.failure = some (.badRecord ⟨"/a/.meta/2._"⟩) := by
    rw [← hfound, ← hstart]
    decide +kernel
  have hplaces : found.places.map (·.path.text) = ["/a/1"] := by
    rw [← hfound, ← hstart]
    decide +kernel
  have hunknown : (match (((Expression.eval ⟨"a/*:w", some selector, some (.field "w" [])⟩ .root :
      Work (StateM Tree) Value).run.run c).run tree).1.1 with
      | .error e => some e
      | .ok _ => none) = some (.unknownField "w") := by
    rw [← hstart]
    decide +kernel
  refine ⟨c, found, c₁, c₂, hc, hplaces, hfailure, ?_, ?_⟩
  · rw [hpaths, hfailure]
  · rw [hformula] at hunknown ⊢
    generalize (found.described fun p => Formula.eval (c₁.nodeAt p) (.field "w" [])).map Value.list
      = answer at hunknown ⊢
    cases answer with
    | error e => rw [Option.some.inj hunknown]
    | ok value => cases hunknown

end ShowTree
