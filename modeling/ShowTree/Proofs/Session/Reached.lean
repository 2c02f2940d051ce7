/-
ShowTree.Proofs.Session.Reached — names and wildcards list what they reach.

After any run of a session, the value of names and wildcards is the list of all they reach,
in rising order of the names on the way and each place once (`found_reached`). The order
holds in any case; at or below a stray the cache does not know what there is, and a file that
was met before it was moved away is still listed (`not_found_reached_draft`).
-/
import ShowTree.Proofs.Selector.Reached
import ShowTree.Proofs.Session.Existing

namespace ShowTree

/-- After any requests, in a well-formed tree, take an expression of names and wildcards without
a formula. If it has a value, the value lists places that the segments admit, in strictly
rising order, and leaving out what is at or below a stray these are all places that the
segments reach. Strays are files that were moved away. -/
theorem found_reached {t : Tree} {refusal : Nat → Option FileError} {layout : Layout}
    {workingDir : Path} {start c : Cache} {requests : List Request} {w : Watched}
    (hstart : Cache.start layout workingDir = .ok start)
    (hrun : Request.watch requests start (.ofTree t refusal) = (c, w)) (hw : w.tree.WellFormed)
    {e : Expression} {s : Selector} (hselector : e.selector = some s) (hformula : e.formula = none)
    (hne : s.segments ≠ []) (hplain : ∀ seg ∈ s.segments, seg.Plain)
    (hdown : ∀ seg ∈ s.segments, seg.descends) {dir : Place} (hdir : (c.node? dir).isSome)
    {v : Value} {c' : Cache} {w' : Watched}
    (heval : ((e.eval dir : Work (StateM Watched) Value).run.run c).run w = ((.ok v, c'), w')) :
    ∃ found : List Place, v = .list (found.map Place.toValue) ∧ found.Pairwise Place.Before ∧
      (∀ q ∈ found, ∃ ns : List Name, q = dir.down ns ∧
        List.Forall₂ (Segment.Admits layout.metaDir) s.segments ns) ∧
      (∀ q, c.astray w.tree q = false →
        (q ∈ found ↔ Segment.Reaches w.tree layout.metaDir s.segments dir q)) ∧
      ∀ n ∈ c.nodes, n.isStray w.tree = true →
        n.stat.isDir = false ∧ n.place.path.key ∈ (movedAway w.log).map Path.key := by
  have haccounted : Accounted layout c w := accounted_of_watch hstart hrun
  have hfiles : ∀ n ∈ c.nodes, n.isStray w.tree = true → n.stat.isDir = false :=
    fun n hn hstray => (haccounted.moved n hn hstray).1
  have hleads : SearchLeads Watched.tree c w none (FoundAmong c w.tree) s.segments :=
    truthful_watched.search_among hw hfiles hplain hdown
  have hsearch : Triple (fun d w' => d = c ∧ w' = w) (e.eval dir) (fun v _ _ => ∃ values,
      v = .list values ∧ FoundAmong c w.tree
        (Segment.named w.tree c.layout.metaDir none s.segments dir) values) (fun _ _ _ => True) := by
    rw [Expression.eval, hselector, hformula]
    refine Triple.map ?_
    rw [Selector.search, if_neg (by simpa using hne)]
    refine (hleads [dir] dir List.mem_cons_self).imp ?_ (fun values _ _ hq => ⟨values, rfl, hq.2⟩)
      fun _ _ _ _ => trivial
    rintro d w' ⟨rfl, rfl⟩
    exact ⟨rfl, .refl haccounted.grown hdir⟩
  have hvalue := hsearch c w ⟨rfl, rfl⟩
  rw [heval] at hvalue
  obtain ⟨_, rfl, found, rfl, hsublist, hmatching⟩ := hvalue
  rw [haccounted.layout] at hsublist hmatching
  refine ⟨found, rfl, (Segment.pairwise_named hw hplain hdown).sublist hsublist,
    fun q hq => Segment.exists_admitted_of_mem_named hw hplain hdown (hsublist.subset hq),
    fun q hclear => ?_, haccounted.moved⟩
  have hmem : q ∈ found ↔ q ∈ found.filter (!c.astray w.tree ·) := by simp [hclear]
  have hnamed : q ∈ Segment.named w.tree layout.metaDir none s.segments dir ∧
      w.tree.present q.path = true ↔ Segment.Reaches w.tree layout.metaDir s.segments dir q :=
    Segment.mem_named_iff hw hplain hdown
  rw [← hnamed, hmem, hmatching]
  simp [hclear]

/-! ## Two sessions -/

/-- The texts in a list. -/
def Value.texts : Value → List String
  | .list items => items.filterMap fun
    | .text s => some s
    | _ => none
  | _ => []

theorem Value.texts_list (places : List Place) :
    (Value.list (places.map Place.toValue)).texts = places.map fun p => p.path.text := by
  rw [Value.texts, List.filterMap_map, ← List.filterMap_eq_map]
  rfl

/-- For instance the files of one name in all directories, one of which has just been made. -/
theorem found_reached_made :
    ∃ (found : List Place) (c' : Cache) (w' : Watched),
      (((Expression.mk "*/x" (some ⟨[.wildcard "*", .name "x"]⟩) none).eval .root :
        Work (StateM Watched) Value).run.run madeBeside.1).run madeBeside.2 =
          ((.ok (.list (found.map Place.toValue)), c'), w') ∧
      found.map (fun p => p.path.text) = ["/a/x", "/b/x"] ∧ found.Pairwise Place.Before ∧
      ∀ q, q ∈ found ↔
        Segment.Reaches madeBeside.2.tree ".meta" [.wildcard "*", .name "x"] .root q := by
  have hmade : _ = (madeBeside.1, madeBeside.2) := watch_eq_sessionOver _ _
  have hcalm : ∀ n ∈ madeBeside.1.nodes, n.isStray madeBeside.2.tree = false := by
    decide +kernel
  have hplain : ∀ seg ∈ [Segment.wildcard "*", .name "x"], seg.Plain := by
    simp only [List.mem_cons, List.not_mem_nil, or_false, forall_eq_or_imp, forall_eq]
    exact ⟨trivial, by decide, by decide⟩
  have htexts : ((((Expression.mk "*/x" (some ⟨[.wildcard "*", .name "x"]⟩) none).eval .root :
      Work (StateM Watched) Value).run.run madeBeside.1).run madeBeside.2).1.1.toOption.map
        Value.texts = some ["/a/x", "/b/x"] := by
    decide +kernel
  obtain ⟨v, hv, hlisted⟩ := Option.map_eq_some_iff.1 htexts
  obtain ⟨_, heval⟩ := exists_eq_ok (Option.isSome_of_eq_some hv)
  rw [heval] at hv
  obtain rfl := Option.some.inj hv
  obtain ⟨found, rfl, hrising, -, hreached, -⟩ := found_reached
    (Cache.start_path .default .root) hmade (by decide +kernel) rfl rfl (by simp) hplain
    (by decide) (by decide +kernel) heval
  rw [Value.texts_list] at hlisted
  exact ⟨found, _, _, heval, hlisted, hrising, fun q =>
    hreached q (Cache.astray_eq_false hcalm q)⟩

/-- A file that has been met where a draft is written is still listed when the draft has been
moved, though it is not there to be reached. -/
theorem not_found_reached_draft :
    (Tree.ofFiles [(⟨"/a/.meta/_.tmp"⟩, .empty)]).WellFormed ∧ draftMet.2.tree.WellFormed ∧
      draftMet.1.isDirAt .root = true ∧ ∃ v c' w',
        (((Expression.mk "a/.meta/_.tmp" (some ⟨[.name "a", .name ".meta", .name "_.tmp"]⟩)
          none).eval .root : Work (StateM Watched) Value).run.run draftMet.1).run draftMet.2 =
            ((.ok v, c'), w') ∧
        ∀ found : List Place, v = .list (found.map Place.toValue) → ¬ ∀ q, q ∈ found ↔
          Segment.Reaches draftMet.2.tree ".meta" [.name "a", .name ".meta", .name "_.tmp"]
            .root q := by
  have htexts : ((((Expression.mk "a/.meta/_.tmp"
      (some ⟨[.name "a", .name ".meta", .name "_.tmp"]⟩) none).eval .root :
        Work (StateM Watched) Value).run.run draftMet.1).run draftMet.2).1.1.toOption.map
          Value.texts = some ["/a/.meta/_.tmp"] := by
    decide +kernel
  obtain ⟨v, hv, hlisted⟩ := Option.map_eq_some_iff.1 htexts
  obtain ⟨_, heval⟩ := exists_eq_ok (Option.isSome_of_eq_some hv)
  rw [heval] at hv
  obtain rfl := Option.some.inj hv
  refine ⟨by decide +kernel, by decide +kernel, by decide +kernel, _, _, _, heval, ?_⟩
  rintro found rfl hreached
  rw [Value.texts_list] at hlisted
  obtain ⟨q, rfl, hq⟩ := List.map_eq_singleton_iff.1 hlisted
  obtain ⟨-, -, -, -, -, hthere⟩ := (hreached q).1 List.mem_cons_self
  have habsent : draftMet.2.tree.present ⟨"/a/.meta/_.tmp"⟩ = false := by decide +kernel
  rw [show q.path = ⟨"/a/.meta/_.tmp"⟩ from Path.ext hq, habsent] at hthere
  cases hthere

end ShowTree
