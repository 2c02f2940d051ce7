/-
ShowTree.Proofs.Session.Existing — the value of a selector lists what is there.

An expression with a selector has a list for its value, and it names paths. After any run of
a session, and in whatever directory that has been met, the list holds those of the paths
where something is, in the same order (`found_eq_named`). Only strays make a difference, and
there is one when a draft was met and moved (`not_found_eq_named_draft`).
-/
import ShowTree.Proofs.Selector.Existing

namespace ShowTree

/-! ## 1. Evaluating and generating -/

variable {σ : Type} [FileSystem (StateM σ)]

/-- Evaluating leaves the layout and the working directory as they are, and what is known of an
object that has been met. -/
theorem keeps_eval_node (e : Expression) (c : Cache) (dir : Place) :
    Keeps (fun d (_ : σ) => (d.layout = c.layout ∧ d.workingPlace = c.workingPlace) ∧
      (d.node? dir).isSome ∧ d.nodeAt dir = c.nodeAt dir) (e.eval dir) := by
  have hcalm : Calm (fun _ _ => True) (fun _ _ _ => True) fun d (_ : σ) =>
      (d.layout = c.layout ∧ d.workingPlace = c.workingPlace) ∧ (d.node? dir).isSome ∧
        d.nodeAt dir = c.nodeAt dir :=
    Calm.of_cache fun d p st r hd _ _ => by
      obtain ⟨n, hn⟩ := Option.isSome_iff_exists.1 hd.2.1
      refine ⟨hd.1, ?_, by rw [Cache.nodeAt_add hd.2.1]; exact hd.2.2⟩
      rw [Cache.node?_add, hn, Option.some_or, Option.isSome_some]
  exact hcalm.keeps_eval e dir

/-- The paths that an expression without a formula names, as the tree is. -/
theorem Truthful.run_generate {view : σ → Tree} (h : Truthful view) {c : Cache} {s₀ : σ}
    (hw : (view s₀).WellFormed) {e : Expression} {s : Selector} (hselector : e.selector = some s)
    (hformula : e.formula = none) (hplain : ∀ seg ∈ s.segments, seg.Plain) {dir : Place}
    (hshow : .showRoot ∈ s.segments → (c.showAt dir).isSome) :
    ((e.generate dir : Work (StateM σ) _).run.run c).run s₀ =
      ((.ok ((Segment.named (view s₀) c.layout.metaDir (c.showAt dir) s.segments dir).map
        Place.path), c), s₀) := by
  have hgenerate : e.generate dir = (s.candidates dir : Work (StateM σ) _) := by
    rw [Expression.generate, hformula, hselector]
    rfl
  rw [hgenerate, Selector.candidates]
  exact h.run_candidates hw hplain hshow

/-! ## 2. After any requests -/

/-- After any requests, in a well-formed tree, take an expression with a selector that goes up
at most before its first name or wildcard, and without a formula. If it has a value, the value
lists the paths that the expression names, before and after, as far as something is there, in
the same order. Left out on both sides is what is at or below a stray; strays are files that
were moved away. -/
theorem found_eq_named {t : Tree} {refusal : Nat → Option FileError} {layout : Layout}
    {workingDir : Path} {start c : Cache} {requests : List Request} {w : Watched}
    (hstart : Cache.start layout workingDir = .ok start)
    (hrun : Request.watch requests start (.ofTree t refusal) = (c, w)) (hw : w.tree.WellFormed)
    {source : String} {e : Expression} {s : Selector} (hparse : Expression.parse source = .ok e)
    (hsource : '\\' ∉ source.toList) (hselector : e.selector = some s)
    (hformula : e.formula = none) (hshape : s.UpThenDown) {dir : Place}
    (hdir : (c.node? dir).isSome) {v : Value} {c' : Cache} {w' : Watched}
    (heval : ((e.eval dir : Work (StateM Watched) Value).run.run c).run w = ((.ok v, c'), w')) :
    ∃ found named : List Place, v = .list (found.map Place.toValue) ∧
      (∀ d ∈ [c, c'], ((e.generate dir : Work (StateM Watched) (List Path)).run.run d).run w =
        ((.ok (named.map Place.path), d), w)) ∧
      (found.filter fun p => !c.astray w.tree p) =
        (named.filter fun p => w.tree.present p.path && !c.astray w.tree p) ∧
      ∀ n ∈ c.nodes, n.isStray w.tree = true →
        n.stat.isDir = false ∧ n.place.path.key ∈ (movedAway w.log).map Path.key := by
  obtain ⟨hne, hplain, hroot⟩ := Expression.segments_of_parse hsource hparse hselector
  have haccounted : Accounted layout c w := accounted_of_watch hstart hrun
  have hsearch : Triple (fun d w' => d = c ∧ w' = w) (e.eval dir) (fun v _ _ => ∃ values,
      v = .list values ∧ Found c w.tree
        (Segment.named w.tree c.layout.metaDir (c.showAt dir) s.segments dir) values ∧
          (.showRoot ∈ s.segments → (c.showAt dir).isSome)) (fun _ _ _ => True) := by
    rw [Expression.eval, hselector, hformula]
    exact Triple.map ((truthful_watched.search_selector hw haccounted.grown hne hplain hroot
      hshape hdir).onSuccess fun values _ _ hq => ⟨values, rfl, hq.1.2, hq.2⟩)
  have hvalue := hsearch c w ⟨rfl, rfl⟩
  have hkept := keeps_eval_node e c dir c w ⟨⟨rfl, rfl⟩, hdir, rfl⟩
  rw [heval] at hvalue hkept
  obtain ⟨_, rfl, ⟨found, rfl, hmatching⟩, hshow⟩ := hvalue
  obtain ⟨⟨hlayout, -⟩, -, hnode⟩ := hkept
  have hshowAt : c'.showAt dir = c.showAt dir := by rw [Cache.showAt, Cache.showAt, hnode]
  refine ⟨found, _, rfl, fun d hd => ?_, hmatching, haccounted.moved⟩
  have hsame : d.layout = c.layout ∧ d.showAt dir = c.showAt dir := by
    rcases List.mem_cons.1 hd with rfl | hd
    · exact ⟨rfl, rfl⟩
    · obtain rfl := List.mem_singleton.1 hd
      exact ⟨hlayout, hshowAt⟩
  rw [← hsame.1, ← hsame.2]
  exact truthful_watched.run_generate hw hselector hformula hplain fun hmem =>
    hsame.2 ▸ hshow hmem

/-! ## 3. Two sessions -/

/-- What a session comes to that starts at the root of a tree with these files. -/
def sessionOver (files : List (Path × ByteArray)) (requests : List Request) : Cache × Watched :=
  Request.watch requests ⟨.default, .root, []⟩ (.ofTree (.ofFiles files) fun _ => none)

theorem watch_eq_sessionOver (files : List (Path × ByteArray)) (requests : List Request) :
    Request.watch requests ⟨.default, .root, []⟩ (.ofTree (.ofFiles files) fun _ => none) =
      ((sessionOver files requests).1, (sessionOver files requests).2) :=
  rfl

/-- The values of places that are accepted by their paths are those of the paths. -/
theorem Place.map_toValue_filter (places : List Place) (accepts : Path → Bool) :
    (places.filter fun q => accepts q.path).map Place.toValue =
      ((places.map Place.path).filter accepts).map fun p => .text p.text := by
  rw [List.filter_map, List.map_map]
  rfl

/-- A session that has made a file beside others. -/
def madeBeside : Cache × Watched :=
  sessionOver [(⟨"/a/y"⟩, .empty), (⟨"/b/x"⟩, .empty), (⟨"/c/z"⟩, .empty)]
    [.createObjects "/a/x" .file none]

/-- For instance the files of one name in all directories: one has just been made, and one is
missing. -/
theorem found_eq_named_made :
    ∃ e c' w', Expression.parse "*/x" = .ok e ∧
      ((e.eval .root : Work (StateM Watched) Value).run.run madeBeside.1).run madeBeside.2 =
        ((.ok (.list [.text "/a/x", .text "/b/x"]), c'), w') ∧
      ((e.generate .root : Work (StateM Watched) (List Path)).run.run madeBeside.1).run
        madeBeside.2 = ((.ok [⟨"/a/x"⟩, ⟨"/b/x"⟩, ⟨"/c/x"⟩], madeBeside.1), madeBeside.2) := by
  have hparse : Expression.parse "*/x" =
      .ok ⟨"*/x", some ⟨[.wildcard "*", .name "x"]⟩, none⟩ := rfl
  have hmade : _ = (madeBeside.1, madeBeside.2) := watch_eq_sessionOver _ _
  have hw : madeBeside.2.tree.WellFormed := by decide +kernel
  have hroot : (madeBeside.1.node? .root).isSome := by decide +kernel
  generalize he : Expression.mk "*/x" _ none = e at hparse
  have hvalue : ((((e.eval .root : Work (StateM Watched) Value).run.run
    madeBeside.1).run madeBeside.2).1.1.toOption.isSome) = true := by rw [← he]; decide +kernel
  have hcalm : ∀ n ∈ madeBeside.1.nodes, n.isStray madeBeside.2.tree = false := by
    decide +kernel
  have hpaths : ((((e.generate .root : Work (StateM Watched) (List Path)).run.run
      madeBeside.1).run madeBeside.2).1.1.toOption) = some [⟨"/a/x"⟩, ⟨"/b/x"⟩, ⟨"/c/x"⟩] := by
    rw [← he]
    decide +kernel
  have hpresent : [⟨"/a/x"⟩, ⟨"/b/x"⟩, ⟨"/c/x"⟩].filter madeBeside.2.tree.present =
      [⟨"/a/x"⟩, ⟨"/b/x"⟩] := by decide +kernel
  obtain ⟨v, heval⟩ := exists_eq_ok hvalue
  obtain ⟨found, named, rfl, hgenerate, hfilter, -⟩ := found_eq_named
    (Cache.start_path .default .root) hmade hw hparse (by decide)
    (by rw [← he]) (by rw [← he]) (by decide) hroot heval
  have hrun := hgenerate _ List.mem_cons_self
  rw [hrun] at hpaths
  have hnamed : named.map Place.path = [⟨"/a/x"⟩, ⟨"/b/x"⟩, ⟨"/c/x"⟩] := Option.some.inj hpaths
  have hfound : found = named.filter fun q => madeBeside.2.tree.present q.path :=
    Matching.eq_filter hfilter hcalm
  have hvalues : found.map Place.toValue = [.text "/a/x", .text "/b/x"] := by
    rw [hfound, Place.map_toValue_filter, hnamed, hpresent]
    rfl
  rw [hvalues] at heval
  rw [hnamed] at hrun
  exact ⟨e, _, _, hparse, heval, hrun⟩

/-- A session that has met a file where a draft is written, and has then saved the record. -/
def draftMet : Cache × Watched :=
  sessionOver [(⟨"/a/.meta/_.tmp"⟩, .empty)] [.eval "/a/.meta/_.tmp", .setUser "/a" "k" "v"]

/-- Afterwards the file is found, though it is not there. -/
theorem not_found_eq_named_draft :
    (Tree.ofFiles [(⟨"/a/.meta/_.tmp"⟩, .empty)]).WellFormed ∧ draftMet.2.tree.WellFormed ∧
      draftMet.1.isDirAt .root = true ∧ ∃ e s v c' w', Expression.parse "/a/.meta/_.tmp" = .ok e ∧ e.selector = some s ∧ e.formula = none ∧
      s.UpThenDown ∧
      ((e.eval .root : Work (StateM Watched) Value).run.run draftMet.1).run draftMet.2 =
        ((.ok v, c'), w') ∧
      v.display = "[/a/.meta/_.tmp]" ∧
      ∀ paths d, ((e.generate .root : Work (StateM Watched) (List Path)).run.run draftMet.1).run
          draftMet.2 = ((.ok paths, d), draftMet.2) →
        v ≠ .list ((paths.filter draftMet.2.tree.present).map fun p => .text p.text) := by
  have hparse : Expression.parse "/a/.meta/_.tmp" = .ok ⟨"/a/.meta/_.tmp",
      some ⟨[.fileRoot, .name "a", .name ".meta", .name "_.tmp"]⟩, none⟩ := rfl
  generalize he : Expression.mk "/a/.meta/_.tmp" _ none = e at hparse
  have hvalue : ((((e.eval .root : Work (StateM Watched) Value).run.run
      draftMet.1).run draftMet.2).1.1.toOption.map Value.display) = some "[/a/.meta/_.tmp]" := by
    rw [← he]
    decide +kernel
  have hpaths : (((((e.generate .root : Work (StateM Watched) (List Path)).run.run
      draftMet.1).run draftMet.2).1.1.toOption.map fun paths =>
        paths.filter draftMet.2.tree.present)) = some [] := by
    rw [← he]
    decide +kernel
  obtain ⟨found, hfound, hdisplay⟩ := Option.map_eq_some_iff.1 hvalue
  obtain ⟨v, heval⟩ := exists_eq_ok (Option.isSome_of_eq_some hfound)
  rw [heval] at hfound
  obtain rfl : v = found := Option.some.inj hfound
  refine ⟨by decide +kernel, by decide +kernel, by decide +kernel, e, _, v, _, _, hparse,
    by rw [← he], by rw [← he], by decide, heval, hdisplay, fun paths d hgenerate hlist => ?_⟩
  rw [hgenerate] at hpaths
  have hnone : paths.filter draftMet.2.tree.present = [] := Option.some.inj hpaths
  rw [hlist, hnone] at hdisplay
  exact absurd hdisplay (by decide)

end ShowTree
