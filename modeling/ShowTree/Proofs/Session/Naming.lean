/-
ShowTree.Proofs.Session.Naming — what an expression names in a session.

Once its working directory has been met, all that decides which paths an expression names is
the tree and the show of this directory (`Named`). Naming them again meets nothing
(`Named.run_sessionGenerate`), and where all of them are there the value of the expression
lists them all (`Named.sessionEval`). An expression without backslashes names canonical
paths, so if no request makes objects for another one, a session keeps its tree well formed
(`inTree_of_watch`).
-/
import ShowTree.Proofs.Selector.Widened
import ShowTree.Proofs.Session.Frame
import ShowTree.Proofs.Session.Target

namespace ShowTree

/-! ## 1. The paths of an expression -/

section Paths

variable {σ : Type} [FileSystem (StateM σ)] {view : σ → Tree} {c₀ : Cache} {s₀ : σ}
variable {source : String} {e : Expression} {s : Selector}

omit [FileSystem (StateM σ)] in
theorem Session.parse_eq_pure (hparse : Expression.parse source = .ok e) :
    (Session.parse source : Action (StateM σ) Expression) = pure e := by
  rw [Session.parse, hparse]
  rfl

/-- If an expression with a selector names any paths, it has no formula, and a show if it starts
from the root of one. -/
theorem Expression.formula_of_run_generate (hselector : e.selector = some s)
    (hroot : ∀ seg ∈ s.segments.tail, seg.isRoot = false) {dir : Place} {paths : List Path}
    {c : Cache} {s₁ : σ}
    (hrun : ((e.generate dir : Work (StateM σ) _).run.run c₀).run s₀ = ((.ok paths, c), s₁)) :
    e.formula = none ∧ (.showRoot ∈ s.segments → (c₀.showAt dir).isSome) := by
  cases hformula : e.formula with
  | some f =>
    rw [Expression.generate, hformula] at hrun
    cases hrun
  | none =>
    refine ⟨rfl, fun hmem => ?_⟩
    cases hshow : c₀.showAt dir with
    | some place => rfl
    | none =>
      have hfront : ∃ rest, s.segments = .showRoot :: rest := by
        cases hsegments : s.segments with
        | nil =>
          rw [hsegments] at hmem
          cases hmem
        | cons segment rest =>
          rw [hsegments] at hmem hroot
          rcases List.mem_cons.1 hmem with rfl | hmem
          · exact ⟨rest, rfl⟩
          · cases hroot _ hmem
      obtain ⟨rest, hsegments⟩ := hfront
      have hfails : ((Segment.candidates dir (.showRoot :: rest) dir.path :
          Work (StateM σ) _).run.run c₀).run s₀ = ((.error (.unresolvedShow dir.path), c₀), s₀) := by
        rw [Segment.candidates, run_bind, run_get]
        dsimp only
        rw [hshow]
        rfl
      have hgenerate : e.generate dir = (s.candidates dir : Work (StateM σ) _) := by
        rw [Expression.generate, hformula, hselector]
        rfl
      rw [hgenerate, Selector.candidates, hsegments, hfails] at hrun
      cases hrun

/-- The working directory from which an expression can name paths, and the paths. -/
structure Named (t : Tree) (e : Expression) (s : Selector) (paths : List Path) (c : Cache) :
    Prop where
  met : (c.node? c.workingPlace).isSome
  formula : e.formula = none
  showRoot : .showRoot ∈ s.segments → (c.showAt c.workingPlace).isSome
  eq : paths = (Segment.named t c.layout.metaDir (c.showAt c.workingPlace) s.segments
    c.workingPlace).map Place.path

/-- What a session generates. -/
theorem Truthful.sessionGenerate (h : Truthful view) (hw : (view s₀).WellFormed)
    (hgrown : Grown c₀.nodes) (hparse : Expression.parse source = .ok e)
    (hselector : e.selector = some s) (hplain : ∀ seg ∈ s.segments, seg.Plain)
    (hroot : ∀ seg ∈ s.segments.tail, seg.isRoot = false) :
    Triple (fun c s₁ => c = c₀ ∧ s₁ = s₀)
      (Session.generate source : Action (StateM σ) (List Path))
      (fun paths c s₁ => s₁ = s₀ ∧ Grown c.nodes ∧ c.layout = c₀.layout ∧
        c.workingPlace = c₀.workingPlace ∧ Named (view s₀) e s paths c) (fun _ _ _ => True) := by
  have hstays : Calm (fun _ _ => True) (fun _ _ _ => True) fun c (_ : σ) =>
      c.workingPlace = c₀.workingPlace := Calm.of_cache fun _ _ _ _ hc _ _ => hc
  rw [Session.generate, Session.parse_eq_pure hparse, pure_bind]
  have hmeet : Triple (fun c s₁ => c = c₀ ∧ s₁ = s₀) Cache.meetWorkingPlace
      (fun dir c s₁ => (s₁ = s₀ ∧ Sees c₀ (view s₀) [dir] c ∧ dir = c.workingPlace) ∧
        c.workingPlace = c₀.workingPlace) (fun _ _ _ => True) := by
    refine ((h.meetWorkingPlace hgrown).and hstays.keeps_meetWorkingPlace).imp ?_
      (fun _ _ _ hq => hq) fun _ _ _ _ => trivial
    rintro c s₁ ⟨rfl, rfl⟩
    exact ⟨⟨rfl, rfl⟩, rfl⟩
  refine Triple.adapt (Triple.bind hmeet fun dir => Triple.of_forall fun c s₁ hi => ?_)
  obtain ⟨⟨rfl, hsees, rfl⟩, hplace⟩ := hi
  refine (Triple.result c s₁).onSuccess fun paths c' s' hrun => ?_
  obtain ⟨hformula, hshow⟩ := Expression.formula_of_run_generate hselector hroot hrun
  rw [h.run_generate hw hselector hformula hplain hshow] at hrun
  injection hrun with hrun hs
  injection hrun with hrun hc
  subst hs hc
  exact ⟨rfl, hsees.grown, hsees.layout, hplace, hsees.met _ List.mem_cons_self, hformula, hshow,
    (Except.ok.inj hrun).symm⟩

/-- An expression without a selector names the working directory, if anything. -/
theorem Truthful.sessionGenerate_of_none (h : Truthful view) (hgrown : Grown c₀.nodes)
    (hparse : Expression.parse source = .ok e) (hselector : e.selector = none) :
    Triple (fun c s₁ => c = c₀ ∧ s₁ = s₀)
      (Session.generate source : Action (StateM σ) (List Path))
      (fun paths c _ => paths = [c.workingPlace.path] ∧ (c.node? c.workingPlace).isSome)
      (fun _ _ _ => True) := by
  rw [Session.generate, Session.parse_eq_pure hparse, pure_bind]
  refine Triple.adapt (Triple.bind (h.meetWorkingPlace hgrown) fun dir => ?_)
  rw [Expression.generate, hselector]
  cases e.formula with
  | some f =>
    exact Triple.bind (Q := fun _ _ _ => False) (Triple.throw fun _ _ _ => trivial)
      fun _ _ _ hfalse => hfalse.elim
  | none =>
    refine Triple.pure ?_
    rintro c _ ⟨-, hsees, rfl⟩
    exact ⟨rfl, hsees.met _ List.mem_cons_self⟩

omit [FileSystem (StateM σ)] in
/-- The paths are those of places without backslashes. -/
theorem Named.exists_plain {t : Tree} {paths : List Path} (hnamed : Named t e s paths c₀)
    (hw : t.WellFormed) (hgrown : Grown c₀.nodes) (hdir : c₀.workingPlace.Plain)
    (hplain : ∀ seg ∈ s.segments, seg.Plain) {p : Path} (hp : p ∈ paths) :
    ∃ q : Place, q.Plain ∧ q.path = p := by
  rw [hnamed.eq] at hp
  obtain ⟨q, hq, rfl⟩ := List.mem_map.1 hp
  exact ⟨q, Segment.plain_of_mem_named hw (fun place hplace =>
    hdir.of_mem_upward (hgrown.showAt_mem_upward hplace).2) hplain hdir hq, rfl⟩

/-- Where an expression can name paths, a session generates them and meets nothing. -/
theorem Named.run_sessionGenerate {paths : List Path} (hnamed : Named (view s₀) e s paths c₀)
    (h : Truthful view) (hw : (view s₀).WellFormed) (hparse : Expression.parse source = .ok e)
    (hselector : e.selector = some s) (hplain : ∀ seg ∈ s.segments, seg.Plain) :
    ((Session.generate source : Action (StateM σ) (List Path)).run.run c₀).run s₀ =
      ((.ok paths, c₀), s₀) := by
  refine Triple.run_eq ?_
  rw [Session.generate, Session.parse_eq_pure hparse, pure_bind]
  refine Triple.adapt (Triple.bind
    (Triple.of_run_eq (Cache.run_meetWorkingPlace_of_met hnamed.met)) fun dir => ?_)
  refine Triple.of_fact ?_
  rintro rfl
  refine Triple.of_run_eq ?_
  rw [h.run_generate hw hselector hnamed.formula hplain hnamed.showRoot, ← hnamed.eq]

/-- Where an expression can name paths, and something is at all of them and nothing astray, its
value lists them all. -/
theorem Named.sessionEval {paths : List Path} (hnamed : Named (view s₀) e s paths c₀)
    (h : Truthful view) (hw : (view s₀).WellFormed) (hgrown : Grown c₀.nodes)
    (hfiles : ∀ n ∈ c₀.nodes, n.isStray (view s₀) = true → n.stat.isDir = false)
    (hparse : Expression.parse source = .ok e) (hselector : e.selector = some s)
    (hne : s.segments ≠ []) (hplain : ∀ seg ∈ s.segments, seg.Plain)
    (hroot : ∀ seg ∈ s.segments.tail, seg.isRoot = false) (hshape : s.UpThenDown)
    (hthere : ∀ q : Place, q.path ∈ paths → (view s₀).present q.path = true)
    (hclear : ∀ q : Place, q.path ∈ paths → c₀.astray (view s₀) q = false) :
    Triple (fun c s₁ => c = c₀ ∧ s₁ = s₀) (Session.eval source : Action (StateM σ) Value)
      (fun v _ _ => v = .list (paths.map fun p => .text p.text)) (fun _ _ _ => True) := by
  have hdown : SearchLeads view c₀ s₀ (c₀.showAt c₀.workingPlace) (FoundAmong c₀ (view s₀))
      (s.segments.dropWhile (!·.descends)) := h.search_among hw hfiles
    (fun seg hseg => hplain seg ((List.dropWhile_sublist _).mem hseg)) hshape
  have hmem : ∀ q ∈ Segment.named (view s₀) c₀.layout.metaDir (c₀.showAt c₀.workingPlace)
      s.segments c₀.workingPlace, q.path ∈ paths := by
    intro q hq
    rw [hnamed.eq]
    exact List.mem_map_of_mem hq
  rw [Session.eval, Session.parse_eq_pure hparse, pure_bind]
  refine Triple.adapt (Triple.bind ((Triple.of_run_eq
    (Cache.run_meetWorkingPlace_of_met hnamed.met)).onSuccess fun _ _ _ hq => hq) fun dir => ?_)
  refine Triple.of_fact ?_
  rintro rfl
  rw [Expression.eval, hselector, hnamed.formula]
  refine Triple.map ?_
  rw [Selector.search, if_neg (by simpa using hne)]
  refine (h.search_chain hgrown hroot hnamed.met hdown).onSuccess ?_
  rintro values c s₁ ⟨⟨-, hfound⟩, -⟩
  rw [hfound.eq_map (fun q hq => hthere q (hmem q hq)) fun q hq => hclear q (hmem q hq), hnamed.eq,
    List.map_map]
  rfl

omit [FileSystem (StateM σ)] in
/-- Outside of directories for metadata, an expression that does not name these does not lead into
one. -/
theorem Named.not_inMeta {t : Tree} {paths : List Path} (hnamed : Named t e s paths c₀)
    (hw : t.WellFormed) (hgrown : Grown c₀.nodes) (hlayout : c₀.layout = .default)
    (hdir : c₀.workingPlace.Plain) (houtside : Layout.metaName ∉ c₀.workingPlace.names)
    (hplain : ∀ seg ∈ s.segments, seg.Plain) (hvisible : .name Layout.metaName.text ∉ s.segments)
    {p q : Place} (hp : p.path ∈ paths) (hq : q ∈ p.upward) : ¬ InMeta q.path.key := by
  have hvisibleDir : ∀ n ∈ c₀.workingPlace.names, n.text ≠ Layout.metaName.text :=
    fun n hn htext => houtside (Name.chars_injective (congrArg String.toList htext) ▸ hn)
  have hshow : ∀ place ∈ c₀.showAt c₀.workingPlace,
      place.Plain ∧ ∀ n ∈ place.names, n.text ≠ Layout.metaName.text := by
    intro place hplace
    have hup := (hgrown.showAt_mem_upward hplace).2
    exact ⟨hdir.of_mem_upward hup, fun n hn =>
      hvisibleDir n ((Place.mem_upward_iff.1 hup).subset hn)⟩
  have hmem := hp
  rw [hnamed.eq, hlayout] at hmem
  obtain ⟨r, hr, hpath⟩ := List.mem_map.1 hmem
  obtain rfl := Place.path_injective hpath
  have hplainPlace : r.Plain := Segment.plain_of_mem_named hw (fun place hplace =>
    (hshow place hplace).1) hplain hdir hr
  intro hmeta
  have hname := Place.metaName_mem_of_inMeta (hplainPlace.of_mem_upward hq) hmeta
  exact Segment.visible_of_mem_named hw hshow hplain hvisible hdir hvisibleDir hr _
    ((Place.mem_upward_iff.1 hq).subset hname) rfl

end Paths

/-! ## 2. A tree that stays well formed -/

/-- If the request makes objects, its expression is without backslashes. -/
def Request.Plain (request : Request) : Prop :=
  ∀ making ∈ request.making?, '\\' ∉ making.1.toList

instance (request : Request) : Decidable request.Plain :=
  inferInstanceAs (Decidable (∀ making ∈ request.making?, '\\' ∉ making.1.toList))

/-- Of a session in this working directory: its tree is well formed. -/
structure InTree (dir : Place) (c : Cache) (w : Watched) : Prop where
  layout : c.layout = .default
  grown : Grown c.nodes
  workingPlace : c.workingPlace = dir
  wellFormed : w.tree.WellFormed

section WellFormed

variable {dir : Place}

theorem sustained_inTree (dir : Place) : Sustained (fun w p st => w.tree.stat p = .ok st)
    (fun w p isDir r => w.tree.recordOf .default p isDir = .ok r) (InTree dir) where
  calm w₀ := truthful_watched.calm (fun _ h => h.layout) fun _ _ _ _ h hnew hdir _ _ =>
    ⟨h.layout, h.grown.add hnew hdir, h.workingPlace, h.wellFormed⟩
  editSave {p change} hchange := by
    have hedit : Triple (InTree dir) (modify change : Work (StateM Watched) PUnit)
        (fun _ => InTree dir) (fun _ => InTree dir) :=
      Triple.modify fun c w h => ⟨(hchange c).layout.trans h.layout, (hchange c).grown h.grown,
        (hchange c).workingPlace.trans h.workingPlace, h.wellFormed⟩
    refine Triple.bind hedit fun _ => ?_
    refine triple_save_of_courses (fun h => h.layout) (fun h _ => h) fun h _ course =>
      Outcome.any ⟨h.layout, h.grown, h.workingPlace, ?_⟩
    exact course.keeps (K := fun w => w.tree.WellFormed)
      (fun change hchange happly hw => hw.apply (canonicalKey_of_saving hw hchange happly) happly)
      (fun change e hw => hw) h.wellFormed

/-- An empty object is made under a canonical key. -/
theorem triple_makeEmpty_inTree {kind : ObjectKind} {p : Path} (hkey : Tree.CanonicalKey p.key) :
    Triple (InTree dir) (Session.makeEmpty kind p) (fun _ => InTree dir) (fun _ => InTree dir) := by
  rw [← kind.target_change p] at hkey
  exact triple_makeEmpty_of_change
    (fun h happly => ⟨h.layout, h.grown, h.workingPlace, h.wellFormed.apply hkey happly⟩)
    fun e h => ⟨h.layout, h.grown, h.workingPlace, h.wellFormed⟩

/-- An expression without backslashes names places without backslashes, and to name any, the working
directory is met. -/
theorem triple_generate_plain (hdir : dir.Plain) {source : String} (hsource : '\\' ∉ source.toList)
    {c₀ : Cache} {w₀ : Watched} (h : InTree dir c₀ w₀) :
    Triple (fun c w => c = c₀ ∧ w = w₀)
      (Session.generate source : Action (StateM Watched) (List Path))
      (fun paths c w => (w = w₀ ∧ InTree dir c w₀) ∧ (c.node? dir).isSome ∧
        ∀ p ∈ paths, ∃ q : Place, q.Plain ∧ q.path = p)
      (fun _ c w => w = w₀ ∧ InTree dir c w₀) := by
  have hframe : Keeps (fun c w => w = w₀ ∧ InTree dir c w₀)
      (Session.generate source : Action (StateM Watched) (List Path)) :=
    ((sustained_inTree dir).calm w₀).keeps_sessionGenerate source
  have hpaths : Triple (fun c w => c = c₀ ∧ w = w₀)
      (Session.generate source : Action (StateM Watched) (List Path))
      (fun paths c _ => c.workingPlace = dir → Grown c.nodes → (c.node? dir).isSome ∧
        ∀ p ∈ paths, ∃ q : Place, q.Plain ∧ q.path = p) (fun _ _ _ => True) := by
    cases hparse : Expression.parse source with
    | error e =>
      have hthrow : (Session.parse source : Action (StateM Watched) Expression) =
          throw (.illFormed e) := by
        rw [Session.parse, hparse]
        rfl
      rw [Session.generate, hthrow]
      exact Triple.bind (Q := fun _ _ _ => False) (Triple.throw fun _ _ _ => trivial)
        fun _ _ _ hfalse => hfalse.elim
    | ok e =>
      cases hselector : e.selector with
      | none =>
        refine (truthful_watched.sessionGenerate_of_none h.grown hparse hselector).onSuccess ?_
        rintro paths c _ ⟨rfl, hmet⟩ rfl -
        exact ⟨hmet, fun p hp => ⟨_, hdir, (List.mem_singleton.1 hp).symm⟩⟩
      | some s =>
        obtain ⟨-, hplain, hroot⟩ := Expression.segments_of_parse hsource hparse hselector
        refine (truthful_watched.sessionGenerate h.wellFormed h.grown hparse hselector hplain
          hroot).onSuccess ?_
        rintro paths c _ ⟨-, -, -, -, hnamed⟩ rfl hgrown
        exact ⟨hnamed.met, fun p hp => hnamed.exists_plain h.wellFormed hgrown hdir hplain hp⟩
  refine (hframe.and hpaths).imp ?_ ?_ fun _ _ _ he => he.1
  · rintro c w ⟨rfl, rfl⟩
    exact ⟨⟨rfl, h⟩, rfl, rfl⟩
  · rintro paths c w ⟨hin, hplain⟩
    exact ⟨hin, hplain hin.2.workingPlace hin.2.grown⟩

/-- So it names canonical paths. -/
theorem triple_generate_inTree (hdir : dir.Plain) {source : String} (hsource : '\\' ∉ source.toList) :
    Triple (InTree dir) (Session.generate source : Action (StateM Watched) (List Path))
      (fun paths c w => InTree dir c w ∧ ∀ p ∈ paths, Tree.CanonicalKey p.key)
      (fun _ => InTree dir) := by
  refine Triple.of_forall fun c₀ w₀ h => ?_
  refine (triple_generate_plain hdir hsource h).imp (fun _ _ hi => hi) ?_ ?_
  · rintro paths c w ⟨⟨rfl, hin⟩, -, hplain⟩
    refine ⟨hin, fun p hp => ?_⟩
    obtain ⟨q, hq, rfl⟩ := hplain p hp
    exact hq.canonicalKey
  · rintro e c w ⟨rfl, hin⟩
    exact hin

/-- A session whose requests are plain keeps its tree well formed. -/
theorem inTree_of_watch {requests : List Request} {start : Cache} {w : Watched}
    {out : Cache × Watched} (hdir : dir.Plain) (hplain : ∀ request ∈ requests, request.Plain)
    (h : InTree dir start w) (hout : Request.watch requests start w = out) :
    InTree dir out.1 out.2 := by
  refine Request.watch_of_leads (fun request hrequest => ?_) h hout
  exact (sustained_inTree dir).request (R := fun _ p => Tree.CanonicalKey p.key) (fun _ _ h => h)
    request (fun source kind hmaking => triple_generate_inTree hdir (hplain request hrequest _ hmaking))
    fun kind p hkey => (triple_makeEmpty_inTree hkey).pre fun _ _ h => h.1

end WellFormed

end ShowTree
