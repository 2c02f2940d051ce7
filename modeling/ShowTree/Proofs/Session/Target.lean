/-
ShowTree.Proofs.Session.Target — what the value of a target lists.

A text that can be read as a target is the text of an expression too. A search for it finds
the place that it leads to, or nothing (`Segment.triple_search_single`). If the text never
goes up, the search finds the place exactly if something is there (`Truthful.search_target`);
if it does go up, it may go through what is not there, and then it finds nothing. So after any
run of a session the value of such a text lists at most what it leads to as a target
(`eval_eq_resolveTarget`). Only strays make a difference, and there is one when a draft was
met and moved (`eval_draft_not_present`).
-/
import ShowTree.Proofs.Selector.Target
import ShowTree.Proofs.Session.Existing

namespace ShowTree

open ShowTree.Text

variable {σ : Type} [FileSystem (StateM σ)]

/-! ## 1. A search for one place -/

namespace Segment

/-- A segment other than a wildcard is followed from its candidate. -/
theorem search_of_single {β : Type} (visit : Place → Work (StateM σ) β) {segment : Segment}
    (h : segment.Single) (rest : List Segment) (p : Place) :
    search visit (segment :: rest) p = (do
      match ← segment.candidate p with
      | some found => search visit rest found
      | none => pure []) := by
  cases segment with
  | wildcard pattern => exact h.elim
  | _ => rfl

/-- Staying where one is makes no difference to a search. -/
theorem search_filter_idle {β : Type} (visit : Place → Work (StateM σ) β)
    (segments : List Segment) (p : Place) :
    search visit (segments.filter (· != .up 0)) p = search visit segments p := by
  induction segments generalizing p with
  | nil => rfl
  | cons segment rest ih =>
    by_cases hidle : segment = .up 0
    · subst hidle
      have hup : (Segment.up 0).Single := trivial
      rw [List.filter_cons_of_neg (by simp), ih, search_of_single visit hup]
      simp [candidate, Place.upBy]
    · rw [List.filter_cons_of_pos (by simpa using hidle)]
      cases segment with
      | wildcard pattern => simp only [search, ih]
      | _ => simp only [search, ih]

/-- Nor does it to where a chain leads. -/
theorem lead_filter_idle (showRoot : Option Place) (segments : List Segment) (p : Place) :
    lead showRoot (segments.filter (· != .up 0)) p = lead showRoot segments p := by
  induction segments generalizing p with
  | nil => rfl
  | cons segment rest ih =>
    by_cases hidle : segment = .up 0
    · subst hidle
      rw [List.filter_cons_of_neg (by simp), ih]
      rfl
    · rw [List.filter_cons_of_pos (by simpa using hidle), lead, lead]
      exact congrArg _ (funext ih)

variable {known : Path → Stat → Prop} {kept : Path → Bool → Record → Prop} {I : Assertion σ}

/-- What is met at a path is at the place that the path leads to. -/
theorem triple_meetIfPresent (h : Calm known kept I) (p : Path) :
    Triple I (Cache.meetIfPresent p)
      (fun found c s => I c s ∧ ∀ q, found = some q → p.toPlace = .ok q) (fun _ => I) := by
  refine Triple.bind (Triple.attempt (R := Outcome
    (fun q c s => I c s ∧ p.toPlace = .ok q) fun _ => I) ?_) fun r => ?_
  · exact (h.meetPath p).post fun _ _ _ hi => ⟨hi.1, hi.2.2⟩
  · cases r with
    | ok q =>
      refine Triple.pure fun c s hi => ⟨hi.1, fun q' hq' => ?_⟩
      rw [← Option.some.inj hq']
      exact hi.2
    | error e =>
      dsimp only
      split
      · exact Triple.pure fun c s hi => ⟨hi, fun q hq => by cases hq⟩
      · exact Triple.throw fun _ _ hi => hi

/-- The candidate of a segment is where the segment leads to. -/
theorem triple_candidate (h : Calm known kept I) {segment : Segment} (hsingle : segment.Single)
    (hshow : segment ≠ .showRoot) (showRoot : Option Place) (p : Place) :
    Triple I (segment.candidate p)
      (fun found c s => I c s ∧ ∀ q, found = some q → segment.onward showRoot p = some q)
      (fun _ => I) := by
  cases segment with
  | showRoot => exact absurd rfl hshow
  | wildcard pattern => exact hsingle.elim
  | up levels => exact Triple.pure fun c s hi => ⟨hi, fun q hq => hq⟩
  | fileRoot =>
    refine Triple.map ((h.meetPath ⟨"/"⟩).post ?_)
    rintro q c s ⟨hi, -, hq⟩
    refine ⟨hi, fun q' hq' => ?_⟩
    rw [← hq', ← Except.ok.inj ((Place.toPlace_path .root).symm.trans hq), onward]
  | name text =>
    have hname : IsName text := hsingle
    refine Triple.bind Triple.get fun c₁ => ?_
    split
    · refine ((triple_meetIfPresent h (Place.entry p ⟨text, hname⟩).path).pre
        fun _ _ hi => hi.2).post ?_
      rintro found c s ⟨hi, hfound⟩
      refine ⟨hi, fun q hq => ?_⟩
      have hplace := (Place.toPlace_path _).symm.trans (hfound q hq)
      rw [onward, Place.child?_of_isName hname, Except.ok.inj hplace]
    · exact Triple.pure fun c s hi => ⟨hi.2, fun q hq => by cases hq⟩

/-- A search for segments that lead to one place finds that place or nothing. -/
theorem triple_search_single (h : Calm known kept I) {showRoot : Option Place} {q : Place} :
    ∀ {segments : List Segment} {p : Place}, (∀ seg ∈ segments, seg.Single) →
      .showRoot ∉ segments → lead showRoot segments p = some q →
      Triple I (search (Expression.describe none) segments p)
        (fun values _ _ => values = [] ∨ values = [q.toValue]) (fun _ _ _ => True)
  | [], p, _, _, hlead => by
    obtain rfl : p = q := Option.some.inj hlead
    exact Triple.pure fun _ _ _ => .inr rfl
  | segment :: rest, p, hsingle, hshow, hlead => by
    obtain ⟨hfirst, hrest⟩ := List.forall_mem_cons.1 hsingle
    rw [List.mem_cons, not_or] at hshow
    rw [search_of_single _ hfirst]
    refine Triple.bind (((triple_candidate h hfirst (Ne.symm hshow.1) showRoot p)).onSuccess
      fun _ _ _ hi => hi) fun found => Triple.of_fact fun hfound => ?_
    cases found with
    | none => exact Triple.pure fun _ _ _ => .inl rfl
    | some r =>
      rw [lead, hfound r rfl, Option.bind_some] at hlead
      exact triple_search_single h hrest hshow.2 hlead

/-! ## 2. A search for a target -/

theorem showRoot_not_mem_ofPieces {cs : List Char} (hplain : '\\' ∉ cs) :
    .showRoot ∉ ofPieces cs := fun h => by cases (plain_of_mem_ofPieces hplain h).2

/-- A search for a target finds the place that it leads to, or nothing, or it fails for want of
a show. -/
theorem triple_search_target {cs : List Char} (hstar : '*' ∉ cs) (hplain : '\\' ∉ cs)
    (c₀ : Cache) (s₀ : σ) (dir : Place) :
    Triple (fun c s => c = c₀ ∧ s = s₀) (search (Expression.describe none) (ofTarget cs) dir)
      (fun values _ _ => ∃ q, lead (c₀.showAt dir) (ofTarget cs) dir = some q ∧
        (values = [] ∨ values = [q.toValue])) (fun _ _ _ => True) := by
  have hcalm : Calm (fun _ _ => True) (fun _ _ _ => True) fun _ (_ : σ) => True :=
    Calm.of_cache fun _ _ _ _ _ _ _ => trivial
  have hsingle := single_of_mem_ofTarget hstar
  rcases ofTarget_cases cs with ⟨rest, rfl, he⟩ | ⟨rest, rfl, -, he⟩ | ⟨-, he⟩
  · have hrest : '*' ∉ rest := fun h => hstar (by simp [h])
    rw [he] at hsingle ⊢
    refine Triple.bind (candidate_showRoot dir) fun found => Triple.of_fact ?_
    rintro ⟨hsome, hfound⟩
    obtain ⟨place, rfl⟩ := Option.isSome_iff_exists.1 hsome
    have hlead : lead (c₀.showAt dir) (ofPieces rest) place = some (place.walk rest) :=
      lead_ofPieces hrest place
    refine ((triple_search_single hcalm (List.forall_mem_cons.1 hsingle).2
      (showRoot_not_mem_ofPieces fun h => hplain (by simp [h])) hlead).pre
      fun _ _ _ => trivial).onSuccess ?_
    rintro values c s hvalues
    exact ⟨_, by rw [lead, onward, ← hfound, Option.bind_some, hfound, hlead], hvalues⟩
  · have hrest : '*' ∉ rest := fun h => hstar (by simp [h])
    have hlead : lead (c₀.showAt dir) (.fileRoot :: ofPieces rest) dir =
        some (Place.root.walk rest) := lead_ofPieces hrest .root
    rw [he] at hsingle ⊢
    have hpieces : .showRoot ∉ ofPieces rest :=
      showRoot_not_mem_ofPieces fun h => hplain (by simp [h])
    have hshow : .showRoot ∉ Segment.fileRoot :: ofPieces rest := by simp [hpieces]
    exact ((triple_search_single hcalm hsingle hshow hlead).pre fun _ _ _ => trivial).onSuccess
      fun _ _ _ hvalues => ⟨_, hlead, hvalues⟩
  · have hlead : lead (c₀.showAt dir) (ofPieces cs) dir = some (dir.walk cs) :=
      lead_ofPieces hstar dir
    rw [he] at hsingle ⊢
    exact ((triple_search_single hcalm hsingle (showRoot_not_mem_ofPieces hplain) hlead).pre
      fun _ _ _ => trivial).onSuccess fun _ _ _ hvalues => ⟨_, hlead, hvalues⟩

/-- Pieces that never go up are names, but for idle ones. -/
theorem descends_of_mem_ofPieces {cs : List Char} (hstar : '*' ∉ cs)
    (hdots : ['.', '.'] ∉ splitOn '/' cs) {segment : Segment} (h : segment ∈ ofPieces cs)
    (hidle : segment ≠ .up 0) : segment.descends = true := by
  rcases mem_ofPieces_cases hstar h with rfl | ⟨-, hsplit⟩ | ⟨n, rfl⟩
  · exact absurd rfl hidle
  · exact absurd hsplit hdots
  · rfl

/-- A target that never goes up has only names after its root, but for idle segments. -/
theorem descends_of_mem_tail {cs : List Char} (hstar : '*' ∉ cs)
    (hdots : ['.', '.'] ∉ splitOn '/' cs) :
    ∀ seg ∈ ((ofTarget cs).filter (· != .up 0)).tail, seg.descends = true := by
  have hpieces : ∀ {rest : List Char}, '*' ∉ rest → ['.', '.'] ∉ splitOn '/' rest →
      ∀ seg ∈ (ofPieces rest).filter (· != .up 0), seg.descends = true := by
    intro rest hstar hdots seg hseg
    obtain ⟨hmem, hidle⟩ := List.mem_filter.1 hseg
    exact descends_of_mem_ofPieces hstar hdots hmem (by simpa using hidle)
  rcases ofTarget_cases cs with ⟨rest, rfl, he⟩ | ⟨rest, rfl, -, he⟩ | ⟨-, he⟩
  · rw [he, List.filter_cons_of_pos (by simp), List.tail_cons]
    exact hpieces (fun h => hstar (by simp [h])) fun h => hdots (by simp [splitOn, h])
  · rw [he, List.filter_cons_of_pos (by simp), List.tail_cons]
    exact hpieces (fun h => hstar (by simp [h])) fun h => hdots (by simp [splitOn, h])
  · rw [he]
    exact fun seg hseg => hpieces hstar hdots seg (List.mem_of_mem_tail hseg)

theorem plain_of_mem_ofTarget {cs : List Char} (hplain : '\\' ∉ cs) :
    ∀ seg ∈ ofTarget cs, seg.Plain :=
  forall_mem_ofTarget trivial trivial fun _ hrest _ hseg =>
    (plain_of_mem_ofPieces (fun h => hplain (hrest.mem h)) hseg).1

end Segment

/-- Names after a root, or after nothing, go up before they go down at most. -/
theorem Selector.upThenDown_of_tail : ∀ {segments : List Segment},
    (∀ seg ∈ segments.tail, seg.descends = true) → (Selector.mk segments).UpThenDown
  | [], _ => fun _ h => by cases h
  | first :: rest, htail => by
    intro seg hseg
    cases hfirst : first.descends with
    | true =>
      rw [List.dropWhile_cons_of_neg (by simp [hfirst])] at hseg
      rcases List.mem_cons.1 hseg with rfl | hseg
      · exact hfirst
      · exact htail seg hseg
    | false =>
      rw [List.dropWhile_cons_of_pos (by simp [hfirst])] at hseg
      exact htail seg ((List.dropWhile_sublist _).mem hseg)

variable {view : σ → Tree} {c₀ : Cache} {s₀ : σ}

/-- One place or nothing was found of one that is named, so it was found exactly if something
is there, unless it is astray. -/
theorem Found.eq_singleton_iff {t : Tree} {q : Place} {values : List Value}
    (h : Found c₀ t [q] values) (hvalues : values = [] ∨ values = [q.toValue])
    (hclear : c₀.astray t q = false) : values = [q.toValue] ↔ t.present q.path = true := by
  obtain ⟨found, rfl, hmatching⟩ := h
  rw [Matching] at hmatching
  rcases hvalues with hnone | hone
  · rw [List.map_eq_nil_iff] at hnone
    subst hnone
    simpa [hclear] using hmatching
  · obtain ⟨p, rfl, hp⟩ := List.map_eq_singleton_iff.1 hone
    obtain rfl := Place.toValue_injective hp
    cases hpresent : t.present p.path with
    | true => exact ⟨fun _ => rfl, fun _ => rfl⟩
    | false => simp [hclear, hpresent] at hmatching

/-- A search for a target finds the place that it leads to, or nothing. If the target never
goes up, the place is found exactly if something is there, unless it is astray. -/
theorem Truthful.search_target (h : Truthful view) (hw : (view s₀).WellFormed)
    (hgrown : Grown c₀.nodes) {cs : List Char} (hstar : '*' ∉ cs) (hplain : '\\' ∉ cs) {dir : Place}
    (hdir : (c₀.node? dir).isSome) :
    Triple (fun c s => c = c₀ ∧ s = s₀)
      (Segment.search (Expression.describe none) (Segment.ofTarget cs) dir)
      (fun values _ _ => ∃ q,
        Segment.lead (c₀.showAt dir) (Segment.ofTarget cs) dir = some q ∧
        (values = [] ∨ values = [q.toValue]) ∧ (['.', '.'] ∉ splitOn '/' cs →
          c₀.astray (view s₀) q = false →
            (values = [q.toValue] ↔ (view s₀).present q.path = true)))
      (fun _ _ _ => True) := by
  have hleads := Segment.triple_search_target hstar hplain c₀ s₀ dir
  by_cases hdots : ['.', '.'] ∈ splitOn '/' cs
  · refine hleads.onSuccess ?_
    rintro values c s ⟨q, hlead, hvalues⟩
    exact ⟨q, hlead, hvalues, fun h => absurd hdots h⟩
  · have htail := Segment.descends_of_mem_tail hstar hdots
    have hroot : ∀ seg ∈ ((Segment.ofTarget cs).filter (· != .up 0)).tail, seg.isRoot = false := by
      intro seg hseg
      have hdescends := htail seg hseg
      cases seg with
      | name text => rfl
      | wildcard pattern => rfl
      | _ => cases hdescends
    have hfinds := h.search_segments hw hgrown
      (fun seg hseg => Segment.plain_of_mem_ofTarget hplain seg (List.mem_filter.1 hseg).1)
      hroot (Selector.upThenDown_of_tail htail) hdir
    rw [Segment.search_filter_idle] at hfinds
    refine ((hleads.and hfinds).pre fun _ _ hi => ⟨hi, hi⟩).onSuccess ?_
    rintro values c s ⟨⟨q, hlead, hvalues⟩, ⟨-, hfound⟩, -⟩
    refine ⟨q, hlead, hvalues, fun _ hclear => ?_⟩
    rw [Segment.named_eq_lead fun seg hseg =>
      Segment.single_of_mem_ofTarget hstar seg (List.mem_filter.1 hseg).1,
      Segment.lead_filter_idle, hlead] at hfound
    exact hfound.eq_singleton_iff hvalues hclear

/-! ## 3. The value of a target -/

/-- What was not astray at first is not so later. -/
theorem Sees.astray_eq_false {t : Tree} {places : List Place} {c : Cache} {q : Place}
    (h : Sees c₀ t places c) (hclear : c₀.astray t q = false) : c.astray t q = false := by
  refine List.any_eq_false.2 fun n hn => ?_
  rcases h.nodes n hn with hold | hright
  · exact List.any_eq_false.1 hclear n hold
  · simp [hright]

/-- Meeting the working directory. -/
theorem Truthful.meetWorkingPlace (h : Truthful view) (hgrown : Grown c₀.nodes) :
    Triple (fun c s => c = c₀ ∧ s = s₀) Cache.meetWorkingPlace
      (fun dir c s => s = s₀ ∧ Sees c₀ (view s₀) [dir] c ∧ dir = c.workingPlace)
      (fun _ _ _ => True) := by
  have hcalm : Calm (fun p st => (view s₀).stat p = .ok st)
      (fun p isDir r => (view s₀).recordOf c₀.layout p isDir = .ok r)
      (fun c s => s = s₀ ∧ Sees c₀ (view s₀) [] c ∧ c₀.workingPlace = c.workingPlace) :=
    h.calm (fun _ hi => hi.1.layout) fun _ _ _ _ hi hnew hdir hstat _ =>
      ⟨hi.1.add hnew hdir hstat, hi.2⟩
  refine Triple.bind Triple.get fun c₁ => Triple.of_forall fun c s hi => ?_
  obtain ⟨rfl, rfl, rfl⟩ := hi
  refine Triple.bind ((hcalm.meet c₁.workingPlace).imp ?_ (fun _ _ _ hi => hi)
    fun _ _ _ _ => trivial) fun _ => Triple.pure ?_
  · rintro c s ⟨rfl, rfl⟩
    exact ⟨rfl, ⟨rfl, hgrown, fun _ hn => .inl hn, by simp⟩, rfl⟩
  · rintro c s ⟨⟨hs, hsees, hplace⟩, hmet⟩
    exact ⟨hs, hsees.cons hmet, hplace⟩

/-- What the value of a text says that leads to a place as a target. -/
def Lists (c₀ : Cache) (t : Tree) (text : String) (v : Value) (c : Cache) : Prop :=
  ∃ p, c.resolveTarget text c.workingPlace = .ok p ∧ (v = .list [] ∨ v = .list [p.toValue]) ∧
    (['.', '.'] ∉ splitOn '/' text.toList → c₀.astray t p = false →
      (v = .list [p.toValue] ↔ t.present p.path = true))

/-- The value of a target in a directory that has been met. -/
theorem Truthful.eval_target (h : Truthful view) (hw : (view s₀).WellFormed)
    (hgrown : Grown c₀.nodes) {text : String} (hstar : '*' ∉ text.toList)
    (hplain : '\\' ∉ text.toList) (hne : text.toList ≠ [])
    (htrim : trim text.toList = text.toList) (hdir : (c₀.node? c₀.workingPlace).isSome) :
    Triple (fun c s => c = c₀ ∧ s = s₀)
      ((Expression.mk text (Selector.parse? text.toList) none).eval c₀.workingPlace)
      (fun v c _ => Lists c₀ (view s₀) text v c) (fun _ _ _ => True) := by
  have hselector := Selector.parse?_of_trim htrim hne
  have hsegments : Segment.ofTarget text.toList ≠ [] :=
    (Selector.segments_of_parse? hplain hselector).1
  rw [hselector]
  generalize he : Expression.mk text _ none = e
  have hsearch : Triple (fun c s => c = c₀ ∧ s = s₀) (e.eval c₀.workingPlace)
      (fun v _ _ => ∃ q, Segment.lead (c₀.showAt c₀.workingPlace) (Segment.ofTarget text.toList)
        c₀.workingPlace = some q ∧ (v = .list [] ∨ v = .list [q.toValue]) ∧
        (['.', '.'] ∉ splitOn '/' text.toList → c₀.astray (view s₀) q = false →
          (v = .list [q.toValue] ↔ (view s₀).present q.path = true))) (fun _ _ _ => True) := by
    rw [← he, Expression.eval]
    dsimp only
    rw [Selector.search, if_neg (by simpa using hsegments)]
    refine Triple.map ((h.search_target hw hgrown hstar hplain hdir).onSuccess ?_)
    rintro values c s ⟨q, hlead, hvalues, hiff⟩
    exact ⟨q, hlead, by simpa using hvalues, by simpa using hiff⟩
  refine ((hsearch.and (keeps_eval_node e c₀ c₀.workingPlace)).pre ?_).onSuccess ?_
  · rintro c s ⟨rfl, rfl⟩
    exact ⟨⟨rfl, rfl⟩, ⟨rfl, rfl⟩, hdir, rfl⟩
  · rintro v c s ⟨⟨q, hlead, hv⟩, ⟨-, hplace⟩, -, hnode⟩
    refine ⟨q, ?_, hv⟩
    rw [Cache.showAt] at hlead
    rw [Cache.resolveTarget, c.resolve_eq_lead hstar, hplace, Cache.showAt, hnode, hlead]

/-- The value of a target in the working directory. -/
theorem Truthful.sessionEval_target (h : Truthful view) (hw : (view s₀).WellFormed)
    (hgrown : Grown c₀.nodes) {text : String} (hstar : '*' ∉ text.toList)
    (hcolon : ':' ∉ text.toList) (hplain : '\\' ∉ text.toList) (hne : text.toList ≠ [])
    (htrim : trim text.toList = text.toList) :
    Triple (fun c s => c = c₀ ∧ s = s₀) (Session.eval text : Action (StateM σ) Value)
      (fun v c _ => Lists c₀ (view s₀) text v c) (fun _ _ _ => True) := by
  have hparse : (Session.parse text : Action (StateM σ) Expression) =
      pure ⟨text, Selector.parse? text.toList, none⟩ := by
    rw [Session.parse, Expression.parse_of_no_colon hcolon]
    rfl
  rw [Session.eval, hparse, pure_bind]
  refine Triple.adapt (Triple.bind (h.meetWorkingPlace hgrown) fun dir => ?_)
  refine Triple.of_forall fun c₁ s₁ hi => ?_
  obtain ⟨rfl, hsees, rfl⟩ := hi
  refine (h.eval_target hw hsees.grown hstar hplain hne htrim
    (hsees.met _ List.mem_cons_self)).onSuccess ?_
  rintro v c s ⟨q, hresolve, hv, hiff⟩
  exact ⟨q, hresolve, hv, fun hdots hclear => hiff hdots (hsees.astray_eq_false hclear)⟩

/-- The same of a run that has come to a value, in a watched tree. -/
theorem Lists.of_run {c c' : Cache} {w w' : Watched} (hw : w.tree.WellFormed)
    (hgrown : Grown c.nodes) {text : String} (hstar : '*' ∉ text.toList)
    (hcolon : ':' ∉ text.toList) (hplain : '\\' ∉ text.toList) (hne : text.toList ≠ [])
    (htrim : trim text.toList = text.toList) {v : Value}
    (heval : ((Session.eval text : Action (StateM Watched) Value).run.run c).run w =
      ((.ok v, c'), w')) : Lists c w.tree text v c' := by
  have hvalue := truthful_watched.sessionEval_target hw hgrown hstar hcolon hplain hne htrim c w
    ⟨rfl, rfl⟩
  rw [heval] at hvalue
  exact hvalue

/-- After any requests, in a well-formed tree, take a text without wildcards, colons and
backslashes that is not empty and not blank at its ends. If it has a value, this lists the one
place that the text leads to as a target, or nothing; and if the text never goes up and the
place is neither at nor below a stray, the value lists it exactly if something is there.
Strays are files that were moved away. -/
theorem eval_eq_resolveTarget {t : Tree} {refusal : Nat → Option FileError} {layout : Layout}
    {workingDir : Path} {start c : Cache} {requests : List Request} {w : Watched}
    (hstart : Cache.start layout workingDir = .ok start)
    (hrun : Request.watch requests start (.ofTree t refusal) = (c, w)) (hw : w.tree.WellFormed)
    {text : String} (hstar : '*' ∉ text.toList) (hcolon : ':' ∉ text.toList)
    (hplain : '\\' ∉ text.toList) (hne : text.toList ≠ [])
    (hfront : text.toList.head?.any isBlank = false)
    (hback : text.toList.getLast?.any isBlank = false) {v : Value} {c' : Cache} {w' : Watched}
    (heval : ((Session.eval text : Action (StateM Watched) Value).run.run c).run w =
      ((.ok v, c'), w')) :
    ∃ p, c'.resolveTarget text c'.workingPlace = .ok p ∧
      (v = .list [] ∨ v = .list [p.toValue]) ∧
      (['.', '.'] ∉ splitOn '/' text.toList → c.astray w.tree p = false →
        (v = .list [p.toValue] ↔ w.tree.present p.path = true)) ∧
      ∀ n ∈ c.nodes, n.isStray w.tree = true →
        n.stat.isDir = false ∧ n.place.path.key ∈ (movedAway w.log).map Path.key := by
  have haccounted : Accounted layout c w := accounted_of_watch hstart hrun
  obtain ⟨p, hresolve, hv, hiff⟩ := Lists.of_run hw haccounted.grown hstar hcolon hplain hne
    (trim_eq_self hfront hback) heval
  exact ⟨p, hresolve, hv, hiff, haccounted.moved⟩

/-- For instance a file that has just been made. -/
theorem eval_eq_resolveTarget_made :
    ∃ c' w', ((Session.eval "a/.//x" : Action (StateM Watched) Value).run.run madeBeside.1).run
      madeBeside.2 = ((.ok (.list [.text "/a/x"]), c'), w') := by
  have hvalue : ((((Session.eval "a/.//x" : Action (StateM Watched) Value).run.run
    madeBeside.1).run madeBeside.2).1.1.toOption.isSome) = true := by decide +kernel
  obtain ⟨v, heval⟩ := exists_eq_ok hvalue
  have hw : madeBeside.2.tree.WellFormed := by decide +kernel
  have hcalm : ∀ n ∈ madeBeside.1.nodes, n.isStray madeBeside.2.tree = false := by
    decide +kernel
  have hpath : ((((Session.eval "a/.//x" : Action (StateM Watched) Value).run.run
    madeBeside.1).run madeBeside.2).1.2.resolveTarget "a/.//x" (((Session.eval "a/.//x" : Action
      (StateM Watched) Value).run.run madeBeside.1).run madeBeside.2).1.2.workingPlace).toOption.map
        Place.path = some ⟨"/a/x"⟩ := by decide +kernel
  obtain ⟨p, hresolve, -, hiff, -⟩ := eval_eq_resolveTarget (Cache.start_path .default .root)
    (watch_eq_sessionOver _ _ : _ = (madeBeside.1, madeBeside.2)) hw (by decide) (by decide)
    (by decide) (by decide) (by decide) (by decide) heval
  rw [hresolve] at hpath
  have hp : p.path = ⟨"/a/x"⟩ := Option.some.inj hpath
  have hpresent : madeBeside.2.tree.present p.path = true := by rw [hp]; decide +kernel
  have hv := (hiff (by decide) (Cache.astray_eq_false hcalm p)).2 hpresent
  rw [hv, Place.toValue, hp] at heval
  exact ⟨_, _, heval⟩

/-- A file that has been met where a draft is written is still listed when the draft has been
moved. -/
theorem eval_draft_not_present :
    (Tree.ofFiles [(⟨"/a/.meta/_.tmp"⟩, .empty)]).WellFormed ∧ draftMet.2.tree.WellFormed ∧
      ['.', '.'] ∉ splitOn '/' "/a/.meta/_.tmp".toList ∧
      ∃ v c' w' p, ((Session.eval "/a/.meta/_.tmp" : Action (StateM Watched) Value).run.run
          draftMet.1).run draftMet.2 = ((.ok v, c'), w') ∧
        c'.resolveTarget "/a/.meta/_.tmp" c'.workingPlace = .ok p ∧
        p.path = ⟨"/a/.meta/_.tmp"⟩ ∧ v = .list [p.toValue] ∧
        draftMet.2.tree.present p.path = false := by
  have hw : draftMet.2.tree.WellFormed := by decide +kernel
  have hrun : _ = (draftMet.1, draftMet.2) := watch_eq_sessionOver _ _
  have hmoved := accounted_of_watch (Cache.start_path .default .root) hrun
  dsimp only at hmoved
  have hdisplay : ((((Session.eval "/a/.meta/_.tmp" : Action (StateM Watched) Value).run.run
      draftMet.1).run draftMet.2).1.1.toOption.map Value.display) = some "[/a/.meta/_.tmp]" := by
    decide +kernel
  have hpath : ((((Session.eval "/a/.meta/_.tmp" : Action (StateM Watched) Value).run.run
      draftMet.1).run draftMet.2).1.2.resolveTarget "/a/.meta/_.tmp" (((Session.eval
        "/a/.meta/_.tmp" : Action (StateM Watched) Value).run.run draftMet.1).run
          draftMet.2).1.2.workingPlace).toOption.map Place.path = some ⟨"/a/.meta/_.tmp"⟩ := by
    decide +kernel
  obtain ⟨found, hfound, hlisted⟩ := Option.map_eq_some_iff.1 hdisplay
  obtain ⟨v, heval⟩ := exists_eq_ok (Option.isSome_of_eq_some hfound)
  rw [heval] at hfound
  obtain rfl : v = found := Option.some.inj hfound
  have hstar : '*' ∉ "/a/.meta/_.tmp".toList := by decide
  obtain ⟨p, hresolve, hv, -⟩ := Lists.of_run hw hmoved.grown hstar (by decide) (by decide)
    (by decide) (by decide) heval
  rw [hresolve] at hpath
  have hp : p.path = ⟨"/a/.meta/_.tmp"⟩ := Option.some.inj hpath
  have habsent : draftMet.2.tree.present p.path = false := by
    rw [hp]
    decide +kernel
  refine ⟨by decide +kernel, hw, by decide, v, _, _, p, heval, hresolve, hp, ?_, habsent⟩
  rcases hv with rfl | hv
  · exact absurd hlisted (by decide)
  · exact hv

end ShowTree
