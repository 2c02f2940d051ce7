/-
ShowTree.Proofs.Selector.Existing — what a search finds is what there is.

A search meets objects on its way and asks its cache which of them are directories; putting
paths together asks the file system. The two agree where the cache is right about what it
has met. So if the tree is well formed and does not change, the places that a search finds
and those of the paths that are put together are the same as far as they are there, in the
same order, but for what is at or below a stray (`Matching`). This is shown for names and
wildcards from the last segment to the first (`Truthful.search_down`), then for the levels
and the root of the file system before them (`Truthful.search_up`), and with the root of a
show in front for all selectors that go up before they go down (`Truthful.search_selector`).
-/
import ShowTree.Proofs.Selector.Named
import ShowTree.Proofs.Selector.Repetition
import ShowTree.Proofs.Session.Strays

namespace ShowTree

/-! ## 1. What a search sees -/

/-- The cache has grown from `c₀` by objects that are there as what they are, and all these
places have been met. -/
structure Sees (c₀ : Cache) (t : Tree) (places : List Place) (c : Cache) : Prop where
  layout : c.layout = c₀.layout
  grown : Grown c.nodes
  nodes : ∀ n ∈ c.nodes, n ∈ c₀.nodes ∨ n.isStray t = false
  met : ∀ p ∈ places, (c.node? p).isSome

theorem Cache.astray_of_mem_upward {c : Cache} {t : Tree} {p q : Place}
    (h : c.astray t q = true) (hq : q ∈ p.upward) : c.astray t p = true := by
  obtain ⟨n, hn, hstray⟩ := List.any_eq_true.1 h
  rw [Bool.and_eq_true, List.contains_iff_mem] at hstray
  refine List.any_eq_true.2 ⟨n, hn, ?_⟩
  rw [Bool.and_eq_true, List.contains_iff_mem]
  exact ⟨hstray.1, Place.mem_upward_trans hstray.2 hq⟩

namespace Sees

variable {c₀ c : Cache} {t : Tree} {places : List Place} {p : Place}

theorem refl {c₀ : Cache} (hgrown : Grown c₀.nodes) (hp : (c₀.node? p).isSome) :
    Sees c₀ t [p] c₀ :=
  ⟨rfl, hgrown, fun _ hn => .inl hn, by simpa using hp⟩

theorem tail (h : Sees c₀ t (p :: places) c) : Sees c₀ t places c :=
  ⟨h.layout, h.grown, h.nodes, fun q hq => h.met q (List.mem_cons_of_mem p hq)⟩

theorem cons (h : Sees c₀ t places c) (hp : (c.node? p).isSome) : Sees c₀ t (p :: places) c := by
  refine ⟨h.layout, h.grown, h.nodes, fun q hq => ?_⟩
  rcases List.mem_cons.1 hq with rfl | hq
  · exact hp
  · exact h.met q hq

theorem add (h : Sees c₀ t places c) {st : Stat} {r : Record} (hnew : c.node? p = none)
    (hdir : ∀ dir, p.dir? = some dir → (c.node? dir).isSome) (hstat : t.stat p.path = .ok st) :
    Sees c₀ t places (c.add p st r) := by
  refine ⟨h.layout, h.grown.add hnew hdir, fun n hn => ?_, fun q hq => ?_⟩
  · rcases List.mem_append.1 hn with hn | hn
    · exact h.nodes n hn
    · obtain rfl := List.mem_singleton.1 hn
      have hkind : t.kind? p.path.key = some st.isDir := Tree.kind?_eq_some_iff.2 ⟨st, hstat, rfl⟩
      exact .inr (by simp [Node.isStray, hkind])
  · obtain ⟨n, hn⟩ := Option.isSome_iff_exists.1 (h.met q hq)
    rw [Cache.node?_add, hn, Option.some_or, Option.isSome_some]

/-- What is not astray is there as what it was met as. -/
theorem kind? (h : Sees c₀ t places c) (hclear : c₀.astray t p = false) {n : Node}
    (hn : c.node? p = some n) : t.kind? p.path.key = some n.stat.isDir := by
  obtain ⟨hmem, rfl⟩ := Cache.node?_eq_some hn
  have hright : n.isStray t = false := by
    rcases h.nodes n hmem with hold | hright
    · have hnot := List.any_eq_false.1 hclear n hold
      rw [Bool.and_eq_true, List.contains_iff_mem] at hnot
      simpa [Place.self_mem_upward] using hnot
    · exact hright
  simpa [Node.isStray] using hright

theorem isDirAt (h : Sees c₀ t places c) (hclear : c₀.astray t p = false)
    (hp : (c.node? p).isSome) : t.kind? p.path.key = some (c.isDirAt p) := by
  obtain ⟨n, hn⟩ := Option.isSome_iff_exists.1 hp
  rw [h.kind? hclear hn, Cache.isDirAt, Cache.nodeAt, hn]
  rfl

end Sees

/-- What is known after an entry of a directory was asked for. -/
def Asked (c₀ : Cache) (t : Tree) (places : List Place) (dir : Place) (name : Name)
    (found : Option Place) (c : Cache) : Prop :=
  match found with
  | some q => q = .entry dir name ∧ Sees c₀ t (q :: places) c
  | none => Sees c₀ t places c ∧
      (c₀.astray t dir = false → t.get? (Place.entry dir name).path.key = none)

/-! ## 2. Meeting what is there -/

section Search

variable {σ : Type} [FileSystem (StateM σ)] {view : σ → Tree} {c₀ : Cache} {s₀ : σ}

theorem Truthful.calm_sees (h : Truthful view) (c₀ : Cache) (s₀ : σ) (places : List Place) :
    Calm (fun p st => (view s₀).stat p = .ok st)
      (fun p isDir r => (view s₀).recordOf c₀.layout p isDir = .ok r)
      (fun c s => s = s₀ ∧ Sees c₀ (view s₀) places c) :=
  h.calm (fun _ hsees => hsees.layout) fun _ _ _ _ hsees hnew hdir hstat _ =>
    hsees.add hnew hdir hstat

/-- Meeting the object at the path of a place is meeting the object at the place. -/
theorem Triple.meetPath_path {P : Assertion σ} {Q : Place → Assertion σ}
    {E : Failure → Assertion σ} {p : Place} (h : Triple P (Cache.meet p) (fun _ => Q p) E) :
    Triple P (Cache.meetPath p.path) Q E := by
  intro c s hp
  have hrun : ((Cache.meetPath p.path : Work (StateM σ) Place).run.run c).run s =
      ((do Cache.meet p; Pure.pure p : Work (StateM σ) Place).run.run c).run s := by
    rw [Cache.meetPath, Place.toPlace_path]
    rfl
  rw [hrun]
  exact Triple.bind h (fun _ => Triple.pure fun _ _ hq => hq) c s hp

/-- Meeting an entry meets it, or there is a reason at the entry or above. -/
theorem Truthful.meet_entry (h : Truthful view) (places : List Place) (dir : Place) (name : Name) :
    Triple (fun c s => s = s₀ ∧ Sees c₀ (view s₀) places c) (Cache.meet (.entry dir name))
      (fun _ c s => s = s₀ ∧ Sees c₀ (view s₀) (.entry dir name :: places) c)
      (fun e c s => s = s₀ ∧ Sees c₀ (view s₀) places c ∧
        ∃ q ∈ (Place.entry dir name).upward, (view s₀).Bars c₀.layout e q) := by
  have herror : Triple (fun c s => s = s₀ ∧ c.layout = c₀.layout) (Cache.meet (.entry dir name))
      (fun _ c s => s = s₀ ∧ c.layout = c₀.layout)
      (fun e _ _ => ∃ q ∈ (Place.entry dir name).upward, (view s₀).Bars c₀.layout e q) :=
    h.meet_error _
  refine (((h.calm_sees c₀ s₀ places).meet (.entry dir name)).and herror).imp ?_ ?_ ?_
  · rintro c s ⟨rfl, hsees⟩
    exact ⟨⟨rfl, hsees⟩, rfl, hsees.layout⟩
  · rintro _ c s ⟨⟨⟨hs, hafter⟩, hmet⟩, -⟩
    exact ⟨hs, hafter.cons hmet⟩
  · rintro e c s ⟨⟨hs, hafter⟩, hbars⟩
    exact ⟨hs, hafter, hbars⟩

/-- If an entry of what has been met cannot be met because something is not there, it is the
entry that is not there, unless its directory is astray. -/
theorem Sees.absent_of_bars {t : Tree} {places : List Place} {c : Cache} {dir q : Place}
    {name : Name} {e : Failure} (hsees : Sees c₀ t places c) (hdir : dir ∈ places)
    (hclear : c₀.astray t dir = false) (hq : q ∈ (Place.entry dir name).upward)
    (hbars : t.Bars c₀.layout e q) (hnotFound : e.isNotFound = true) :
    t.get? (Place.entry dir name).path.key = none := by
  have hnot : ∀ isDir, t.kind? q.path.key ≠ some isDir := by
    intro isDir hkind
    rw [hbars.isNotFound_eq_false hkind] at hnotFound
    cases hnotFound
  rcases List.mem_cons.1 hq with rfl | hq
  · cases hget : t.get? (Place.entry dir name).path.key with
    | none => rfl
    | some found =>
      rw [Tree.kind?, hget] at hnot
      exact absurd rfl (hnot found.isDir)
  · -- all directories above are there
    have hclearAbove : c₀.astray t q = false := by
      cases hastray : c₀.astray t q with
      | false => rfl
      | true =>
        rw [Cache.astray_of_mem_upward hastray hq] at hclear
        cases hclear
    exact absurd (hsees.isDirAt hclearAbove
      (hsees.grown.met_of_mem_upward (hsees.met dir hdir) hq)) (hnot _)

/-- An entry of what has been met is met, or is not there unless the directory is astray. -/
theorem Truthful.meetIfPresent (h : Truthful view) {places : List Place} {dir : Place}
    (hdir : dir ∈ places) (name : Name) :
    Triple (fun c s => s = s₀ ∧ Sees c₀ (view s₀) places c)
      (Cache.meetIfPresent (Place.entry dir name).path)
      (fun found c s => s = s₀ ∧ Asked c₀ (view s₀) places dir name found c)
      (fun _ _ _ => True) := by
  refine Triple.bind (Triple.attempt (R := Outcome
    (fun q c s => s = s₀ ∧ q = .entry dir name ∧ Sees c₀ (view s₀) (q :: places) c)
    (fun e c s => s = s₀ ∧ Sees c₀ (view s₀) places c ∧
      ∃ q ∈ (Place.entry dir name).upward, (view s₀).Bars c₀.layout e q)) ?_) fun r => ?_
  · exact Triple.meetPath_path ((h.meet_entry places dir name).post fun _ _ _ hq =>
      ⟨hq.1, rfl, hq.2⟩)
  · cases r with
    | ok q => exact Triple.pure fun _ _ hq => hq
    | error e =>
      dsimp only
      split
      · rename_i hnotFound
        refine Triple.pure ?_
        rintro c s ⟨hs, hafter, q, hq, hbars⟩
        exact ⟨hs, hafter, fun hclear => hafter.absent_of_bars hdir hclear hq hbars hnotFound⟩
      · exact Triple.throw fun _ _ _ => trivial

/-! ## 3. What is found matches what is named -/

/-- The places are the same, in the same order, as far as what is named is there and is not
astray. -/
def Matching (c₀ : Cache) (t : Tree) (found named : List Place) : Prop :=
  found.filter (!c₀.astray t ·) = named.filter fun q => t.present q.path && !c₀.astray t q

/-- Where there are no strays, what is found is what is named and there. -/
theorem Matching.eq_filter {t : Tree} {found named : List Place} (h : Matching c₀ t found named)
    (hcalm : ∀ n ∈ c₀.nodes, n.isStray t = false) :
    found = named.filter fun q => t.present q.path := by
  have hall : found.filter (!c₀.astray t ·) = found :=
    List.filter_eq_self.2 fun q _ => by rw [Cache.astray_eq_false hcalm, Bool.not_false]
  have hthere : (named.filter fun q => t.present q.path && !c₀.astray t q) =
      named.filter fun q => t.present q.path := List.filter_congr fun q _ => by
    rw [Cache.astray_eq_false hcalm, Bool.not_false, Bool.and_true]
  rw [Matching, hall, hthere] at h
  exact h

theorem Place.toValue_injective {p q : Place} (h : p.toValue = q.toValue) : p = q := by
  injection h with htext
  exact path_injective (Path.ext htext)

/-- The values are those of places at or below `p`, and these places match what is named. -/
def FoundBelow (c₀ : Cache) (t : Tree) (p : Place) (named : List Place) (values : List Value) :
    Prop :=
  ∃ found : List Place, values = found.map Place.toValue ∧ (∀ q ∈ found, p ∈ q.upward) ∧
    Matching c₀ t found named

namespace FoundBelow

variable {t : Tree} {p : Place} {named named' : List Place} {values others : List Value}

theorem append (h : FoundBelow c₀ t p named values) (h' : FoundBelow c₀ t p named' others) :
    FoundBelow c₀ t p (named ++ named') (values ++ others) := by
  obtain ⟨found, rfl, hbelow, hmatching⟩ := h
  obtain ⟨found', rfl, hbelow', hmatching'⟩ := h'
  refine ⟨found ++ found', by rw [List.map_append], fun q hq => ?_, ?_⟩
  · rcases List.mem_append.1 hq with hq | hq
    · exact hbelow q hq
    · exact hbelow' q hq
  · rw [Matching] at hmatching hmatching' ⊢
    rw [List.filter_append, List.filter_append, hmatching, hmatching']

/-- Nothing is found, and nothing of what is named is there unless it is astray. -/
theorem nil (h : ∀ q ∈ named, p ∈ q.upward)
    (habsent : c₀.astray t p = false → ∀ q ∈ named, t.present q.path = false) :
    FoundBelow c₀ t p named [] := by
  refine ⟨[], rfl, by simp, ?_⟩
  rw [Matching, List.filter_nil]
  refine (List.filter_eq_nil_iff.2 fun q hq => ?_).symm
  rw [Bool.and_eq_true, not_and, Bool.not_eq_true', Bool.not_eq_false]
  intro hpresent
  cases hclear : c₀.astray t p with
  | true => exact Cache.astray_of_mem_upward hclear (h q hq)
  | false =>
    rw [habsent hclear q hq] at hpresent
    cases hpresent

/-- What is not there makes no difference. -/
theorem of_filter (h : FoundBelow c₀ t p named values)
    (hsame : named.filter (fun q => t.present q.path) = named'.filter fun q => t.present q.path) :
    FoundBelow c₀ t p named' values := by
  obtain ⟨found, rfl, hbelow, hmatching⟩ := h
  refine ⟨found, rfl, hbelow, ?_⟩
  rw [Matching] at hmatching ⊢
  have hsplit : ∀ places : List Place,
      (places.filter fun q => t.present q.path && !c₀.astray t q) =
        (places.filter fun q => t.present q.path).filter (!c₀.astray t ·) := by
    intro places
    rw [List.filter_filter]
    refine List.filter_congr fun q _ => Bool.and_comm _ _
  rw [hmatching, hsplit, hsplit, hsame]

end FoundBelow

/-! ## 4. Names and wildcards -/

variable {places : List Place} {p : Place}

theorem Tree.list_of_not_isDir {t : Tree} {p : Path} (h : t.isDir p = false) :
    ∃ e, t.list p = .error e := by
  unfold Tree.isDir at h
  split at h
  · cases h
  · rename_i hentry
    rw [Tree.list]
    cases he : t.entry? p with
    | none => exact ⟨_, rfl⟩
    | some e =>
      cases e with
      | file content => exact ⟨_, rfl⟩
      | dir => exact absurd he hentry

/-- The names of the entries of what has been met are those that the tree lists, or none
are there unless it is astray. -/
theorem Truthful.children (h : Truthful view) (hp : p ∈ places) :
    Triple (fun c s => s = s₀ ∧ Sees c₀ (view s₀) places c) (Cache.children p)
      (fun names c s => (s = s₀ ∧ Sees c₀ (view s₀) places c) ∧
        ((view s₀).isDir p.path = true ∧ names = (view s₀).visible c₀.layout.metaDir p ∨
          names = [] ∧ (c₀.astray (view s₀) p = false → (view s₀).isDir p.path = false)))
      (fun _ _ _ => True) := by
  refine Triple.bind Triple.get fun c₁ => ?_
  cases hdirAt : c₁.isDirAt p with
  | true =>
    rintro c s ⟨rfl, rfl, hsees⟩
    rw [if_pos rfl]
    cases hdir : (view s).isDir p.path with
    | true =>
      rw [h.run_listVisible hdir, hsees.layout]
      exact ⟨⟨rfl, hsees⟩, .inl ⟨rfl, rfl⟩⟩
    | false =>
      obtain ⟨e, he⟩ := Tree.list_of_not_isDir hdir
      rw [Cache.listVisible, run_bind, run_call, h.list, he]
      trivial
  | false =>
    rw [if_neg Bool.false_ne_true]
    refine Triple.pure ?_
    rintro c s ⟨rfl, rfl, hsees⟩
    refine ⟨⟨rfl, hsees⟩, .inr ⟨rfl, fun hclear => ?_⟩⟩
    have hkind := hsees.isDirAt hclear (hsees.met p hp)
    rw [hdirAt] at hkind
    cases hdir : (view s).isDir p.path with
    | false => rfl
    | true =>
      rw [Tree.isDir_iff.1 hdir] at hkind
      cases hkind

/-- What a search of these segments finds from any place that has been met. -/
def SearchFinds (view : σ → Tree) (c₀ : Cache) (s₀ : σ) (showRoot : Option Place)
    (segments : List Segment) : Prop :=
  ∀ (places : List Place) (p : Place), p ∈ places →
    Triple (fun c s => s = s₀ ∧ Sees c₀ (view s₀) places c)
      (Segment.search (Expression.describe none) segments p)
      (fun values c s => (s = s₀ ∧ Sees c₀ (view s₀) places c) ∧ FoundBelow c₀ (view s₀) p
        (Segment.named (view s₀) c₀.layout.metaDir showRoot segments p) values)
      (fun _ _ _ => True)

variable {showRoot : Option Place} {rest : List Segment}

/-- Going on from an entry that was asked for. -/
theorem SearchFinds.follow (ih : SearchFinds view c₀ s₀ showRoot rest)
    (hw : (view s₀).WellFormed) (hplain : ∀ seg ∈ rest, seg.Plain)
    (hdown : ∀ seg ∈ rest, seg.descends) (name : Name) (found : Option Place) :
    Triple (fun c s => s = s₀ ∧ Asked c₀ (view s₀) places p name found c)
      (match found with
        | some q => Segment.search (Expression.describe none) rest q
        | none => pure [])
      (fun values c s => (s = s₀ ∧ Sees c₀ (view s₀) places c) ∧ FoundBelow c₀ (view s₀) p
        (Segment.named (view s₀) c₀.layout.metaDir showRoot rest (.entry p name)) values)
      (fun _ _ _ => True) := by
  have hbelow : p ∈ (Place.entry p name).upward := List.mem_cons_of_mem _ p.self_mem_upward
  cases found with
  | some q =>
    refine Triple.of_forall fun c₁ s₁ hi => ?_
    obtain ⟨rfl, rfl, hsees⟩ := hi
    refine ((ih (Place.entry p name :: places) (Place.entry p name) List.mem_cons_self).pre
      ?_).onSuccess ?_
    · rintro c s ⟨rfl, rfl⟩
      exact ⟨rfl, hsees⟩
    · rintro values c s ⟨⟨hs, hafter⟩, places', hvalues, hfound, hmatching⟩
      exact ⟨⟨hs, hafter.tail⟩, places', hvalues,
        fun r hr => Place.mem_upward_trans hbelow (hfound r hr), hmatching⟩
  | none =>
    refine Triple.pure ?_
    rintro c s ⟨rfl, hsees, habsent⟩
    refine ⟨⟨rfl, hsees⟩, FoundBelow.nil (fun r hr => ?_) fun hclear r hr => ?_⟩
    · exact Place.mem_upward_trans hbelow (Segment.mem_upward_of_mem_named hw hplain hdown hr)
    · cases hpresent : (view s).present r.path with
      | false => rfl
      | true =>
        have hthere := Segment.isSome_of_mem_named hw hplain hdown hr hpresent
        rw [habsent hclear] at hthere
        cases hthere

/-- Asking for the entry with a name. -/
theorem Truthful.candidate_name (h : Truthful view) (hw : (view s₀).WellFormed) (hp : p ∈ places)
    {text : String} (hname : IsName text) (hchars : '\\' ∉ (Name.mk text hname).chars) :
    Triple (fun c s => s = s₀ ∧ Sees c₀ (view s₀) places c) ((Segment.name text).candidate p)
      (fun found c s => s = s₀ ∧ Asked c₀ (view s₀) places p ⟨text, hname⟩ found c)
      (fun _ _ _ => True) := by
  refine Triple.bind Triple.get fun c₁ => ?_
  cases hdirAt : c₁.isDirAt p with
  | true =>
    rw [if_pos rfl]
    exact (h.meetIfPresent hp ⟨text, hname⟩).pre fun _ _ hi => hi.2
  | false =>
    rw [if_neg Bool.false_ne_true]
    refine Triple.pure ?_
    rintro c s ⟨rfl, rfl, hsees⟩
    refine ⟨rfl, hsees, fun hclear => ?_⟩
    have hkind := hsees.isDirAt hclear (hsees.met p hp)
    rw [hdirAt] at hkind
    cases hget : (view s).get? (Place.entry p ⟨text, hname⟩).path.key with
    | none => rfl
    | some found =>
      rw [hw.kind?_of_entry hchars (by rw [hget]; rfl)] at hkind
      cases hkind

/-- A search for a name and what comes after it. -/
theorem SearchFinds.name (ih : SearchFinds view c₀ s₀ showRoot rest) (h : Truthful view)
    (hw : (view s₀).WellFormed) (hplain : ∀ seg ∈ rest, seg.Plain)
    (hdown : ∀ seg ∈ rest, seg.descends) {text : String} (htext : (Segment.name text).Plain) :
    SearchFinds view c₀ s₀ showRoot (.name text :: rest) := by
  intro places p hp
  obtain ⟨hname, htext⟩ := htext
  have hchars : '\\' ∉ (Name.mk text hname).chars := htext
  rw [Segment.named_name hname]
  exact Triple.bind (h.candidate_name hw hp hname hchars) fun found =>
    ih.follow hw hplain hdown ⟨text, hname⟩ found

/-- A search for a pattern and what comes after it. -/
theorem SearchFinds.wildcard (ih : SearchFinds view c₀ s₀ showRoot rest) (h : Truthful view)
    (hw : (view s₀).WellFormed) (hplain : ∀ seg ∈ rest, seg.Plain)
    (hdown : ∀ seg ∈ rest, seg.descends) (pattern : String) :
    SearchFinds view c₀ s₀ showRoot (.wildcard pattern :: rest) := by
  intro places p hp
  refine Triple.bind (h.children hp) fun names => Triple.of_fact fun hnames => ?_
  rcases hnames with ⟨hdir, rfl⟩ | ⟨rfl, habsent⟩
  · rw [Segment.named, if_pos hdir]
    refine Triple.gather (R := fun names values => FoundBelow c₀ (view s₀) p
      (names.flatMap _) values) (FoundBelow.nil (by simp) (by simp)) fun text htext others => ?_
    obtain ⟨name, rfl, hname⟩ :=
      hw.name_of_mem_names (List.mem_filter.1 (List.mem_filter.1 htext).1).1
    refine Triple.bind (h.meetIfPresent hp name) fun found => ?_
    refine (ih.follow hw hplain hdown name found).onSuccess ?_
    rintro values c s ⟨hi, hfound⟩
    refine ⟨hi, fun others hothers => ?_⟩
    rw [List.flatMap_cons]
    exact (hfound.of_filter (Segment.filter_present_held hw hplain hdown p name).symm).append
      hothers
  · have hplain' : ∀ seg ∈ .wildcard pattern :: rest, seg.Plain :=
      List.forall_mem_cons.2 ⟨trivial, hplain⟩
    have hdown' : ∀ seg ∈ .wildcard pattern :: rest, seg.descends :=
      List.forall_mem_cons.2 ⟨rfl, hdown⟩
    refine Triple.pure fun c s hi => ⟨hi, FoundBelow.nil (fun q hq => ?_) fun hclear q hq => ?_⟩
    · exact Segment.mem_upward_of_mem_named hw hplain' hdown' hq
    · cases hpresent : (view s₀).present q.path with
      | false => rfl
      | true =>
        have hkind := Segment.kind?_of_mem_named hw hplain' hdown' (by simp) hq hpresent
        rw [Tree.isDir_iff.2 hkind] at habsent
        cases habsent hclear

/-- From a place that has been met, a search for names and wildcards finds what they stand for,
as far as it is there. -/
theorem Truthful.search_down (h : Truthful view) (hw : (view s₀).WellFormed) :
    ∀ {segments : List Segment}, (∀ seg ∈ segments, seg.Plain) →
      (∀ seg ∈ segments, seg.descends) → SearchFinds view c₀ s₀ showRoot segments
  | [], _, _ => by
    rintro places p hp c s ⟨rfl, hsees⟩
    refine ⟨⟨rfl, hsees⟩, [p], rfl, by simp [Place.self_mem_upward], ?_⟩
    cases hclear : c₀.astray (view s) p with
    | true => simp [Matching, Segment.named, hclear]
    | false =>
      have hkind := hsees.isDirAt hclear (hsees.met p hp)
      have hpresent : (view s).present p.path = true := Tree.isSome_of_kind? hkind
      simp [Matching, Segment.named, hclear, hpresent]
  | segment :: rest, hplain, hdown => by
    obtain ⟨hfirst, hplainRest⟩ := List.forall_mem_cons.1 hplain
    obtain ⟨hdescends, hdownRest⟩ := List.forall_mem_cons.1 hdown
    have ih : SearchFinds view c₀ s₀ showRoot rest := search_down h hw hplainRest hdownRest
    cases segment with
    | name text => exact ih.name h hw hplainRest hdownRest hfirst
    | wildcard pattern => exact ih.wildcard h hw hplainRest hdownRest pattern
    | _ => cases hdescends

/-! ## 5. Levels and roots -/

/-- The values are those of places that match what is named. -/
def Found (c₀ : Cache) (t : Tree) (named : List Place) (values : List Value) : Prop :=
  ∃ found : List Place, values = found.map Place.toValue ∧ Matching c₀ t found named

/-- What a search of these segments comes to from any place that has been met, wherever it
leads: this is said of what they stand for. -/
def SearchLeads (view : σ → Tree) (c₀ : Cache) (s₀ : σ) (showRoot : Option Place)
    (R : List Place → List Value → Prop) (segments : List Segment) : Prop :=
  ∀ (places : List Place) (p : Place), p ∈ places →
    Triple (fun c s => s = s₀ ∧ Sees c₀ (view s₀) places c)
      (Segment.search (Expression.describe none) segments p)
      (fun values _ s => s = s₀ ∧
        R (Segment.named (view s₀) c₀.layout.metaDir showRoot segments p) values)
      (fun _ _ _ => True)

theorem SearchFinds.leads {segments : List Segment}
    (h : SearchFinds view c₀ s₀ showRoot segments) :
    SearchLeads view c₀ s₀ showRoot (Found c₀ (view s₀)) segments := by
  refine fun places p hp => (h places p hp).onSuccess ?_
  rintro values c s ⟨⟨hs, -⟩, found, hvalues, -, hmatching⟩
  exact ⟨hs, found, hvalues, hmatching⟩

variable {R : List Place → List Value → Prop}

theorem SearchLeads.start {segments : List Segment}
    (h : SearchLeads view c₀ s₀ showRoot R segments) (hgrown : Grown c₀.nodes)
    (hp : (c₀.node? p).isSome) :
    Triple (fun c s => c = c₀ ∧ s = s₀) (Segment.search (Expression.describe none) segments p)
      (fun values _ s => s = s₀ ∧
        R (Segment.named (view s₀) c₀.layout.metaDir showRoot segments p) values)
      (fun _ _ _ => True) := by
  refine (h [p] p List.mem_cons_self).pre ?_
  rintro c s ⟨rfl, rfl⟩
  exact ⟨rfl, Sees.refl hgrown hp⟩

/-- Before names and wildcards a search may go up, by levels or to the root of the file
system. -/
theorem Truthful.search_up (h : Truthful view) : ∀ {segments : List Segment},
    .showRoot ∉ segments →
      SearchLeads view c₀ s₀ showRoot R (segments.dropWhile (!·.descends)) →
        SearchLeads view c₀ s₀ showRoot R segments
  | [], _, hdown => hdown
  | .name _ :: _, _, hdown => hdown
  | .wildcard _ :: _, _, hdown => hdown
  | .showRoot :: _, hshow, _ => absurd List.mem_cons_self hshow
  | .up levels :: rest, hshow, hdown => by
    intro places p hp
    have ih : SearchLeads view c₀ s₀ showRoot R rest :=
      search_up h (fun hmem => hshow (List.mem_cons_of_mem _ hmem)) hdown
    refine (ih (p.upBy levels :: places) (p.upBy levels) List.mem_cons_self).pre ?_
    rintro c s ⟨hs, hsees⟩
    exact ⟨hs, hsees.cons (hsees.grown.met_of_mem_upward (hsees.met p hp)
      (upBy_mem_upward levels p))⟩
  | .fileRoot :: rest, hshow, hdown => by
    intro places p hp
    have ih : SearchLeads view c₀ s₀ showRoot R rest :=
      search_up h (fun hmem => hshow (List.mem_cons_of_mem _ hmem)) hdown
    have hroot : Triple (fun c s => s = s₀ ∧ Sees c₀ (view s₀) places c)
        (Segment.candidate p .fileRoot)
        (fun found c s => (s = s₀ ∧ Sees c₀ (view s₀) (.root :: places) c) ∧ found = some .root)
        (fun _ _ _ => True) := by
      refine Triple.map (Triple.meetPath_path (p := .root)
        (((h.calm_sees c₀ s₀ places).meet .root).onSuccess ?_))
      rintro _ c s ⟨⟨hs, hsees⟩, hmet⟩
      exact ⟨⟨hs, hsees.cons hmet⟩, rfl⟩
    refine Triple.bind hroot fun found => Triple.of_fact ?_
    rintro rfl
    exact ih (.root :: places) .root List.mem_cons_self

/-- The root of a show is known from the start, or the search fails. -/
theorem candidate_showRoot (dir : Place) :
    Triple (fun c s => c = c₀ ∧ s = s₀) (Segment.candidate dir .showRoot)
      (fun found c s => (c = c₀ ∧ s = s₀) ∧ found.isSome ∧ found = c₀.showAt dir)
      (fun _ _ _ => True) := by
  refine Triple.bind Triple.get fun c₁ => ?_
  cases hshow : c₁.showAt dir with
  | none => exact Triple.throw fun _ _ _ => trivial
  | some place =>
    refine Triple.pure ?_
    rintro c s ⟨rfl, rfl, rfl⟩
    exact ⟨⟨rfl, rfl⟩, rfl, hshow.symm⟩

/-- What a chain comes to that has a root at its front at most, given what its names and
wildcards come to. -/
theorem Truthful.search_chain (h : Truthful view) (hgrown : Grown c₀.nodes)
    {segments : List Segment} (hroot : ∀ seg ∈ segments.tail, seg.isRoot = false) {dir : Place}
    (hdir : (c₀.node? dir).isSome)
    (hdown : SearchLeads view c₀ s₀ (c₀.showAt dir) R (segments.dropWhile (!·.descends))) :
    Triple (fun c s => c = c₀ ∧ s = s₀) (Segment.search (Expression.describe none) segments dir)
      (fun values _ s' => (s' = s₀ ∧
        R (Segment.named (view s₀) c₀.layout.metaDir (c₀.showAt dir) segments dir) values) ∧
          (.showRoot ∈ segments → (c₀.showAt dir).isSome))
      (fun _ _ _ => True) := by
  have htail : .showRoot ∉ segments.tail := fun hmem => by cases hroot _ hmem
  by_cases hfront : ∃ rest, segments = .showRoot :: rest
  · obtain ⟨rest, rfl⟩ := hfront
    have hleads : SearchLeads view c₀ s₀ (c₀.showAt dir) R rest := h.search_up htail hdown
    refine Triple.bind (candidate_showRoot dir) fun found => Triple.of_fact ?_
    rintro ⟨hsome, hfound⟩
    obtain ⟨place, rfl⟩ := Option.isSome_iff_exists.1 hsome
    have hmet := hgrown.met_of_mem_upward hdir (hgrown.showAt_mem_upward hfound.symm).2
    rw [Segment.named, ← hfound, Option.toList_some, List.flatMap_singleton]
    rw [← hfound] at hleads
    exact (hleads.start hgrown hmet).onSuccess fun _ _ _ hq => ⟨hq, fun _ => rfl⟩
  · have hshow : .showRoot ∉ segments := by
      cases segments with
      | nil => simp
      | cons segment rest =>
        rw [List.mem_cons, not_or]
        exact ⟨fun he => hfront ⟨rest, by rw [he]⟩, htail⟩
    have hleads : SearchLeads view c₀ s₀ (c₀.showAt dir) R segments := h.search_up hshow hdown
    exact (hleads.start hgrown hdir).onSuccess fun _ _ _ hq =>
      ⟨hq, fun hmem => absurd hmem hshow⟩

/-- What a chain finds, if it has a root at its front at most and goes up before its first
name or wildcard at most. -/
theorem Truthful.search_segments (h : Truthful view) (hw : (view s₀).WellFormed)
    (hgrown : Grown c₀.nodes) {segments : List Segment} (hplain : ∀ seg ∈ segments, seg.Plain)
    (hroot : ∀ seg ∈ segments.tail, seg.isRoot = false)
    (hshape : (Selector.mk segments).UpThenDown) {dir : Place} (hdir : (c₀.node? dir).isSome) :
    Triple (fun c s => c = c₀ ∧ s = s₀) (Segment.search (Expression.describe none) segments dir)
      (fun values _ s' => (s' = s₀ ∧ Found c₀ (view s₀)
        (Segment.named (view s₀) c₀.layout.metaDir (c₀.showAt dir) segments dir) values) ∧
          (.showRoot ∈ segments → (c₀.showAt dir).isSome))
      (fun _ _ _ => True) :=
  h.search_chain hgrown hroot hdir (h.search_down hw
    (fun seg hseg => hplain seg ((List.dropWhile_sublist _).mem hseg)) hshape).leads

/-- The same of a selector, which has segments. -/
theorem Truthful.search_selector (h : Truthful view) (hw : (view s₀).WellFormed)
    (hgrown : Grown c₀.nodes) {s : Selector} (hne : s.segments ≠ [])
    (hplain : ∀ seg ∈ s.segments, seg.Plain) (hroot : ∀ seg ∈ s.segments.tail, seg.isRoot = false)
    (hshape : s.UpThenDown) {dir : Place} (hdir : (c₀.node? dir).isSome) :
    Triple (fun c s => c = c₀ ∧ s = s₀) (s.search (Expression.describe none) dir)
      (fun values _ s' => (s' = s₀ ∧ Found c₀ (view s₀)
        (Segment.named (view s₀) c₀.layout.metaDir (c₀.showAt dir) s.segments dir) values) ∧
          (.showRoot ∈ s.segments → (c₀.showAt dir).isSome))
      (fun _ _ _ => True) := by
  rw [Selector.search, if_neg (by simpa using hne)]
  exact h.search_segments hw hgrown hplain hroot hshape hdir

end Search

end ShowTree
