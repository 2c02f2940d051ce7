/-
ShowTree.Proofs.Selector.Reached — what names and wildcards reach.

Names and wildcards reach a place that is there if every segment admits the name one level
deeper and every place on the way is a directory (`Segment.Reaches`). In a well-formed tree
these are the places they stand for, as far as those are there (`mem_named_iff`), and they
come in rising order of the names that lead to them (`pairwise_named`). A search finds some
of what the segments stand for, in the same order, strays or not, for strays are files and
nothing is looked for below a file (`Truthful.search_selects`).
-/
import Mathlib.Data.List.Forall2
import ShowTree.Proofs.Selector.Existing

namespace ShowTree

/-! ## 1. Places that are reached -/

/-- A name that a segment stands for. No wildcard stands for the name of metadata. -/
def Segment.Admits (hidden : String) : Segment → Name → Prop
  | .name text, n => n.text = text
  | .wildcard pattern, n => Wildcard.accepts pattern n.text = true ∧ n.text ≠ hidden
  | _, _ => False

/-- Segments reach a place that is there from another, by one name for each of them and with
directories all the way. -/
def Segment.Reaches (t : Tree) (hidden : String) (segments : List Segment) (p q : Place) : Prop :=
  ∃ ns : List Name, q = p.down ns ∧ (∀ n ∈ ns, '\\' ∉ n.chars) ∧
    List.Forall₂ (Segment.Admits hidden) segments ns ∧
    (∀ front, front <+: ns → front ≠ ns → t.isDir (p.down front).path = true) ∧
    t.present q.path = true

namespace Segment

variable {t : Tree} {hidden : String} {showRoot : Option Place} {p q : Place}
variable {segment : Segment} {segments rest : List Segment}

theorem reaches_nil_iff : Reaches t hidden [] p q ↔ q = p ∧ t.present q.path = true := by
  constructor
  · rintro ⟨ns, rfl, -, hadmits, -, hthere⟩
    obtain rfl := List.forall₂_nil_left_iff.1 hadmits
    exact ⟨rfl, hthere⟩
  · rintro ⟨rfl, hthere⟩
    refine ⟨[], rfl, by simp, .nil, fun front hfront hne => ?_, hthere⟩
    exact absurd (List.prefix_nil.1 hfront) hne

theorem reaches_cons_iff : Reaches t hidden (segment :: rest) p q ↔
    t.isDir p.path = true ∧ ∃ n : Name, '\\' ∉ n.chars ∧ segment.Admits hidden n ∧
      Reaches t hidden rest (.entry p n) q := by
  constructor
  · rintro ⟨ns, rfl, hplain, hadmits, hdirs, hthere⟩
    obtain ⟨n, ns, hfirst, hrest, rfl⟩ := List.forall₂_cons_left_iff.1 hadmits
    refine ⟨hdirs [] List.nil_prefix (by simp), n, hplain n List.mem_cons_self, hfirst, ns, rfl,
      fun m hm => hplain m (List.mem_cons_of_mem n hm), hrest, fun front hfront hne => ?_, hthere⟩
    exact hdirs (n :: front) (List.cons_prefix_cons.2 ⟨rfl, hfront⟩) fun he => hne (List.cons.inj he).2
  · rintro ⟨hdir, n, hn, hfirst, ns, rfl, hplain, hadmits, hdirs, hthere⟩
    refine ⟨n :: ns, rfl, List.forall_mem_cons.2 ⟨hn, hplain⟩, .cons hfirst hadmits,
      fun front hfront hne => ?_, hthere⟩
    cases front with
    | nil => exact hdir
    | cons m front =>
      obtain ⟨rfl, hrest⟩ := List.cons_prefix_cons.1 hfront
      exact hdirs front hrest fun he => hne (he ▸ rfl)

/-- What something is reached from is there, as a directory if it is not what is reached. -/
theorem Reaches.held (h : Reaches t hidden segments p q) :
    (t.get? p.path.key).isSome ∧ (segments.isEmpty || t.isDir p.path) = true := by
  cases segments with
  | nil =>
    obtain ⟨rfl, hthere⟩ := reaches_nil_iff.1 h
    exact ⟨hthere, rfl⟩
  | cons segment rest =>
    have hdir := (reaches_cons_iff.1 h).1
    exact ⟨Tree.isSome_of_kind? (Tree.isDir_iff.1 hdir), hdir⟩

/-! ## 2. What segments stand for is what they reach -/

/-- As far as it is there, what names and wildcards stand for is what they reach. -/
theorem mem_named_iff (hw : t.WellFormed) : ∀ {segments : List Segment} {p : Place},
    (∀ seg ∈ segments, seg.Plain) → (∀ seg ∈ segments, seg.descends) →
      (q ∈ named t hidden showRoot segments p ∧ t.present q.path = true ↔
        Reaches t hidden segments p q)
  | [], p, _, _ => by rw [named, List.mem_singleton, reaches_nil_iff]
  | segment :: rest, p, hplain, hdown => by
    obtain ⟨hfirst, hplainRest⟩ := List.forall_mem_cons.1 hplain
    obtain ⟨hdescends, hdownRest⟩ := List.forall_mem_cons.1 hdown
    have ih : ∀ n : Name, q ∈ named t hidden showRoot rest (.entry p n) ∧
        t.present q.path = true ↔ Reaches t hidden rest (.entry p n) q := fun n =>
      mem_named_iff hw hplainRest hdownRest
    rw [reaches_cons_iff]
    constructor
    · rintro ⟨hq, hthere⟩
      refine ⟨Tree.isDir_iff.2 (kind?_of_mem_named hw hplain hdown (by simp) hq hthere), ?_⟩
      cases segment with
      | name text =>
        obtain ⟨hname, hchars⟩ := hfirst
        rw [named_name hname] at hq
        exact ⟨⟨text, hname⟩, hchars, rfl, (ih _).1 ⟨hq, hthere⟩⟩
      | wildcard pattern =>
        obtain ⟨-, n, -, hn, hadmits, -, hq⟩ := (mem_named_wildcard_iff hw).1 hq
        exact ⟨n, hn, hadmits, (ih n).1 ⟨hq, hthere⟩⟩
      | _ => cases hdescends
    · rintro ⟨hdir, n, hn, hadmits, hreaches⟩
      obtain ⟨hq, hthere⟩ := (ih n).2 hreaches
      refine ⟨?_, hthere⟩
      cases segment with
      | name text =>
        obtain rfl : n.text = text := hadmits
        rw [named_name n.isName]
        exact hq
      | wildcard pattern =>
        exact (mem_named_wildcard_iff hw).2
          ⟨hdir, n, hw.mem_names_of_entry hn hreaches.held.1, hn, hadmits, hreaches.held.2, hq⟩
      | _ => cases hdescends

/-- Also what is not there is reached by names that the segments admit. -/
theorem exists_admitted_of_mem_named (hw : t.WellFormed) :
    ∀ {segments : List Segment} {p : Place}, (∀ seg ∈ segments, seg.Plain) →
      (∀ seg ∈ segments, seg.descends) → q ∈ named t hidden showRoot segments p →
        ∃ ns : List Name, q = p.down ns ∧ List.Forall₂ (Segment.Admits hidden) segments ns
  | [], p, _, _, hq => ⟨[], List.mem_singleton.1 hq, .nil⟩
  | segment :: rest, p, hplain, hdown, hq => by
    obtain ⟨hfirst, hplainRest⟩ := List.forall_mem_cons.1 hplain
    obtain ⟨hdescends, hdownRest⟩ := List.forall_mem_cons.1 hdown
    have ih : ∀ {n : Name}, segment.Admits hidden n → q ∈ named t hidden showRoot rest (.entry p n) →
        ∃ ns : List Name, q = p.down ns ∧
          List.Forall₂ (Segment.Admits hidden) (segment :: rest) ns := by
      intro n hadmits hq
      obtain ⟨ns, hdown, hns⟩ := exists_admitted_of_mem_named hw hplainRest hdownRest hq
      exact ⟨n :: ns, hdown, .cons hadmits hns⟩
    cases segment with
    | name text =>
      rw [named_name hfirst.1] at hq
      exact ih (n := ⟨text, hfirst.1⟩) rfl hq
    | wildcard pattern =>
      obtain ⟨-, n, -, -, hadmits, -, hq⟩ := (mem_named_wildcard_iff hw).1 hq
      exact ih hadmits hq
    | _ => cases hdescends

end Segment

/-! ## 3. In what order -/

/-- One place comes before another name by name. -/
def Place.Before (p q : Place) : Prop :=
  p.names.map Name.text < q.names.map Name.text

theorem Place.before_of_text_lt {dir : Place} {n m : Name} (h : n.text < m.text)
    (ns ms : List Name) : ((Place.entry dir n).down ns).Before ((Place.entry dir m).down ms) := by
  have hnames : ∀ (k : Name) (ks : List Name), ((Place.entry dir k).down ks).names.map Name.text =
      dir.names.map Name.text ++ k.text :: ks.map Name.text := by
    intro k ks
    simp [Place.names_down, Place.names]
  rw [Before, hnames, hnames]
  exact List.append_left_lt (List.cons_lt_cons_iff.2 (.inl h))

namespace Segment

variable {t : Tree} {hidden : String} {showRoot : Option Place}

/-- What an entry leads to that a wildcard goes through lies at or below it. -/
theorem exists_down_of_mem_child? (hw : t.WellFormed) {rest : List Segment} {p q : Place}
    (hplain : ∀ seg ∈ rest, seg.Plain) (hdown : ∀ seg ∈ rest, seg.descends)
    {held : Place → Bool} {text : String}
    (hq : q ∈ ((p.child? text).filter held).toList.flatMap (named t hidden showRoot rest)) :
    ∃ (n : Name) (ns : List Name), n.text = text ∧ q = (Place.entry p n).down ns := by
  obtain ⟨child, hchild, hq⟩ := List.mem_flatMap.1 hq
  have hsome := (Option.filter_eq_some_iff.1 (Option.mem_toList.1 hchild)).1
  unfold Place.child? at hsome
  split at hsome
  · rename_i hname
    obtain rfl := Option.some.inj hsome
    obtain ⟨ns, rfl, -⟩ := exists_down_of_mem_named hw hplain hdown hq
    exact ⟨⟨text, hname⟩, ns, rfl, rfl⟩
  · cases hsome

/-- What names and wildcards stand for comes in strictly rising order, name by name. -/
theorem pairwise_named (hw : t.WellFormed) : ∀ {segments : List Segment} {p : Place},
    (∀ seg ∈ segments, seg.Plain) → (∀ seg ∈ segments, seg.descends) →
      (named t hidden showRoot segments p).Pairwise Place.Before
  | [], p, _, _ => List.pairwise_singleton _ _
  | segment :: rest, p, hplain, hdown => by
    obtain ⟨hfirst, hplainRest⟩ := List.forall_mem_cons.1 hplain
    obtain ⟨hdescends, hdownRest⟩ := List.forall_mem_cons.1 hdown
    have ih : ∀ n : Name, (named t hidden showRoot rest (.entry p n)).Pairwise Place.Before :=
      fun n => pairwise_named hw hplainRest hdownRest
    cases segment with
    | name text =>
      rw [named_name hfirst.1]
      exact ih _
    | wildcard pattern =>
      rw [named]
      split
      · refine List.pairwise_flatMap.2 ⟨fun text htext => ?_, ?_⟩
        · obtain ⟨n, rfl, -⟩ :=
            hw.name_of_mem_names (List.mem_filter.1 (List.mem_filter.1 htext).1).1
          rw [Place.flatMap_child?]
          split
          · exact ih n
          · exact .nil
        · -- whatever is below the earlier name comes before all that is below the later one
          refine ((t.pairwise_names p.path.key).sublist
            ((List.filter_sublist).trans List.filter_sublist)).imp ?_
          intro text text' hlt q hq q' hq'
          obtain ⟨n, ns, rfl, rfl⟩ := exists_down_of_mem_child? hw hplainRest hdownRest hq
          obtain ⟨m, ms, rfl, rfl⟩ := exists_down_of_mem_child? hw hplainRest hdownRest hq'
          exact Place.before_of_text_lt hlt ns ms
      · exact .nil
    | _ => cases hdescends

end Segment

/-! ## 4. What is found among what is named -/

/-- Where the cache has met a directory, there is one, if its strays are files. -/
theorem Sees.isDir {c₀ c : Cache} {t : Tree} {places : List Place} {p : Place}
    (h : Sees c₀ t places c) (hfiles : ∀ n ∈ c₀.nodes, n.isStray t = true → n.stat.isDir = false)
    (hp : p ∈ places) (hdir : c.isDirAt p = true) : t.isDir p.path = true := by
  obtain ⟨n, hn⟩ := Option.isSome_iff_exists.1 (h.met p hp)
  have hisDir : n.stat.isDir = true := by simpa [Cache.isDirAt, Cache.nodeAt, hn] using hdir
  obtain ⟨hmem, rfl⟩ := Cache.node?_eq_some hn
  have hright : n.isStray t = false := by
    rcases h.nodes n hmem with hold | hright
    · cases hstray : n.isStray t with
      | false => rfl
      | true =>
        rw [hfiles n hold hstray] at hisDir
        cases hisDir
    · exact hright
  rw [Tree.isDir_iff, ← hisDir]
  simpa [Node.isStray] using hright

section Search

variable {σ : Type} [FileSystem (StateM σ)] {view : σ → Tree} {c₀ : Cache} {s₀ : σ}
variable {showRoot : Option Place} {segments rest : List Segment} {places : List Place} {p : Place}

/-- From what was met as a file, names and wildcards find nothing. -/
theorem Segment.run_search_file {β : Type} {visit : Place → Work (StateM σ) β} {c : Cache} {s : σ}
    (hne : segments ≠ []) (hdown : ∀ seg ∈ segments, seg.descends) (hfile : c.isDirAt p = false) :
    ((Segment.search visit segments p).run.run c).run s = ((.ok [], c), s) := by
  cases segments with
  | nil => exact absurd rfl hne
  | cons segment rest =>
    cases segment with
    | name text =>
      rw [Segment.search, run_bind, Segment.candidate, run_bind, run_get]
      · dsimp only
        rw [hfile, if_neg Bool.false_ne_true]
        rfl
      · rintro pattern ⟨⟩
    | wildcard pattern =>
      rw [Segment.search, run_bind, Cache.children, run_bind, run_get]
      dsimp only
      rw [hfile, if_neg Bool.false_ne_true]
      rfl
    | _ => cases hdown _ List.mem_cons_self

/-- The values are those of some of what is named, in the same order. -/
def Selected (named : List Place) (values : List Value) : Prop :=
  ∃ found : List Place, values = found.map Place.toValue ∧ found.Sublist named

theorem Selected.nil (named : List Place) : Selected named [] :=
  ⟨[], rfl, List.nil_sublist _⟩

theorem Selected.append {named named' : List Place} {values values' : List Value}
    (h : Selected named values) (h' : Selected named' values') :
    Selected (named ++ named') (values ++ values') := by
  obtain ⟨found, rfl, hfound⟩ := h
  obtain ⟨found', rfl, hfound'⟩ := h'
  exact ⟨found ++ found', by rw [List.map_append], hfound.append hfound'⟩

/-- What a search of these segments finds is listed, from any place that has been met. -/
def SearchSelects (view : σ → Tree) (c₀ : Cache) (s₀ : σ) (showRoot : Option Place)
    (segments : List Segment) : Prop :=
  ∀ (places : List Place) (p : Place), p ∈ places →
    Triple (fun c s => s = s₀ ∧ Sees c₀ (view s₀) places c)
      (Segment.search (Expression.describe none) segments p)
      (fun values c s => (s = s₀ ∧ Sees c₀ (view s₀) places c) ∧
        Selected (Segment.named (view s₀) c₀.layout.metaDir showRoot segments p) values)
      (fun _ _ _ => True)

/-- Going on from an entry that was asked for: what is found is listed, and is nothing if more
segments come and the entry is no directory. -/
theorem SearchSelects.follow (ih : SearchSelects view c₀ s₀ showRoot rest)
    (hfiles : ∀ n ∈ c₀.nodes, n.isStray (view s₀) = true → n.stat.isDir = false)
    (hdown : ∀ seg ∈ rest, seg.descends) (name : Name) (found : Option Place) :
    Triple (fun c s => s = s₀ ∧ Asked c₀ (view s₀) places p name found c)
      (match found with
        | some q => Segment.search (Expression.describe none) rest q
        | none => pure [])
      (fun values c s => (s = s₀ ∧ Sees c₀ (view s₀) places c) ∧
        Selected (Segment.named (view s₀) c₀.layout.metaDir showRoot rest (.entry p name)) values ∧
        (rest ≠ [] → (view s₀).isDir (Place.entry p name).path = false → values = []))
      (fun _ _ _ => True) := by
  cases found with
  | none =>
    refine Triple.pure ?_
    rintro c s ⟨rfl, hsees, -⟩
    exact ⟨⟨rfl, hsees⟩, .nil _, fun _ _ => rfl⟩
  | some q =>
    refine Triple.of_forall fun c₁ s₁ hi => ?_
    obtain ⟨rfl, rfl, hsees⟩ := hi
    by_cases hfile : rest ≠ [] ∧ (view s₁).isDir (Place.entry p name).path = false
    · have hdirAt : c₁.isDirAt (.entry p name) = false := by
        cases hdir : c₁.isDirAt (.entry p name) with
        | false => rfl
        | true =>
          rw [hsees.isDir hfiles List.mem_cons_self hdir] at hfile
          cases hfile.2
      rintro c s ⟨rfl, rfl⟩
      have hrun : ((Segment.search (Expression.describe none) rest (.entry p name) :
          Work (StateM σ) _).run.run c).run s = ((.ok [], c), s) :=
        Segment.run_search_file hfile.1 hdown hdirAt
      rw [hrun]
      exact ⟨⟨rfl, hsees.tail⟩, .nil _, fun _ _ => rfl⟩
    · refine ((ih (Place.entry p name :: places) (Place.entry p name) List.mem_cons_self).pre
        ?_).onSuccess ?_
      · rintro c s ⟨rfl, rfl⟩
        exact ⟨rfl, hsees⟩
      · rintro values c s ⟨⟨hs, hafter⟩, hlists⟩
        exact ⟨⟨hs, hafter.tail⟩, hlists, fun hne hnot => absurd ⟨hne, hnot⟩ hfile⟩

/-- From a place that has been met, a search for names and wildcards finds some of what they
stand for, in the same order. -/
theorem Truthful.search_selects (h : Truthful view) (hw : (view s₀).WellFormed)
    (hfiles : ∀ n ∈ c₀.nodes, n.isStray (view s₀) = true → n.stat.isDir = false) :
    ∀ {segments : List Segment}, (∀ seg ∈ segments, seg.Plain) →
      (∀ seg ∈ segments, seg.descends) → SearchSelects view c₀ s₀ showRoot segments
  | [], _, _ => by
    rintro places p hp c s ⟨rfl, hsees⟩
    exact ⟨⟨rfl, hsees⟩, [p], rfl, List.Sublist.refl _⟩
  | segment :: rest, hplain, hdown => by
    obtain ⟨hfirst, hplainRest⟩ := List.forall_mem_cons.1 hplain
    obtain ⟨hdescends, hdownRest⟩ := List.forall_mem_cons.1 hdown
    have ih : SearchSelects view c₀ s₀ showRoot rest := search_selects h hw hfiles hplainRest hdownRest
    intro places p hp
    cases segment with
    | name text =>
      obtain ⟨hname, hchars⟩ := hfirst
      rw [Segment.named_name hname]
      refine Triple.bind (h.candidate_name hw hp hname hchars) fun found => ?_
      exact (ih.follow hfiles hdownRest ⟨text, hname⟩ found).onSuccess fun _ _ _ hq =>
        ⟨hq.1, hq.2.1⟩
    | wildcard pattern =>
      refine Triple.bind (h.children hp) fun names => Triple.of_fact fun hnames => ?_
      rcases hnames with ⟨hdir, rfl⟩ | ⟨rfl, -⟩
      · rw [Segment.named, if_pos hdir]
        refine Triple.gather (R := fun names values => Selected (names.flatMap _) values)
          (.nil _) fun text htext others => ?_
        obtain ⟨name, rfl, -⟩ :=
          hw.name_of_mem_names (List.mem_filter.1 (List.mem_filter.1 htext).1).1
        refine Triple.bind (h.meetIfPresent hp name) fun found => ?_
        refine (ih.follow hfiles hdownRest name found).onSuccess ?_
        rintro values c s ⟨hi, hlists, hnone⟩
        refine ⟨hi, fun values' hvalues' => ?_⟩
        rw [List.flatMap_cons]
        refine Selected.append ?_ hvalues'
        rw [Place.flatMap_child?]
        split
        · exact hlists
        · rename_i hheld
          rw [Bool.or_eq_true, not_or, List.isEmpty_iff, Bool.not_eq_true] at hheld
          rw [hnone hheld.1 hheld.2]
          exact .nil _
      · exact Triple.pure fun _ _ hi => ⟨hi, .nil _⟩
    | _ => cases hdescends

/-- The values are those of some of what is named, in the same order, and of all of it that is
there and not astray. -/
def FoundAmong (c₀ : Cache) (t : Tree) (named : List Place) (values : List Value) : Prop :=
  ∃ found : List Place, values = found.map Place.toValue ∧ found.Sublist named ∧
    Matching c₀ t found named

/-- Where all that is named is there and nothing is astray, all of it is listed. -/
theorem FoundAmong.eq_map {t : Tree} {named : List Place} {values : List Value}
    (h : FoundAmong c₀ t named values) (hthere : ∀ q ∈ named, t.present q.path = true)
    (hclear : ∀ q ∈ named, c₀.astray t q = false) : values = named.map Place.toValue := by
  obtain ⟨found, rfl, hsublist, hmatching⟩ := h
  have hfound : found.filter (!c₀.astray t ·) = found :=
    List.filter_eq_self.2 fun q hq => by rw [hclear q (hsublist.subset hq), Bool.not_false]
  have hnamed : (named.filter fun q => t.present q.path && !c₀.astray t q) = named :=
    List.filter_eq_self.2 fun q hq => by rw [hthere q hq, hclear q hq]; rfl
  rw [Matching, hfound, hnamed] at hmatching
  rw [hmatching]

/-- What names and wildcards list from any place that has been met. -/
theorem Truthful.search_among (h : Truthful view) (hw : (view s₀).WellFormed)
    (hfiles : ∀ n ∈ c₀.nodes, n.isStray (view s₀) = true → n.stat.isDir = false)
    (hplain : ∀ seg ∈ segments, seg.Plain) (hdown : ∀ seg ∈ segments, seg.descends) :
    SearchLeads view c₀ s₀ showRoot (FoundAmong c₀ (view s₀)) segments := by
  have hfinds : SearchFinds view c₀ s₀ showRoot segments := h.search_down hw hplain hdown
  have hselects : SearchSelects view c₀ s₀ showRoot segments :=
    h.search_selects hw hfiles hplain hdown
  intro places p hp
  refine ((hfinds places p hp).and (hselects places p hp)).imp (fun _ _ hi => ⟨hi, hi⟩) ?_
    fun _ _ _ _ => trivial
  rintro values c s ⟨⟨⟨hs, -⟩, found, hvalues, -, hmatching⟩, -, found', hvalues', hsublist⟩
  obtain rfl : found = found' :=
    List.map_injective_iff.2 (fun _ _ => Place.toValue_injective) (hvalues.symm.trans hvalues')
  exact ⟨hs, found, hvalues, hsublist, hmatching⟩

end Search

end ShowTree
