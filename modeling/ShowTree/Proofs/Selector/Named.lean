/-
ShowTree.Proofs.Selector.Named — the paths that a selector stands for, read off a tree.

Putting paths together looks at directories and their names only. Where a tree answers
these questions, the paths that come out are those of the places that the tree alone says
(`Segment.named`), and nothing else happens (`Truthful.run_candidates`). What names and
wildcards stand for lies below the place they start from, one name deeper for each segment
(`exists_down_of_mem_named`), so in a well-formed tree nothing of it is there unless the
start is a directory (`kind?_of_mem_named`).
-/
import ShowTree.Candidates
import ShowTree.Proofs.Cache.Truthful
import ShowTree.Proofs.FileSystem.WellFormed
import ShowTree.Proofs.Selector.Shape

namespace ShowTree

/-! ## 1. The places that segments stand for -/

/-- The entry with a name, if the text is one. -/
def Place.child? (p : Place) (text : String) : Option Place :=
  if h : IsName text then some (.entry p ⟨text, h⟩) else none

/-- The names in a directory without that of its metadata. -/
def Tree.visible (t : Tree) (hidden : String) (p : Place) : List String :=
  (t.names p.path.key).filter (· != hidden)

namespace Segment

/-- The places that a chain stands for from a place, as the tree is. -/
def named (t : Tree) (hidden : String) (showRoot : Option Place) :
    List Segment → Place → List Place
  | [], p => [p]
  | .fileRoot :: rest, _ => named t hidden showRoot rest .root
  | .showRoot :: rest, _ => showRoot.toList.flatMap (named t hidden showRoot rest)
  | .up levels :: rest, p => named t hidden showRoot rest (p.upBy levels)
  | .name text :: rest, p => (p.child? text).toList.flatMap (named t hidden showRoot rest)
  | .wildcard pattern :: rest, p =>
    if t.isDir p.path then
      ((t.visible hidden p).filter (Wildcard.accepts pattern)).flatMap fun text =>
        ((p.child? text).filter fun q => rest.isEmpty || t.isDir q.path).toList.flatMap
          (named t hidden showRoot rest)
    else []

end Segment

/-! ## 2. Putting paths together -/

theorem Place.child?_of_isName {p : Place} {text : String} (h : IsName text) :
    p.child? text = some (.entry p ⟨text, h⟩) :=
  dif_pos h

/-- Following the entry with a name, if it is held on to. -/
theorem Place.flatMap_child? {β : Type} (p : Place) (n : Name) (held : Place → Bool)
    (f : Place → List β) : ((p.child? n.text).filter held).toList.flatMap f =
      if held (.entry p n) then f (.entry p n) else [] := by
  rw [child?_of_isName n.isName, Option.filter_some]
  split
  · rw [Option.toList_some, List.flatMap_singleton]
  · rfl

namespace Segment

variable {t : Tree} {hidden : String} {rest : List Segment} {p : Place}

theorem named_name {showRoot : Option Place} {text : String} (h : IsName text) :
    named t hidden showRoot (.name text :: rest) p =
      named t hidden showRoot rest (.entry p ⟨text, h⟩) := by
  rw [named, Place.child?_of_isName h, Option.toList_some, List.flatMap_singleton]

theorem named_showRoot (place : Place) :
    named t hidden (some place) (.showRoot :: rest) p =
      named t hidden (some place) rest place := by
  rw [named, Option.toList_some, List.flatMap_singleton]

end Segment

theorem Path.upBy_path : ∀ (levels : Nat) (p : Place), p.path.upBy levels = (p.upBy levels).path
  | 0, _ => rfl
  | _ + 1, .root => rfl
  | levels + 1, .entry dir name => by
    rw [Path.upBy, Place.parent?_path_entry]
    exact upBy_path levels dir

section Run

variable {σ α β : Type} {s : σ} {c : Cache}

theorem run_gather {f : α → Work (StateM σ) (List β)} {g : α → List β} : ∀ {items : List α},
    (∀ a ∈ items, ((f a).run.run c).run s = ((.ok (g a), c), s)) →
      ((Work.gather f items).run.run c).run s = ((.ok (items.flatMap g), c), s)
  | [], _ => rfl
  | a :: rest, h => by
    have hrest := run_gather fun b hb => h b (List.mem_cons_of_mem a hb)
    rw [run_gather_cons, h a List.mem_cons_self]
    simp only [hrest]
    rfl

variable [FileSystem (StateM σ)] {view : σ → Tree}

theorem Truthful.run_query_isDir (h : Truthful view) (p : Path) :
    ((Work.query (FileSystem.isDir p) : Work (StateM σ) Bool).run.run c).run s =
      ((.ok ((view s).isDir p), c), s) := by
  rw [run_query, h.isDir]

theorem Tree.list_of_isDir {t : Tree} {p : Path} (h : t.isDir p = true) :
    t.list p = .ok (t.names p.key) := by
  unfold Tree.isDir at h
  split at h
  · rename_i hentry
    rw [Tree.list, hentry]
  · cases h

theorem Truthful.run_listVisible (h : Truthful view) {p : Place}
    (hdir : (view s).isDir p.path = true) :
    ((Cache.listVisible p.path : Work (StateM σ) _).run.run c).run s =
      ((.ok ((view s).visible c.layout.metaDir p), c), s) := by
  rw [Cache.listVisible, run_bind, run_call, h.list, Tree.list_of_isDir hdir]
  rfl

/-- Only what can hold the rest of the chain is followed. -/
theorem Truthful.run_canHold (h : Truthful view) (rest : List Segment) (p : Path) :
    ((Segment.canHold rest p : Work (StateM σ) _).run.run c).run s =
      ((.ok (rest.isEmpty || (view s).isDir p), c), s) := by
  rw [Segment.canHold]
  cases rest.isEmpty with
  | true => rfl
  | false => exact h.run_query_isDir p

/-- Putting paths together for a pattern, given what comes after it. -/
theorem Truthful.run_candidates_wildcard (h : Truthful view) (hw : (view s).WellFormed)
    {anchor : Place} {rest : List Segment} (pattern : String) (p : Place)
    (ih : ∀ q : Place, ((Segment.candidates anchor rest q.path : Work (StateM σ) _).run.run c).run
      s = ((.ok ((Segment.named (view s) c.layout.metaDir (c.showAt anchor) rest q).map
        Place.path), c), s)) :
    ((Segment.candidates anchor (.wildcard pattern :: rest) p.path : Work (StateM σ) _).run.run
      c).run s = ((.ok ((Segment.named (view s) c.layout.metaDir (c.showAt anchor)
        (.wildcard pattern :: rest) p).map Place.path), c), s) := by
  rw [Segment.candidates, run_bind, h.run_query_isDir, Segment.named]
  dsimp only
  cases hdir : (view s).isDir p.path with
  | false => rfl
  | true =>
    rw [if_pos rfl, if_pos rfl, run_bind, h.run_listVisible hdir]
    dsimp only
    rw [List.map_flatMap]
    refine run_gather fun text htext => ?_
    have hlisted : text ∈ (view s).names p.path.key :=
      (List.mem_filter.1 (List.mem_filter.1 htext).1).1
    obtain ⟨name, rfl, -⟩ := hw.name_of_mem_names hlisted
    have hchild : p.path.join name.text = (Place.entry p name).path := rfl
    rw [run_bind, hchild, h.run_canHold, Place.flatMap_child?]
    dsimp only
    split
    · exact ih (.entry p name)
    · rfl

/-- The paths that are put together are those of the places that the tree says. -/
theorem Truthful.run_candidates (h : Truthful view) (hw : (view s).WellFormed) {anchor : Place} :
    ∀ {segments : List Segment} {p : Place}, (∀ seg ∈ segments, seg.Plain) →
      (.showRoot ∈ segments → (c.showAt anchor).isSome) →
      ((Segment.candidates anchor segments p.path : Work (StateM σ) _).run.run c).run s =
        ((.ok ((Segment.named (view s) c.layout.metaDir (c.showAt anchor) segments p).map
          Place.path), c), s)
  | [], p, _, _ => rfl
  | segment :: rest, p, hplain, hshow => by
    have ih : ∀ q : Place,
        ((Segment.candidates anchor rest q.path : Work (StateM σ) _).run.run c).run s =
          ((.ok ((Segment.named (view s) c.layout.metaDir (c.showAt anchor) rest q).map
            Place.path), c), s) := fun q =>
      run_candidates h hw (fun seg hseg => hplain seg (List.mem_cons_of_mem _ hseg))
        fun hmem => hshow (List.mem_cons_of_mem _ hmem)
    cases segment with
    | fileRoot => exact ih .root
    | showRoot =>
      obtain ⟨showRoot, hroot⟩ := Option.isSome_iff_exists.1 (hshow List.mem_cons_self)
      rw [hroot] at ih ⊢
      rw [Segment.candidates, run_bind, run_get]
      dsimp only
      rw [Segment.named_showRoot, hroot]
      exact ih showRoot
    | up levels =>
      rw [Segment.candidates, Path.upBy_path]
      exact ih (p.upBy levels)
    | name text =>
      have hname : IsName text := (hplain _ List.mem_cons_self).1
      rw [Segment.named_name hname]
      exact ih (.entry p ⟨text, hname⟩)
    | wildcard pattern => exact h.run_candidates_wildcard hw pattern p ih

end Run

/-! ## 3. Where the places lie -/

theorem Tree.isDir_iff {t : Tree} {p : Path} : t.isDir p = true ↔ t.kind? p.key = some true := by
  rw [Tree.isDir, Tree.kind?, Tree.get?, ← Tree.entry?]
  cases t.entry? p with
  | none => simp
  | some e => cases e <;> simp [Entry.isDir]

namespace Segment

variable {t : Tree} {hidden : String} {showRoot : Option Place}

/-- What a pattern stands for, one entry after the other. -/
theorem mem_named_wildcard_iff (hw : t.WellFormed) {pattern : String} {rest : List Segment}
    {p q : Place} :
    q ∈ named t hidden showRoot (.wildcard pattern :: rest) p ↔
      t.isDir p.path = true ∧ ∃ n : Name, n.text ∈ t.names p.path.key ∧ '\\' ∉ n.chars ∧
        (Wildcard.accepts pattern n.text = true ∧ n.text ≠ hidden) ∧
        (rest.isEmpty || t.isDir (Place.entry p n).path) = true ∧
        q ∈ named t hidden showRoot rest (.entry p n) := by
  rw [named]
  constructor
  · intro hq
    split at hq
    · rename_i hdir
      obtain ⟨text, htext, hq⟩ := List.mem_flatMap.1 hq
      obtain ⟨hvisible, haccepts⟩ := List.mem_filter.1 htext
      obtain ⟨hlisted, hhidden⟩ := List.mem_filter.1 hvisible
      obtain ⟨n, rfl, hn⟩ := hw.name_of_mem_names hlisted
      rw [Place.flatMap_child?] at hq
      split at hq
      · rename_i hheld
        exact ⟨hdir, n, hlisted, hn, ⟨haccepts, by simpa using hhidden⟩, hheld, hq⟩
      · cases hq
    · cases hq
  · rintro ⟨hdir, n, hlisted, -, ⟨haccepts, hhidden⟩, hheld, hq⟩
    rw [if_pos hdir]
    refine List.mem_flatMap.2 ⟨n.text, List.mem_filter.2 ⟨List.mem_filter.2 ⟨hlisted, ?_⟩,
      haccepts⟩, ?_⟩
    · simpa using hhidden
    · rw [Place.flatMap_child?, if_pos hheld]
      exact hq

/-- What names and wildcards stand for is reached by names, one for each of them. -/
theorem exists_down_of_mem_named (hw : t.WellFormed) : ∀ {segments : List Segment} {p q : Place},
    (∀ seg ∈ segments, seg.Plain) → (∀ seg ∈ segments, seg.descends) →
    q ∈ named t hidden showRoot segments p →
      ∃ ns : List Name, q = p.down ns ∧ ns.length = segments.length ∧ ∀ n ∈ ns, '\\' ∉ n.chars
  | [], p, q, _, _, hq => ⟨[], List.mem_singleton.1 hq, rfl, by simp⟩
  | segment :: rest, p, q, hplain, hdown, hq => by
    have ih : ∀ {name : Name}, '\\' ∉ name.chars →
        q ∈ named t hidden showRoot rest (.entry p name) →
        ∃ ns : List Name, q = p.down ns ∧ ns.length = rest.length + 1 ∧
          ∀ n ∈ ns, '\\' ∉ n.chars := by
      intro name hname hq
      obtain ⟨ns, rfl, hlength, hns⟩ := exists_down_of_mem_named hw
        (fun seg hseg => hplain seg (List.mem_cons_of_mem _ hseg))
        (fun seg hseg => hdown seg (List.mem_cons_of_mem _ hseg)) hq
      refine ⟨name :: ns, rfl, by rw [List.length_cons, hlength], fun n hn => ?_⟩
      rcases List.mem_cons.1 hn with rfl | hn
      · exact hname
      · exact hns n hn
    cases segment with
    | name text =>
      obtain ⟨hname, htext⟩ := hplain _ List.mem_cons_self
      have hchars : '\\' ∉ (Name.mk text hname).chars := htext
      rw [named_name hname] at hq
      exact ih hchars hq
    | wildcard pattern =>
      obtain ⟨-, n, -, hn, -, -, hq⟩ := (mem_named_wildcard_iff hw).1 hq
      exact ih hn hq
    | _ => exact absurd (hdown _ List.mem_cons_self) Bool.false_ne_true

variable {segments : List Segment} {p q : Place}

theorem mem_upward_of_mem_named (hw : t.WellFormed) (hplain : ∀ seg ∈ segments, seg.Plain)
    (hdown : ∀ seg ∈ segments, seg.descends) (hq : q ∈ named t hidden showRoot segments p) :
    p ∈ q.upward := by
  obtain ⟨ns, rfl, -, -⟩ := exists_down_of_mem_named hw hplain hdown hq
  rw [Place.mem_upward_iff, Place.names_down]
  exact List.prefix_append _ _

/-- If anything that the segments stand for is there, they start from a directory. -/
theorem kind?_of_mem_named (hw : t.WellFormed) (hplain : ∀ seg ∈ segments, seg.Plain)
    (hdown : ∀ seg ∈ segments, seg.descends) (hne : segments ≠ [])
    (hq : q ∈ named t hidden showRoot segments p) (hthere : t.present q.path = true) :
    t.kind? p.path.key = some true := by
  obtain ⟨ns, rfl, hlength, hns⟩ := exists_down_of_mem_named hw hplain hdown hq
  refine hw.kind?_of_down hns (fun hnil => hne ?_) hthere
  rw [hnil] at hlength
  exact List.length_eq_zero_iff.1 hlength.symm

/-- If anything that the segments stand for is there, so is what they start from. -/
theorem isSome_of_mem_named (hw : t.WellFormed) (hplain : ∀ seg ∈ segments, seg.Plain)
    (hdown : ∀ seg ∈ segments, seg.descends) (hq : q ∈ named t hidden showRoot segments p)
    (hthere : t.present q.path = true) : (t.get? p.path.key).isSome := by
  cases segments with
  | nil =>
    rw [named, List.mem_singleton] at hq
    exact hq ▸ hthere
  | cons segment rest =>
    exact Tree.isSome_of_kind? (kind?_of_mem_named hw hplain hdown (by simp) hq hthere)

/-- Holding on to directories alone loses nothing that is there. -/
theorem filter_present_held (hw : t.WellFormed) (hplain : ∀ seg ∈ segments, seg.Plain)
    (hdown : ∀ seg ∈ segments, seg.descends) (p : Place) (name : Name) :
    ((((p.child? name.text).filter fun q => segments.isEmpty || t.isDir q.path).toList.flatMap
        (named t hidden showRoot segments)).filter fun q => t.present q.path) =
      (named t hidden showRoot segments (.entry p name)).filter fun q => t.present q.path := by
  rw [Place.flatMap_child?]
  split
  · rfl
  · rename_i hheld
    rw [Bool.or_eq_true, not_or, List.isEmpty_iff] at hheld
    refine (List.filter_eq_nil_iff.2 fun q hq hthere => hheld.2 ?_).symm
    exact Tree.isDir_iff.2 (kind?_of_mem_named hw hplain hdown hheld.1 hq hthere)

end Segment

end ShowTree
