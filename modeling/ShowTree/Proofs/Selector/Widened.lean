/-
ShowTree.Proofs.Selector.Widened — what segments stand for while objects are made.

Putting paths together looks at directories alone, but for a wildcard at the end, and no
wildcard looks at directories for metadata. So if a tree gains no directories but those and
some of what the segments stand for, and they do not end in a wildcard, they stand for the
same afterwards, in the same order (`named_of_widened`). If they do end in one, all that they
stand for is there already (`present_of_mem_named`).
-/
import Mathlib.Data.List.Sort
import ShowTree.Proofs.Cache.Widening
import ShowTree.Proofs.Selector.Reached

namespace ShowTree

/-! ## 1. Names of metadata -/

/-- The key of a directory for metadata ends in the name of metadata. -/
theorem Place.eq_metaName_of_key {dir p : Place} {name : Name} (hname : '\\' ∉ name.chars)
    (h : dir.metaDir.path.key = (entry p name).path.key) : name = Layout.metaName := by
  have hmeta : '\\' ∉ Layout.metaName.chars := by decide
  have hcut := cutKey?_eq (toList_key_entry dir hmeta) Layout.metaName.slash_not_mem_chars
  rw [show entry dir Layout.metaName = dir.metaDir from rfl, h,
    cutKey?_eq (toList_key_entry p hname) name.slash_not_mem_chars] at hcut
  exact Name.chars_injective (Prod.mk.inj (Option.some.inj hcut)).2

theorem Place.plain_root : Place.root.Plain := fun n hn => by
  cases hn

theorem Place.Plain.down {p : Place} (hp : p.Plain) {ns : List Name}
    (hns : ∀ n ∈ ns, '\\' ∉ n.chars) : (p.down ns).Plain := by
  intro n hn
  rw [names_down] at hn
  rcases List.mem_append.1 hn with hn | hn
  · exact hp n hn
  · exact hns n hn

theorem Place.down_injective {p : Place} {ns ms : List Name} (h : p.down ns = p.down ms) :
    ns = ms := by
  have hnames := congrArg names h
  rw [names_down, names_down] at hnames
  exact List.append_cancel_left hnames

/-- The keys under which directories can be made when objects are made at these places. -/
def MadeKey (places : List Place) (key : String) : Prop :=
  (∃ dir : Place, dir.metaDir.path.key = key) ∨ ∃ q ∈ places, q.path.key = key

namespace Segment

variable {t t' : Tree} {hidden : String} {showRoot : Option Place} {p q : Place}

/-! ## 2. One segment after the other -/

/-- What one segment leads to has the names of where it was come from, which may be the show, and
else names without backslashes; the hidden name only if it was asked for. -/
def LeadsTo (segment : Segment) (hidden : String) (showRoot : Option Place) (p next : Place) : Prop :=
  ∀ n ∈ next.names, n ∈ p.names ∨ (∃ place ∈ showRoot, n ∈ place.names) ∨
    '\\' ∉ n.chars ∧ (n.text = hidden → segment = .name hidden)

theorem LeadsTo.entry {segment : Segment} {name : Name} (hchars : '\\' ∉ name.chars)
    (hhidden : name.text = hidden → segment = .name hidden) :
    segment.LeadsTo hidden showRoot p (.entry p name) := by
  intro n hn
  rcases List.mem_append.1 hn with hn | hn
  · exact .inl hn
  · obtain rfl := List.mem_singleton.1 hn
    exact .inr (.inr ⟨hchars, hhidden⟩)

theorem LeadsTo.plain {segment : Segment} {next : Place}
    (h : segment.LeadsTo hidden showRoot p next) (hshow : ∀ place ∈ showRoot, place.Plain)
    (hp : p.Plain) : next.Plain := by
  intro n hn
  rcases h n hn with hn | ⟨place, hplace, hn⟩ | ⟨hchars, -⟩
  · exact hp n hn
  · exact hshow place hplace n hn
  · exact hchars

/-- What segments stand for is what the rest of them stands for from one place, which is there if
the first of them is a wildcard. -/
theorem exists_next_of_mem_named (hw : t.WellFormed) {segment : Segment} {rest : List Segment}
    (hfirst : segment.Plain) (hp : p.Plain)
    (hq : q ∈ named t hidden showRoot (segment :: rest) p) :
    ∃ next : Place, q ∈ named t hidden showRoot rest next ∧
      segment.LeadsTo hidden showRoot p next ∧
      ∀ pattern, segment = .wildcard pattern → t.present next.path = true := by
  cases segment with
  | fileRoot => exact ⟨.root, hq, (fun n hn => by cases hn), by simp⟩
  | showRoot =>
    obtain ⟨place, hplace, hq⟩ := List.mem_flatMap.1 hq
    exact ⟨place, hq, fun n hn => .inr (.inl ⟨place, Option.mem_toList.1 hplace, hn⟩), by simp⟩
  | up levels =>
    have hup : (p.upBy levels).names <+: p.names :=
      Place.mem_upward_iff.1 (upBy_mem_upward levels p)
    exact ⟨_, hq, fun n hn => .inl (hup.subset hn), by simp⟩
  | name text =>
    obtain ⟨hname, hchars⟩ := hfirst
    rw [named_name hname] at hq
    exact ⟨.entry p ⟨text, hname⟩, hq, LeadsTo.entry hchars (congrArg Segment.name), by simp⟩
  | wildcard pattern =>
    obtain ⟨-, n, hlisted, hn, ⟨-, hhidden⟩, -, hq⟩ := (mem_named_wildcard_iff hw).1 hq
    exact ⟨_, hq, LeadsTo.entry hn fun e => absurd e hhidden,
      fun _ _ => (Tree.mem_names_iff hp.getLast? hn).1 hlisted⟩

/-- What plain segments stand for is without backslashes. -/
theorem plain_of_mem_named (hw : t.WellFormed) (hshow : ∀ place ∈ showRoot, place.Plain) :
    ∀ {segments : List Segment} {p : Place}, (∀ seg ∈ segments, seg.Plain) → p.Plain →
      q ∈ named t hidden showRoot segments p → q.Plain
  | [], p, _, hp, hq => List.mem_singleton.1 hq ▸ hp
  | segment :: rest, p, hplain, hp, hq => by
    obtain ⟨hfirst, hplainRest⟩ := List.forall_mem_cons.1 hplain
    obtain ⟨next, hq, hleads, -⟩ := exists_next_of_mem_named hw hfirst hp hq
    exact plain_of_mem_named hw hshow hplainRest (hleads.plain hshow hp) hq

/-- The hidden name is in nothing that segments stand for, unless it is asked for or is in what they
start from. -/
theorem visible_of_mem_named (hw : t.WellFormed)
    (hshow : ∀ place ∈ showRoot, place.Plain ∧ ∀ n ∈ place.names, n.text ≠ hidden) :
    ∀ {segments : List Segment} {p : Place}, (∀ seg ∈ segments, seg.Plain) →
      .name hidden ∉ segments → p.Plain → (∀ n ∈ p.names, n.text ≠ hidden) →
        q ∈ named t hidden showRoot segments p → ∀ n ∈ q.names, n.text ≠ hidden
  | [], p, _, _, _, hp, hq => List.mem_singleton.1 hq ▸ hp
  | segment :: rest, p, hplain, hvisible, hp, hclear, hq => by
    obtain ⟨hfirst, hplainRest⟩ := List.forall_mem_cons.1 hplain
    obtain ⟨hfirstVisible, hrestVisible⟩ := not_or.1 (fun h => hvisible (List.mem_cons.2 h))
    have hshowPlain : ∀ place ∈ showRoot, place.Plain := fun place hplace => (hshow place hplace).1
    obtain ⟨next, hq, hleads, -⟩ := exists_next_of_mem_named hw hfirst hp hq
    refine visible_of_mem_named hw hshow hplainRest hrestVisible
      (hleads.plain hshowPlain hp) (fun n hn => ?_) hq
    rcases hleads n hn with hn | ⟨place, hplace, hn⟩ | ⟨-, hhidden⟩
    · exact hclear n hn
    · exact (hshow place hplace).2 n hn
    · exact fun e => hfirstVisible (hhidden e).symm

/-- Segments that end in a wildcard stand for nothing but what is there. -/
theorem present_of_mem_named (hw : t.WellFormed) (hshow : ∀ place ∈ showRoot, place.Plain)
    {pattern : String} : ∀ {segments : List Segment} {p : Place}, (∀ seg ∈ segments, seg.Plain) →
      segments.getLast? = some (.wildcard pattern) → p.Plain →
        q ∈ named t hidden showRoot segments p → t.present q.path = true
  | [], _, _, hlast, _, _ => by cases hlast
  | [segment], p, hplain, hlast, hp, hq => by
    obtain ⟨next, hq, -, hthere⟩ :=
      exists_next_of_mem_named hw (hplain _ List.mem_cons_self) hp hq
    rw [List.mem_singleton.1 hq]
    exact hthere pattern (Option.some.inj hlast)
  | segment :: second :: rest, p, hplain, hlast, hp, hq => by
    obtain ⟨hfirst, hplainRest⟩ := List.forall_mem_cons.1 hplain
    obtain ⟨next, hq, hleads, -⟩ := exists_next_of_mem_named hw hfirst hp hq
    exact present_of_mem_named hw hshow hplainRest (by simpa using hlast)
      (hleads.plain hshow hp) hq

/-! ## 3. Another tree -/

theorem getLast?_ne_of_cons {segment : Segment} {rest : List Segment}
    (h : ∀ pattern, (segment :: rest).getLast? ≠ some (.wildcard pattern)) :
    ∀ pattern, rest.getLast? ≠ some (.wildcard pattern) := by
  intro pattern he
  refine h pattern ?_
  rw [List.getLast?_cons, he, Option.getD_some]

/-- Names and wildcards stand for all that they stood for if all directories on the way are still
there. A wildcard at the end would look at files as well. -/
theorem mem_named_of_dirs (hw : t.WellFormed) (hw' : t'.WellFormed) :
    ∀ {segments : List Segment} {p : Place}, (∀ seg ∈ segments, seg.Plain) →
      (∀ seg ∈ segments, seg.descends) → .name hidden ∉ segments →
      (∀ pattern, segments.getLast? ≠ some (.wildcard pattern)) →
      (∀ ns : List Name, ns.length < segments.length →
        (∀ n ∈ ns, '\\' ∉ n.chars ∧ n.text ≠ hidden) → t.isDir (p.down ns).path = true →
          t'.isDir (p.down ns).path = true) →
      q ∈ named t hidden showRoot segments p → q ∈ named t' hidden showRoot segments p
  | [], _, _, _, _, _, _, hq => hq
  | segment :: rest, p, hplain, hdown, hvisible, hlast, hdirs, hq => by
    obtain ⟨hfirst, hplainRest⟩ := List.forall_mem_cons.1 hplain
    obtain ⟨hdescends, hdownRest⟩ := List.forall_mem_cons.1 hdown
    obtain ⟨hfirstVisible, hrestVisible⟩ := not_or.1 (fun h => hvisible (List.mem_cons.2 h))
    have hlastRest : ∀ pattern, rest.getLast? ≠ some (.wildcard pattern) := getLast?_ne_of_cons hlast
    have ih : ∀ {n : Name}, '\\' ∉ n.chars → n.text ≠ hidden →
        q ∈ named t hidden showRoot rest (.entry p n) →
          q ∈ named t' hidden showRoot rest (.entry p n) := by
      intro n hn hne hq
      refine mem_named_of_dirs hw hw' hplainRest hdownRest hrestVisible hlastRest ?_ hq
      exact fun ns hlen hns => hdirs (n :: ns) (Nat.succ_lt_succ hlen)
        (List.forall_mem_cons.2 ⟨⟨hn, hne⟩, hns⟩)
    cases segment with
    | name text =>
      obtain ⟨hname, hchars⟩ := hfirst
      rw [named_name hname] at hq ⊢
      exact ih (n := ⟨text, hname⟩) hchars (fun e => hfirstVisible (by rw [← e])) hq
    | wildcard pattern =>
      obtain ⟨hdir, n, -, hn, hadmits, hheld, hq⟩ := (mem_named_wildcard_iff hw).1 hq
      have hne : rest.isEmpty = false := by
        cases rest with
        | nil => exact absurd rfl (hlast pattern)
        | cons second rest => rfl
      rw [hne, Bool.false_or] at hheld
      have hrest : 0 < rest.length := by
        cases rest with
        | nil => cases hne
        | cons second rest => exact Nat.succ_pos _
      have hchild : t'.isDir (Place.entry p n).path = true := hdirs [n] (Nat.succ_lt_succ hrest)
        (by simpa using ⟨hn, hadmits.2⟩) hheld
      refine (mem_named_wildcard_iff hw').2 ⟨hdirs [] (Nat.succ_pos _) (by simp) hdir, n, ?_, hn,
        hadmits, by rw [hchild, Bool.or_true], ih hn hadmits.2 hq⟩
      exact hw'.mem_names_of_entry hn (Tree.isSome_of_kind? (Tree.isDir_iff.1 hchild))
    | _ => cases hdescends

end Segment

/-! ## 4. A widened tree -/

instance : Std.Irrefl Place.Before :=
  ⟨fun _ h => List.lt_irrefl _ h⟩

instance : Std.Antisymm Place.Before :=
  ⟨fun _ _ h h' => absurd h' (List.lt_asymm h)⟩

theorem Selector.UpThenDown.tail {segment : Segment} {rest : List Segment}
    (h : (Selector.mk (segment :: rest)).UpThenDown) : (Selector.mk rest).UpThenDown := by
  cases hdescends : segment.descends with
  | false =>
    intro seg hseg
    refine h seg ?_
    rw [List.dropWhile_cons_of_pos (by simp [hdescends])]
    exact hseg
  | true =>
    intro seg hseg
    refine h seg ?_
    rw [List.dropWhile_cons_of_neg (by simp [hdescends])]
    exact List.mem_cons_of_mem segment ((List.dropWhile_sublist _).mem hseg)

/-- From a wildcard on, all are names and wildcards. -/
theorem Selector.UpThenDown.descends {pattern : String} {rest : List Segment}
    (h : (Selector.mk (.wildcard pattern :: rest)).UpThenDown) :
    ∀ seg ∈ .wildcard pattern :: rest, seg.descends := by
  intro seg hseg
  refine h seg ?_
  rw [List.dropWhile_cons_of_neg (by simp [Segment.descends])]
  exact hseg

namespace Segment

variable {t t' : Tree} {showRoot : Option Place} {p : Place}

/-- No directory is new on the way to what names and wildcards stand for, unless it is where they
start. -/
theorem isDir_of_widened (hw : t.WellFormed) {segments : List Segment}
    (hplain : ∀ seg ∈ segments, seg.Plain) (hdown : ∀ seg ∈ segments, seg.descends) (hp : p.Plain)
    (hwide : t.Widened
      (MadeKey (named t Layout.metaName.text showRoot segments p)) t') {ns : List Name}
    (hlen : ns.length < segments.length)
    (hns : ∀ n ∈ ns, '\\' ∉ n.chars ∧ n.text ≠ Layout.metaName.text) (hne : ns ≠ [])
    (h : t'.isDir (p.down ns).path = true) : t.isDir (p.down ns).path = true := by
  rcases hwide.made (Tree.isDir_iff.1 h) with hold | ⟨dir, hkey⟩ | ⟨q, hq, hkey⟩
  · exact Tree.isDir_iff.2 hold
  · obtain ⟨front, n, rfl⟩ := (List.eq_nil_or_concat ns).resolve_left hne
    obtain ⟨hn, hvisible⟩ := hns n (by simp)
    have hentry : p.down (front.concat n) = .entry (p.down front) n := by
      simp [Place.down]
    rw [hentry] at hkey
    exact absurd (congrArg Name.text (Place.eq_metaName_of_key hn hkey)) hvisible
  · -- what they stand for lies one name deeper for each of them
    obtain ⟨ms, rfl, hlength, hms⟩ := exists_down_of_mem_named hw hplain hdown hq
    have hsame := Place.down_injective (Place.key_injective (hp.down hms)
      (hp.down fun n hn => (hns n hn).1) hkey)
    rw [← hsame, hlength] at hlen
    exact absurd hlen (lt_irrefl _)

/-- If they do not end in a wildcard, segments stand for the same in a tree that is widened by
nothing but what they stand for and directories for metadata. -/
theorem named_of_widened (hw : t.WellFormed) (hw' : t'.WellFormed)
    (hshow : ∀ place ∈ showRoot, place.Plain) : ∀ {segments : List Segment} {p : Place},
      (∀ seg ∈ segments, seg.Plain) → (Selector.mk segments).UpThenDown →
      .name Layout.metaName.text ∉ segments →
      (∀ pattern, segments.getLast? ≠ some (.wildcard pattern)) → p.Plain →
      named t Layout.metaName.text showRoot segments p ≠ [] →
      t.Widened (MadeKey (named t Layout.metaName.text showRoot segments p)) t' →
        named t' Layout.metaName.text showRoot segments p =
          named t Layout.metaName.text showRoot segments p
  | [], _, _, _, _, _, _, _, _ => rfl
  | segment :: rest, p, hplain, hshape, hvisible, hlast, hp, hne, hwide => by
    obtain ⟨hfirst, hplainRest⟩ := List.forall_mem_cons.1 hplain
    have hlastRest : ∀ pattern, rest.getLast? ≠ some (.wildcard pattern) := getLast?_ne_of_cons hlast
    have ih : ∀ {r : Place}, r.Plain → named t Layout.metaName.text showRoot rest r ≠ [] →
        t.Widened (MadeKey (named t Layout.metaName.text showRoot rest r)) t' →
          named t' Layout.metaName.text showRoot rest r =
            named t Layout.metaName.text showRoot rest r := fun hr hne hwide =>
      named_of_widened hw hw' hshow hplainRest hshape.tail
        (fun h => hvisible (List.mem_cons_of_mem segment h)) hlastRest hr hne hwide
    cases segment with
    | fileRoot => exact ih Place.plain_root hne hwide
    | showRoot =>
      cases showRoot with
      | none => rfl
      | some place =>
        rw [named_showRoot] at hne hwide ⊢
        rw [named_showRoot]
        exact ih (hshow place rfl) hne hwide
    | up levels => exact ih (hp.of_mem_upward (upBy_mem_upward levels p)) hne hwide
    | name text =>
      obtain ⟨hname, hchars⟩ := hfirst
      rw [named_name hname] at hne hwide ⊢
      rw [named_name hname]
      exact ih (r := .entry p ⟨text, hname⟩) (hp.entry hchars) hne hwide
    | wildcard pattern =>
      have hdown := hshape.descends
      have hdir : t.isDir p.path = true := by
        rw [named] at hne
        by_contra hnot
        rw [if_neg hnot] at hne
        exact hne rfl
      refine (pairwise_named hw' hplain hdown).eq_of_mem_iff (pairwise_named hw hplain hdown)
        fun q => ⟨mem_named_of_dirs hw' hw hplain hdown hvisible hlast ?_,
          mem_named_of_dirs hw hw' hplain hdown hvisible hlast ?_⟩
      · intro ns hlen hns h
        by_cases hnil : ns = []
        · subst hnil
          exact hdir
        · exact isDir_of_widened hw hplain hdown hp hwide hlen hns hnil h
      · exact fun ns _ _ h => Tree.isDir_iff.2 (hwide.kept (Tree.isDir_iff.1 h))

/-- So they do if they end in a wildcard, and nothing is made when all that they stand for is there
already. -/
theorem named_of_made (hw : t.WellFormed) (hw' : t'.WellFormed)
    (hshow : ∀ place ∈ showRoot, place.Plain) {segments : List Segment}
    (hplain : ∀ seg ∈ segments, seg.Plain) (hshape : (Selector.mk segments).UpThenDown)
    (hvisible : .name Layout.metaName.text ∉ segments) (hp : p.Plain)
    (hwide : t.Widened (MadeKey (named t Layout.metaName.text showRoot segments p)) t')
    (hidle : (∀ q ∈ named t Layout.metaName.text showRoot segments p,
      t.present q.path = true) → t' = t) :
    named t' Layout.metaName.text showRoot segments p =
      named t Layout.metaName.text showRoot segments p := by
  by_cases hthere : ∀ q ∈ named t Layout.metaName.text showRoot segments p,
      t.present q.path = true
  · rw [hidle hthere]
  · refine named_of_widened hw hw' hshow hplain hshape hvisible (fun pattern hlast => ?_) hp
      (fun hnil => ?_) hwide
    · exact hthere fun q hq => present_of_mem_named hw hshow hplain hlast hp hq
    · rw [hnil] at hthere
      exact hthere fun q hq => by cases hq

end Segment

end ShowTree
