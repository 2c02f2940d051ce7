/-
ShowTree.Proofs.Session.Created — what has become of an object that was made.

An object is made empty, then met, then its prototype is chosen (`Chosen`), and then it is linked
to it. Nothing that is met before the choice gives it a prototype already, unless something was
met at its place before (`triple_meetPath_made`). So if all of this succeeds, the object and the
chosen prototype are linked to each other, once, and the tree knows of it; or nothing was chosen,
and then the object has no prototype (`triple_createObject_tidy`).
-/
import Mathlib.Data.List.Nodup
import ShowTree.Proofs.Prototype.Listing
import ShowTree.Proofs.Prototype.Tidy
import ShowTree.Proofs.Session.Frame

namespace ShowTree

/-! ## 1. Choosing a prototype -/

/-- The prototype that is chosen for an entry of a directory: what is found by the name that is
asked for, or in a show what fits the entry, if anything does. -/
inductive Chosen (dir : Place) (name : Name) (c : Cache) (w : Watched) :
    Option String → Option Path → Prop
  | named {text : String} {path : Path}
    (found : ((Cache.findProto dir text : Work (StateM Watched) Path).run.run c).run w =
      ((.ok path, c), w)) : Chosen dir name c w (some text) (some path)
  | fitting {path : Path} (inside : (c.showAt (.entry dir name)).isSome)
    (found : ((Cache.findProtoFor dir name.text : Work (StateM Watched) Path).run.run c).run w =
      ((.ok path, c), w)) : Chosen dir name c w none (some path)
  | lacking (inside : (c.showAt (.entry dir name)).isSome)
    (missing : ((Cache.findProtoFor dir name.text : Work (StateM Watched) Path).run.run c).run w =
      ((.error (.noProto name.text), c), w)) : Chosen dir name c w none none
  | outside (h : c.showAt (.entry dir name) = none) : Chosen dir name c w none none

section Choosing

variable {dir : Place} {name : Name} {c₀ : Cache} {w₀ : Watched}

/-- What is found by the name that is asked for. -/
theorem triple_chooseProto_named (hgrown : Grown c₀.nodes) (hlayout : c₀.layout = .default)
    (hdir : (c₀.node? dir).isSome) {text : String} (htext : IsName text) :
    Triple (fun c w => c = c₀ ∧ w = w₀) (Session.chooseProto (.entry dir name) (some text))
      (fun found c w => (c = c₀ ∧ w = w₀) ∧ Chosen dir name c₀ w₀ (some text) found ∧
        ∀ path ∈ found, ∃ q : Place, q.path = path)
      (fun _ c w => c = c₀ ∧ w = w₀) := by
  refine Triple.map ?_
  rintro c w ⟨rfl, rfl⟩
  have hrun := truthful_watched.run_findProto (s := w) hgrown hlayout hdir text
  rw [show (Place.entry dir name).up = dir from rfl, hrun]
  cases hnearest : c.nearest? w.tree dir text with
  | none => exact ⟨rfl, rfl⟩
  | some level =>
    rw [hnearest] at hrun
    refine ⟨⟨rfl, rfl⟩, .named hrun, fun path hpath => ?_⟩
    rw [← Option.some.inj hpath]
    exact ⟨.entry level.protoDir ⟨text, htext⟩, rfl⟩

/-- What fits an entry of a directory that belongs to a show. -/
theorem triple_findProtoFor?_inside (hgrown : Grown c₀.nodes) (hlayout : c₀.layout = .default)
    (hdir : (c₀.node? dir).isSome) (hinside : (c₀.showAt (.entry dir name)).isSome) :
    Triple (fun c w => c = c₀ ∧ w = w₀) (Cache.findProtoFor? dir name.text)
      (fun found c w => (c = c₀ ∧ w = w₀) ∧ Chosen dir name c₀ w₀ none found ∧
        ∀ path ∈ found, ∃ q : Place, q.path = path)
      (fun _ c w => c = c₀ ∧ w = w₀) := by
  rintro c w ⟨rfl, rfl⟩
  obtain ⟨found, hrun, hsome, -⟩ :=
    truthful_watched.run_findProtoFor? (s := w) hgrown hlayout hdir name
  rw [hrun]
  cases found with
  | none =>
    refine ⟨⟨rfl, rfl⟩, .lacking hinside ?_, fun _ hpath => by cases hpath⟩
    rw [Cache.findProtoFor, run_bind, hrun]
    rfl
  | some path =>
    refine ⟨⟨rfl, rfl⟩, .fitting hinside ?_, ?_⟩
    · rw [Cache.findProtoFor, run_bind, hrun]
      rfl
    · rintro _ ⟨rfl⟩
      obtain ⟨level, proto, -, hpath⟩ := (hsome path).1 rfl
      exact ⟨_, hpath.symm⟩

/-- Choosing a prototype changes nothing, and what is chosen is the path of a place. -/
theorem triple_chooseProto (hgrown : Grown c₀.nodes) (hlayout : c₀.layout = .default)
    (hmet : (c₀.node? (.entry dir name)).isSome)
    (hname : (c₀.nodeAt (.entry dir name)).stat.name = name.text) {proto : Option String}
    (hproto : ∀ text ∈ proto, IsName text) :
    Triple (fun c w => c = c₀ ∧ w = w₀) (Session.chooseProto (.entry dir name) proto)
      (fun found c w => (c = c₀ ∧ w = w₀) ∧ Chosen dir name c₀ w₀ proto found ∧
        ∀ path ∈ found, ∃ q : Place, q.path = path)
      (fun _ c w => c = c₀ ∧ w = w₀) := by
  have hdir : (c₀.node? dir).isSome :=
    hgrown.met_of_mem_upward hmet (List.mem_cons_of_mem _ dir.self_mem_upward)
  cases proto with
  | some text => exact triple_chooseProto_named hgrown hlayout hdir (hproto text rfl)
  | none =>
    refine Triple.get_bind ?_
    split
    · rename_i hinside
      refine Triple.get_bind ?_
      rw [hname]
      exact triple_findProtoFor?_inside hgrown hlayout hdir hinside
    · rename_i houtside
      refine Triple.pure ?_
      rintro c w ⟨rfl, rfl⟩
      exact ⟨⟨rfl, rfl⟩, .outside (Option.not_isSome_iff_eq_none.1 houtside), fun _ hpath => by
        cases hpath⟩

end Choosing

/-! ## 2. Making it and meeting it -/

/-- Nothing that is made is a record. -/
theorem Tree.recordOf_made {t : Tree} {kind : ObjectKind} {p : Place} {isDir : Bool}
    (h : t.get? (p.recordPlace isDir).path.key = some kind.entry) (r : Record) :
    t.recordOf .default p.path isDir ≠ .ok r := by
  intro hr
  have hentry : t.entry? (Layout.default.recordPath p.path isDir) = some kind.entry := by
    rw [Place.recordPath_path]
    exact h
  have hnone : kind.entry.record? = none := by
    cases kind with
    | dir => rfl
    | file => exact (by decide : Record.decode? .empty = none)
  rcases recordOf_cases hr with ⟨habsent, -⟩ | ⟨e, he, hrecord⟩
  · rw [hentry] at habsent
    cases habsent
  · rw [hentry] at he
    rw [← Option.some.inj he, hnone] at hrecord
    cases hrecord

/-- Making an empty object leaves records tidy. -/
theorem Records.put {isDir : Bool} {targets : List Path} {c : Cache} {t t' : Tree}
    (h : Records isDir targets (fun _ => False) c t) {kind : ObjectKind} {key : String}
    (hput : ∀ k, t'.get? k = if key = k then some kind.entry else t.get? k) :
    Records isDir targets (fun _ => False) c t' := by
  have hrecord : ∀ {p : Place} {b : Bool} {r : Record},
      t'.recordOf .default p.path b = .ok r → t.recordOf .default p.path b = .ok r := by
    intro p b r hr
    have hget := hput (p.recordPlace b).path.key
    split at hget
    · exact absurd hr (Tree.recordOf_made hget r)
    · rwa [Tree.recordOf_congr hget] at hr
  exact
    { met := h.met
      kept := fun p b r hp hr => h.kept p b r hp (hrecord hr)
      fresh := fun p hp htarget hnone r hr => h.fresh p hp htarget hnone r (hrecord hr)
      recorded := fun _ => False.elim }

section Making

variable {kind : ObjectKind} {targets : List Path}

theorem triple_makeEmpty_tidy {isDir : Bool} (c₀ : Cache) (p : Path) :
    Triple (fun c w => Tidy isDir targets (fun _ => False) c w ∧ c = c₀) (Session.makeEmpty kind p)
      (fun _ c w => (Tidy isDir targets (fun _ => False) c w ∧ c = c₀) ∧
        w.tree.get? p.key = some kind.entry)
      (fun _ => Tidy isDir targets fun _ => False) := by
  refine triple_makeEmpty_of_change (fun {c w t} hi happly => ?_) fun e hi =>
    ⟨hi.1.layout, hi.1.grown, hi.1.sound, hi.1.records⟩
  obtain ⟨h, hsame⟩ := hi
  have hput := ObjectKind.get?_of_change happly
  refine ⟨⟨⟨h.layout, h.grown, h.sound, fun hplain => (h.records hplain).put hput⟩, hsame⟩, ?_⟩
  rw [Watched.granted, hput, if_pos rfl]

/-- The object at a place has no prototype if it has been met, and the tree knows that. -/
def Bare (c : Cache) (t : Tree) (p : Place) : Prop :=
  ∀ n, c.node? p = some n →
    n.record.proto = none ∧ t.recordOf .default p.path n.stat.isDir = .ok n.record

/-- An object that was made is met where it was made, and a target is bare if it was not met
before. -/
theorem triple_meetPath_made {p : Place} (hp : p.Plain) {c₀ : Cache} {w₀ : Watched}
    (h : Tidy kind.entry.isDir targets (fun _ => False) c₀ w₀)
    (hmade : w₀.tree.get? p.path.key = some kind.entry) :
    Triple (fun c w => c = c₀ ∧ w = w₀) (Cache.meetPath p.path)
      (fun place c w => place = p ∧ (c.node? p).isSome ∧
        Tidy kind.entry.isDir targets (fun _ => False) c w ∧
        (p.path ∈ targets → c₀.node? p = none → c.Plain → Bare c w.tree p))
      (fun _ => Tidy kind.entry.isDir targets fun _ => False) := by
  have hkind : ∀ {st}, w₀.tree.stat p.path = .ok st → st.isDir = kind.entry.isDir := by
    intro st hstat
    obtain ⟨st', hstat', hdir⟩ := Tree.stat_eq_of_get? hmade
    rw [hstat] at hstat'
    exact Except.ok.inj hstat' ▸ hdir
  have hcalm : Calm (fun p st => w₀.tree.stat p = .ok st)
      (fun p b r => w₀.tree.recordOf .default p b = .ok r)
      fun c w => w = w₀ ∧ Tidy kind.entry.isDir targets (fun _ => False) c w₀ ∧
        (p.path ∈ targets → c₀.node? p = none → c.Plain → Bare c w₀.tree p) := by
    refine truthful_watched.calm (fun _ h => h.1.layout) fun c q st r h hnew hdir hstat hread => ?_
    refine ⟨((calm_tidy w₀).add c w₀ q st r ⟨rfl, h.1⟩ hnew hdir hstat hread).2,
      fun htarget hunmet hplain n hn => ?_⟩
    replace hplain := (Cache.plain_of_add hplain).1
    rcases Cache.node?_of_add hn with hold | ⟨-, rfl, rfl, rfl⟩
    · exact h.2 htarget hunmet hplain n hold
    · exact ⟨(h.1.records hplain).fresh q hp htarget hnew _ (hkind hstat ▸ hread), hread⟩
  refine (hcalm.meetPath p.path).imp ?_ ?_ ?_
  · rintro c w ⟨rfl, rfl⟩
    refine ⟨rfl, h, fun _ hunmet _ n hn => ?_⟩
    rw [hunmet] at hn
    cases hn
  · rintro place c w ⟨⟨rfl, htidy, hbare⟩, hmet, hplace⟩
    rw [Place.toPlace_path] at hplace
    obtain rfl := Except.ok.inj hplace
    exact ⟨rfl, hmet, htidy, hbare⟩
  · rintro e c w ⟨rfl, htidy, -⟩
    exact htidy

/-- Making an object and meeting it. -/
theorem triple_makeEmpty_meetPath {p : Place} (hp : p.Plain) {c₀ : Cache} {w₀ : Watched}
    (h : Tidy kind.entry.isDir targets (fun _ => False) c₀ w₀) :
    Triple (fun c w => c = c₀ ∧ w = w₀)
      (do
        Session.makeEmpty kind p.path
        Cache.meetPath p.path : Work (StateM Watched) Place)
      (fun place c w => place = p ∧ (c.node? p).isSome ∧
        Tidy kind.entry.isDir targets (fun _ => False) c w ∧
        (p.path ∈ targets → c₀.node? p = none → c.Plain → Bare c w.tree p))
      (fun _ => Tidy kind.entry.isDir targets fun _ => False) := by
  refine Triple.bind ((triple_makeEmpty_tidy c₀ _).pre ?_) fun _ => ?_
  · rintro c w ⟨rfl, rfl⟩
    exact ⟨h, rfl⟩
  · refine Triple.of_forall fun c w hi => ?_
    obtain ⟨⟨htidy, rfl⟩, hmade⟩ := hi
    exact triple_meetPath_made hp htidy hmade

theorem Tidy.stat_name {isDir : Bool} {recorded : Place → Prop} {dir : Place} {name : Name}
    {c : Cache} {w : Watched} (h : Tidy isDir targets recorded c w)
    (hp : (Place.entry dir name).Plain) (hmet : (c.node? (.entry dir name)).isSome) :
    (c.nodeAt (.entry dir name)).stat.name = name.text := by
  obtain ⟨n, hn⟩ := Option.isSome_iff_exists.1 hmet
  obtain ⟨hmem, hplace⟩ := Cache.node?_eq_some hn
  rw [Cache.nodeAt, hn]
  exact (h.sound n hmem).name_eq hplace (hp name (by simp [Place.names]))

/-! ## 3. Linking it -/

/-- What has become of an entry of a directory that was made. Once it was met, a prototype was
chosen, and then the two were linked to each other, and the prototype lists it once; or none was
chosen, and then it has none, unless something has been moved away from its place before. -/
inductive Created (kind : ObjectKind) (proto : Option String) (dir : Place) (name : Name)
    (c : Cache) (w : Watched) (c' : Cache) (w' : Watched) : Prop
  | linked {c₁ : Cache} {w₁ : Watched} {q : Place} {own reference : String}
    (made : ((do
      Session.makeEmpty kind (Place.entry dir name).path
      Cache.meetPath (Place.entry dir name).path : Work (StateM Watched) Place).run.run c).run w =
        ((.ok (.entry dir name), c₁), w₁))
    (chosen : Chosen dir name c₁ w₁ proto (some q.path))
    (link : c'.Linked (.entry dir name) q own reference)
    (once : (c'.nodeAt q).record.instances.count own = 1)
    (followed : c'.Followed (.entry dir name) q ↔ c'.showAt (.entry dir name) = c'.showAt q)
    (recorded : Recorded c' w'.tree (.entry dir name) ∧ Recorded c' w'.tree q)
  | unlinked
    (made : ((do
      Session.makeEmpty kind (Place.entry dir name).path
      Cache.meetPath (Place.entry dir name).path : Work (StateM Watched) Place).run.run c).run w =
        ((.ok (.entry dir name), c'), w'))
    (chosen : Chosen dir name c' w' proto none)
    (met : (c'.node? (.entry dir name)).isSome)
    (bare : (Place.entry dir name).path.key ∉ (movedAway w.log).map Path.key →
      Bare c' w'.tree (.entry dir name))

/-- The object that was made is linked to the prototype that was chosen. -/
theorem triple_setProto_created {dir : Place} {name : Name} {proto : Option String}
    {c₀ c₁ : Cache} {w₀ w₁ : Watched} {q : Place}
    (hmade : ((do
      Session.makeEmpty kind (Place.entry dir name).path
      Cache.meetPath (Place.entry dir name).path : Work (StateM Watched) Place).run.run c₀).run w₀ =
        ((.ok (.entry dir name), c₁), w₁))
    (htidy : Tidy kind.entry.isDir targets (fun _ => False) c₁ w₁)
    (hchosen : Chosen dir name c₁ w₁ proto (some q.path)) :
    Triple (fun c w => c = c₁ ∧ w = w₁) (Cache.setProto (.entry dir name) q.path)
      (fun _ c w => Tidy kind.entry.isDir targets (fun _ => False) c w ∧
        (c.Plain → Created kind proto dir name c₀ w₀ c w))
      (fun _ => Tidy kind.entry.isDir targets fun _ => False) := by
  refine (((triple_setProto_tidy _ q.path).and (Cache.linked_of_setProto _ q.path)).imp ?_ ?_
    fun _ _ _ he => he.1)
  · rintro c w ⟨rfl, rfl⟩
    exact ⟨htidy, trivial⟩
  · rintro _ c w ⟨⟨q', hq', hrecorded⟩, q'', own, reference, hq'', hlinked⟩
    rw [Place.toPlace_path] at hq' hq''
    obtain rfl := Except.ok.inj hq'
    obtain rfl := Except.ok.inj hq''
    refine ⟨hrecorded.forget, fun hplain => ?_⟩
    have hrecords := hrecorded.records hplain
    obtain ⟨n, hn⟩ := Option.isSome_iff_exists.1 hlinked.namedProto.met
    have hnodup : (c.nodeAt q).record.instances.Nodup := by
      rw [Cache.nodeAt, hn]
      exact hrecords.met n (Cache.node?_eq_some hn).1
    exact .linked hmade hchosen hlinked (List.count_eq_one_of_mem hnodup hlinked.listed)
      hlinked.followed_iff ⟨hrecords.recorded _ (.inr rfl), hrecords.recorded _ (.inl rfl)⟩

/-- Making an object leaves records tidy. -/
theorem triple_createObject_tidy {dir : Place} {name : Name} (hp : (Place.entry dir name).Plain)
    {proto : Option String} (hproto : ∀ text ∈ proto, IsName text) {c₀ : Cache} {w₀ : Watched}
    (h : Tidy kind.entry.isDir targets (fun _ => False) c₀ w₀)
    (hnew : (Place.entry dir name).path.key ∉ (movedAway w₀.log).map Path.key →
      (Place.entry dir name).path ∈ targets ∧ c₀.node? (.entry dir name) = none) :
    Triple (fun c w => c = c₀ ∧ w = w₀)
      (Session.createObject kind proto (Place.entry dir name).path)
      (fun _ c w => Tidy kind.entry.isDir targets (fun _ => False) c w ∧
        (c.Plain → Created kind proto dir name c₀ w₀ c w))
      (fun _ => Tidy kind.entry.isDir targets fun _ => False) := by
  rw [Session.createObject, ← bind_assoc]
  refine Triple.bind (((triple_makeEmpty_meetPath hp h).and (Triple.result c₀ w₀)).imp ?_
    (fun _ _ _ hq => hq) fun _ _ _ he => he.1) fun place => ?_
  · exact fun c w hi => ⟨hi, hi⟩
  refine Triple.of_forall fun c₁ w₁ hi => ?_
  obtain ⟨⟨rfl, hmet, htidy, hbare⟩, hmade⟩ := hi
  refine Triple.bind ((triple_chooseProto htidy.grown htidy.layout hmet (htidy.stat_name hp hmet)
    hproto).imp (fun _ _ hi => hi) (fun _ _ _ hq => hq) ?_) fun found => ?_
  · rintro e c w ⟨rfl, rfl⟩
    exact htidy
  refine Triple.of_fact ?_
  rintro ⟨hchosen, hplaces⟩
  cases found with
  | none =>
    refine Triple.pure ?_
    rintro c w ⟨rfl, rfl⟩
    refine ⟨htidy, fun hplain => .unlinked hmade hchosen hmet fun hkey => ?_⟩
    obtain ⟨htarget, hunmet⟩ := hnew hkey
    exact hbare htarget hunmet hplain
  | some path =>
    obtain ⟨q, rfl⟩ := hplaces path rfl
    exact triple_setProto_created hmade htidy hchosen

end Making

end ShowTree
