/-
ShowTree.Proofs.Prototype.Following — where the references of a link lead.

The references of a link are written from the roots of the shows of the objects that they
name (`Names`), and read from the root of the show of the object that keeps them. So a
reference leads back to what it names exactly where the two shows are one
(`resolveReference_eq_iff`). What objects are named is not changed by anything that linking
does after it has asked (`Names.add`, `Names.edit`), and both references are kept in the end
(`linked_of_setProto`). Hence a link that has been made can be followed, from the object to
its prototype and back, exactly if both are in one show (`followed_iff_of_setProto`); the
root of a show that is linked to a prototype of the show around it keeps a reference that
leads elsewhere (`not_followed_nested`).
-/
import ShowTree.Proofs.Cache.Arena
import ShowTree.Proofs.Prototype.Reference
import ShowTree.Proofs.Record.Edited

namespace ShowTree

theorem Record.mem_addInstance (r : Record) (own : String) : own ∈ (r.addInstance own).instances := by
  rw [addInstance]
  split
  · rename_i hcontains
    exact List.contains_iff_mem.1 hcontains
  · simp

namespace Cache

/-! ## 1. Nodes through changes -/

theorem met_of_showAt {c : Cache} {p showRoot : Place} (h : c.showAt p = some showRoot) :
    (c.node? p).isSome := by
  cases hn : c.node? p with
  | some n => rfl
  | none =>
    rw [showAt, nodeAt, hn] at h
    cases h

theorem node?_editRecord (c : Cache) (p q : Place) (change : Record → Record) :
    (c.editRecord p change).node? q = (c.node? q).map fun n =>
      if q = p then { n with record := change n.record } else n := by
  have hsame : (fun n : Node => n.place == q) ∘ (fun n : Node =>
      if n.place = p then { n with record := change n.record } else n) = (·.place == q) := by
    funext n
    simp only [Function.comp_apply]
    split <;> rfl
  rw [node?, editRecord, List.find?_map, hsame, ← node?]
  cases hn : c.node? q with
  | none => rfl
  | some n => rw [Option.map_some, Option.map_some, (node?_eq_some hn).2]

theorem showAt_editRecord (c : Cache) (p q : Place) (change : Record → Record) :
    (c.editRecord p change).showAt q = c.showAt q := by
  rw [showAt, nodeAt, node?_editRecord, showAt, nodeAt]
  cases c.node? q with
  | none => rfl
  | some n =>
    rw [Option.map_some, Option.getD_some, Option.getD_some]
    split <;> rfl

/-- The record of an object that has been met, after it was changed. -/
theorem record_editRecord_self {c : Cache} {p : Place} {change : Record → Record}
    (h : (c.node? p).isSome) :
    ((c.editRecord p change).nodeAt p).record = change (c.nodeAt p).record := by
  obtain ⟨n, hn⟩ := Option.isSome_iff_exists.1 h
  rw [nodeAt, node?_editRecord, nodeAt, hn, Option.map_some, if_pos rfl]
  rfl

/-- What a change of records keeps is what it was, of every object. -/
theorem record_editRecord {α : Type} (field : Record → α) {c : Cache} {p q : Place}
    {change : Record → Record} (h : ∀ r, field (change r) = field r) :
    field ((c.editRecord p change).nodeAt q).record = field (c.nodeAt q).record := by
  rw [nodeAt, node?_editRecord, nodeAt]
  cases c.node? q with
  | none => rfl
  | some n =>
    rw [Option.map_some, Option.getD_some, Option.getD_some]
    split
    · exact h n.record
    · rfl

/-! ## 2. References that name -/

/-- The reference names the object at a place, from the root of that object's show. -/
def Names (c : Cache) (reference : String) (p : Place) : Prop :=
  (c.showAt p).bind (reference? · p.path) = some reference

namespace Names

variable {c : Cache} {reference : String} {p : Place}

theorem met (h : c.Names reference p) : (c.node? p).isSome := by
  obtain ⟨showRoot, hshow, -⟩ := Option.bind_eq_some_iff.1 h
  exact met_of_showAt hshow

theorem add {q : Place} {st : Stat} {r : Record} (h : c.Names reference p) :
    (c.add q st r).Names reference p := by
  rw [Names, showAt, nodeAt_add h.met]
  exact h

theorem edit {q : Place} {change : Record → Record} (h : c.Names reference p) :
    (c.editRecord q change).Names reference p := by
  rw [Names, showAt_editRecord]
  exact h

end Names

/-- A reference leads to the object that it names from objects of the same show, and from no
others. -/
theorem resolveReference_eq_iff {c : Cache} {reference : String} {p q : Place}
    (hp : (c.showAt p).isSome) (hq : c.Names reference q) :
    c.resolveReference reference p = .ok q ↔ c.showAt p = c.showAt q := by
  obtain ⟨showRoot, hshow⟩ := Option.isSome_iff_exists.1 hp
  obtain ⟨showRoot', hshow', href⟩ := Option.bind_eq_some_iff.1 hq
  constructor
  · intro h
    obtain ⟨ns, hnames, hreference⟩ := Place.reference?_path_eq_some_iff.1 href
    -- where the reference leads to from the other root
    have hother : reference? showRoot (showRoot.down ns).path = some reference :=
      Place.reference?_path_eq_some_iff.2 ⟨ns, Place.names_down _ _, hreference⟩
    rw [resolveReference_reference hshow hother] at h
    have hsame : showRoot.names ++ ns = showRoot'.names ++ ns := by
      rw [← Place.names_down, Except.ok.inj h, hnames]
    rw [hshow, hshow', Place.names_injective (List.append_cancel_right hsame)]
  · intro hsame
    rw [hsame, hshow'] at hshow
    exact resolveReference_reference (hsame.trans hshow') href

/-! ## 3. What linking leaves behind -/

variable {σ : Type} [FileSystem (StateM σ)]

/-- Asking for the reference to an object answers with one that names it. -/
theorem names_of_showRelative {J : Cache → Prop}
    (hadd : ∀ c p st r, J c → c.node? p = none → J (c.add p st r)) (p : Path) :
    Triple (fun c (_ : σ) => J c) (showRelative p)
      (fun reference c _ => J c ∧ ∃ q, p.toPlace = .ok q ∧ c.Names reference q)
      (fun _ _ _ => True) := by
  have hcalm := Calm.of_cache (σ := σ) fun c p st r h hnew _ => hadd c p st r h hnew
  refine Triple.bind ((hcalm.meetPath p).onSuccess fun _ _ _ hj => hj) fun place =>
    Triple.bind Triple.get fun c₀ => ?_
  cases hreference : (c₀.showAt place).bind (reference? · place.path) with
  | some reference =>
    refine Triple.pure ?_
    rintro c s ⟨rfl, hj, -, hplace⟩
    exact ⟨hj, place, hplace, hreference⟩
  | none => exact Triple.throw fun _ _ _ => trivial

theorem keeps_unlink {J : Cache → Prop}
    (hadd : ∀ c p st r, J c → c.node? p = none → J (c.add p st r))
    (hedit : ∀ c p change, J c → J (c.editRecord p change)) (p : Place) (own : String) :
    Keeps (fun c (_ : σ) => J c) (unlink p own) := by
  have hsteady : Steady fun c (_ : σ) => J c :=
    { meet := fun p =>
        (Calm.of_cache fun c p st r h hnew _ => hadd c p st r h hnew).keeps_meet p
      edit := fun p change _ =>
        Keeps.bind (Triple.modify fun c _ h => hedit c p change h) fun _ => keeps_save p }
  exact hsteady.unlink p own

/-- An object and its prototype keep these references to each other. -/
structure Linked (c : Cache) (p proto : Place) (own reference : String) : Prop where
  named : c.Names own p
  namedProto : c.Names reference proto
  kept : (c.nodeAt p).record.proto = some reference
  listed : own ∈ (c.nodeAt proto).record.instances

/-- A link that has been made consists of references that name its two objects. -/
theorem linked_of_setProto (p : Place) (proto : Path) :
    Triple (fun _ (_ : σ) => True) (setProto p proto)
      (fun _ c _ => ∃ q own reference, proto.toPlace = .ok q ∧ c.Linked p q own reference)
      (fun _ _ _ => True) := by
  refine Triple.bind (names_of_showRelative (J := fun _ => True) (fun _ _ _ _ h _ => h) proto)
    fun reference => ?_
  refine Triple.of_forall fun c₀ s₀ h₀ => ?_
  obtain ⟨-, q, hq, hnamed⟩ := h₀
  -- what is named stays named
  refine Triple.bind ((names_of_showRelative (J := (·.Names reference q))
    (fun _ _ _ _ h _ => h.add) p.path).pre ?_) fun own => ?_
  · rintro c s ⟨rfl, -⟩
    exact hnamed
  have hboth : Triple
      (fun c (_ : σ) => c.Names reference q ∧ ∃ i, p.path.toPlace = .ok i ∧ c.Names own i)
      (unlink p own) (fun _ c _ => c.Names reference q ∧ c.Names own p) (fun _ _ _ => True) := by
    have hkeeps := keeps_unlink (σ := σ) (J := fun c => c.Names reference q ∧ c.Names own p)
      (fun _ _ _ _ h _ => ⟨h.1.add, h.2.add⟩) (fun _ _ _ h => ⟨h.1.edit, h.2.edit⟩) p own
    refine (Triple.onSuccess hkeeps fun _ _ _ h => h).pre ?_
    rintro c s ⟨href, i, hi, hown⟩
    rw [Place.toPlace_path] at hi
    exact ⟨href, Except.ok.inj hi ▸ hown⟩
  refine Triple.bind hboth fun _ => ?_
  refine Triple.bind (Q := fun _ c _ => c.Names reference q ∧ c.Names own p ∧
    (c.nodeAt p).record.proto = some reference) (Triple.modify ?_) fun _ => ?_
  · rintro c s ⟨href, hown⟩
    exact ⟨href.edit, hown.edit, by rw [record_editRecord_self hown.met]⟩
  refine Triple.bind ((keeps_save p).onSuccess fun _ _ _ h => h) fun _ => ?_
  have hcalm : Calm (fun _ _ => True) (fun _ _ _ => True) fun c (_ : σ) =>
      c.Names reference q ∧ c.Names own p ∧ (c.nodeAt p).record.proto = some reference :=
    Calm.of_cache fun _ _ _ _ h _ _ =>
      ⟨h.1.add, h.2.1.add, by rw [nodeAt_add h.2.1.met]; exact h.2.2⟩
  refine Triple.bind ((hcalm.meetPath proto).onSuccess fun _ _ _ h => h) fun place => ?_
  refine Triple.bind (Q := fun _ c _ => c.Linked p q own reference) (Triple.modify ?_) fun _ => ?_
  · rintro c s ⟨⟨href, hown, hproto⟩, -, hplace⟩
    rw [hq] at hplace
    obtain rfl := Except.ok.inj hplace
    refine ⟨hown.edit, href.edit, ?_, ?_⟩
    · rw [record_editRecord (·.proto) (Record.proto_addInstance · own)]
      exact hproto
    · rw [record_editRecord_self href.met]
      exact Record.mem_addInstance _ own
  exact (keeps_save place).onSuccess fun _ _ _ h => ⟨q, own, reference, hq, h⟩

/-! ## 4. Following links -/

/-- The references that an object and its prototype keep lead from each to the other. -/
structure Followed (c : Cache) (p proto : Place) : Prop where
  forth : ∃ reference, (c.nodeAt p).record.proto = some reference ∧
    c.resolveReference reference p = .ok proto
  back : ∃ reference ∈ (c.nodeAt proto).record.instances,
    c.resolveReference reference proto = .ok p

theorem Linked.followed_iff {c : Cache} {p proto : Place} {own reference : String}
    (h : c.Linked p proto own reference) : c.Followed p proto ↔ c.showAt p = c.showAt proto := by
  have hp : (c.showAt p).isSome := by
    obtain ⟨showRoot, hshow, -⟩ := Option.bind_eq_some_iff.1 h.named
    rw [hshow, Option.isSome_some]
  have hproto : (c.showAt proto).isSome := by
    obtain ⟨showRoot, hshow, -⟩ := Option.bind_eq_some_iff.1 h.namedProto
    rw [hshow, Option.isSome_some]
  constructor
  · intro hfollowed
    obtain ⟨kept, hkept, hleads⟩ := hfollowed.forth
    rw [h.kept] at hkept
    obtain rfl := Option.some.inj hkept
    exact (resolveReference_eq_iff hp h.namedProto).1 hleads
  · intro hsame
    exact ⟨⟨reference, h.kept, (resolveReference_eq_iff hp h.namedProto).2 hsame⟩,
      own, h.listed, (resolveReference_eq_iff hproto h.named).2 hsame.symm⟩

/-- A link that has just been made can be followed both ways exactly if the object and its
prototype are in one show. -/
theorem followed_iff_of_setProto {c c' : Cache} {s s' : σ} {p : Place} {proto : Path}
    (h : ((setProto p proto : Work (StateM σ) Unit).run.run c).run s = ((.ok (), c'), s')) :
    ∃ q, proto.toPlace = .ok q ∧ (c'.Followed p q ↔ c'.showAt p = c'.showAt q) := by
  have hlinked := linked_of_setProto p proto c s trivial
  rw [h] at hlinked
  obtain ⟨q, own, reference, hq, hlinked⟩ := hlinked
  exact ⟨q, hq, hlinked.followed_iff⟩

/-! ## 5. A show in a show -/

/-- A show with a show in it, and a prototype and a file in the outer one. -/
def nestedShows : Tree :=
  .ofFiles [(⟨"/o/.meta/_"⟩, { Record.blank with isShowRoot := true }.encode.toUTF8),
    (⟨"/o/a"⟩, .empty), (⟨"/o/.meta/proto/P"⟩, .empty),
    (⟨"/o/n/.meta/_"⟩, { Record.blank with isShowRoot := true }.encode.toUTF8)]

def outerShow : Place :=
  .entry .root ⟨"o", by decide⟩

def outerProto : Place :=
  .entry (.entry outerShow.metaDir ⟨"proto", by decide⟩) ⟨"P", by decide⟩

/-- The cache of a session that has met one object of these shows. -/
def nestedCache (p : Place) : Cache :=
  ((((Deed.meet p.path).run : StateT Cache (StateM Tree) Unit).run ⟨.default, .root, []⟩).run
    nestedShows).1.2

/-- Linking that object to the prototype. -/
def linkNested (p : Place) : (Except Failure Unit × Cache) × Tree :=
  ((setProto p outerProto.path : Work (StateM Tree) Unit).run.run (nestedCache p)).run nestedShows

/-- The link of the file in the outer show can be followed. -/
theorem followed_iff_of_setProto_outer :
    ∃ c' t', linkNested (.entry outerShow ⟨"a", by decide⟩) = ((.ok (), c'), t') ∧
      c'.Followed (.entry outerShow ⟨"a", by decide⟩) outerProto := by
  obtain ⟨⟨⟩, hrun⟩ := exists_eq_ok (o := linkNested (.entry outerShow ⟨"a", by decide⟩))
    (by decide +kernel)
  obtain ⟨q, hq, hfollowed⟩ := followed_iff_of_setProto hrun
  rw [Place.toPlace_path] at hq
  obtain rfl := Except.ok.inj hq
  exact ⟨_, _, hrun, hfollowed.2 (by decide +kernel)⟩

/-- The root of the inner show is linked to the prototype, but this link leads elsewhere. -/
theorem not_followed_nested :
    ∃ p c' t', Reachable Tree (nestedCache p) ∧ ((nestedCache p).node? p).isSome = true ∧
      (∀ n ∈ (nestedCache p).nodes, n.record.instances.Nodup) ∧
      linkNested p = ((.ok (), c'), t') ∧ ¬ c'.Followed p outerProto := by
  obtain ⟨⟨⟩, hrun⟩ := exists_eq_ok (o := linkNested (.entry outerShow ⟨"n", by decide⟩))
    (by decide +kernel)
  refine ⟨.entry outerShow ⟨"n", by decide⟩, _, _, (Reachable.empty .default .root).deed _ _,
    by decide +kernel, by decide +kernel, hrun, fun hfollowed => ?_⟩
  have hastray : ∀ reference ∈ ((linkNested (.entry outerShow ⟨"n", by decide⟩)).1.2.nodeAt
      (.entry outerShow ⟨"n", by decide⟩)).record.proto,
      ((linkNested (.entry outerShow ⟨"n", by decide⟩)).1.2.resolveReference reference
        (.entry outerShow ⟨"n", by decide⟩)).toOption ≠ some outerProto := by
    decide +kernel
  obtain ⟨reference, hkept, hleads⟩ := hfollowed.forth
  exact hastray reference hkept (by rw [hleads]; rfl)

end Cache

end ShowTree
