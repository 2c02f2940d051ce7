/-
ShowTree.Proofs.Prototype.Links — what is true of links while they are made.

Linking writes three records one after the other, and after a failure the cache may be
ahead of the tree. So what is kept is said of all copies of a record, in the cache and in
the tree (`Copy`): whatever is listed in one copy as made from an object refers to that
object in all of its own copies (`Links`). Then of the tree alone it is true that an
object is listed where it refers to, and nowhere else (`Links.linked`). Reading keeps this
(`Links.add`), and so does saving at every moment of it (`Links.still`, `Links.stored`).
The record of a prototype can be changed in its list (`Links.drop`, `Links.enlist`), and
an object can be made to refer to another prototype while no copy lists it
(`Links.relink`).
-/
import ShowTree.Proofs.Cache.Arena
import ShowTree.Proofs.Prototype.Reference
import ShowTree.Proofs.Prototype.Standing

namespace ShowTree

/-! ## 1. Copies of records -/

/-- The cache or the tree has `r` as the record of the object at a place, as a directory or
not. -/
def Copy (c : Cache) (t : Tree) (p : Place) (isDir : Bool) (r : Record) : Prop :=
  (∃ n ∈ c.nodes, n.place = p ∧ n.stat.isDir = isDir ∧ n.record = r) ∨
    p.Plain ∧ t.recordOf .default p.path isDir = .ok r

/-- Some copy of a record lists this instance. -/
def Listed (c : Cache) (t : Tree) (listed : String) : Prop :=
  ∃ p isDir r, Copy c t p isDir r ∧ listed ∈ r.instances

/-- Every copy of the record of the object at a place refers to this prototype. -/
structure Refers (c : Cache) (t : Tree) (p : Place) (reference : String) : Prop where
  plain : p.Plain
  kept : ∃ isDir r, t.Fixed p isDir ∧ t.recordOf .default p.path isDir = .ok r ∧
    r.proto = some reference
  met : ∀ n ∈ c.nodes, n.place = p → n.record.proto = some reference

/-- What is listed as made from the object at a place refers to that object. -/
structure Answered (showRoot : Place) (c : Cache) (t : Tree) (p : Place) (isDir : Bool)
    (listed : String) : Prop where
  standing : t.Standing p
  kind : t.kind? p.path.key = some isDir
  refers : ∃ i reference, reference? showRoot i.path = some listed ∧
    reference? showRoot p.path = some reference ∧ Refers c t i reference

/-- What is true of links at any time. -/
structure Links (showRoot : Place) (c : Cache) (t : Tree) : Prop where
  grown : Grown c.nodes
  plain : c.Plain
  fixed : ∀ n ∈ c.nodes, t.Fixed n.place n.stat.isDir
  named : ∀ n ∈ c.nodes, n.record.proto ≠ some ""
  nodup : ∀ p isDir r, Copy c t p isDir r → r.instances.Nodup
  /-- Prototypes are there, and stay. -/
  standing : ∀ p isDir r reference, Copy c t p isDir r → r.proto = some reference →
    ∃ o, t.Standing o ∧ reference? showRoot o.path = some reference
  answered : ∀ p isDir r listed, Copy c t p isDir r → listed ∈ r.instances →
    Answered showRoot c t p isDir listed

/-! ## 2. What the tree alone says -/

namespace Tree

/-- The record of the object at a place. What is not there counts as a file. -/
def recordAt (t : Tree) (p : Place) : Except Failure Record :=
  t.recordOf .default p.path ((t.kind? p.path.key).getD false)

/-- No record in the tree refers to a prototype, or lists anything. -/
def Unlinked (t : Tree) : Prop :=
  ∀ (p : Place) isDir r, p.Plain → t.recordOf .default p.path isDir = .ok r →
    r.proto = none ∧ r.instances = []

/-- Whether an object is no record with a prototype or instances. -/
def noLinks : Entry → Bool
  | .dir => true
  | .file content =>
    match Record.decode? content with
    | some r => r.proto.isNone && r.instances.isEmpty
    | none => true

theorem unlinked_of_noLinks {t : Tree} (h : t.entries.entries.all (noLinks ·.2) = true) :
    t.Unlinked := by
  intro p isDir r _ hr
  rcases recordOf_cases hr with ⟨-, rfl⟩ | ⟨e, he, hrecord⟩
  · exact ⟨rfl, rfl⟩
  · have hno := List.all_eq_true.1 h _ (Dictionary.mem_of_lookupEntry he)
    cases e with
    | dir => cases hrecord
    | file content => simpa [noLinks, show Record.decode? content = some r from hrecord] using hno

/-- The links in the records of a tree belong together. -/
structure Linked (showRoot : Place) (t : Tree) : Prop where
  /-- What is listed as made from an object refers to that object. -/
  answered : ∀ (q i : Place) r listed, q.Plain → t.recordAt q = .ok r →
    reference? showRoot i.path = some listed → listed ∈ r.instances →
    ∃ r' reference, t.recordAt i = .ok r' ∧ reference? showRoot q.path = some reference ∧
      r'.proto = some reference
  /-- Only objects of the show are listed. -/
  object : ∀ (q : Place) r listed, q.Plain → t.recordAt q = .ok r → listed ∈ r.instances →
    ∃ i : Place, reference? showRoot i.path = some listed
  /-- Nothing is listed in two places. -/
  single : ∀ (q q' : Place) r r' listed, q.Plain → q'.Plain → t.recordAt q = .ok r →
    t.recordAt q' = .ok r' → listed ∈ r.instances → listed ∈ r'.instances → q = q'
  nodup : ∀ (q : Place) r, q.Plain → t.recordAt q = .ok r → r.instances.Nodup

theorem Fixed.eq_getD {t : Tree} {p : Place} {isDir : Bool} (h : t.Fixed p isDir) :
    (t.kind? p.path.key).getD false = isDir := by
  rcases h with h | ⟨hnone, rfl, -⟩
  · rw [h]
    rfl
  · rw [hnone]
    rfl

end Tree

/-- What refers to a prototype does so in the tree. -/
theorem Refers.recordAt {c : Cache} {t : Tree} {p : Place} {reference : String}
    (h : Refers c t p reference) : ∃ r, t.recordAt p = .ok r ∧ r.proto = some reference := by
  obtain ⟨isDir, r, hfixed, hrecord, hproto⟩ := h.kept
  exact ⟨r, by rw [Tree.recordAt, hfixed.eq_getD, hrecord], hproto⟩

theorem Refers.unique {c : Cache} {t : Tree} {p : Place} {a b : String} (ha : Refers c t p a)
    (hb : Refers c t p b) : a = b := by
  obtain ⟨r, hr, hproto⟩ := ha.recordAt
  obtain ⟨r', hr', hproto'⟩ := hb.recordAt
  rw [hr] at hr'
  rw [← Except.ok.inj hr', hproto] at hproto'
  exact Option.some.inj hproto'

/-- What is met with the record that the tree has refers to what it referred to there. -/
theorem Refers.add {c : Cache} {t : Tree} {p q : Place} {reference : String} {st : Stat}
    {r : Record} (h : Refers c t q reference) (hstat : t.stat p.path = .ok st)
    (hread : t.recordOf .default p.path st.isDir = .ok r) :
    Refers (c.add p st r) t q reference := by
  refine ⟨h.plain, h.kept, fun n hn hplace => ?_⟩
  rcases List.mem_append.1 hn with hn | hn
  · exact h.met n hn hplace
  · obtain rfl := List.mem_singleton.1 hn
    obtain rfl : p = q := hplace
    obtain ⟨isDir, r', hkept, hrecord, hproto⟩ := h.kept
    rw [hkept.unique (.inl (Tree.kind?_eq_some_iff.2 ⟨st, hstat, rfl⟩)), hread] at hrecord
    exact Except.ok.inj hrecord ▸ hproto

namespace Links

variable {showRoot : Place} {c c' : Cache} {t t' : Tree}

/-- Of the tree alone it is true that an object is listed where it refers to. -/
theorem linked (h : Links showRoot c t) : t.Linked showRoot := by
  have hanswered : ∀ (q : Place) r listed, q.Plain → t.recordAt q = .ok r → listed ∈ r.instances →
      ∃ i reference, reference? showRoot i.path = some listed ∧
        reference? showRoot q.path = some reference ∧ Refers c t i reference :=
    fun q r listed hq hr hlisted => (h.answered q _ r listed (.inr ⟨hq, hr⟩) hlisted).refers
  refine ⟨?_, ?_, ?_, ?_⟩
  · intro q i r listed hq hr hi hlisted
    obtain ⟨i', reference, hi', hreference, hrefers⟩ := hanswered q r listed hq hr hlisted
    obtain rfl := Place.reference?_injective hi hi'
    obtain ⟨r', hr', hproto⟩ := hrefers.recordAt
    exact ⟨r', reference, hr', hreference, hproto⟩
  · intro q r listed hq hr hlisted
    obtain ⟨i, -, hi, -⟩ := hanswered q r listed hq hr hlisted
    exact ⟨i, hi⟩
  · intro q q' r r' listed hq hq' hr hr' hlisted hlisted'
    obtain ⟨i, reference, hi, hreference, hrefers⟩ := hanswered q r listed hq hr hlisted
    obtain ⟨i', reference', hi', hreference', hrefers'⟩ := hanswered q' r' listed hq' hr' hlisted'
    obtain rfl := Place.reference?_injective hi hi'
    rw [hrefers.unique hrefers'] at hreference
    exact Place.reference?_injective hreference hreference'
  · exact fun q r hq hr => h.nodup q _ r (.inr ⟨hq, hr⟩)

/-- A cache that has met nothing has only the copies of the tree. -/
theorem of_unlinked (h : t.Unlinked) (layout : Layout) (dir : Place) :
    Links showRoot ⟨layout, dir, []⟩ t := by
  have hcopy : ∀ p isDir r, Copy ⟨layout, dir, []⟩ t p isDir r →
      r.proto = none ∧ r.instances = [] := by
    rintro p isDir r (⟨n, hn, -⟩ | ⟨hp, hr⟩)
    · cases hn
    · exact h p isDir r hp hr
  refine ⟨.nil, by simp [Cache.Plain], by simp, by simp, ?_, ?_, ?_⟩
  · intro p isDir r hr
    rw [(hcopy p isDir r hr).2]
    exact List.nodup_nil
  · intro p isDir r reference hr hproto
    rw [(hcopy p isDir r hr).1] at hproto
    cases hproto
  · intro p isDir r listed hr hlisted
    rw [(hcopy p isDir r hr).2] at hlisted
    cases hlisted

/-! ## 3. Reading and saving -/

/-- Links are as before when there are no other copies than before, kinds last, and what
referred to something still does. -/
theorem of_copies (h : Links showRoot c t) (hgrown : Grown c'.nodes)
    (hcopy : ∀ {p isDir r}, Copy c' t' p isDir r → Copy c t p isDir r)
    (hfixed : ∀ (p : Place) isDir, p.Plain → t.Fixed p isDir → t'.Fixed p isDir)
    (hnode : ∀ n ∈ c'.nodes, n.place.Plain ∧ t.Fixed n.place n.stat.isDir ∧
      n.record.proto ≠ some "")
    (hrefers : ∀ {p reference}, Refers c t p reference → Refers c' t' p reference) :
    Links showRoot c' t' where
  grown := hgrown
  plain n hn := (hnode n hn).1
  fixed n hn := hfixed n.place n.stat.isDir (hnode n hn).1 (hnode n hn).2.1
  named n hn := (hnode n hn).2.2
  nodup p isDir r hr := h.nodup p isDir r (hcopy hr)
  standing p isDir r reference hr hproto := by
    obtain ⟨o, ho, hreference⟩ := h.standing p isDir r reference (hcopy hr) hproto
    exact ⟨o, ho.of_fixed hfixed, hreference⟩
  answered p isDir r listed hr hlisted := by
    have hanswered := h.answered p isDir r listed (hcopy hr) hlisted
    have hp := hanswered.standing
    refine ⟨hp.of_fixed hfixed, ?_, ?_⟩
    · exact (hfixed p isDir hp.plain (.inl hanswered.kind)).kind? (hp.lasts hanswered.kind)
    · obtain ⟨i, reference, hi, hreference, hrefer⟩ := hanswered.refers
      exact ⟨i, reference, hi, hreference, hrefers hrefer⟩

/-- What has just been met is as the tree has it. -/
theorem add (h : Links showRoot c t) {p : Place} {st : Stat} {r : Record} (hp : p.Plain)
    (hnew : c.node? p = none) (hdir : ∀ dir, p.dir? = some dir → (c.node? dir).isSome)
    (hstat : t.stat p.path = .ok st) (hread : t.recordOf .default p.path st.isDir = .ok r) :
    Links showRoot (c.add p st r) t := by
  have hfixed : t.Fixed p st.isDir := .inl (Tree.kind?_eq_some_iff.2 ⟨st, hstat, rfl⟩)
  refine h.of_copies (h.grown.add hnew hdir) ?_ (fun _ _ _ hfixed => hfixed) ?_ ?_
  · rintro q isDir r' (⟨n, hn, hcopied⟩ | hcopied)
    · rcases List.mem_append.1 hn with hn | hn
      · exact .inl ⟨n, hn, hcopied⟩
      · obtain rfl := List.mem_singleton.1 hn
        obtain ⟨rfl, rfl, rfl⟩ := hcopied
        exact .inr ⟨hp, hread⟩
    · exact .inr hcopied
  · intro n hn
    rcases List.mem_append.1 hn with hn | hn
    · exact ⟨h.plain n hn, h.fixed n hn, h.named n hn⟩
    · obtain rfl := List.mem_singleton.1 hn
      exact ⟨hp, hfixed, Tree.proto_ne_empty_of_recordOf hread⟩
  · exact fun hrefers => hrefers.add hstat hread

/-- A cache that starts anew has only the copies of the tree. -/
theorem reopen (h : Links showRoot c t) (dir : Place) : Links showRoot ⟨.default, dir, []⟩ t := by
  have hnone : ∀ {P : Node → Prop}, ∀ n ∈ (⟨.default, dir, []⟩ : Cache).nodes, P n := fun _ hn => by
    cases hn
  refine h.of_copies .nil ?_ (fun _ _ _ hfixed => hfixed) hnone
    fun hrefers => ⟨hrefers.plain, hrefers.kept, hnone⟩
  rintro p isDir r (⟨n, hn, -⟩ | hr)
  · cases hn
  · exact .inr hr

/-- A tree in which nothing happened to records and kinds is as good. -/
theorem still (h : Links showRoot c t) (hstill : Tree.Still t t') : Links showRoot c t' := by
  refine h.of_copies h.grown ?_ hstill.fixed
    (fun n hn => ⟨h.plain n hn, h.fixed n hn, h.named n hn⟩) ?_
  · rintro p isDir r (hmet | ⟨hp, hrecord⟩)
    · exact .inl hmet
    · exact .inr ⟨hp, hstill.record p isDir hp ▸ hrecord⟩
  · intro p reference hrefers
    obtain ⟨isDir, r, hfixed, hrecord, hproto⟩ := hrefers.kept
    have hp := hrefers.plain
    exact ⟨hp, ⟨isDir, r, hstill.fixed p isDir hp hfixed,
      (hstill.record p isDir hp).trans hrecord, hproto⟩, hrefers.met⟩

/-- A record that is saved was a copy before. -/
theorem stored (h : Links showRoot c t) {n : Node} (hn : n ∈ c.nodes)
    (hstored : Tree.Stored t t' n.place n.stat.isDir n.record) : Links showRoot c t' := by
  have hrecord : ∀ (p : Place) isDir, p.Plain → n.place = p ∧ n.stat.isDir = isDir ∧
      t'.recordOf .default p.path isDir = .ok n.record ∨
      t'.recordOf .default p.path isDir = t.recordOf .default p.path isDir := by
    intro p isDir hp
    by_cases hsame : n.place = p ∧ n.stat.isDir = isDir
    · obtain ⟨rfl, rfl⟩ := hsame
      exact .inl ⟨rfl, rfl, hstored.record⟩
    · exact .inr (hstored.others p isDir hp (Decidable.not_and_iff_not_or_not.1 hsame))
  refine h.of_copies h.grown ?_ hstored.fixed
    (fun m hm => ⟨h.plain m hm, h.fixed m hm, h.named m hm⟩) ?_
  · rintro p isDir r (hmet | ⟨hp, hr⟩)
    · exact .inl hmet
    · rcases hrecord p isDir hp with ⟨hplace, hdir, hsaved⟩ | hsame
      · rw [hsaved] at hr
        exact .inl ⟨n, hn, hplace, hdir, Except.ok.inj hr⟩
      · exact .inr ⟨hp, hsame ▸ hr⟩
  · intro p reference hrefers
    obtain ⟨isDir, r, hfixed, hr, hproto⟩ := hrefers.kept
    have hp := hrefers.plain
    refine ⟨hp, ?_, hrefers.met⟩
    rcases hrecord p isDir hp with ⟨hplace, -, hsaved⟩ | hsame
    · exact ⟨isDir, _, hstored.fixed p isDir hp hfixed, hsaved, hrefers.met n hn hplace⟩
    · exact ⟨isDir, r, hstored.fixed p isDir hp hfixed, hsame.trans hr, hproto⟩

end Links

/-! ## 4. Changing a record -/

theorem mem_editRecord {c : Cache} {p : Place} {change : Record → Record} {m : Node}
    (hm : m ∈ (c.editRecord p change).nodes) : ∃ n ∈ c.nodes, m.place = n.place ∧ m.stat = n.stat ∧
      (n.place = p ∧ m.record = change n.record ∨ n.place ≠ p ∧ m.record = n.record) := by
  obtain ⟨n, hn, rfl⟩ := List.mem_map.1 hm
  refine ⟨n, hn, ?_⟩
  by_cases hp : n.place = p
  · rw [if_pos hp]
    exact ⟨rfl, rfl, .inl ⟨hp, rfl⟩⟩
  · rw [if_neg hp]
    exact ⟨rfl, rfl, .inr ⟨hp, rfl⟩⟩

theorem met_editRecord {c : Cache} {p q : Place} {change : Record → Record}
    (h : (c.node? p).isSome) : ((c.editRecord q change).node? p).isSome := by
  obtain ⟨n, hn, hplace⟩ := Cache.node?_isSome_iff.1 h
  have hmem : p ∈ (c.editRecord q change).nodes.map Node.place := by
    rw [Grown.places_editRecord]
    exact List.mem_map.2 ⟨n, hn, hplace⟩
  obtain ⟨m, hm, hsame⟩ := List.mem_map.1 hmem
  exact Cache.node?_isSome_iff.2 ⟨m, hm, hsame⟩

/-- What is answered depends on the references to prototypes alone. -/
theorem Answered.edit {showRoot : Place} {c : Cache} {t : Tree} {p q : Place} {isDir : Bool}
    {listed : String} {change : Record → Record} (hproto : ∀ r, (change r).proto = r.proto)
    (h : Answered showRoot c t q isDir listed) :
    Answered showRoot (c.editRecord p change) t q isDir listed := by
  obtain ⟨i, reference, hi, hreference, hrefers⟩ := h.refers
  refine ⟨h.standing, h.kind, i, reference, hi, hreference, hrefers.plain, hrefers.kept, ?_⟩
  intro m hm hplace
  obtain ⟨n, hn, hsame, -, ⟨-, hrecord⟩ | ⟨-, hrecord⟩⟩ := mem_editRecord hm
  · rw [hrecord, hproto]
    exact hrefers.met n hn (hsame.symm.trans hplace)
  · rw [hrecord]
    exact hrefers.met n hn (hsame.symm.trans hplace)

namespace Links

variable {showRoot : Place} {c c' : Cache} {t t' : Tree}

/-- A record can be changed to one that refers to what stands and lists only what is
answered, as long as what is listed in other copies still is. -/
theorem edit (h : Links showRoot c t) {p : Place} {change : Record → Record}
    (hchange : Record.Proper change)
    (hproto : ∀ (r : Record) reference, (change r).proto = some reference →
      r.proto = some reference ∨ ∃ o, t.Standing o ∧ reference? showRoot o.path = some reference)
    (hlisted : ∀ n ∈ c.nodes, n.place = p → ∀ listed ∈ (change n.record).instances,
      Answered showRoot (c.editRecord p change) t p n.stat.isDir listed)
    (hkept : ∀ {q isDir listed}, Listed c t listed → Answered showRoot c t q isDir listed →
      Answered showRoot (c.editRecord p change) t q isDir listed) :
    Links showRoot (c.editRecord p change) t := by
  have hcopy : ∀ {q isDir r}, Copy (c.editRecord p change) t q isDir r → Copy c t q isDir r ∨
      ∃ n ∈ c.nodes, n.place = p ∧ q = p ∧ n.stat.isDir = isDir ∧ r = change n.record := by
    rintro q isDir r (⟨m, hm, rfl, rfl, rfl⟩ | hr)
    · obtain ⟨n, hn, hplace, hstat, ⟨hp, hrecord⟩ | ⟨-, hrecord⟩⟩ := mem_editRecord hm
      · exact .inr ⟨n, hn, hp, hplace.trans hp, by rw [hstat], hrecord⟩
      · exact .inl (.inl ⟨n, hn, hplace.symm, by rw [hstat], hrecord.symm⟩)
    · exact .inl (.inr hr)
  refine ⟨h.grown.edit hchange.mark, ?_, ?_, ?_, ?_, ?_, ?_⟩
  · intro m hm
    obtain ⟨n, hn, hplace, -⟩ := mem_editRecord hm
    exact hplace ▸ h.plain n hn
  · intro m hm
    obtain ⟨n, hn, hplace, hstat, -⟩ := mem_editRecord hm
    rw [hplace, hstat]
    exact h.fixed n hn
  · intro m hm
    obtain ⟨n, hn, -, -, ⟨-, hrecord⟩ | ⟨-, hrecord⟩⟩ := mem_editRecord hm
    · exact hrecord ▸ hchange.proto n.record (h.named n hn)
    · exact hrecord ▸ h.named n hn
  · intro q isDir r hr
    rcases hcopy hr with hr | ⟨n, hn, hp, -, -, rfl⟩
    · exact h.nodup q isDir r hr
    · exact hchange.nodup n.record (h.nodup p _ n.record (.inl ⟨n, hn, hp, rfl, rfl⟩))
  · intro q isDir r reference hr hreference
    rcases hcopy hr with hr | ⟨n, hn, hp, -, -, rfl⟩
    · exact h.standing q isDir r reference hr hreference
    · rcases hproto n.record reference hreference with hold | hnew
      · exact h.standing p _ n.record reference (.inl ⟨n, hn, hp, rfl, rfl⟩) hold
      · exact hnew
  · intro q isDir r listed hr hlist
    rcases hcopy hr with hr | ⟨n, hn, hp, rfl, rfl, rfl⟩
    · exact hkept ⟨q, isDir, r, hr, hlist⟩ (h.answered q isDir r listed hr hlist)
    · exact hlisted n hn hp listed hlist

/-- An instance can be taken off a list. -/
theorem drop (h : Links showRoot c t) (p : Place) (own : String) :
    Links showRoot (c.editRecord p (·.removeInstance own)) t := by
  refine h.edit (Record.proper_removeInstance own) (fun _ _ hr => .inl hr) ?_ ?_
  · intro n hn hp listed hlisted
    have hold := h.answered p _ n.record listed (.inl ⟨n, hn, hp, rfl, rfl⟩)
      (List.mem_filter.1 hlisted).1
    exact hold.edit fun _ => rfl
  · exact fun _ hold => hold.edit fun _ => rfl

/-- What refers to an object can be put on its list. -/
theorem enlist (h : Links showRoot c t) {p : Place} {own : String}
    (hown : ∀ n ∈ c.nodes, n.place = p → Answered showRoot c t p n.stat.isDir own) :
    Links showRoot (c.editRecord p (·.addInstance own)) t := by
  have hproto : ∀ r : Record, (r.addInstance own).proto = r.proto := by
    intro r
    unfold Record.addInstance
    split <;> rfl
  have hmem : ∀ (r : Record) listed, listed ∈ (r.addInstance own).instances →
      listed ∈ r.instances ∨ listed = own := by
    intro r listed hlisted
    unfold Record.addInstance at hlisted
    split at hlisted
    · exact .inl hlisted
    · rcases List.mem_append.1 hlisted with hold | hnew
      · exact .inl hold
      · exact .inr (List.mem_singleton.1 hnew)
  refine h.edit (Record.proper_addInstance own) (fun r _ hr => .inl (hproto r ▸ hr)) ?_ ?_
  · intro n hn hp listed hlisted
    rcases hmem n.record listed hlisted with hold | rfl
    · exact (h.answered p _ n.record listed (.inl ⟨n, hn, hp, rfl, rfl⟩) hold).edit hproto
    · exact (hown n hn hp).edit hproto
  · exact fun _ hold => hold.edit hproto

/-- An object that no copy lists can be made to refer to anything that stands. -/
theorem relink (h : Links showRoot c t) {i o : Place} {own reference : String}
    (hown : reference? showRoot i.path = some own) (hfree : ¬ Listed c t own) (ho : t.Standing o)
    (hreference : reference? showRoot o.path = some reference) :
    Links showRoot (c.editRecord i fun r => { r with proto := some reference, instances := [] })
      t := by
  refine h.edit (Record.proper_link (reference?_ne_empty hreference)) ?_ ?_ ?_
  · intro r new hnew
    obtain rfl := Option.some.inj hnew
    exact .inr ⟨o, ho, hreference⟩
  · intro n hn hp listed hlisted
    cases hlisted
  · intro q isDir listed hlisted hold
    obtain ⟨j, old, hj, hold', hrefers⟩ := hold.refers
    refine ⟨hold.standing, hold.kind, j, old, hj, hold', hrefers.plain, hrefers.kept, ?_⟩
    intro m hm hplace
    obtain ⟨n, hn, hsame, -, ⟨hi, -⟩ | ⟨-, hrecord⟩⟩ := mem_editRecord hm
    · -- then what is listed is the object itself
      obtain rfl : i = j := hi.symm.trans (hsame.symm.trans hplace)
      rw [hown] at hj
      exact absurd (Option.some.inj hj ▸ hlisted) hfree
    · rw [hrecord]
      exact hrefers.met n hn (hsame.symm.trans hplace)

/-! ## 5. What is known between two changes -/

/-- What has been met stands if none of it will be moved away. -/
theorem standing_of_met (h : Links showRoot c t) {p : Place} (hmet : (c.node? p).isSome)
    (hlasts : ∀ n ∈ c.nodes, n.place ∈ p.upward → n.place.Lasts n.stat.isDir) : t.Standing p := by
  have hnode : ∀ a ∈ p.upward, ∃ n ∈ c.nodes, n.place = a :=
    fun a ha => Cache.node?_isSome_iff.1 (h.grown.met_of_mem_upward hmet ha)
  refine ⟨?_, fun a ha => ?_⟩
  · obtain ⟨n, hn, rfl⟩ := hnode p p.self_mem_upward
    exact h.plain n hn
  · obtain ⟨n, hn, rfl⟩ := hnode a ha
    exact ⟨_, (h.fixed n hn).kind? (hlasts n hn ha), hlasts n hn ha⟩

theorem not_listed_of_proto_eq_none (h : Links showRoot c t) {n : Node} (hn : n ∈ c.nodes)
    {own : String} (hown : reference? showRoot n.place.path = some own)
    (hproto : n.record.proto = none) : ¬ Listed c t own := by
  rintro ⟨p, isDir, r, hr, hlisted⟩
  obtain ⟨i, reference, hi, -, hrefers⟩ := (h.answered p isDir r own hr hlisted).refers
  have hmet := hrefers.met n hn (Place.reference?_injective hown hi)
  rw [hproto] at hmet
  cases hmet

/-- An object that was taken off the list it was on, which is saved, is on no list. -/
theorem not_listed_of_stored (h : Links showRoot c t) {n o : Node} (hn : n ∈ c.nodes)
    {own old : String} (hown : reference? showRoot n.place.path = some own)
    (hproto : n.record.proto = some old) (ho : o ∈ c.nodes)
    (hold : reference? showRoot o.place.path = some old) (hoff : own ∉ o.record.instances)
    (hstored : Tree.Stored t t' o.place o.stat.isDir o.record) : ¬ Listed c t' own := by
  have hlinks := h.stored ho hstored
  rintro ⟨p, isDir, r, hr, hlisted⟩
  have hanswered := hlinks.answered p isDir r own hr hlisted
  obtain ⟨i, reference, hi, hreference, hrefers⟩ := hanswered.refers
  have hmet := hrefers.met n hn (Place.reference?_injective hown hi)
  rw [hproto] at hmet
  obtain rfl := Option.some.inj hmet
  obtain rfl := Place.reference?_injective hold hreference
  obtain rfl : isDir = o.stat.isDir :=
    Tree.Fixed.unique (.inl hanswered.kind) (hlinks.fixed o ho)
  rcases hr with ⟨m, hm, hplace, -, rfl⟩ | ⟨-, hr⟩
  · have hsame := h.grown.node?_of_mem hm
    rw [hplace, h.grown.node?_of_mem ho] at hsame
    exact hoff (Option.some.inj hsame ▸ hlisted)
  · rw [hstored.record] at hr
    exact hoff (Except.ok.inj hr ▸ hlisted)

/-- A reference that was saved is in all copies. -/
theorem refers_of_stored (h : Links showRoot c t) {n : Node} (hn : n ∈ c.nodes)
    {reference : String} (hproto : n.record.proto = some reference)
    (hstored : Tree.Stored t t' n.place n.stat.isDir n.record) : Refers c t' n.place reference := by
  have hp := h.plain n hn
  refine ⟨hp, ⟨_, _, hstored.fixed n.place _ hp (h.fixed n hn), hstored.record, hproto⟩, ?_⟩
  intro m hm hplace
  have hsame := h.grown.node?_of_mem hm
  rw [hplace, h.grown.node?_of_mem hn] at hsame
  exact Option.some.inj hsame ▸ hproto

end Links

end ShowTree
