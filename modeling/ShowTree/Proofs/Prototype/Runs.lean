/-
ShowTree.Proofs.Prototype.Runs — links survive refused changes.

A run links objects to prototypes, one after the other and in one session or in several,
and any change of the tree can be refused. Linking takes the object off the list it is on
(`triple_unlink`), makes it refer to the prototype, and puts it on the list of that, and
each of these keeps what is true of links (`keeps_setProto`). So between any two changes an
object is listed where it refers to, and nowhere else (`linked_of_linkRun`), unless a
prototype is a file where the draft of a record is written: saving the record moves it away,
and then it is not found any more when a link to it is to be undone (`not_linked_draft`).
-/
import ShowTree.Proofs.Prototype.Links

namespace ShowTree

/-! ## 1. Runs -/

/-- The object at a place belongs to this show, if it has been met. -/
def InShow (showRoot : Place) (c : Cache) (p : Place) : Prop :=
  ∀ n ∈ c.nodes, n.place = p → n.showRoot = some showRoot

instance (showRoot : Place) (c : Cache) (p : Place) : Decidable (InShow showRoot c p) :=
  inferInstanceAs (Decidable (∀ n ∈ c.nodes, _))

theorem InShow.showAt {showRoot : Place} {c : Cache} {p : Place} (h : InShow showRoot c p)
    (hmet : (c.node? p).isSome) : c.showAt p = some showRoot := by
  obtain ⟨n, hn⟩ := Option.isSome_iff_exists.1 hmet
  obtain ⟨hmem, hplace⟩ := Cache.node?_eq_some hn
  rw [Cache.showAt, Cache.nodeAt, hn]
  exact h n hmem hplace

/-- No file that will be moved away was met at a place or above it. -/
def Lasting (c : Cache) (p : Place) : Prop :=
  ∀ n ∈ c.nodes, n.place ∈ p.upward → n.place.Lasts n.stat.isDir

theorem lasting_of_metaName_not_mem {p : Place} (h : Layout.metaName ∉ p.names) (c : Cache) :
    Lasting c p := by
  intro n _ hup hdraft
  refine absurd hdraft (Place.not_isDraft_of_metaName_not_mem fun hmeta => ?_)
  exact h ((Place.mem_upward_iff.1 hup).subset hmeta)

/-- What a deed leaves behind, whether it succeeds or fails. -/
def Deed.after (d : Deed) (s : Cache × Watched) : Cache × Watched :=
  let out := ((d.run : StateT Cache (StateM Watched) Unit).run s.1).run s.2
  (out.1.2, out.2)

/-- Whether a deed reads, saves what has been met, or links an object of the show to an
allowed prototype of the show. The cache is the one that it leaves behind. -/
def Deed.Linking (showRoot : Place) (allowed : Cache → Place → Prop) (c : Cache) : Deed → Prop
  | .setProto i proto => InShow showRoot c i ∧
    ∀ q, proto.toPlace = .ok q → InShow showRoot c q ∧ allowed c q
  | .markShowRoot _ | .edit _ _ _ => False
  | .meet _ | .meetWorkingPlace | .showRelative _ | .next _ _ | .save _ => True

/-- What runs of linking lead to from a tree to which nothing has been done. A session can
be dropped at any time for one that has met nothing. -/
inductive LinkRun (showRoot : Place) (allowed : Cache → Place → Prop) (t : Tree)
    (refusal : Nat → Option FileError) : Cache × Watched → Prop
  | start (dir : Place) :
    LinkRun showRoot allowed t refusal (⟨.default, dir, []⟩, .ofTree t refusal)
  | reopen {s : Cache × Watched} (before : LinkRun showRoot allowed t refusal s) (dir : Place) :
    LinkRun showRoot allowed t refusal (⟨.default, dir, []⟩, s.2)
  | deed {s : Cache × Watched} (before : LinkRun showRoot allowed t refusal s) (d : Deed)
    (plain : (d.after s).1.Plain) (linking : d.Linking showRoot allowed (d.after s).1) :
    LinkRun showRoot allowed t refusal (d.after s)

/-! ## 2. Meanwhile -/

namespace Linking

/-- What is asked of the cache that a deed leaves behind. It is then so all the time. -/
structure Ready (showRoot : Place) (d : Deed) (c : Cache) : Prop where
  plain : c.Plain
  linking : d.Linking showRoot Lasting c

/-- If the cache that a deed leaves behind is ready, links are as they should be, the trees
were linked at every moment, and `X` is known besides. -/
structure While (showRoot : Place) (d : Deed) (X : Cache → Tree → Prop) (c : Cache)
    (w : Watched) : Prop where
  layout : c.layout = .default
  known : Ready showRoot d c →
    Links showRoot c w.tree ∧ (∀ a ∈ w.log, a.after.Linked showRoot) ∧ X c w.tree

/-- The object at a place has been met, and has this reference. -/
def Known (showRoot : Place) (c : Cache) (p : Place) (reference : String) : Prop :=
  (c.node? p).isSome ∧ reference? showRoot p.path = some reference

variable {showRoot : Place} {d : Deed} {X Y : Cache → Tree → Prop} {c : Cache} {w : Watched}

/-- With fewer objects met, no more is asked. -/
theorem Ready.of_nodes {c' : Cache} (h : Ready showRoot d c')
    (hnode : ∀ n ∈ c.nodes, ∃ m ∈ c'.nodes, m.place = n.place ∧ m.showRoot = n.showRoot ∧
      m.stat = n.stat) : Ready showRoot d c := by
  have hshow : ∀ {p}, InShow showRoot c' p → InShow showRoot c p := by
    intro p hp n hn hplace
    obtain ⟨m, hm, hsame, hroot, -⟩ := hnode n hn
    exact hroot ▸ hp m hm (hsame.trans hplace)
  have hlasting : ∀ {q}, Lasting c' q → Lasting c q := by
    intro q hq n hn hup
    obtain ⟨m, hm, hsame, -, hstat⟩ := hnode n hn
    have hlasts := hq m hm (hsame ▸ hup)
    rw [hsame, hstat] at hlasts
    exact hlasts
  constructor
  · intro n hn
    obtain ⟨m, hm, hplace, -⟩ := hnode n hn
    exact hplace ▸ h.plain m hm
  · have hd := h.linking
    cases d with
    | setProto i proto =>
      exact ⟨hshow hd.1, fun q hq => ⟨hshow (hd.2 q hq).1, hlasting (hd.2 q hq).2⟩⟩
    | _ => exact hd

theorem Ready.of_add {p : Place} {st : Stat} {r : Record} (h : Ready showRoot d (c.add p st r)) :
    p.Plain ∧ Ready showRoot d c where
  left := h.plain ⟨p, st, Cache.showAmong c.nodes p r, r⟩ (by simp [Cache.add])
  right := h.of_nodes fun n hn => ⟨n, List.mem_append_left _ hn, rfl, rfl, rfl⟩

theorem Ready.of_editRecord {p : Place} {change : Record → Record}
    (h : Ready showRoot d (c.editRecord p change)) : Ready showRoot d c := by
  refine h.of_nodes fun n hn => ⟨_, List.mem_map_of_mem hn, ?_⟩
  split <;> exact ⟨rfl, rfl, rfl⟩

theorem While.imp (h : While showRoot d X c w)
    (hX : Ready showRoot d c → Links showRoot c w.tree → X c w.tree → Y c w.tree) :
    While showRoot d Y c w := by
  refine ⟨h.1, fun hready => ?_⟩
  obtain ⟨hlinks, hlog, hx⟩ := h.2 hready
  exact ⟨hlinks, hlog, hX hready hlinks hx⟩

theorem While.forget (h : While showRoot d X c w) : While showRoot d (fun _ _ => True) c w :=
  h.imp fun _ _ _ => trivial

/-! ## 3. Reading -/

/-- Something known that stays so when objects are met. -/
def Stable (X : Cache → Tree → Prop) : Prop :=
  ∀ c t p st r, c.node? p = none → t.stat p.path = .ok st →
    t.recordOf .default p.path st.isDir = .ok r → X c t → X (c.add p st r) t

theorem stable_tree (φ : Tree → Prop) : Stable fun _ t => φ t :=
  fun _ _ _ _ _ _ _ _ h => h

theorem Stable.and (hX : Stable X) (hY : Stable Y) : Stable fun c t => X c t ∧ Y c t :=
  fun c t p st r hnew hstat hread h =>
    ⟨hX c t p st r hnew hstat hread h.1, hY c t p st r hnew hstat hread h.2⟩

theorem stable_known (showRoot p : Place) (reference : String) :
    Stable fun c _ => Known showRoot c p reference := by
  intro c t q st r _ _ _ h
  refine ⟨?_, h.2⟩
  obtain ⟨n, hn⟩ := Option.isSome_iff_exists.1 h.1
  rw [Cache.node?_add, hn]
  rfl

theorem calm_while (showRoot : Place) (d : Deed) (hX : Stable X) (w₀ : Watched) :
    Calm (fun p st => w₀.tree.stat p = .ok st)
    (fun p isDir r => w₀.tree.recordOf .default p isDir = .ok r)
    (fun c w => w = w₀ ∧ While showRoot d X c w₀) := by
  refine truthful_watched.calm (fun c hi => hi.1) fun c p st r hi hnew hdir hstat hread => ?_
  refine ⟨hi.1, fun hready => ?_⟩
  obtain ⟨hp, hbefore⟩ := hready.of_add
  obtain ⟨hlinks, hlog, hx⟩ := hi.2 hbefore
  exact ⟨hlinks.add hp hnew hdir hstat hread, hlog, hX c _ p st r hnew hstat hread hx⟩

theorem triple_meetPath (showRoot : Place) (hX : Stable X) (p : Path) :
    Triple (While showRoot d X) (Cache.meetPath p)
      (fun place c w => While showRoot d X c w ∧ (c.node? place).isSome ∧ p.toPlace = .ok place)
      (fun _ => While showRoot d X) := by
  refine Triple.of_forall fun c₀ w₀ hi => ((calm_while showRoot d hX w₀).meetPath p).imp ?_ ?_ ?_
  · rintro c w ⟨rfl, rfl⟩
    exact ⟨rfl, hi⟩
  · rintro _ c w ⟨⟨rfl, hi⟩, hmet⟩
    exact ⟨hi, hmet⟩
  · rintro _ c w ⟨rfl, hi⟩
    exact hi

/-- What stands can be met, unless its record cannot be read. -/
theorem triple_meet_standing (hX : Stable X) {p : Place} (hp : ∀ c t, X c t → t.Standing p) :
    Triple (While showRoot d X) (Cache.meet p)
      (fun _ c w => While showRoot d X c w ∧ (c.node? p).isSome)
      (fun e => While showRoot d fun _ _ => e.isNotFound = false) := by
  refine Triple.of_forall fun c₀ w₀ hi => ?_
  have hbarred : Triple (fun c w => w = w₀ ∧ c.layout = .default) (Cache.meet p)
      (fun _ c w => w = w₀ ∧ c.layout = .default)
      (fun e _ _ => ∃ q ∈ p.upward, w₀.tree.Bars .default e q) := truthful_watched.meet_error p
  refine (((calm_while showRoot d hX w₀).meet p).and hbarred).imp ?_ ?_ ?_
  · rintro c w ⟨rfl, rfl⟩
    exact ⟨⟨rfl, hi⟩, rfl, hi.1⟩
  · rintro _ c w ⟨⟨⟨rfl, hi⟩, hmet⟩, -⟩
    exact ⟨hi, hmet⟩
  · rintro e c w ⟨⟨rfl, hi⟩, q, hq, hbars⟩
    refine hi.imp fun _ _ hx => ?_
    obtain ⟨isDir, hkind, -⟩ := (hp c w.tree hx).there q hq
    exact hbars.isNotFound_eq_false hkind

/-- The reference to an object of the show. -/
theorem triple_showRelative (showRoot : Place) (hX : Stable X) {p : Path} {place : Place}
    (hp : p.toPlace = .ok place) (hplace : ∀ c, Ready showRoot d c → InShow showRoot c place) :
    Triple (While showRoot d X) (Cache.showRelative p)
      (fun reference => While showRoot d fun c t => X c t ∧ Known showRoot c place reference)
      (fun _ => While showRoot d X) := by
  refine Triple.bind (triple_meetPath showRoot hX p) fun found => ?_
  refine Triple.bind Triple.get fun c₀ => ?_
  split
  · rename_i reference hreference
    refine Triple.pure ?_
    rintro c w ⟨rfl, hi, hmet, hfound⟩
    rw [hp] at hfound
    obtain rfl := Except.ok.inj hfound
    refine hi.imp fun hready _ hx => ⟨hx, hmet, ?_⟩
    rw [(hplace c₀ hready).showAt hmet] at hreference
    exact hreference
  · exact Triple.throw fun c w hi => hi.2.1

/-! ## 4. Saving -/

/-- What was saved, between the tree before and that after. -/
def SavedAt (showRoot p : Place) (X : Cache → Tree → Prop) (c : Cache) (t' : Tree) : Prop :=
  ∃ t n, X c t ∧ Links showRoot c t ∧ n ∈ c.nodes ∧ n.place = p ∧
    Tree.Stored t t' n.place n.stat.isDir n.record

/-- Saving what has been met either saves it or leaves records as they are. -/
theorem triple_save (p : Place) :
    Triple (While showRoot d X) (Cache.save p)
      (fun _ => While showRoot d fun c t =>
        SavedAt showRoot p X c t ∨ X c t ∧ c.node? p = none)
      (fun _ => While showRoot d fun _ _ => True) := by
  refine triple_save_of_courses (fun hi => hi.1)
    (fun hi hn => hi.imp fun _ _ hx => .inr ⟨hx, hn⟩) fun {c n w r w'} hi hn course => ?_
  obtain ⟨hmem, rfl⟩ := Cache.node?_eq_some hn
  have hsaved : Ready showRoot d c → (∀ a ∈ w'.log, a.after.Linked showRoot) ∧
      match r with
      | .ok () => Links showRoot c w'.tree ∧ SavedAt showRoot n.place X c w'.tree
      | .error _ => Links showRoot c w'.tree := by
    intro hready
    obtain ⟨hlinks, hlog, hx⟩ := hi.2 hready
    obtain ⟨hmoments, hend⟩ := course.effect (hlinks.plain n hmem) (hlinks.named n hmem)
    refine ⟨fun a ha => ?_, ?_⟩
    · rcases hmoments a ha with hold | hstill | hstored
      · exact hlog a hold
      · exact (hlinks.still hstill).linked
      · exact (hlinks.stored hmem hstored).linked
    · cases r with
      | ok _ => exact ⟨hlinks.stored hmem hend, w.tree, n, hx, hlinks, hmem, rfl, hend⟩
      | error e => exact hlinks.still hend
  cases r with
  | ok _ =>
    refine ⟨hi.1, fun hready => ?_⟩
    obtain ⟨hlog, hlinks, hat⟩ := hsaved hready
    exact ⟨hlinks, hlog, .inl hat⟩
  | error e =>
    refine ⟨hi.1, fun hready => ?_⟩
    obtain ⟨hlog, hlinks⟩ := hsaved hready
    exact ⟨hlinks, hlog, trivial⟩

/-- A change of a record that keeps what is true of links, and saving it at once. -/
theorem triple_editSave {p : Place} {change : Record → Record}
    (hmet : ∀ c t, X c t → (c.node? p).isSome)
    (hedit : ∀ c t, Ready showRoot d c → Links showRoot c t → X c t →
      Links showRoot (c.editRecord p change) t)
    (hstored : ∀ c t t' n, Links showRoot (c.editRecord p change) t → X c t →
      n ∈ (c.editRecord p change).nodes → n.place = p →
      Tree.Stored t t' n.place n.stat.isDir n.record → Y (c.editRecord p change) t') :
    Triple (While showRoot d X) (do modify (·.editRecord p change); Cache.save p)
      (fun _ => While showRoot d Y) (fun _ => While showRoot d fun _ _ => True) := by
  refine Triple.bind
    (Q := fun _ => While showRoot d fun c t => ∃ c₀, X c₀ t ∧ c = c₀.editRecord p change)
    (Triple.modify fun c w hi => ?_) fun _ => ?_
  · refine ⟨hi.1, fun hready => ?_⟩
    obtain ⟨hlinks, hlog, hx⟩ := hi.2 hready.of_editRecord
    exact ⟨hedit c w.tree hready.of_editRecord hlinks hx, hlog, c, hx, rfl⟩
  · refine (triple_save p).post fun _ c w hi => ?_
    refine hi.imp fun _ _ hx => ?_
    rcases hx with ⟨t, n, ⟨c₀, hx, rfl⟩, hlinks, hn, hplace, hsaved⟩ | ⟨⟨c₀, hx, rfl⟩, hnone⟩
    · exact hstored c₀ t w.tree n hlinks hx hn hplace hsaved
    · have hsome : ((c₀.editRecord p change).node? p).isSome :=
        met_editRecord (hmet c₀ w.tree hx)
      rw [hnone] at hsome
      cases hsome

/-! ## 5. Linking -/

/-- The object at a place has been met, and its record refers to this prototype. -/
def RefersTo (c : Cache) (p : Place) (reference : String) : Prop :=
  ∃ n ∈ c.nodes, n.place = p ∧ n.record.proto = some reference

theorem stable_refersTo (p : Place) (reference : String) :
    Stable fun c _ => RefersTo c p reference := by
  rintro c t q st r _ _ _ ⟨n, hn, hrefers⟩
  exact ⟨n, List.mem_append_left _ hn, hrefers⟩

theorem Known.of_editRecord {p q : Place} {change : Record → Record} {reference : String}
    (h : Known showRoot c p reference) : Known showRoot (c.editRecord q change) p reference :=
  ⟨met_editRecord h.1, h.2⟩

theorem RefersTo.of_editRecord {p q : Place} {change : Record → Record} {reference : String}
    (h : RefersTo c p reference) (hproto : ∀ r, (change r).proto = r.proto) :
    RefersTo (c.editRecord q change) p reference := by
  obtain ⟨n, hn, hplace, hrefers⟩ := h
  refine ⟨_, List.mem_map_of_mem hn, ?_⟩
  split
  · exact ⟨hplace, (hproto n.record).trans hrefers⟩
  · exact ⟨hplace, hrefers⟩

/-- What is in a cache at the place where a record was changed. -/
theorem record_editRecord {p : Place} {change : Record → Record} {m : Node}
    (hm : m ∈ (c.editRecord p change).nodes) (hplace : m.place = p) :
    ∃ r, m.record = change r := by
  obtain ⟨n, -, hsame, -, ⟨-, hrecord⟩ | ⟨hne, -⟩⟩ := mem_editRecord hm
  · exact ⟨n.record, hrecord⟩
  · exact absurd (hsame.symm.trans hplace) hne

/-- An object and its prototype, with their references in a show. -/
structure Link where
  showRoot : Place
  object : Place
  own : String
  proto : Place
  reference : String

/-- Both ends of a link have been met. -/
structure Ends (l : Link) (c : Cache) : Prop where
  object : Known l.showRoot c l.object l.own
  proto : Known l.showRoot c l.proto l.reference

theorem stable_ends (l : Link) : Stable fun c _ => Ends l c := by
  intro c t p st r hnew hstat hread h
  exact ⟨stable_known l.showRoot l.object l.own c t p st r hnew hstat hread h.object,
    stable_known l.showRoot l.proto l.reference c t p st r hnew hstat hread h.proto⟩

theorem Ends.of_editRecord {l : Link} {p : Place} {change : Record → Record} (h : Ends l c) :
    Ends l (c.editRecord p change) :=
  ⟨h.object.of_editRecord, h.proto.of_editRecord⟩

theorem stable_refers (p : Place) (reference : String) : Stable fun c t => Refers c t p reference :=
  fun _ _ _ _ _ _ hstat hread h => h.add hstat hread

section SetProto

variable (l : Link)

/-- The prototype that an object refers to is met, unless its record cannot be read. -/
theorem triple_meetOld (hobject : ∀ c, Ready l.showRoot d c → InShow l.showRoot c l.object)
    (old : String) :
    Triple (While l.showRoot d fun c _ => Ends l c ∧ RefersTo c l.object old)
      (do
        let place ← Work.ofExcept ((← get).resolveReference old l.object)
        Cache.meet place
        pure place : Work (StateM Watched) Place)
      (fun place => While l.showRoot d fun c _ =>
        (Ends l c ∧ RefersTo c l.object old) ∧ Known l.showRoot c place old)
      (fun e => While l.showRoot d fun _ _ => e.isNotFound = false) := by
  refine Triple.bind Triple.get fun c₀ => ?_
  refine Triple.bind (Q := fun place => While l.showRoot d fun c t =>
      (Ends l c ∧ RefersTo c l.object old) ∧
        t.Standing place ∧ reference? l.showRoot place.path = some old)
    (Triple.ofExcept ?_) fun place => ?_
  · rintro c w ⟨rfl, h⟩
    have hfound : Ready l.showRoot d c₀ → Links l.showRoot c₀ w.tree →
        Ends l c₀ ∧ RefersTo c₀ l.object old → ∃ o, w.tree.Standing o ∧
          reference? l.showRoot o.path = some old ∧ c₀.resolveReference old l.object = .ok o := by
      rintro hready hlinks ⟨hends, n, hn, hplace, hproto⟩
      obtain ⟨o, ho, hold⟩ :=
        hlinks.standing l.object _ n.record old (.inl ⟨n, hn, hplace, rfl, rfl⟩) hproto
      have hshow := (hobject c₀ hready).showAt hends.object.1
      exact ⟨o, ho, hold, Cache.resolveReference_reference hshow hold⟩
    cases hresolve : c₀.resolveReference old l.object with
    | ok place =>
      refine While.imp h fun hready hlinks hx => ?_
      obtain ⟨o, ho, hold, hok⟩ := hfound hready hlinks hx
      rw [hresolve] at hok
      obtain rfl := Except.ok.inj hok
      exact ⟨hx, ho, hold⟩
    | error e =>
      refine While.imp h fun hready hlinks hx => ?_
      obtain ⟨o, -, -, hok⟩ := hfound hready hlinks hx
      rw [hresolve] at hok
      cases hok
  · have hstable := ((stable_ends l).and (stable_refersTo l.object old)).and
      (stable_tree fun t => t.Standing place ∧ reference? l.showRoot place.path = some old)
    refine Triple.bind (triple_meet_standing hstable fun _ _ hx => hx.2.1) fun _ => Triple.pure ?_
    rintro c w ⟨h, hmet⟩
    exact h.imp fun _ _ hx => ⟨hx.1, hmet, hx.2.2⟩

/-- Taking an object off the list of the prototype that it refers to. -/
theorem triple_takeOff (place : Place) (old : String) :
    Triple (While l.showRoot d fun c _ =>
        (Ends l c ∧ RefersTo c l.object old) ∧ Known l.showRoot c place old)
      (do modify (·.editRecord place (·.removeInstance l.own)); Cache.save place)
      (fun _ => While l.showRoot d fun c t => Ends l c ∧ ¬ Listed c t l.own)
      (fun _ => While l.showRoot d fun _ _ => True) := by
  refine triple_editSave (fun _ _ hx => hx.2.1) (fun _ _ _ hlinks _ => hlinks.drop place l.own) ?_
  rintro c t t' o hlinks ⟨⟨hends, hrefers⟩, hplace⟩ ho rfl hstored
  refine ⟨hends.of_editRecord, ?_⟩
  have hstill : RefersTo (c.editRecord o.place (·.removeInstance l.own)) l.object old :=
    hrefers.of_editRecord fun _ => rfl
  obtain ⟨n, hn, hobject, hold⟩ := hstill
  have hown := hends.object.2
  rw [← hobject] at hown
  refine hlinks.not_listed_of_stored hn hown hold ho hplace.2 ?_ hstored
  obtain ⟨r, hr⟩ := record_editRecord ho rfl
  simp [hr, Record.removeInstance]

/-- Taking an object off the list it is on leaves no copy that lists it. -/
theorem triple_unlink (hobject : ∀ c, Ready l.showRoot d c → InShow l.showRoot c l.object) :
    Triple (While l.showRoot d fun c _ => Ends l c) (Cache.unlink l.object l.own)
      (fun _ => While l.showRoot d fun c t => Ends l c ∧ ¬ Listed c t l.own)
      (fun _ => While l.showRoot d fun _ _ => True) := by
  refine Triple.bind Triple.get fun c₀ => ?_
  split
  · rename_i hnone
    refine Triple.pure ?_
    rintro c w ⟨rfl, h⟩
    refine h.imp fun _ hlinks hx => ⟨hx, ?_⟩
    obtain ⟨n, hn⟩ := Option.isSome_iff_exists.1 hx.object.1
    obtain ⟨hmem, hobject⟩ := Cache.node?_eq_some hn
    have hown := hx.object.2
    rw [Cache.nodeAt, hn] at hnone
    rw [← hobject] at hown
    exact hlinks.not_listed_of_proto_eq_none hmem hown hnone
  · rename_i old hold
    refine Triple.bind (Triple.attempt (R := Outcome _ _) ((triple_meetOld l hobject old).imp ?_
      (fun _ _ _ h => h) fun _ _ _ h => h)) fun found => ?_
    · rintro c w ⟨rfl, h⟩
      refine h.imp fun _ _ hx => ⟨hx, ?_⟩
      obtain ⟨n, hn⟩ := Option.isSome_iff_exists.1 hx.object.1
      rw [Cache.nodeAt, hn] at hold
      exact ⟨n, (Cache.node?_eq_some hn).1, (Cache.node?_eq_some hn).2, hold⟩
    · cases found with
      | ok place => exact triple_takeOff l place old
      | error e =>
        have hnever : ∀ {c t}, e.isNotFound = true → e.isNotFound = false →
            Ends l c ∧ ¬ Listed c t l.own := by
          intro c t he hnot
          rw [he] at hnot
          cases hnot
        change Triple _ (if e.isNotFound = true then pure () else throw e) _ _
        split
        · rename_i he
          exact Triple.pure fun c w h => While.imp h fun _ _ hx => hnever he hx
        · exact Triple.throw fun c w h => While.forget h

/-- Making an object that no copy lists refer to its new prototype. -/
theorem triple_relink (hlasting : ∀ c, Ready l.showRoot d c → Lasting c l.proto) :
    Triple (While l.showRoot d fun c t => Ends l c ∧ ¬ Listed c t l.own)
      (do
        modify (·.editRecord l.object fun r =>
          { r with proto := some l.reference, instances := [] })
        Cache.save l.object)
      (fun _ => While l.showRoot d fun c t => Ends l c ∧ Refers c t l.object l.reference)
      (fun _ => While l.showRoot d fun _ _ => True) := by
  refine triple_editSave (fun _ _ hx => hx.1.object.1) ?_ ?_
  · rintro c t hready hlinks ⟨hends, hfree⟩
    have hstanding := hlinks.standing_of_met hends.proto.1 (hlasting c hready)
    exact hlinks.relink hends.object.2 hfree hstanding hends.proto.2
  · rintro c t t' n hlinks ⟨hends, -⟩ hn hplace hstored
    obtain ⟨r, hr⟩ := record_editRecord hn hplace
    have hrefers := hlinks.refers_of_stored hn (by rw [hr]) hstored
    rw [hplace] at hrefers
    exact ⟨hends.of_editRecord, hrefers⟩

/-- Putting an object on the list of its new prototype. -/
theorem triple_enlist (hlasting : ∀ c, Ready l.showRoot d c → Lasting c l.proto) :
    Triple (While l.showRoot d fun c t => Ends l c ∧ Refers c t l.object l.reference)
      (do modify (·.editRecord l.proto (·.addInstance l.own)); Cache.save l.proto)
      (fun _ => While l.showRoot d fun _ _ => True)
      (fun _ => While l.showRoot d fun _ _ => True) := by
  refine triple_editSave (fun _ _ hx => hx.1.proto.1) ?_ fun _ _ _ _ _ _ _ _ _ => trivial
  rintro c t hready hlinks ⟨hends, hrefers⟩
  refine hlinks.enlist fun n hn hplace => ?_
  have hlasts := hlasting c hready
  have hkind := (hlinks.fixed n hn).kind? (hlasts n hn (hplace ▸ n.place.self_mem_upward))
  rw [hplace] at hkind
  exact ⟨hlinks.standing_of_met hends.proto.1 hlasts, hkind, l.object, l.reference,
    hends.object.2, hends.proto.2, hrefers⟩

/-- The prototype that has been met is found again by its path. -/
theorem triple_meetProto {proto : Path} (hproto : proto.toPlace = .ok l.proto) :
    Triple (While l.showRoot d fun c t => Ends l c ∧ Refers c t l.object l.reference)
      (Cache.meetPath proto)
      (fun place c w =>
        While l.showRoot d (fun c t => Ends l c ∧ Refers c t l.object l.reference) c w ∧
          place = l.proto)
      (fun _ => While l.showRoot d fun _ _ => True) := by
  have hstable := (stable_ends l).and (stable_refers l.object l.reference)
  refine (triple_meetPath l.showRoot hstable proto).imp (fun _ _ h => h) ?_ fun _ _ _ h => h.forget
  rintro place c w ⟨h, -, hplace⟩
  rw [hproto] at hplace
  exact ⟨h, (Except.ok.inj hplace).symm⟩

end SetProto

/-- Whether linking succeeds or fails, links are as they should be. -/
theorem keeps_setProto {i q : Place} {proto : Path} (hproto : proto.toPlace = .ok q) :
    Keeps (While showRoot (.setProto i proto) fun _ _ => True) (Cache.setProto i proto) := by
  have hi : ∀ c, Ready showRoot (.setProto i proto) c → InShow showRoot c i :=
    fun c h => h.linking.1
  have hq : ∀ c, Ready showRoot (.setProto i proto) c → InShow showRoot c q :=
    fun c h => (h.linking.2 q hproto).1
  have hlasting : ∀ c, Ready showRoot (.setProto i proto) c → Lasting c q :=
    fun c h => (h.linking.2 q hproto).2
  refine Triple.bind (triple_showRelative showRoot (stable_tree fun _ => True) hproto hq)
    fun reference => ?_
  have hown :=
    triple_showRelative showRoot (stable_known showRoot q reference) (Place.toPlace_path i) hi
  refine Triple.bind (hown.imp ?_ (fun _ _ _ h => h) fun _ _ _ h => h.forget) fun own => ?_
  · exact fun c w h => h.imp fun _ _ hx => hx.2
  · have hunlink := triple_unlink ⟨showRoot, i, own, q, reference⟩ hi
    refine Triple.bind (hunlink.pre ?_) fun _ => ?_
    · exact fun c w h => h.imp fun _ _ hx => ⟨hx.2, hx.1⟩
    · rw [← bind_assoc]
      refine Triple.bind (triple_relink ⟨showRoot, i, own, q, reference⟩ hlasting) fun _ => ?_
      refine Triple.bind (triple_meetProto ⟨showRoot, i, own, q, reference⟩ hproto) fun place => ?_
      refine Triple.of_fact fun hplace => ?_
      rw [hplace]
      exact triple_enlist ⟨showRoot, i, own, q, reference⟩ hlasting

end Linking

/-! ## 6. Every moment of every run -/

open Linking

variable {showRoot : Place}

/-- Every deed of a run of linking keeps what is true of links. -/
theorem leads_linking (d : Deed) : Leads (While showRoot d fun _ _ => True) d.run
    fun _ => While showRoot d fun _ _ => True := by
  have hcalm := calm_while showRoot d (stable_tree fun _ => True)
  cases d with
  | meet p => exact (Keeps.of_calm hcalm fun h => h.keeps_meetPath p).done
  | meetWorkingPlace => exact (Keeps.of_calm hcalm fun h => h.keeps_meetWorkingPlace).done
  | showRelative p => exact (Keeps.of_calm hcalm fun h => h.keeps_showRelative p).done
  | next cursor seed => exact Leads.done (Leads.of_calm hcalm fun h => h.leads_next cursor seed)
  | setProto i proto =>
    cases hproto : proto.toPlace with
    | ok q => exact (keeps_setProto hproto).done
    | error e =>
      -- such a path leads nowhere, so nothing is met and nothing is done
      have hkeep : Keeps (While showRoot (.setProto i proto) fun _ _ => True)
          (Cache.setProto i proto) := by
        intro c w h
        have hrun : ((Cache.setProto i proto : Work (StateM Watched) Unit).run.run c).run w =
            ((.error e, c), w) := by
          rw [Cache.setProto, Cache.showRelative, Cache.meetPath, hproto]
          rfl
        rw [hrun]
        exact h
      exact hkeep.done
  | save p =>
    have hsave : Keeps (While showRoot (.save p) fun _ _ => True) (Cache.save p) :=
      (triple_save p).imp (fun _ _ h => h) (fun _ _ _ h => h.forget) fun _ _ _ h => h
    exact hsave.done
  | markShowRoot p =>
    refine fun c w h => ⟨h.layout, fun hready => ?_⟩
    exact hready.linking.elim
  | edit p change hmark =>
    refine fun c w h => ⟨h.layout, fun hready => ?_⟩
    exact hready.linking.elim

/-- At any time in a run of linking, links are as they should be, and were so at every
moment. -/
theorem LinkRun.links {t : Tree} {refusal : Nat → Option FileError} {s : Cache × Watched}
    (ht : t.Unlinked) (h : LinkRun showRoot Lasting t refusal s) : s.1.layout = .default ∧
      Links showRoot s.1 s.2.tree ∧ ∀ a ∈ s.2.log, a.after.Linked showRoot := by
  induction h with
  | start dir => exact ⟨rfl, .of_unlinked ht _ _, by simp [Watched.ofTree]⟩
  | reopen before dir ih => exact ⟨rfl, ih.2.1.reopen dir, ih.2.2⟩
  | @deed s before d plain linking ih =>
    have hafter : While showRoot d (fun _ _ => True) (d.after s).1 (d.after s).2 :=
      leads_linking d s.1 s.2 ⟨ih.1, fun _ => ⟨ih.2.1, ih.2.2, trivial⟩⟩
    obtain ⟨hlinks, hlog, -⟩ := hafter.known ⟨plain, linking⟩
    exact ⟨hafter.layout, hlinks, hlog⟩

/-- Between any two changes, whatever is refused and whenever a session is dropped, an
object is listed by the prototype that it refers to, once, and by no other. -/
theorem linked_of_linkRun {t : Tree} {refusal : Nat → Option FileError} {s : Cache × Watched}
    (ht : t.Unlinked) (h : LinkRun showRoot Lasting t refusal s) :
    t.Linked showRoot ∧ s.2.tree.Linked showRoot ∧ ∀ a ∈ s.2.log, a.after.Linked showRoot := by
  obtain ⟨-, hlinks, hlog⟩ := h.links ht
  exact ⟨(Links.of_unlinked ht .default .root).linked, hlinks.linked, hlog⟩

/-- Linking an object of the show to a prototype of the show. -/
theorem LinkRun.link {allowed : Cache → Place → Prop} {t : Tree}
    {refusal : Nat → Option FileError} {s : Cache × Watched}
    (before : LinkRun showRoot allowed t refusal s) (i q : Place)
    (h : ((Deed.setProto i q.path).after s).1.Plain ∧
      InShow showRoot ((Deed.setProto i q.path).after s).1 i ∧
      InShow showRoot ((Deed.setProto i q.path).after s).1 q)
    (hallowed : ∀ c, allowed c q) :
    LinkRun showRoot allowed t refusal ((Deed.setProto i q.path).after s) := by
  refine before.deed _ h.1 ⟨h.2.1, fun q' hq' => ?_⟩
  rw [Place.toPlace_path] at hq'
  obtain rfl := Except.ok.inj hq'
  exact ⟨h.2.2, hallowed _⟩

/-- A show with two files. -/
def twoFiles : Tree :=
  .ofFiles [(⟨"/.meta/_"⟩, { Record.blank with isShowRoot := true }.encode.toUTF8),
    (⟨"/p"⟩, .empty), (⟨"/x"⟩, .empty)]

/-- For instance when the list of a prototype could not be saved, and linking was repeated in
another session. -/
theorem linked_of_linkRun_repeated :
    ∃ s, LinkRun .root Lasting twoFiles (fun n => if n = 4 then some (.io "full") else none) s ∧
      twoFiles.Unlinked ∧ s.2.log.length = 14 ∧
      twoFiles.Linked .root ∧ s.2.tree.Linked .root ∧ ∀ a ∈ s.2.log, a.after.Linked .root := by
  have hunlinked : twoFiles.Unlinked := Tree.unlinked_of_noLinks (by decide +kernel)
  have hlasting : ∀ c, Lasting c (.entry .root ⟨"p", by decide⟩) :=
    lasting_of_metaName_not_mem (by decide)
  have hrun : ∃ s, LinkRun .root Lasting twoFiles
        (fun n => if n = 4 then some (.io "full") else none) s ∧
      s.2.log.length = 14 := by
    refine ⟨_, (((LinkRun.start .root).link (.entry .root ⟨"x", by decide⟩)
        (.entry .root ⟨"p", by decide⟩) ?_ hlasting).reopen .root).link
      (.entry .root ⟨"x", by decide⟩) (.entry .root ⟨"p", by decide⟩) ?_ hlasting, ?_⟩
    · decide +kernel
    · decide +kernel
    · decide +kernel
  obtain ⟨s, hs, hlength⟩ := hrun
  exact ⟨s, hs, hunlinked, hlength, linked_of_linkRun hunlinked hs⟩

/-- A show with a file where the draft of the record of `/a` is written. -/
def draftTaken : Tree :=
  .ofFiles [(⟨"/.meta/_"⟩, { Record.blank with isShowRoot := true }.encode.toUTF8),
    (⟨"/a/.meta/_.tmp"⟩, .empty), (⟨"/p"⟩, .empty)]

/-- When such a file is made the prototype of `/a`, saving the record of `/a` moves it away.
Then `/a` is linked to `/p`, but does not come off the list of the file, which is there again
as soon as a draft could be written and not be moved. -/
theorem not_linked_draft :
    ∃ s, LinkRun .root (fun _ _ => True) draftTaken
        (fun n => if n = 17 then some (.io "full") else none) s ∧
      draftTaken.Unlinked ∧ s.2.tree.isFile ⟨"/a/.meta/_.tmp"⟩ = true ∧
      ¬ s.2.tree.Linked .root := by
  have hrun : ∃ s, LinkRun .root (fun _ _ => True) draftTaken
        (fun n => if n = 17 then some (.io "full") else none) s ∧
      s.2.tree.isFile ⟨"/a/.meta/_.tmp"⟩ = true ∧
      (s.2.tree.recordAt (Place.draftPlace (.entry .root ⟨"a", by decide⟩) true)).toOption.any
        (·.instances.contains "//a") = true ∧
      (s.2.tree.recordAt (.entry .root ⟨"a", by decide⟩)).toOption.any
        (·.proto == some "//p") = true := by
    refine ⟨_, (((LinkRun.start .root).link (.entry .root ⟨"a", by decide⟩)
          (Place.draftPlace (.entry .root ⟨"a", by decide⟩) true) ?_ fun _ => trivial).reopen
        .root).link
      (.entry .root ⟨"a", by decide⟩) (.entry .root ⟨"p", by decide⟩) ?_ (fun _ => trivial) |>.link
      (.entry .root ⟨"a", by decide⟩) (.entry .root ⟨"p", by decide⟩) ?_ (fun _ => trivial), ?_⟩
    · decide +kernel
    · decide +kernel
    · decide +kernel
    · decide +kernel
  obtain ⟨s, hs, hfile, hlists, hrefers⟩ := hrun
  refine ⟨s, hs, Tree.unlinked_of_noLinks (by decide +kernel), hfile, fun hlinked => ?_⟩
  cases hr : s.2.tree.recordAt (Place.draftPlace (.entry .root ⟨"a", by decide⟩) true) with
  | error e =>
    rw [hr] at hlists
    cases hlists
  | ok r =>
    rw [hr] at hlists
    have hlisted : "//a" ∈ r.instances := List.contains_iff_mem.1 hlists
    obtain ⟨r', reference, hr', hreference, hproto⟩ := hlinked.answered
      (Place.draftPlace (.entry .root ⟨"a", by decide⟩) true) (.entry .root ⟨"a", by decide⟩) r
      "//a" (by decide) hr (by decide +kernel) hlisted
    rw [hr'] at hrefers
    have hp : r'.proto = some "//p" := eq_of_beq hrefers
    rw [hp] at hproto
    rw [← Option.some.inj hproto] at hreference
    exact absurd hreference (by decide +kernel)

end ShowTree
