/-
ShowTree.Proofs.Cache.Arena — what the nodes of a cache look like at any time.

Whatever a session does and whatever its file system answers, the nodes of its cache have
grown in an order in which every place comes once and after its directory, each with the
root of its show as it follows from the nodes before it (`Grown`). Adding an object that
has been met keeps this (`Grown.add`), editing a record keeps it as long as no show root
is made or unmade (`Grown.edit`), and marking a show root brings it about anew
(`Grown.markShowRoot`). From it follows what can be said of the nodes by number
(`wellFormed_of_reachable`).
-/
import ShowTree.FileSystem.Tree
import ShowTree.Proofs.Cache.Saving

namespace ShowTree

/-! ## 1. How nodes grow -/

/-- Places in an order in which objects can be met: each comes once, and after its
directory. -/
inductive Placed : List Place → Prop
  | nil : Placed []
  | snoc {ps : List Place} {p : Place} (before : Placed ps) (new : p ∉ ps)
      (above : ∀ dir, p.dir? = some dir → dir ∈ ps) : Placed (ps ++ [p])

/-- Nodes in such an order, of which each has the root of its show from those before it. -/
inductive Grown : List Node → Prop
  | nil : Grown []
  | snoc {ns : List Node} {n : Node} (before : Grown ns) (new : n.place ∉ ns.map Node.place)
      (above : ∀ dir, n.place.dir? = some dir → dir ∈ ns.map Node.place)
      (shown : n.showRoot = Cache.showAmong ns n.place n.record) : Grown (ns ++ [n])

namespace Placed

theorem nodup {ps : List Place} (h : Placed ps) : ps.Nodup := by
  induction h with
  | nil => exact List.nodup_nil
  | snoc _ new _ ih =>
    rw [List.nodup_append]
    refine ⟨ih, by simp, ?_⟩
    rintro a ha b hb rfl
    exact new (List.mem_singleton.1 hb ▸ ha)

/-- With a place come all places above it. -/
theorem upward_subset {ps : List Place} (h : Placed ps) : ∀ p ∈ ps, p.upward ⊆ ps := by
  induction h with
  | nil => simp
  | @snoc ps p before new above ih =>
    have hold : ∀ q ∈ ps, q.upward ⊆ ps ++ [p] := fun q hq =>
      List.Subset.trans (ih q hq) (List.subset_append_left ps [p])
    intro q hq
    rcases List.mem_append.1 hq with hq | hq
    · exact hold q hq
    · obtain rfl := List.mem_singleton.1 hq
      cases q with
      | root => simp [Place.upward]
      | entry dir name =>
        rw [Place.upward, List.cons_subset]
        exact ⟨by simp, hold dir (above dir rfl)⟩

/-- The directory of a place comes before it. -/
theorem dir_before {ps : List Place} (h : Placed ps) :
    ∀ (i : Nat) (p : Place), ps[i]? = some p → ∀ dir, p.dir? = some dir →
      ∃ j, j < i ∧ ps[j]? = some dir := by
  induction h with
  | nil => simp
  | @snoc ps p before new above ih =>
    intro i q hq dir hdir
    by_cases hi : i < ps.length
    · rw [List.getElem?_append_left hi] at hq
      obtain ⟨j, hj, hget⟩ := ih i q hq dir hdir
      exact ⟨j, hj, by rw [List.getElem?_append_left (by omega)]; exact hget⟩
    · have hlast : i = ps.length := by
        have := (List.getElem?_eq_some_iff.1 hq).1
        simp at this
        omega
      subst hlast
      have hp : p = q := by simpa using hq
      obtain ⟨j, hj, hget⟩ := List.mem_iff_getElem.1 (above dir (hp ▸ hdir))
      exact ⟨j, hj, by rw [List.getElem?_append_left hj, List.getElem?_eq_getElem hj, hget]⟩

end Placed

namespace Grown

variable {ns : List Node}

theorem placed (h : Grown ns) : Placed (ns.map Node.place) := by
  induction h with
  | nil => exact .nil
  | snoc _ new above _ ih =>
    rw [List.map_append]
    exact .snoc ih new above

/-! ## 2. The roots of shows -/

/-- Whether the object at a place has been met and is marked as the root of a show. -/
def marked (ns : List Node) (p : Place) : Bool :=
  (ns.find? (·.place == p)).any (·.record.isShowRoot)

theorem marked_concat_of_ne {n : Node} {p : Place} (h : n.place ≠ p) :
    marked (ns ++ [n]) p = marked ns p := by
  simp [marked, List.find?_append, h]

theorem marked_concat_self {n : Node} (h : n.place ∉ ns.map Node.place) :
    marked (ns ++ [n]) n.place = n.record.isShowRoot := by
  have hnone : ns.find? (·.place == n.place) = none := by
    rw [List.find?_eq_none]
    intro m hm he
    exact h (List.mem_map.2 ⟨m, hm, by simpa using he⟩)
  simp [marked, List.find?_append, hnone]

theorem find?_marked_concat {n : Node} {places : List Place} (h : n.place ∉ places) :
    places.find? (marked (ns ++ [n])) = places.find? (marked ns) := by
  induction places with
  | nil => rfl
  | cons p rest ih =>
    have hne : n.place ≠ p := fun e => h (by simp [e])
    have hrest : n.place ∉ rest := fun hm => h (List.mem_cons_of_mem p hm)
    rw [List.find?_cons, List.find?_cons, marked_concat_of_ne hne, ih hrest]

/-- The root of an object's show is the nearest marked object on its way up. -/
theorem showRoot_eq (h : Grown ns) :
    ∀ n ∈ ns, n.showRoot = n.place.upward.find? (marked ns) := by
  induction h with
  | nil => simp
  | @snoc ns n before new above shown ih =>
    have hold : ∀ m ∈ ns, m.showRoot = m.place.upward.find? (marked (ns ++ [n])) := by
      intro m hm
      have hsub := before.placed.upward_subset m.place (List.mem_map_of_mem hm)
      rw [find?_marked_concat fun hn => new (hsub hn)]
      exact ih m hm
    intro m hm
    rcases List.mem_append.1 hm with hm | hm
    · exact hold m hm
    · obtain rfl := List.mem_singleton.1 hm
      rw [shown, Cache.showAmong]
      cases hflag : m.record.isShowRoot with
      | true =>
        have hself : marked (ns ++ [m]) m.place = true := by rw [marked_concat_self new, hflag]
        cases hp : m.place <;> rw [hp] at hself <;> simp [Place.upward, hself]
      | false =>
        have hself : marked (ns ++ [m]) m.place = false := by rw [marked_concat_self new, hflag]
        cases hp : m.place with
        | root =>
          rw [hp] at hself
          simp [Place.upward, Place.dir?, hself]
        | entry dir name =>
          obtain ⟨d, hd, hplace⟩ := List.mem_map.1 (above dir (by rw [hp]; rfl))
          rw [hp] at hself
          have hfind : (ns.find? (·.place == dir)).bind (·.showRoot) =
              dir.upward.find? (marked (ns ++ [m])) := by
            cases hf : ns.find? (·.place == dir) with
            | none => exact absurd hplace (by simpa using List.find?_eq_none.1 hf d hd)
            | some e =>
              have he := List.find?_some hf
              rw [Option.bind_some, hold e (List.mem_of_find?_eq_some hf),
                show e.place = dir by simpa using he]
          simp [Place.upward, Place.dir?, hself, hfind]

/-- Every node is the one that is found for its object. -/
theorem find?_of_mem (h : Grown ns) {n : Node} (hn : n ∈ ns) :
    ns.find? (·.place == n.place) = some n := by
  induction h with
  | nil => simp at hn
  | @snoc ns m before new above shown ih =>
    rw [List.find?_append]
    rcases List.mem_append.1 hn with hn | hn
    · rw [ih hn, Option.some_or]
    · obtain rfl := List.mem_singleton.1 hn
      have hnone : ns.find? (·.place == n.place) = none := by
        rw [List.find?_eq_none]
        intro k hk he
        exact new (List.mem_map.2 ⟨k, hk, by simpa using he⟩)
      rw [hnone, Option.none_or]
      simp

theorem node?_of_mem {c : Cache} (h : Grown c.nodes) {n : Node} (hn : n ∈ c.nodes) :
    c.node? n.place = some n :=
  h.find?_of_mem hn

/-- The places above an object that has been met have been met. -/
theorem met_of_mem_upward {c : Cache} (hg : Grown c.nodes) {p q : Place}
    (hp : (c.node? p).isSome) (hq : q ∈ p.upward) : (c.node? q).isSome := by
  obtain ⟨n, hn, rfl⟩ := Cache.node?_isSome_iff.1 hp
  obtain ⟨m, hm, hplace⟩ := List.mem_map.1
    (hg.placed.upward_subset n.place (List.mem_map_of_mem hn) hq)
  exact Cache.node?_isSome_iff.2 ⟨m, hm, hplace⟩

/-- The root of a show is the object itself or above it. -/
theorem showAt_mem_upward {c : Cache} (hg : Grown c.nodes) {p q : Place}
    (h : c.showAt p = some q) : (c.node? p).isSome ∧ q ∈ p.upward := by
  rw [Cache.showAt, Cache.nodeAt] at h
  cases hn : c.node? p with
  | none => rw [hn] at h; cases h
  | some n =>
    obtain ⟨hmem, rfl⟩ := Cache.node?_eq_some hn
    rw [hn, Option.getD_some, hg.showRoot_eq n hmem] at h
    exact ⟨rfl, List.mem_of_find?_eq_some h⟩

/-! ## 3. What keeps nodes grown -/

theorem add {c : Cache} {p : Place} {stat : Stat} {record : Record} (h : Grown c.nodes)
    (hnew : c.node? p = none) (hdir : ∀ dir, p.dir? = some dir → (c.node? dir).isSome) :
    Grown (c.add p stat record).nodes := by
  refine .snoc h ?_ ?_ rfl
  · intro hm
    obtain ⟨n, hn, hplace⟩ := List.mem_map.1 hm
    exact Cache.node?_eq_none_iff.1 hnew n hn hplace
  · intro dir hd
    obtain ⟨n, hn, hplace⟩ := Cache.node?_isSome_iff.1 (hdir dir hd)
    exact List.mem_map.2 ⟨n, hn, hplace⟩

/-- The root of a show is found among the places and show roots of nodes alone. -/
theorem showAmong_map {edit : Node → Node} (hplace : ∀ n, (edit n).place = n.place)
    (hshow : ∀ n, (edit n).showRoot = n.showRoot) {r r' : Record}
    (hflag : r'.isShowRoot = r.isShowRoot) (ns : List Node) (p : Place) :
    Cache.showAmong (ns.map edit) p r' = Cache.showAmong ns p r := by
  have hfind : ∀ dir, ((ns.map edit).find? (·.place == dir)).bind (·.showRoot) =
      (ns.find? (·.place == dir)).bind (·.showRoot) := by
    intro dir
    rw [List.find?_map]
    simp only [Function.comp_def, hplace]
    cases ns.find? (·.place == dir) with
    | none => rfl
    | some n => exact hshow n
  simp only [Cache.showAmong, hflag, hfind]

/-- Nodes stay grown when their records change, if no mark of a show root does. -/
theorem map {edit : Node → Node} (h : Grown ns) (hplace : ∀ n, (edit n).place = n.place)
    (hshow : ∀ n, (edit n).showRoot = n.showRoot)
    (hflag : ∀ n, (edit n).record.isShowRoot = n.record.isShowRoot) : Grown (ns.map edit) := by
  have hplaces : ∀ ms : List Node, (ms.map edit).map Node.place = ms.map Node.place := by
    simp [hplace]
  induction h with
  | nil => exact .nil
  | @snoc ns n before new above shown ih =>
    rw [List.map_append]
    refine .snoc ih ?_ ?_ ?_
    · rw [hplaces, hplace]
      exact new
    · rw [hplaces, hplace]
      exact above
    · rw [hshow, hplace, showAmong_map hplace hshow (hflag n)]
      exact shown

theorem edit {c : Cache} {p : Place} {change : Record → Record} (h : Grown c.nodes)
    (hflag : ∀ r, (change r).isShowRoot = r.isShowRoot) : Grown (c.editRecord p change).nodes := by
  refine h.map ?_ ?_ ?_
  · intro n
    split <;> rfl
  · intro n
    split <;> rfl
  · intro n
    split
    · exact hflag n.record
    · rfl

theorem findShows_concat (ns : List Node) (n : Node) :
    Cache.findShows (ns ++ [n]) = Cache.findShows ns ++
      [{ n with showRoot := Cache.showAmong (Cache.findShows ns) n.place n.record }] := by
  simp [Cache.findShows, List.foldl_append]

theorem places_findShows (ns : List Node) :
    (Cache.findShows ns).map Node.place = ns.map Node.place := by
  have hfold : ∀ (ns done : List Node),
      (ns.foldl (fun done n => done ++
        [{ n with showRoot := Cache.showAmong done n.place n.record }]) done).map Node.place =
      done.map Node.place ++ ns.map Node.place := by
    intro ns
    induction ns with
    | nil => simp
    | cons n ns ih =>
      intro done
      rw [List.foldl_cons, ih]
      simp
  exact hfold ns []

/-- Finding all show roots anew makes placed nodes grown. -/
theorem findShows {ns : List Node} {ps : List Place} (h : Placed ps)
    (hps : ns.map Node.place = ps) : Grown (Cache.findShows ns) := by
  induction h generalizing ns with
  | nil =>
    obtain rfl := List.map_eq_nil_iff.1 hps
    exact .nil
  | @snoc ps p before new above ih =>
    obtain ⟨ms, last, rfl, hms, hlast⟩ := List.map_eq_append_iff.1 hps
    obtain ⟨n, rfl, rfl⟩ := List.map_eq_singleton_iff.1 hlast
    rw [findShows_concat]
    refine .snoc (ih hms) ?_ ?_ rfl
    · rw [places_findShows, hms]
      exact new
    · rw [places_findShows, hms]
      exact above

theorem places_editRecord (c : Cache) (p : Place) (change : Record → Record) :
    (c.editRecord p change).nodes.map Node.place = c.nodes.map Node.place := by
  rw [Cache.editRecord, List.map_map]
  refine List.map_congr_left fun n _ => ?_
  simp only [Function.comp_apply]
  split <;> rfl

theorem markShowRoot {c : Cache} {p : Place} (h : Grown c.nodes) :
    Grown (c.markShowRoot p).nodes :=
  findShows h.placed (places_editRecord c p _)

end Grown

/-! ## 4. What can be done with a cache -/

section Deeds

variable {m : Type → Type} [Monad m] [FileSystem m]

/-- What a session does with its cache. -/
inductive Deed where
  | meet (p : Path)
  | meetWorkingPlace
  | showRelative (p : Path)
  /-- Asking a cursor for its next match. -/
  | next (cursor : Cursor) (seed : Place)
  | setProto (p : Place) (proto : Path)
  | save (p : Place)
  | markShowRoot (p : Place)
  /-- Any change of a record that leaves its mark as the root of a show alone. -/
  | edit (p : Place) (change : Record → Record) (h : ∀ r, (change r).isShowRoot = r.isShowRoot)

/-- Does it, whether it succeeds or fails. -/
def Deed.run : Deed → StateT Cache m Unit
  | .meet p => do let _ ← (Cache.meetPath p : Work m _).run
  | .meetWorkingPlace => do let _ ← (Cache.meetWorkingPlace : Work m _).run
  | .showRelative p => do let _ ← (Cache.showRelative p : Work m _).run
  | .next cursor seed => do let _ ← cursor.next seed
  | .setProto p proto => do let _ ← (Cache.setProto p proto : Work m _).run
  | .save p => do let _ ← (Cache.save p : Work m _).run
  | .markShowRoot p => modify (·.markShowRoot p)
  | .edit p change _ => modify (·.editRecord p change)

end Deeds

/-- The caches that deeds lead to from one that has met nothing, with a file system that
answers in any way and that anything can have happened to between two deeds. -/
inductive Reachable (σ : Type) [FileSystem (StateM σ)] : Cache → Prop
  | start {layout : Layout} {dir : Path} {c : Cache} (h : Cache.start layout dir = .ok c) :
      Reachable σ c
  | deed {c : Cache} (d : Deed) (s : σ) (before : Reachable σ c) :
      Reachable σ (((d.run : StateT Cache (StateM σ) Unit).run c).run s).1.2

/-! ## 5. Growing all the way -/

variable {σ : Type} [FileSystem (StateM σ)]

/-- A cache that has met nothing has a place to start from. -/
theorem Cache.eq_of_start {layout : Layout} {dir : Path} {c : Cache}
    (h : Cache.start layout dir = .ok c) : ∃ place, c = ⟨layout, place, []⟩ := by
  unfold start at h
  cases hdir : dir.toPlace with
  | error e =>
    rw [hdir] at h
    cases h
  | ok place =>
    rw [hdir] at h
    exact ⟨place, (Except.ok.inj h).symm⟩

theorem Cache.start_path (layout : Layout) (p : Place) :
    Cache.start layout p.path = .ok ⟨layout, p, []⟩ := by
  rw [start, Place.toPlace_path]
  rfl

theorem Reachable.empty (layout : Layout) (dir : Place) : Reachable σ ⟨layout, dir, []⟩ :=
  .start (Cache.start_path layout dir)

/-- The nodes of the cache are grown. -/
def IsGrown : Assertion σ :=
  fun c _ => Grown c.nodes

theorem calm_isGrown : Calm (fun _ _ => True) (fun _ _ _ => True) (@IsGrown σ) :=
  Calm.of_cache fun _ _ _ _ h hnew hdir => Grown.add h hnew hdir

/-- Every deed keeps what is said of the cache alone, if meeting objects keeps it, and so do
changes of one record. -/
theorem leads_deed_of {known : Path → Stat → Prop} {kept : Path → Bool → Record → Prop}
    {J : Cache → Prop} (hcalm : Calm known kept fun c (_ : σ) => J c)
    (hproper : ∀ c p change, Record.Proper change → J c → J (c.editRecord p change))
    (hmark : ∀ c p, J c → J (c.markShowRoot p)) (d : Deed)
    (hedit : ∀ p change h, d = .edit p change h → ∀ c, J c → J (c.editRecord p change)) :
    Leads (fun c (_ : σ) => J c) d.run fun _ c _ => J c := by
  have hsteady : Steady fun c (_ : σ) => J c := by
    refine ⟨hcalm.keeps_meet, fun p change hchange => ?_⟩
    have hmodify : Keeps (fun c (_ : σ) => J c)
        (modify (·.editRecord p change) : Work (StateM σ) PUnit) :=
      Triple.modify fun c _ h => hproper c p change hchange h
    exact Keeps.bind hmodify fun _ => Cache.keeps_save p
  cases d with
  | meet p => exact (hcalm.keeps_meetPath p).done
  | meetWorkingPlace => exact hcalm.keeps_meetWorkingPlace.done
  | showRelative p => exact (hcalm.keeps_showRelative p).done
  | next cursor seed => exact Leads.done (hcalm.leads_next cursor seed)
  | setProto p proto => exact (hsteady.setProto p proto).done
  | save p => exact (Cache.keeps_save p).done
  | markShowRoot p => exact fun c s h => hmark c p h
  | edit p change hflag => exact fun c s h => hedit p change hflag rfl c h

/-- Every deed keeps the nodes grown. -/
theorem leads_deed (d : Deed) : Leads (@IsGrown σ) d.run fun _ => IsGrown := by
  refine leads_deed_of calm_isGrown (fun c p change hchange h => h.edit hchange.mark)
    (fun c p h => h.markShowRoot) d ?_
  rintro p change hflag rfl c h
  exact h.edit hflag

/-- At any time, the nodes of a cache are grown. -/
theorem Reachable.grown {c : Cache} (h : Reachable σ c) : Grown c.nodes := by
  induction h with
  | @start layout dir c h =>
    obtain ⟨place, rfl⟩ := Cache.eq_of_start h
    exact .nil
  | deed d s _ ih => exact leads_deed d _ s ih

/-! ## 6. Nodes by number -/

namespace Cache

/-- The number of the node of an object. -/
def number? (c : Cache) (p : Place) : Option Nat :=
  c.nodes.findIdx? (·.place == p)

/-- The number of the node that a path names, part by part. -/
def numberOf? (c : Cache) (p : Path) : Option Nat :=
  (c.lookup? p).bind c.number?

/-- The number of the node of the directory that holds a node's object. -/
def parentOf? (c : Cache) (i : Nat) : Option Nat :=
  c.nodes[i]?.bind fun n => n.place.dir?.bind c.number?

/-- The number of the root of a node's show. -/
def showOf? (c : Cache) (i : Nat) : Option Nat :=
  c.nodes[i]?.bind fun n => n.showRoot.bind c.number?

/-- The numbers of a node and of those above it, nearest first. -/
def lineage (c : Cache) (i : Nat) : List Nat :=
  (c.nodes[i]?.map fun n => n.place.upward.filterMap c.number?).getD []

/-- What can be relied on about the nodes of a cache. -/
structure WellFormed (c : Cache) : Prop where
  /-- Paths and nodes belong together. -/
  index : ∀ p i, c.numberOf? p = some i ↔ ∃ n, c.nodes[i]? = some n ∧ n.place.path.same p
  /-- Following the dots of a node's path changes nothing. -/
  canonical : ∀ n ∈ c.nodes, n.place.path.toPlace = .ok n.place
  distinct : (c.nodes.map fun n => n.place.path.parts).Nodup
  root : ∀ i n, c.nodes[i]? = some n → n.place.path = ⟨"/"⟩ → c.parentOf? i = none
  /-- Every other node comes after its parent, which has the path above. -/
  parent : ∀ i n, c.nodes[i]? = some n → n.place.path ≠ ⟨"/"⟩ → ∃ j m, c.parentOf? i = some j ∧
    j < i ∧ c.nodes[j]? = some m ∧ n.place.path.parent? = some m.place.path
  /-- The root of a node's show is the nearest marked node above it, or itself. -/
  shown : ∀ i, c.showOf? i = (c.lineage i).find? fun j => c.nodes[j]?.any (·.record.isShowRoot)

variable {c : Cache}

theorem number?_eq_some_iff (h : Grown c.nodes) {p : Place} {i : Nat} :
    c.number? p = some i ↔ ∃ n, c.nodes[i]? = some n ∧ n.place = p := by
  rw [number?, List.findIdx?_eq_some_iff_getElem]
  constructor
  · rintro ⟨hi, hp, -⟩
    exact ⟨c.nodes[i], List.getElem?_eq_getElem hi, by simpa using hp⟩
  · rintro ⟨n, hn, rfl⟩
    obtain ⟨hi, rfl⟩ := List.getElem?_eq_some_iff.1 hn
    refine ⟨hi, by simp, fun j hj => ?_⟩
    have hlt : j < (c.nodes.map Node.place).length := by simp; omega
    have hne := List.pairwise_iff_getElem.1 h.placed.nodup j i hlt (by simpa using hi) hj
    simpa using hne

theorem number?_isSome_iff (h : Grown c.nodes) {p : Place} :
    (∃ i, c.number? p = some i) ↔ p ∈ c.nodes.map Node.place := by
  constructor
  · rintro ⟨i, hi⟩
    obtain ⟨n, hn, rfl⟩ := (number?_eq_some_iff h).1 hi
    exact List.mem_map_of_mem (List.mem_of_getElem? hn)
  · intro hp
    obtain ⟨n, hn, rfl⟩ := List.mem_map.1 hp
    obtain ⟨i, hi, rfl⟩ := List.mem_iff_getElem.1 hn
    exact ⟨i, (number?_eq_some_iff h).2 ⟨_, List.getElem?_eq_getElem hi, rfl⟩⟩

theorem numberOf?_eq_some_iff (h : Grown c.nodes) {p : Path} {i : Nat} :
    c.numberOf? p = some i ↔ ∃ n, c.nodes[i]? = some n ∧ n.place.path.same p := by
  have hlookup : ∀ q, c.lookup? p = some q ↔ p.parts = q.path.parts ∧ (c.node? q).isSome := by
    intro q
    rw [lookup?, ← Place.ofParts?_eq_some_iff]
    cases hq : Place.ofParts? p.parts with
    | none => simp
    | some r =>
      simp only [Option.bind_some, Option.map_eq_some_iff, Option.some.injEq]
      constructor
      · rintro ⟨n, hn, rfl⟩
        have hplace := (node?_eq_some hn).2
        exact ⟨hplace.symm, by rw [hplace, hn]; rfl⟩
      · rintro ⟨rfl, hr⟩
        obtain ⟨n, hn⟩ := Option.isSome_iff_exists.1 hr
        exact ⟨n, hn, (node?_eq_some hn).2⟩
  rw [numberOf?, Option.bind_eq_some_iff]
  constructor
  · rintro ⟨q, hq, hnumber⟩
    obtain ⟨n, hn, rfl⟩ := (number?_eq_some_iff h).1 hnumber
    exact ⟨n, hn, by simpa [Path.same] using ((hlookup _).1 hq).1.symm⟩
  · rintro ⟨n, hn, hsame⟩
    refine ⟨n.place, (hlookup _).2 ⟨?_, ?_⟩, (number?_eq_some_iff h).2 ⟨n, hn, rfl⟩⟩
    · have hparts : n.place.path.parts = p.parts := by simpa [Path.same] using hsame
      simpa [Path.same] using hparts.symm
    · exact node?_isSome_iff.2 ⟨n, List.mem_of_getElem? hn, rfl⟩

theorem find?_lineage (h : Grown c.nodes) :
    ∀ {places : List Place}, (∀ p ∈ places, p ∈ c.nodes.map Node.place) →
      (places.filterMap c.number?).find? (fun j => c.nodes[j]?.any (·.record.isShowRoot)) =
        (places.find? (Grown.marked c.nodes)).bind c.number?
  | [], _ => rfl
  | p :: rest, hmet => by
    obtain ⟨i, hi⟩ := (number?_isSome_iff h).2 (hmet p (by simp))
    obtain ⟨n, hn, rfl⟩ := (number?_eq_some_iff h).1 hi
    have ih := find?_lineage h fun q (hq : q ∈ rest) => hmet q (List.mem_cons_of_mem _ hq)
    have hnode := h.find?_of_mem (List.mem_of_getElem? hn)
    rw [List.filterMap_cons_some hi, List.find?_cons, List.find?_cons, ih]
    have hmark : Grown.marked c.nodes n.place = n.record.isShowRoot := by
      rw [Grown.marked, hnode]
      rfl
    rw [hn, hmark, Option.any_some]
    cases n.record.isShowRoot with
    | true => simp [hi]
    | false => rfl

end Cache

open Cache in
theorem Grown.wellFormed {c : Cache} (h : Grown c.nodes) : c.WellFormed where
  index _ _ := numberOf?_eq_some_iff h
  canonical n _ := n.place.toPlace_path
  distinct := by
    have hparts : (fun n : Node => n.place.path.parts) = (fun p => p.path.parts) ∘ Node.place := rfl
    rw [hparts, ← List.map_map]
    refine List.Pairwise.map _ ?_ h.placed.nodup
    intro p q hne he
    refine hne ?_
    have hp := Place.ofParts?_eq_some_iff.2 he
    rw [Place.ofParts?_eq_some_iff.2 rfl] at hp
    exact Option.some.inj hp
  root i n hn hroot := by
    have hplace : n.place = .root := Place.path_injective hroot
    simp [parentOf?, hn, hplace, Place.dir?]
  parent i n hn hroot := by
    cases hplace : n.place with
    | root => exact absurd (by rw [hplace]; rfl) hroot
    | entry dir name =>
      have hget : (c.nodes.map Node.place)[i]? = some n.place := by simp [hn]
      obtain ⟨j, hj, hdir⟩ := h.placed.dir_before i n.place hget dir (by rw [hplace]; rfl)
      obtain ⟨m, hm, rfl⟩ : ∃ m, c.nodes[j]? = some m ∧ m.place = dir := by simpa using hdir
      refine ⟨j, m, ?_, hj, hm, Place.parent?_path_entry _ _⟩
      simp [parentOf?, hn, hplace, Place.dir?, (number?_eq_some_iff h).2 ⟨m, hm, rfl⟩]
  shown i := by
    cases hn : c.nodes[i]? with
    | none => simp [showOf?, lineage, hn]
    | some n =>
      have hmem : n ∈ c.nodes := List.mem_of_getElem? hn
      have hup := h.placed.upward_subset n.place (List.mem_map_of_mem hmem)
      rw [showOf?, lineage, hn, Option.bind_some, Option.map_some, Option.getD_some,
        find?_lineage h fun p hp => hup hp, h.showRoot_eq n hmem]

end ShowTree
