/-
ShowTree.Proofs.Cache.Reading — what is kept by work that only reads.

Most of what a session does reads: it asks the file system and meets objects. An assertion
is `Calm` if it survives the questions and the one change of the cache that meeting an
object makes, of which may be used what is known of the object at that moment: its
directory has been met, the file system has described it, and its record has been read.
A calm assertion is then kept by all work that reads, whatever the file system answers
(`Calm.meet` and what follows it), that of cursors included (`Calm.leads_next`).
-/
import ShowTree.Cursor
import ShowTree.Proofs.Path.Canonical
import ShowTree.Proofs.Work.Triple
import ShowTree.Session.Basic

namespace ShowTree

/-! ## 1. The nodes of a cache -/

theorem Place.toPlace_path (p : Place) : p.path.toPlace = .ok p := by
  rw [Path.toPlace, Place.ofPath?_path]

namespace Cache

theorem node?_eq_some {c : Cache} {p : Place} {n : Node} (h : c.node? p = some n) :
    n ∈ c.nodes ∧ n.place = p := by
  refine ⟨List.mem_of_find?_eq_some h, ?_⟩
  simpa using List.find?_some h

theorem node?_isSome_iff {c : Cache} {p : Place} :
    (c.node? p).isSome ↔ ∃ n ∈ c.nodes, n.place = p := by
  simp [node?, List.find?_isSome]

theorem node?_eq_none_iff {c : Cache} {p : Place} :
    c.node? p = none ↔ ∀ n ∈ c.nodes, n.place ≠ p := by
  simp [node?, List.find?_eq_none]

theorem node?_add {c : Cache} {p q : Place} {stat : Stat} {record : Record} :
    (c.add p stat record).node? q =
      (c.node? q).or
        (if p = q then some ⟨p, stat, showAmong c.nodes p record, record⟩ else none) := by
  by_cases h : p = q <;> simp [node?, add, List.find?_append, h]

theorem node?_add_isSome {c : Cache} {p : Place} {stat : Stat} {record : Record} :
    ((c.add p stat record).node? p).isSome := by
  simp [node?_add]

/-- Meeting an object does not change the nodes of others. -/
theorem nodeAt_add {c : Cache} {p q : Place} {st : Stat} {r : Record}
    (h : (c.node? q).isSome) : (c.add p st r).nodeAt q = c.nodeAt q := by
  obtain ⟨n, hn⟩ := Option.isSome_iff_exists.1 h
  rw [nodeAt, nodeAt, node?_add, hn, Option.some_or]

end Cache

/-! ## 2. Assertions that reading keeps -/

variable {σ : Type} [FileSystem (StateM σ)]

/-- An assertion that is kept by questions to the file system, and by adding an object to
the cache that has not been met but whose directory has, of which the file system has said
what is `known`, and whose record was found `kept`. -/
structure Calm (known : Path → Stat → Prop) (kept : Path → Bool → Record → Prop)
    (I : Assertion σ) : Prop where
  stat : ∀ p c s, I c s → I c ((FileSystem.stat p : StateM σ _).run s).2 ∧
    ∀ st, ((FileSystem.stat p : StateM σ _).run s).1 = .ok st → known p st
  load : ∀ p isDir c₀, Triple (fun c s => I c s ∧ c = c₀) (Cache.loadRecord p isDir)
    (fun r c s => (I c s ∧ c = c₀) ∧ kept p isDir r) (fun _ c s => I c s ∧ c = c₀)
  list : ∀ p c s, I c s → I c ((FileSystem.list p : StateM σ _).run s).2
  present : ∀ p c s, I c s → I c ((FileSystem.present p : StateM σ _).run s).2
  isDir : ∀ p c s, I c s → I c ((FileSystem.isDir p : StateM σ _).run s).2
  add : ∀ c s p st r, I c s → c.node? p = none →
    (∀ dir, p.dir? = some dir → (c.node? dir).isSome) →
    known p.path st → kept p.path st.isDir r → I (c.add p st r) s

/-- The record that a file holds, by what reading it answers: none is a blank one. -/
def Cache.recordIn (file : Path) : Except FileError ByteArray → Except Failure Record
  | .ok content =>
    match Record.decode? content with
    | some record => .ok record
    | none => .error (.badRecord file)
  | .error e => if e.isNotFound then .ok .blank else .error (.io file e)

/-- Reading a record reads one file and leaves the cache alone. -/
theorem Cache.run_loadRecord (p : Path) (isDir : Bool) (c : Cache) (s : σ) :
    ((loadRecord p isDir : Work (StateM σ) _).run.run c).run s =
      let file := c.layout.recordPath p isDir
      ((recordIn file ((FileSystem.read file : StateM σ _).run s).1, c),
        ((FileSystem.read file : StateM σ _).run s).2) := by
  rw [loadRecord, run_bind, run_get]
  dsimp only
  rw [run_bind, run_query]
  dsimp only
  cases ((FileSystem.read (c.layout.recordPath p isDir) : StateM σ _).run s).1 with
  | ok content =>
    simp only [recordIn]
    cases Record.decode? content <;> rfl
  | error e =>
    simp only [recordIn]
    cases e.isNotFound <;> rfl

/-- What meeting an object comes to, step by step. -/
theorem Cache.run_meetAfter (p : Place) (meetDir : Work (StateM σ) Unit) (c : Cache) (s : σ) :
    ((meetAfter p meetDir).run.run c).run s =
      if (c.node? p).isSome then ((.ok (), c), s)
      else
        let asked := (FileSystem.stat p.path : StateM σ _).run s
        match asked.1 with
        | .error e => ((.error (.io p.path e), c), asked.2)
        | .ok stat =>
          let above := (meetDir.run.run c).run asked.2
          match above.1.1 with
          | .error e => ((.error e, above.1.2), above.2)
          | .ok () =>
            let file := above.1.2.layout.recordPath p.path stat.isDir
            let content := (FileSystem.read file : StateM σ _).run above.2
            match recordIn file content.1 with
            | .error e => ((.error e, above.1.2), content.2)
            | .ok record => ((.ok (), above.1.2.add p stat record), content.2) := by
  rw [meetAfter, run_bind, run_get]
  dsimp only
  cases c.node? p with
  | some n => rfl
  | none =>
    simp only [Option.isSome_none, Bool.false_eq_true, if_false]
    rw [run_bind, run_call]
    cases ((FileSystem.stat p.path : StateM σ _).run s).1 with
    | error e => rfl
    | ok stat =>
      dsimp only [Except.mapError]
      rw [run_bind]
      rcases (meetDir.run.run c).run ((FileSystem.stat p.path : StateM σ _).run s).2
        with ⟨⟨r, c₁⟩, s₁⟩
      cases r with
      | error e => rfl
      | ok _ =>
        dsimp only
        rw [run_bind, run_loadRecord]
        dsimp only
        cases recordIn (c₁.layout.recordPath p.path stat.isDir)
          ((FileSystem.read (c₁.layout.recordPath p.path stat.isDir) : StateM σ _).run s₁).1 <;> rfl

/-- What has been met is not met again. -/
theorem Cache.run_meet_of_met {c : Cache} {s : σ} {p : Place} (h : (c.node? p).isSome) :
    ((meet p : Work (StateM σ) Unit).run.run c).run s = ((.ok (), c), s) := by
  cases p with
  | root => rw [meet, run_meetAfter, if_pos h]
  | entry dir name => rw [meet, run_meetAfter, if_pos h]

theorem Cache.run_meetWorkingPlace_of_met {c : Cache} {s : σ}
    (h : (c.node? c.workingPlace).isSome) :
    ((meetWorkingPlace : Work (StateM σ) Place).run.run c).run s =
      ((.ok c.workingPlace, c), s) := by
  rw [meetWorkingPlace, run_bind, run_get]
  dsimp only
  rw [run_bind, run_meet_of_met h]
  rfl

/-- Meeting the object of a path is meeting that of the place it leads to. -/
theorem Cache.run_meetPath_of_toPlace {p : Path} {place : Place} (h : p.toPlace = .ok place)
    (c : Cache) (s : σ) : ((meetPath p : Work (StateM σ) Place).run.run c).run s =
      let met := ((meet place : Work (StateM σ) Unit).run.run c).run s
      ((met.1.1.map fun _ => place, met.1.2), met.2) := by
  rw [meetPath, run_bind, run_ofExcept, h]
  dsimp only
  rw [run_bind]
  rcases ((meet place : Work (StateM σ) Unit).run.run c).run s with ⟨⟨r, c'⟩, s'⟩
  cases r <;> rfl

/-- What is said of the cache alone is calm if it survives adding an object with a record that
can be read. -/
theorem Calm.of_records {J : Cache → Prop} {kept : Record → Prop}
    (hkept : ∀ file answer r, Cache.recordIn file answer = .ok r → kept r)
    (hadd : ∀ c p st r, J c → c.node? p = none →
      (∀ dir, p.dir? = some dir → (c.node? dir).isSome) → kept r → J (c.add p st r)) :
    Calm (fun _ _ => True) (fun _ _ r => kept r) (fun c (_ : σ) => J c) where
  stat _ _ _ h := ⟨h, fun _ _ => trivial⟩
  load p isDir c₀ := by
    intro c s hi
    rw [Cache.run_loadRecord]
    dsimp only
    cases hr : Cache.recordIn (c.layout.recordPath p isDir)
        ((FileSystem.read (c.layout.recordPath p isDir) : StateM σ _).run s).1 with
    | ok r => exact ⟨hi, hkept _ _ r hr⟩
    | error e => exact hi
  list _ _ _ h := h
  present _ _ _ h := h
  isDir _ _ _ h := h
  add c _ p st r h hnew hdir _ hr := hadd c p st r h hnew hdir hr

/-- What is said of the cache alone is calm if it survives adding an object. -/
theorem Calm.of_cache {J : Cache → Prop} (hadd : ∀ c p st r, J c → c.node? p = none →
    (∀ dir, p.dir? = some dir → (c.node? dir).isSome) → J (c.add p st r)) :
    Calm (fun _ _ => True) (fun _ _ _ => True) (fun c (_ : σ) => J c) :=
  Calm.of_records (fun _ _ _ _ => trivial) fun c p st r h hnew hdir _ => hadd c p st r h hnew hdir

/-- What reading keeps, given that the file system stays in the state it is in. -/
theorem Leads.of_calm {α : Type} {known : σ → Path → Stat → Prop}
    {kept : σ → Path → Bool → Record → Prop} {I : Assertion σ} {w : StateT Cache (StateM σ) α}
    (hcalm : ∀ s₀, Calm (known s₀) (kept s₀) fun c s => s = s₀ ∧ I c s₀)
    (h : ∀ {known kept J}, Calm known kept J → Leads J w fun _ => J) : Leads I w fun _ => I := by
  intro c s hi
  have hout := h (hcalm s) c s ⟨rfl, hi⟩
  dsimp only at hout ⊢
  rw [hout.1]
  exact hout.2

theorem Keeps.of_calm {α ε : Type} {known : σ → Path → Stat → Prop}
    {kept : σ → Path → Bool → Record → Prop} {I : Assertion σ}
    {w : ExceptT ε (StateT Cache (StateM σ)) α}
    (hcalm : ∀ s₀, Calm (known s₀) (kept s₀) fun c s => s = s₀ ∧ I c s₀)
    (h : ∀ {known kept J}, Calm known kept J → Keeps J w) : Keeps I w := by
  refine Keeps.of_frozen fun s₀ => (h (hcalm s₀)).imp ?_ ?_ ?_
  · rintro c s ⟨rfl, hi⟩
    exact ⟨rfl, hi⟩
  · rintro _ c s ⟨rfl, hi⟩
    exact ⟨rfl, hi⟩
  · rintro _ c s ⟨rfl, hi⟩
    exact ⟨rfl, hi⟩

namespace Calm

variable {known : Path → Stat → Prop} {kept : Path → Bool → Record → Prop} {I : Assertion σ}

/-! ## 3. Meeting objects -/

/-- Meeting an object after its directory, seen from what has not been met: the objects
that are `absent` stay so, if the object is not among them. -/
theorem meetAfter (h : Calm known kept I) {absent : Place → Prop} {p : Place}
    {meetDir : Work (StateM σ) Unit} (hp : ¬ absent p)
    (hdir : Triple (fun c s => I c s ∧ ∀ q, absent q ∨ q = p → c.node? q = none) meetDir
      (fun _ c s => (I c s ∧ ∀ q, absent q ∨ q = p → c.node? q = none) ∧
        ∀ dir, p.dir? = some dir → (c.node? dir).isSome)
      (fun _ c s => I c s ∧ ∀ q, absent q ∨ q = p → c.node? q = none)) :
    Triple (fun c s => I c s ∧ ∀ q, absent q → c.node? q = none) (Cache.meetAfter p meetDir)
      (fun _ c s => (I c s ∧ ∀ q, absent q → c.node? q = none) ∧ (c.node? p).isSome)
      (fun _ c s => I c s ∧ ∀ q, absent q → c.node? q = none) := by
  refine Triple.bind Triple.get fun c₀ => ?_
  cases hnode : c₀.node? p with
  | some n =>
    refine Triple.pure ?_
    rintro c s ⟨rfl, hi⟩
    exact ⟨hi, by simp [hnode]⟩
  | none =>
    have hweak : ∀ c s, (I c s ∧ ∀ q, absent q ∨ q = p → c.node? q = none) →
        I c s ∧ ∀ q, absent q → c.node? q = none :=
      fun c s hi => ⟨hi.1, fun q hq => hi.2 q (.inl hq)⟩
    refine Triple.bind (Q := fun st c s => (I c s ∧ ∀ q, absent q ∨ q = p → c.node? q = none) ∧
      known p.path st) (Triple.call ?_) fun st => ?_
    · rintro c s ⟨rfl, hi, habsent⟩
      have hfresh : ∀ q, absent q ∨ q = p → c₀.node? q = none :=
        fun q hq => hq.elim (habsent q) fun e => e ▸ hnode
      obtain ⟨hkeep, hknown⟩ := h.stat p.path c₀ s hi
      change Outcome _ _ ((FileSystem.stat p.path : StateM σ _).run s).1 c₀
        ((FileSystem.stat p.path : StateM σ _).run s).2
      cases hst : ((FileSystem.stat p.path : StateM σ _).run s).1 with
      | ok st => exact ⟨⟨hkeep, hfresh⟩, hknown st hst⟩
      | error e => exact hweak _ _ ⟨hkeep, hfresh⟩
    · refine Triple.of_fact fun hknown => ?_
      refine Triple.bind (hdir.imp (fun _ _ hi => hi) (fun _ _ _ hi => hi) fun _ => hweak)
        fun _ => ?_
      refine Triple.of_forall fun c₁ s₁ hi => ?_
      refine Triple.bind (((h.load p.path st.isDir c₁)).imp ?_ (fun _ _ _ hr => hr) ?_) fun r => ?_
      · rintro c s ⟨rfl, rfl⟩
        exact ⟨hi.1.1, rfl⟩
      · rintro e c s ⟨hic, rfl⟩
        exact hweak _ _ ⟨hic, hi.1.2⟩
      · refine Triple.of_fact fun hkept => Triple.modify ?_
        rintro c s ⟨hic, rfl⟩
        have hadd := h.add c s p st r hic (hi.1.2 p (.inr rfl)) hi.2 hknown hkept
        refine ⟨⟨hadd, fun q hq => ?_⟩, Cache.node?_add_isSome⟩
        have hne : p ≠ q := fun e => hp (e ▸ hq)
        simp [Cache.node?_add, hne, hi.1.2 q (.inl hq)]

/-- Meeting an object keeps a calm assertion, and when it succeeds the object has been met. -/
theorem meet_absent (h : Calm known kept I) : ∀ (p : Place) (absent : Place → Prop),
    (∀ q ∈ p.upward, ¬ absent q) →
    Triple (fun c s => I c s ∧ ∀ q, absent q → c.node? q = none) (Cache.meet p)
      (fun _ c s => (I c s ∧ ∀ q, absent q → c.node? q = none) ∧ (c.node? p).isSome)
      (fun _ c s => I c s ∧ ∀ q, absent q → c.node? q = none)
  | .root, absent, hp => by
    refine meetAfter h (hp _ (Place.self_mem_upward _)) (Triple.pure fun c s hi => ⟨hi, ?_⟩)
    intro dir hdir
    simp [Place.dir?] at hdir
  | .entry dir name, absent, hp => by
    refine meetAfter h (hp _ (Place.self_mem_upward _)) ?_
    have hdir : ∀ q ∈ dir.upward, ¬ (absent q ∨ q = .entry dir name) := by
      intro q hq hor
      rcases hor with habs | rfl
      · exact hp q (List.mem_cons_of_mem _ hq) habs
      · exact Place.entry_not_mem_upward hq
    refine (meet_absent h dir _ hdir).post ?_
    rintro _ c s ⟨hi, hmet⟩
    refine ⟨hi, fun d hd => ?_⟩
    have : dir = d := by simpa [Place.dir?] using hd
    exact this ▸ hmet

theorem meet (h : Calm known kept I) (p : Place) :
    Triple I (Cache.meet p) (fun _ c s => I c s ∧ (c.node? p).isSome) (fun _ => I) :=
  (meet_absent h p (fun _ => False) fun _ _ hf => hf).imp
    (fun _ _ hi => ⟨hi, fun _ hf => hf.elim⟩) (fun _ _ _ hi => ⟨hi.1.1, hi.2⟩) fun _ _ _ hi => hi.1

theorem keeps_meet (h : Calm known kept I) (p : Place) : Keeps I (Cache.meet p) :=
  (h.meet p).post fun _ _ _ hi => hi.1

theorem meetPath (h : Calm known kept I) (p : Path) :
    Triple I (Cache.meetPath p)
      (fun place c s => I c s ∧ (c.node? place).isSome ∧ p.toPlace = .ok place) (fun _ => I) := by
  refine Triple.bind (Q := fun place c s => I c s ∧ p.toPlace = .ok place) (Triple.ofExcept ?_)
    fun place => ?_
  · intro c s hi
    cases hp : p.toPlace with
    | ok place => exact ⟨hi, rfl⟩
    | error e => exact hi
  · refine Triple.of_fact fun hp => Triple.bind (h.meet place) fun _ => Triple.pure ?_
    exact fun c s hi => ⟨hi.1, hi.2, hp⟩

theorem keeps_meetPath (h : Calm known kept I) (p : Path) : Keeps I (Cache.meetPath p) :=
  (h.meetPath p).post fun _ _ _ hi => hi.1

theorem meetWorkingPlace (h : Calm known kept I) :
    Triple I Cache.meetWorkingPlace (fun place c s => I c s ∧ (c.node? place).isSome)
      (fun _ => I) := by
  refine Triple.bind Triple.get fun c₀ => ?_
  refine Triple.bind ((h.meet c₀.workingPlace).imp (fun _ _ hi => hi.2) (fun _ _ _ hi => hi)
    fun _ _ _ hi => hi) fun _ => Triple.pure ?_
  exact fun _ _ hi => hi

theorem keeps_meetWorkingPlace (h : Calm known kept I) : Keeps I Cache.meetWorkingPlace :=
  h.meetWorkingPlace.post fun _ _ _ hi => hi.1

theorem keeps_meetIfPresent (h : Calm known kept I) (p : Path) :
    Keeps I (Cache.meetIfPresent p) := by
  refine Keeps.bind (Keeps.attempt (h.keeps_meetPath p)) fun r => ?_
  cases r with
  | ok place => exact Keeps.pure _
  | error e => exact Keeps.ite (Keeps.pure _) (Keeps.throw _)

/-! ## 4. Asking the file system -/

theorem keeps_query_present (h : Calm known kept I) (p : Path) :
    Keeps I (Work.query (FileSystem.present p)) :=
  Keeps.query (h.present p)

theorem keeps_query_isDir (h : Calm known kept I) (p : Path) :
    Keeps I (Work.query (FileSystem.isDir p)) :=
  Keeps.query (h.isDir p)

theorem keeps_listVisible (h : Calm known kept I) (p : Path) : Keeps I (Cache.listVisible p) :=
  Keeps.bind (Keeps.call (h.list p)) fun _ => Keeps.bind Keeps.get fun _ => Keeps.pure _

theorem keeps_children (h : Calm known kept I) (p : Place) : Keeps I (Cache.children p) :=
  Keeps.bind Keeps.get fun _ => Keeps.ite (h.keeps_listVisible _) (Keeps.pure _)

theorem keeps_showRelative (h : Calm known kept I) (p : Path) : Keeps I (Cache.showRelative p) := by
  refine Keeps.bind (h.keeps_meetPath p) fun place => Keeps.bind Keeps.get fun c => ?_
  split
  · exact Keeps.pure _
  · exact Keeps.throw _

/-! ## 5. Selectors -/

theorem keeps_candidate (h : Calm known kept I) (seed : Place) :
    ∀ segment : Segment, Keeps I (segment.candidate seed)
  | .fileRoot => Keeps.map (h.keeps_meetPath _)
  | .showRoot => Keeps.bind Keeps.get fun c => by
    cases c.showAt seed with
    | some place => exact Keeps.pure _
    | none => exact Keeps.throw _
  | .up _ => Keeps.pure _
  | .name _ => Keeps.bind Keeps.get fun _ => Keeps.ite (h.keeps_meetIfPresent _) (Keeps.pure _)
  | .wildcard _ => Keeps.pure _

omit [FileSystem (StateM σ)] in
/-- Going on from what was found, if anything was. -/
theorem keeps_goOn {β : Type} {onward : Place → Work (StateM σ) (List β)}
    (honward : ∀ p, Keeps I (onward p)) (found : Option Place) : Keeps I (match found with
      | some found => onward found
      | none => pure []) := by
  cases found with
  | some place => exact honward place
  | none => exact Keeps.pure _

theorem keeps_search {β : Type} (h : Calm known kept I) {visit : Place → Work (StateM σ) β}
    (hvisit : ∀ p, Keeps I (visit p)) :
    ∀ (segments : List Segment) (seed : Place), Keeps I (Segment.search visit segments seed)
  | [], seed => Keeps.bind (hvisit seed) fun _ => Keeps.pure _
  | segment :: rest, seed => by
    have hfound := keeps_goOn (keeps_search h hvisit rest)
    cases segment with
    | wildcard pattern =>
      refine Keeps.bind (h.keeps_children seed) fun names => Keeps.gather (fun name => ?_) _
      exact Keeps.bind (h.keeps_meetIfPresent _) hfound
    | _ => exact Keeps.bind (h.keeps_candidate seed _) hfound

theorem keeps_candidates (h : Calm known kept I) (anchor : Place) :
    ∀ (segments : List Segment) (base : Path), Keeps I (Segment.candidates anchor segments base)
  | [], _ => Keeps.pure _
  | .fileRoot :: rest, _ => keeps_candidates h anchor rest _
  | .showRoot :: rest, _ => Keeps.bind Keeps.get fun c => by
    cases c.showAt anchor with
    | some place => exact keeps_candidates h anchor rest _
    | none => exact Keeps.throw _
  | .up _ :: rest, base => keeps_candidates h anchor rest _
  | .name _ :: rest, base => keeps_candidates h anchor rest _
  | .wildcard _ :: rest, base => by
    refine Keeps.bind (h.keeps_query_isDir base) fun _ => Keeps.ite ?_ (Keeps.pure _)
    refine Keeps.bind (h.keeps_listVisible base) fun names => Keeps.gather (fun name => ?_) _
    have hhold : Keeps I (Segment.canHold rest (base.join name)) :=
      Keeps.ite (Keeps.pure _) (h.keeps_query_isDir _)
    exact Keeps.bind hhold fun _ => Keeps.ite (keeps_candidates h anchor rest _) (Keeps.pure _)

omit [FileSystem (StateM σ)] in
theorem keeps_describe (formula : Option Formula) (p : Place) :
    Keeps I (Expression.describe formula p : Work (StateM σ) Value) := by
  cases formula with
  | some f => exact Keeps.bind Keeps.get fun _ => Keeps.ofExcept _
  | none => exact Keeps.pure _

theorem keeps_eval (h : Calm known kept I) (e : Expression) (dir : Place) :
    Keeps I (e.eval dir) := by
  unfold Expression.eval
  cases e.selector with
  | some s =>
    exact Keeps.map (Keeps.ite (Keeps.pure _) (h.keeps_search (keeps_describe e.formula) _ _))
  | none => exact Keeps.bind Keeps.get fun _ => Keeps.ofExcept _

theorem keeps_generate (h : Calm known kept I) (e : Expression) (dir : Place) :
    Keeps I (e.generate dir) := by
  obtain ⟨source, selector, formula⟩ := e
  cases selector with
  | some s =>
    have hpaths := h.keeps_candidates dir s.segments dir.path
    exact Keeps.ite (Keeps.bind (Keeps.throw _) fun _ => hpaths) hpaths
  | none => exact Keeps.ite (Keeps.bind (Keeps.throw _) fun _ => Keeps.pure _) (Keeps.pure _)

/-! ## 6. Prototypes -/

theorem keeps_ownProtoDir (h : Calm known kept I) (p : Place) : Keeps I (Cache.ownProtoDir p) := by
  refine Keeps.bind Keeps.get fun _ => Keeps.bind Keeps.get fun _ => Keeps.ite ?_ (Keeps.pure _)
  exact Keeps.bind (h.keeps_query_isDir _) fun _ => Keeps.ite (Keeps.pure _) (Keeps.pure _)

theorem keeps_protoDirs (h : Calm known kept I) : ∀ p : Place, Keeps I (Cache.protoDirs p)
  | .root => h.keeps_ownProtoDir .root
  | .entry dir name => by
    refine Keeps.bind (h.keeps_ownProtoDir _) fun _ => Keeps.bind Keeps.get fun _ => ?_
    refine Keeps.ite (Keeps.pure _) (Keeps.bind (keeps_protoDirs h dir) fun _ => Keeps.pure _)

theorem keeps_firstPresent (h : Calm known kept I) :
    ∀ paths : List Path, Keeps I (Cache.firstPresent paths)
  | [] => Keeps.pure _
  | p :: rest => Keeps.bind (h.keeps_query_present p) fun _ =>
    Keeps.ite (Keeps.pure _) (keeps_firstPresent h rest)

theorem keeps_findAmong (h : Calm known kept I) (p : Place) (names : List String) :
    Keeps I (Cache.findAmong p names) :=
  Keeps.bind (h.keeps_protoDirs p) fun _ => h.keeps_firstPresent _

theorem keeps_findProto (h : Calm known kept I) (p : Place) (name : String) :
    Keeps I (Cache.findProto p name) := by
  refine Keeps.bind (h.keeps_findAmong p [name]) fun found => ?_
  cases found with
  | some path => exact Keeps.pure _
  | none => exact Keeps.throw _

theorem keeps_listProtos (h : Calm known kept I) (p : Place) : Keeps I (Cache.listProtos p) := by
  refine Keeps.bind Keeps.get fun _ => Keeps.bind Keeps.get fun c => ?_
  split
  · exact Keeps.throw _
  · refine Keeps.bind (h.keeps_protoDirs _) fun _ => Keeps.bind (Keeps.gather (fun dir => ?_) _)
      fun _ => Keeps.pure _
    exact Keeps.bind (h.keeps_listVisible dir) fun _ => Keeps.pure _

/-! ## 7. Sessions -/

theorem keeps_find (h : Calm known kept I) (target : String) : Keeps I (Session.find target) := by
  refine Keeps.bind h.keeps_meetWorkingPlace fun dir => Keeps.bind Keeps.get fun _ => ?_
  refine Keeps.bind (Keeps.ofExcept _) fun place => Keeps.bind (h.keeps_meet place) fun _ => ?_
  exact Keeps.pure _

omit [FileSystem (StateM σ)] in
theorem keeps_parse (source : String) :
    Keeps I (Session.parse source : Action (StateM σ) Expression) := by
  refine fun c s hi => ?_
  change Outcome _ _ ((Expression.parse source).mapError Refusal.illFormed) c s
  cases Expression.parse source with
  | ok e => exact hi
  | error e => exact hi

theorem keeps_sessionEval (h : Calm known kept I) (source : String) :
    Keeps I (Session.eval source : Action (StateM σ) Value) :=
  Keeps.bind (keeps_parse source) fun e => Keeps.adapt <|
    Keeps.bind h.keeps_meetWorkingPlace fun dir => h.keeps_eval e dir

theorem keeps_sessionGenerate (h : Calm known kept I) (source : String) :
    Keeps I (Session.generate source : Action (StateM σ) (List Path)) :=
  Keeps.bind (keeps_parse source) fun e => Keeps.adapt <|
    Keeps.bind h.keeps_meetWorkingPlace fun dir => h.keeps_generate e dir

theorem keeps_generateSome (h : Calm known kept I) (source : String) :
    Keeps I (Session.generateSome source : Action (StateM σ) (List Path)) :=
  Keeps.bind (h.keeps_sessionGenerate source) fun _ => Keeps.ite (Keeps.throw _) (Keeps.pure _)

theorem keeps_showRoot (h : Calm known kept I) (target : String) :
    Keeps I (Session.showRoot target : Action (StateM σ) Path) := by
  refine Keeps.adapt (Keeps.bind (h.keeps_find target) fun place => ?_)
  refine Keeps.bind Keeps.get fun c => ?_
  cases c.showAt place with
  | some above => exact Keeps.pure _
  | none => exact Keeps.throw _

theorem keeps_protoOf (h : Calm known kept I) (target : String) :
    Keeps I (Session.protoOf target : Action (StateM σ) (Option String)) :=
  Keeps.adapt <| Keeps.bind (h.keeps_find target) fun _ =>
    Keeps.bind Keeps.get fun _ => Keeps.pure _

theorem keeps_sessionListProtos (h : Calm known kept I) (target : String) :
    Keeps I (Session.listProtos target : Action (StateM σ) (Dictionary String)) :=
  Keeps.adapt <| Keeps.bind (h.keeps_find target) fun place => h.keeps_listProtos place

theorem keeps_chooseProto (h : Calm known kept I) (place : Place) (proto : Option String) :
    Keeps I (Session.chooseProto place proto) := by
  cases proto with
  | some name => exact Keeps.map (h.keeps_findProto place.up name)
  | none =>
    refine Keeps.bind Keeps.get fun _ => Keeps.ite ?_ (Keeps.pure _)
    exact Keeps.bind Keeps.get fun _ => h.keeps_findAmong _ _

/-! ## 8. Cursors -/

omit [FileSystem (StateM σ)] in
theorem leads_follow {last : Bool} {pull : Puller (StateM σ)}
    (hpull : ∀ p rest, Leads I (pull p rest) fun _ => I) (place : Place) (rest : List Progress) :
    Leads I (Cursor.follow last pull place rest) fun _ => I := by
  unfold Cursor.follow
  split
  · exact Leads.pure fun _ _ hi => hi
  · refine Leads.bind (hpull place rest) fun answer => ?_
    obtain ⟨answer, rest⟩ := answer
    rcases answer with e | found | found <;> exact Leads.pure fun _ _ hi => hi

omit [FileSystem (StateM σ)] in
theorem leads_followListed {pull others : Puller (StateM σ)}
    (hpull : ∀ p rest, Leads I (pull p rest) fun _ => I)
    (hothers : ∀ p rest, Leads I (others p rest) fun _ => I) (names : List String)
    (place seed : Place) (rest : List Progress) :
    Leads I (Cursor.followListed pull names place others seed rest) fun _ => I := by
  refine Leads.bind (hpull place rest) fun answer => ?_
  obtain ⟨answer, rest⟩ := answer
  rcases answer with e | found | found
  · exact Leads.pure fun _ _ hi => hi
  · exact hothers seed rest
  · exact Leads.pure fun _ _ hi => hi

theorem leads_pullFresh (h : Calm known kept I) (last : Bool) {pull : Puller (StateM σ)}
    (hpull : ∀ p rest, Leads I (pull p rest) fun _ => I) (s : Segment) (seed : Place)
    (rest : List Progress) : Leads I (do
      match ← (s.candidate seed : Work (StateM σ) _).run with
      | .ok (some place) => Cursor.follow last pull place rest
      | .ok none => pure (.ok none, .fresh :: rest)
      | .error e => pure (.error e, .fresh :: rest)) fun _ => I := by
  refine Leads.bind (h.keeps_candidate seed s).leads fun r => ?_
  rcases r with e | found | place
  · exact Leads.pure fun _ _ hi => hi
  · exact Leads.pure fun _ _ hi => hi
  · exact leads_follow hpull place rest

theorem leads_pullSingle (h : Calm known kept I) {last : Bool} {pull : Puller (StateM σ)}
    (hpull : ∀ p rest, Leads I (pull p rest) fun _ => I) (s : Segment) (seed : Place)
    (own : Progress) (rest : List Progress) :
    Leads I (Cursor.pullSingle s last pull seed own rest) fun _ => I := by
  have hfresh := h.leads_pullFresh last hpull s seed rest
  cases own with
  | spent => exact Leads.pure fun _ _ hi => hi
  | following place => exact leads_follow hpull place rest
  | fresh => exact hfresh
  | listing names place => exact hfresh

theorem leads_pullNames (h : Calm known kept I) (last : Bool) {pull : Puller (StateM σ)}
    (hpull : ∀ p rest, Leads I (pull p rest) fun _ => I) (pattern : String) :
    ∀ (names : List String) (seed : Place) (rest : List Progress),
      Leads I (Cursor.pullNames pattern last pull names seed rest) fun _ => I
  | [], _, _ => Leads.pure fun _ _ hi => hi
  | name :: names, seed, rest => by
    have hothers := h.leads_pullNames last hpull pattern names
    unfold Cursor.pullNames
    split
    · refine Leads.bind (h.keeps_meetIfPresent _).leads fun r => ?_
      rcases r with e | found | place
      · exact Leads.pure fun _ _ hi => hi
      · exact hothers seed rest
      · dsimp only
        split
        · exact Leads.pure fun _ _ hi => hi
        · exact leads_followListed hpull hothers names place seed rest
    · exact hothers seed rest

theorem leads_pullListed (h : Calm known kept I) (last : Bool) {pull : Puller (StateM σ)}
    (hpull : ∀ p rest, Leads I (pull p rest) fun _ => I) (pattern : String) (seed : Place)
    (own : Progress) (rest : List Progress) : Leads I (do
      match ← (Cache.children seed : Work (StateM σ) _).run with
      | .ok names => Cursor.pullNames pattern last pull names seed rest
      | .error e => pure (.error e, own :: rest)) fun _ => I := by
  refine Leads.bind (h.keeps_children seed).leads fun r => ?_
  cases r with
  | ok names => exact h.leads_pullNames last hpull pattern names seed rest
  | error e => exact Leads.pure fun _ _ hi => hi

theorem leads_pullWildcard (h : Calm known kept I) {last : Bool} {pull : Puller (StateM σ)}
    (hpull : ∀ p rest, Leads I (pull p rest) fun _ => I) (pattern : String) (seed : Place)
    (own : Progress) (rest : List Progress) :
    Leads I (Cursor.pullWildcard pattern last pull seed own rest) fun _ => I := by
  have hfresh := fun own => h.leads_pullListed last hpull pattern seed own rest
  cases own with
  | listing names place =>
    have hnames := h.leads_pullNames last hpull pattern names
    cases place with
    | some place => exact leads_followListed hpull hnames names place seed rest
    | none => exact hnames seed rest
  | spent => exact hfresh .spent
  | following place => exact hfresh (.following place)
  | fresh => exact hfresh .fresh

theorem leads_pullChain (h : Calm known kept I) :
    ∀ (segments : List Segment) (seed : Place) (progress : List Progress),
      Leads I (Cursor.pullChain segments seed progress) fun _ => I
  | [], _, _ => Leads.pure fun _ _ hi => hi
  | segment :: _, _, [] => by
    cases segment <;> exact Leads.pure fun _ _ hi => hi
  | segment :: segments, seed, own :: rest => by
    have hpull := h.leads_pullChain segments
    cases segment with
    | wildcard pattern => exact h.leads_pullWildcard hpull pattern seed own rest
    | _ => exact h.leads_pullSingle hpull _ seed own rest

theorem leads_next (h : Calm known kept I) (cursor : Cursor) (seed : Place) :
    Leads I (cursor.next seed) fun _ => I :=
  Leads.bind (h.leads_pullChain _ seed _) fun _ => Leads.pure fun _ _ hi => hi

end Calm

end ShowTree
