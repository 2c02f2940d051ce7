/-
ShowTree.Proofs.Work.Triple — what holds before and after work with a cache.

The file system is any machine with states `σ`: the calls of a session are functions of
its state, and nothing is assumed about their answers. `Leads` says of work that cannot
fail what holds when it is done, given what held before; `Triple` says it of work that can
fail, with one condition for success and one for failure. Work that leads from an
assertion back to itself keeps it (`Keeps`). There is one rule for each way in which the
library puts work together, so that a proof follows the text of the work.
-/
import ShowTree.Cache.Basic

namespace ShowTree

variable {σ : Type} {α β ε : Type}

/-- What can be said of a cache and a file system together. -/
abbrev Assertion (σ : Type) := Cache → σ → Prop

/-! ## 1. Work that cannot fail -/

/-- One thing after another, given what comes of the first. -/
theorem run_bind_of_eq {w : StateT Cache (StateM σ) α} {f : α → StateT Cache (StateM σ) β}
    {c c' : Cache} {s s' : σ} {a : α} (h : (w.run c).run s = ((a, c'), s')) :
    ((w >>= f).run c).run s = ((f a).run c').run s' := by
  have hbind : ((w >>= f).run c).run s =
      ((f ((w.run c).run s).1.1).run ((w.run c).run s).1.2).run ((w.run c).run s).2 := rfl
  rw [hbind, h]

/-- Work that cannot fail, as work that can. -/
theorem run_lift_of_eq {w : StateT Cache (StateM σ) α} {c c' : Cache} {s s' : σ} {a : α}
    (h : (w.run c).run s = ((a, c'), s')) :
    ((ExceptT.lift w : ExceptT ε (StateT Cache (StateM σ)) α).run.run c).run s =
      ((.ok a, c'), s') := by
  have hlift : ((ExceptT.lift w : ExceptT ε (StateT Cache (StateM σ)) α).run.run c).run s =
      ((.ok ((w.run c).run s).1.1, ((w.run c).run s).1.2), ((w.run c).run s).2) := rfl
  rw [hlift, h]

/-- If `P` holds before, `Q` holds after, of the result too. -/
def Leads (P : Assertion σ) (w : StateT Cache (StateM σ) α) (Q : α → Assertion σ) : Prop :=
  ∀ c s, P c s → Q ((w.run c).run s).1.1 ((w.run c).run s).1.2 ((w.run c).run s).2

namespace Leads

variable {P P' : Assertion σ} {Q Q' : α → Assertion σ} {R : β → Assertion σ}
variable {w : StateT Cache (StateM σ) α} {f : α → StateT Cache (StateM σ) β}

theorem imp (h : Leads P w Q) (hP : ∀ c s, P' c s → P c s) (hQ : ∀ a c s, Q a c s → Q' a c s) :
    Leads P' w Q' :=
  fun c s hp => hQ _ _ _ (h c s (hP c s hp))

theorem pure {a : α} (h : ∀ c s, P c s → Q a c s) :
    Leads P (Pure.pure a : StateT Cache (StateM σ) α) Q :=
  fun c s hp => h c s hp

theorem bind (hw : Leads P w Q) (hf : ∀ a, Leads (Q a) (f a) R) : Leads P (w >>= f) R :=
  fun c s hp => hf _ _ _ (hw c s hp)

theorem lift {act : StateM σ α} (h : ∀ c s, P c s → Q (act.run s).1 c (act.run s).2) :
    Leads P (StateT.lift act) Q :=
  fun c s hp => h c s hp

/-- Work whose result is not looked at. -/
theorem done {I : Assertion σ} (h : Leads I w fun _ => I) : Leads I (do let _ ← w) fun _ => I :=
  bind h fun _ => pure fun _ _ hi => hi

/-- Going through a list, what holds of the items so far and of the result holds in the end. -/
theorem foldlM_each {J : List α → β → Assertion σ} {step : β → α → StateT Cache (StateM σ) β} :
    ∀ {items : List α} (before : List α) (b : β),
      (∀ a ∈ items, ∀ before b, Leads (J before b) (step b a) (J (before ++ [a]))) →
        Leads (J before b) (items.foldlM step b) (J (before ++ items))
  | [], before, _, _ => pure fun _ _ hj => by rwa [List.append_nil]
  | a :: items, before, b, h => by
    refine bind (h a List.mem_cons_self before b) fun b' => ?_
    rw [List.append_cons before a items]
    exact foldlM_each (before ++ [a]) b' fun a' ha' => h a' (List.mem_cons_of_mem a ha')

/-- Going through a list, what holds of the result so far holds in the end. -/
theorem foldlM {J : β → Assertion σ} {step : β → α → StateT Cache (StateM σ) β}
    {items : List α} (b : β) (h : ∀ a ∈ items, ∀ b, Leads (J b) (step b a) J) :
    Leads (J b) (items.foldlM step b) J :=
  foldlM_each (J := fun _ => J) [] b fun a ha _ => h a ha

end Leads

/-! ## 2. Work that can fail -/

theorem run_bind (w : ExceptT ε (StateT Cache (StateM σ)) α)
    (f : α → ExceptT ε (StateT Cache (StateM σ)) β) (c : Cache) (s : σ) :
    ((w >>= f).run.run c).run s =
      match (w.run.run c).run s with
      | ((.ok a, c'), s') => ((f a).run.run c').run s'
      | ((.error e, c'), s') => ((.error e, c'), s') := by
  rw [ExceptT.run_bind, StateT.run_bind, StateT.run_bind]
  rcases (w.run.run c).run s with ⟨⟨r, c'⟩, s'⟩
  cases r <;> rfl

theorem run_get (c : Cache) (s : σ) :
    ((get : ExceptT ε (StateT Cache (StateM σ)) Cache).run.run c).run s = ((.ok c, c), s) :=
  rfl

/-- What has succeeded has a result. -/
theorem exists_eq_ok {o : (Except ε α × Cache) × σ} (h : o.1.1.toOption.isSome = true) :
    ∃ a, o = ((.ok a, o.1.2), o.2) := by
  obtain ⟨⟨r, c⟩, s⟩ := o
  cases r with
  | ok a => exact ⟨a, rfl⟩
  | error e => cases h

/-- What holds after work that can fail: `Q` if it succeeded, of the result too, and `E` if
it failed. -/
def Outcome (Q : α → Assertion σ) (E : ε → Assertion σ) : Except ε α → Assertion σ
  | .ok a => Q a
  | .error e => E e

/-- What holds in any case. -/
theorem Outcome.any {I : Assertion σ} {r : Except ε α} {c : Cache} {s : σ} (h : I c s) :
    Outcome (fun _ => I) (fun _ => I) r c s := by
  cases r <;> exact h

/-- If `P` holds before, `Q` holds after a success, and `E` after a failure. -/
def Triple (P : Assertion σ) (w : ExceptT ε (StateT Cache (StateM σ)) α) (Q : α → Assertion σ)
    (E : ε → Assertion σ) : Prop :=
  Leads P w.run (Outcome Q E)

namespace Triple

variable {P P' : Assertion σ} {Q Q' : α → Assertion σ} {R : β → Assertion σ}
variable {E E' : ε → Assertion σ}
variable {w : ExceptT ε (StateT Cache (StateM σ)) α}
variable {f : α → ExceptT ε (StateT Cache (StateM σ)) β}

theorem imp (h : Triple P w Q E) (hP : ∀ c s, P' c s → P c s) (hQ : ∀ a c s, Q a c s → Q' a c s)
    (hE : ∀ e c s, E e c s → E' e c s) : Triple P' w Q' E' := by
  refine Leads.imp h hP fun r c s hr => ?_
  cases r with
  | ok a => exact hQ a c s hr
  | error e => exact hE e c s hr

/-- More may hold before. -/
theorem pre (h : Triple P w Q E) (hP : ∀ c s, P' c s → P c s) : Triple P' w Q E :=
  h.imp hP (fun _ _ _ hq => hq) fun _ _ _ he => he

/-- Less may hold after a success. -/
theorem post (h : Triple P w Q E) (hQ : ∀ a c s, Q a c s → Q' a c s) : Triple P w Q' E :=
  h.imp (fun _ _ hp => hp) hQ fun _ _ _ he => he

/-- What follows after a success, whatever a failure leaves. -/
theorem onSuccess (h : Triple P w Q E) (hQ : ∀ a c s, Q a c s → Q' a c s) :
    Triple P w Q' (fun _ _ _ => True) :=
  h.imp (fun _ _ hp => hp) hQ fun _ _ _ _ => trivial

/-- What is known of the cache and the file system before may be used as facts. -/
theorem of_forall (h : ∀ c s, P c s → Triple (fun c' s' => c' = c ∧ s' = s) w Q E) :
    Triple P w Q E :=
  fun c s hp => h c s hp c s ⟨rfl, rfl⟩

/-- A fact that has nothing to do with cache and file system holds throughout. -/
theorem of_fact {φ : Prop} (h : φ → Triple P w Q E) : Triple (fun c s => P c s ∧ φ) w Q E :=
  fun c s hp => h hp.2 c s hp.1

theorem pure {a : α} (h : ∀ c s, P c s → Q a c s) :
    Triple P (Pure.pure a : ExceptT ε (StateT Cache (StateM σ)) α) Q E :=
  fun c s hp => h c s hp

theorem throw {e : ε} (h : ∀ c s, P c s → E e c s) :
    Triple P (MonadExcept.throw e : ExceptT ε (StateT Cache (StateM σ)) α) Q E :=
  fun c s hp => h c s hp

theorem bind (hw : Triple P w Q E) (hf : ∀ a, Triple (Q a) (f a) R E) : Triple P (w >>= f) R E := by
  intro c s hp
  have hwc := hw c s hp
  rw [run_bind]
  generalize (w.run.run c).run s = out at hwc ⊢
  obtain ⟨⟨r, c'⟩, s'⟩ := out
  cases r with
  | ok a => exact hf a c' s' hwc
  | error e => exact hwc

theorem and (h : Triple P w Q E) (h' : Triple P' w Q' E') :
    Triple (fun c s => P c s ∧ P' c s) w (fun a c s => Q a c s ∧ Q' a c s)
      (fun e c s => E e c s ∧ E' e c s) := by
  intro c s hp
  have hw := h c s hp.1
  have hw' := h' c s hp.2
  generalize (w.run.run c).run s = out at hw hw'
  obtain ⟨⟨r, c'⟩, s'⟩ := out
  cases r with
  | ok a => exact ⟨hw, hw'⟩
  | error e => exact ⟨hw, hw'⟩

theorem map {g : α → β} (h : Triple P w (fun a => R (g a)) E) : Triple P (g <$> w) R E := by
  rw [map_eq_pure_bind]
  exact bind h fun a => pure fun _ _ hr => hr

/-- Work that can fail and leaves the same whether it does, with its failure for an answer. -/
theorem leads {J : Assertion σ} (h : Triple P w (fun _ => J) (fun _ => J)) :
    Leads P w.run fun _ => J := by
  refine Leads.imp h (fun _ _ hp => hp) fun r _ _ hr => ?_
  cases r with
  | ok a => exact hr
  | error e => exact hr

/-- The result of work is what running it comes to. -/
theorem result (c₀ : Cache) (s₀ : σ) :
    Triple (fun c s => c = c₀ ∧ s = s₀) w (fun a c s => (w.run.run c₀).run s₀ = ((.ok a, c), s))
      (fun e c s => (w.run.run c₀).run s₀ = ((.error e, c), s)) := by
  rintro c s ⟨rfl, rfl⟩
  generalize (w.run.run c).run s = out
  obtain ⟨⟨r, c'⟩, s'⟩ := out
  cases r with
  | ok a => rfl
  | error e => rfl

/-- Work that leaves everything as it is, as a run and as a triple. -/
theorem of_run_eq {c₀ : Cache} {s₀ : σ} {a : α} (h : (w.run.run c₀).run s₀ = ((.ok a, c₀), s₀)) :
    Triple (fun c s => c = c₀ ∧ s = s₀) w (fun b c s => (c = c₀ ∧ s = s₀) ∧ b = a)
      (fun _ _ _ => False) := by
  rintro c s ⟨rfl, rfl⟩
  rw [h]
  exact ⟨⟨rfl, rfl⟩, rfl⟩

theorem run_eq {c₀ : Cache} {s₀ : σ} {a : α}
    (h : Triple (fun c s => c = c₀ ∧ s = s₀) w (fun b c s => (c = c₀ ∧ s = s₀) ∧ b = a)
      (fun _ _ _ => False)) : (w.run.run c₀).run s₀ = ((.ok a, c₀), s₀) := by
  have hrun := h c₀ s₀ ⟨rfl, rfl⟩
  generalize (w.run.run c₀).run s₀ = out at hrun ⊢
  obtain ⟨⟨r, c⟩, s⟩ := out
  cases r with
  | ok b =>
    obtain ⟨⟨rfl, rfl⟩, rfl⟩ := hrun
    rfl
  | error e => exact hrun.elim

/-- Looking at the cache. -/
theorem get : Triple P (MonadState.get : ExceptT ε (StateT Cache (StateM σ)) Cache)
    (fun a c s => a = c ∧ P c s) E :=
  fun _ _ hp => ⟨rfl, hp⟩

/-- Looking at a cache that is known. -/
theorem get_bind {c₀ : Cache} {s₀ : σ} {f : Cache → ExceptT ε (StateT Cache (StateM σ)) β}
    (h : Triple (fun c s => c = c₀ ∧ s = s₀) (f c₀) R E) :
    Triple (fun c s => c = c₀ ∧ s = s₀) (MonadState.get >>= f) R E := by
  refine bind get fun c => ?_
  rintro _ s ⟨rfl, rfl, rfl⟩
  exact h c s ⟨rfl, rfl⟩

/-- Changing the cache. -/
theorem modify {g : Cache → Cache} {Q : PUnit → Assertion σ} (h : ∀ c s, P c s → Q ⟨⟩ (g c) s) :
    Triple P (modify g : ExceptT ε (StateT Cache (StateM σ)) PUnit) Q E :=
  fun c s hp => h c s hp

/-- Work with failures of another kind. -/
theorem adapt {δ : Type} {g : ε → δ} {F : δ → Assertion σ} (h : Triple P w Q (fun e => F (g e))) :
    Triple P (ExceptT.adapt g w) Q F := by
  intro c s hp
  have hw := h c s hp
  have hrun : ((ExceptT.adapt g w).run.run c).run s =
      (((((w.run.run c).run s).1.1).mapError g, ((w.run.run c).run s).1.2),
        ((w.run.run c).run s).2) := rfl
  rw [hrun]
  generalize (w.run.run c).run s = out at hw ⊢
  obtain ⟨⟨r, c'⟩, s'⟩ := out
  cases r with
  | ok a => exact hw
  | error e => exact hw

end Triple

/-! ## 3. The parts of work -/

section Work

variable {P : Assertion σ} {Q : α → Assertion σ} {E : Failure → Assertion σ}

theorem run_call (p : Path) (act : StateM σ (Except FileError α)) (c : Cache) (s : σ) :
    ((Work.call p act).run.run c).run s =
      (((act.run s).1.mapError (Failure.io p), c), (act.run s).2) := by
  have hlift : ((liftM act : Work (StateM σ) _).run.run c).run s =
      ((.ok (act.run s).1, c), (act.run s).2) := rfl
  rw [Work.call, run_bind, hlift]
  cases (act.run s).1 <;> rfl

theorem run_query (act : StateM σ α) (c : Cache) (s : σ) :
    ((Work.query act : Work (StateM σ) α).run.run c).run s =
      ((.ok (act.run s).1, c), (act.run s).2) :=
  rfl

theorem run_ofExcept (r : Except Failure α) (c : Cache) (s : σ) :
    ((Work.ofExcept r : Work (StateM σ) α).run.run c).run s = ((r, c), s) := by
  cases r <;> rfl

/-- A call on the file system, by what it answers and does to the state. -/
theorem Triple.call {p : Path} {act : StateM σ (Except FileError α)}
    (h : ∀ c s, P c s → Outcome Q (fun e => E (.io p e)) (act.run s).1 c (act.run s).2) :
    Triple P (Work.call p act) Q E := by
  intro c s hp
  have hact := h c s hp
  rw [run_call]
  cases hr : (act.run s).1 with
  | ok a => rw [hr] at hact; exact hact
  | error e => rw [hr] at hact; exact hact

/-- A call on the file system that leaves the same whatever it answers. -/
theorem Triple.call_any {p : Path} {act : StateM σ (Except FileError α)} {J : Assertion σ}
    (h : ∀ c s, P c s → J c (act.run s).2) : Triple P (Work.call p act) (fun _ => J) (fun _ => J) := by
  refine Triple.call fun c s hp => ?_
  cases (act.run s).1 with
  | ok a => exact h c s hp
  | error e => exact h c s hp

theorem Triple.query {act : StateM σ α} (h : ∀ c s, P c s → Q (act.run s).1 c (act.run s).2) :
    Triple P (Work.query act : Work (StateM σ) α) Q E :=
  fun c s hp => h c s hp

theorem Triple.ofExcept {r : Except Failure α} (h : ∀ c s, P c s → Outcome Q E r c s) :
    Triple P (Work.ofExcept r : Work (StateM σ) α) Q E :=
  fun c s hp => h c s hp

theorem run_attempt (w : Work (StateM σ) α) (c : Cache) (s : σ) :
    (w.attempt.run.run c).run s =
      ((.ok ((w.run.run c).run s).1.1, ((w.run.run c).run s).1.2), ((w.run.run c).run s).2) :=
  rfl

/-- Work whose failure is an answer. -/
theorem Triple.attempt {w : Work (StateM σ) α} {R : Except Failure α → Assertion σ}
    (h : Triple P w (fun a => R (.ok a)) (fun e => R (.error e))) : Triple P w.attempt R E := by
  intro c s hp
  have hw := h c s hp
  rw [run_attempt]
  generalize (w.run.run c).run s = out at hw ⊢
  obtain ⟨⟨r, c'⟩, s'⟩ := out
  cases r with
  | ok a => exact hw
  | error e => exact hw

/-- What is gathered from one item after the other, by what the first comes to. -/
theorem run_gather_cons {β : Type} (f : α → Work (StateM σ) (List β)) (a : α) (items : List α)
    (c : Cache) (s : σ) :
    ((Work.gather f (a :: items)).run.run c).run s =
      match ((f a).run.run c).run s with
      | ((.error e, c'), s') => ((.error e, c'), s')
      | ((.ok found, c'), s') =>
        let others := ((Work.gather f items).run.run c').run s'
        ((others.1.1.map (found ++ ·), others.1.2), others.2) := by
  rw [Work.gather, run_bind]
  rcases ((f a).run.run c).run s with ⟨⟨first, c'⟩, s'⟩
  cases first with
  | error e => rfl
  | ok found =>
    dsimp only
    rw [run_bind]
    rcases ((Work.gather f items).run.run c').run s' with ⟨⟨others, c''⟩, s''⟩
    cases others <;> rfl

/-- What is said of the results for all items, if it can be said of none and goes on from what
is done for each. -/
theorem Triple.gather {β : Type} {I : Assertion σ} {f : α → Work (StateM σ) (List β)}
    {R : List α → List β → Prop} (hnil : R [] []) : ∀ {items : List α},
    (∀ a ∈ items, ∀ rest, Triple I (f a)
      (fun first c s => I c s ∧ ∀ others, R rest others → R (a :: rest) (first ++ others)) E) →
    Triple I (Work.gather f items) (fun found c s => I c s ∧ R items found) E
  | [], _ => Triple.pure fun _ _ hi => ⟨hi, hnil⟩
  | a :: rest, h => by
    refine Triple.bind (h a List.mem_cons_self rest) fun first => Triple.of_fact fun hfirst => ?_
    have hrest := Triple.gather hnil fun b hb => h b (List.mem_cons_of_mem a hb)
    exact Triple.bind hrest fun others => Triple.pure fun _ _ hi => ⟨hi.1, hfirst others hi.2⟩

end Work

/-! ## 4. What work keeps -/

/-- Whether work succeeds or fails, it leaves `I` true. -/
def Keeps (I : Assertion σ) (w : ExceptT ε (StateT Cache (StateM σ)) α) : Prop :=
  Triple I w (fun _ => I) (fun _ => I)

namespace Keeps

variable {I : Assertion σ} {w : ExceptT ε (StateT Cache (StateM σ)) α}
variable {f : α → ExceptT ε (StateT Cache (StateM σ)) β}

theorem pure (a : α) : Keeps I (Pure.pure a : ExceptT ε (StateT Cache (StateM σ)) α) :=
  Triple.pure fun _ _ h => h

theorem throw (e : ε) : Keeps I (MonadExcept.throw e : ExceptT ε (StateT Cache (StateM σ)) α) :=
  Triple.throw fun _ _ h => h

theorem bind (hw : Keeps I w) (hf : ∀ a, Keeps I (f a)) : Keeps I (w >>= f) :=
  Triple.bind hw hf

theorem map {g : α → β} (h : Keeps I w) : Keeps I (g <$> w) :=
  Triple.map h

theorem get : Keeps I (MonadState.get : ExceptT ε (StateT Cache (StateM σ)) Cache) :=
  Triple.get.post fun _ _ _ h => h.2

theorem ite {φ : Prop} [Decidable φ] {v : ExceptT ε (StateT Cache (StateM σ)) α} (hw : Keeps I w)
    (hv : Keeps I v) : Keeps I (if φ then w else v) := by
  split
  · exact hw
  · exact hv

theorem call {p : Path} {act : StateM σ (Except FileError α)}
    (h : ∀ c s, I c s → I c (act.run s).2) : Keeps I (Work.call p act) :=
  Triple.call_any h

theorem query {act : StateM σ α} (h : ∀ c s, I c s → I c (act.run s).2) :
    Keeps I (Work.query act : Work (StateM σ) α) :=
  Triple.query h

theorem ofExcept (r : Except Failure α) : Keeps I (Work.ofExcept r : Work (StateM σ) α) := by
  refine Triple.ofExcept fun c s hi => ?_
  cases r with
  | ok a => exact hi
  | error e => exact hi

theorem attempt {w : Work (StateM σ) α} (h : Keeps I w) : Keeps I w.attempt :=
  Triple.attempt h

theorem gather {f : α → Work (StateM σ) (List β)} (h : ∀ a, Keeps I (f a)) :
    ∀ items : List α, Keeps I (Work.gather f items)
  | [] => pure _
  | a :: rest => bind (h a) fun _ => bind (gather h rest) fun _ => pure _

theorem adapt {δ : Type} {g : ε → δ} (h : Keeps I w) : Keeps I (ExceptT.adapt g w) :=
  Triple.adapt h

/-- What is kept while the file system stays in the state it is in. -/
theorem of_frozen (h : ∀ s₀, Keeps (fun c s => s = s₀ ∧ I c s) w) : Keeps I w :=
  Triple.of_forall fun _ s hi => (h s).imp
    (by rintro _ _ ⟨rfl, rfl⟩; exact ⟨rfl, hi⟩) (fun _ _ _ hi => hi.2) fun _ _ _ hi => hi.2

/-- Work that can fail, with its failure for an answer. -/
theorem leads (h : Keeps I w) : Leads I w.run fun _ => I :=
  Triple.leads h

/-- Work whose result is not looked at. -/
theorem done (h : Keeps I w) : Leads I (do let _ ← w.run) fun _ => I :=
  Leads.done h.leads

end Keeps

end ShowTree
