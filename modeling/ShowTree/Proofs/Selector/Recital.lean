/-
ShowTree.Proofs.Selector.Recital — describing the matches of a cursor, one after the other.

To evaluate an expression one can keep a cursor: it is set back to the start, and each match
is described before the next one is asked for, up to the first failure (`Recites`). In
whatever state the cursor was left by an earlier use, this comes to what the recursive search
comes to, with the same cache and file system afterwards (`evaluates_iff`). Nothing is assumed
about the file system.
-/
import ShowTree.Evaluation
import ShowTree.Proofs.Selector.Enumeration

namespace ShowTree

/-! ## 1. Asking and telling in turn -/

/-- Asking a machine and telling of each match before the next one is asked for, until nothing
more comes or there is a failure: what was told, and how the machine was left. -/
inductive Recites {X β : Type} (step : X → Pull × X) (tell : Place → X → Except Failure β × X) :
    X → Except Failure (List β) → X → Prop
  | done {x y : X} (h : step x = (.ok none, y)) : Recites step tell x (.ok []) y
  | failed {x y : X} {e : Failure} (h : step x = (.error e, y)) : Recites step tell x (.error e) y
  | untold {x y z : X} {p : Place} {e : Failure} (h : step x = (.ok (some p), y))
      (ht : tell p y = (.error e, z)) : Recites step tell x (.error e) z
  | told {x y z u : X} {p : Place} {b : β} {others : Except Failure (List β)}
      (h : step x = (.ok (some p), y)) (ht : tell p y = (.ok b, z))
      (more : Recites step tell z others u) : Recites step tell x (others.map (b :: ·)) u

namespace Recites

variable {X Y β : Type} {step : X → Pull × X} {tell : Place → X → Except Failure β × X}
variable {x y z : X} {r : Except Failure (List β)}

/-- Only the first step depends on where the machine starts. -/
theorem of_step_eq (he : step x = step y) (hr : Recites step tell y r z) :
    Recites step tell x r z := by
  cases hr with
  | done h => exact .done (he.trans h)
  | failed h => exact .failed (he.trans h)
  | untold h ht => exact .untold (he.trans h) ht
  | told h ht more => exact .told (he.trans h) ht more

/-- There is only one thing that a recital can come to. -/
theorem unique {r' : Except Failure (List β)} {z' : X} (hr : Recites step tell x r z)
    (hr' : Recites step tell x r' z') : r = r' ∧ z = z' := by
  induction hr generalizing r' z' with
  | done h =>
    cases hr' with
    | done h' => rw [h] at h'; cases h'; exact ⟨rfl, rfl⟩
    | failed h' => rw [h] at h'; cases h'
    | untold h' _ => rw [h] at h'; cases h'
    | told h' _ _ => rw [h] at h'; cases h'
  | failed h =>
    cases hr' with
    | done h' => rw [h] at h'; cases h'
    | failed h' => rw [h] at h'; cases h'; exact ⟨rfl, rfl⟩
    | untold h' _ => rw [h] at h'; cases h'
    | told h' _ _ => rw [h] at h'; cases h'
  | untold h ht =>
    cases hr' with
    | done h' => rw [h] at h'; cases h'
    | failed h' => rw [h] at h'; cases h'
    | untold h' ht' => rw [h] at h'; cases h'; rw [ht] at ht'; cases ht'; exact ⟨rfl, rfl⟩
    | told h' ht' _ => rw [h] at h'; cases h'; rw [ht] at ht'; cases ht'
  | told h ht _ ih =>
    cases hr' with
    | done h' => rw [h] at h'; cases h'
    | failed h' => rw [h] at h'; cases h'
    | untold h' ht' => rw [h] at h'; cases h'; rw [ht] at ht'; cases ht'
    | told h' ht' more =>
      rw [h] at h'
      cases h'
      rw [ht] at ht'
      cases ht'
      obtain ⟨rfl, rfl⟩ := ih more
      exact ⟨rfl, rfl⟩

/-- A machine that is part of another one recites the same. -/
theorem lift {step' : Y → Pull × Y} {tell' : Place → Y → Except Failure β × Y} {into : X → Y}
    (hstep : ∀ x, step' (into x) = ((step x).1, into (step x).2))
    (htell : ∀ p x, tell' p (into x) = ((tell p x).1, into (tell p x).2))
    (hr : Recites step tell x r z) : Recites step' tell' (into x) r (into z) := by
  induction hr with
  | done h => exact .done (by rw [hstep, h])
  | failed h => exact .failed (by rw [hstep, h])
  | untold h ht => exact .untold (by rw [hstep, h]) (by rw [htell, ht])
  | told h ht _ ih => exact .told (by rw [hstep, h]) (by rw [htell, ht]) ih

/-- What asking and telling keep, a recital keeps. -/
theorem keeps {I : X → Prop} (hstep : ∀ x, I x → I (step x).2)
    (htell : ∀ p x, I x → I (tell p x).2) (hr : Recites step tell x r z) (hx : I x) : I z := by
  induction hr with
  | done h =>
    have hy := hstep _ hx
    rwa [h] at hy
  | failed h =>
    have hy := hstep _ hx
    rwa [h] at hy
  | @untold x y z p e h ht =>
    have hy := hstep x hx
    rw [h] at hy
    have hz := htell p y hy
    rwa [ht] at hz
  | @told x y z u p b others h ht _ ih =>
    have hy := hstep x hx
    rw [h] at hy
    have hz := htell p y hy
    rw [ht] at hz
    exact ih hz

end Recites

/-! ## 2. A chain within a longer one -/

variable {σ β : Type}

/-- Telling of a match, by work that has nothing to do with how far a machine has come. -/
def telling {P : Type} (visit : Place → Work (StateM σ) β) (p : Place) (x : P × Cache × σ) :
    Except Failure β × (P × Cache × σ) :=
  let out := ((visit p).run.run x.2.1).run x.2.2
  (out.1.1, x.1, out.1.2, out.2)

/-- Telling of a match goes on from the same point of a longer chain. -/
theorem telling_cons (visit : Place → Work (StateM σ) β) (p : Place) (own : Progress)
    (x : List Progress × Cache × σ) :
    telling visit p (own :: x.1, x.2) =
      ((telling visit p x).1, own :: (telling visit p x).2.1, (telling visit p x).2.2) :=
  rfl

/-- The machine begins by telling what is in `first`, and goes on from `y` if that is no
failure. -/
def Begins {P : Type} (step : P × Cache × σ → Pull × (P × Cache × σ))
    (visit : Place → Work (StateM σ) β) (x : P × Cache × σ) (first : Except Failure (List β))
    (y : P × Cache × σ) : Prop :=
  match first with
  | .ok found => ∀ {others z}, Recites step (telling visit) y others z →
      Recites step (telling visit) x (others.map (found ++ ·)) z
  | .error e => ∃ left, Recites step (telling visit) x (.error e) (left, y.2)

namespace Begins

variable {P : Type} {step : P × Cache × σ → Pull × (P × Cache × σ)}
variable {visit : Place → Work (StateM σ) β} {x : P × Cache × σ} {r : Except Failure (List β)}
variable {left left' : P} {c : Cache} {s : σ}

/-- After a failure it makes no difference how far the machine had come. -/
theorem of_left (h : Begins step visit x r (left, c, s)) (hleft : r.isOk = true → left = left') :
    Begins step visit x r (left', c, s) := by
  cases r with
  | error e => exact h
  | ok found => exact hleft rfl ▸ h

/-- What comes before the end is all. -/
theorem finish (h : Begins step visit x r (left, c, s))
    (hdone : step (left, c, s) = (.ok none, left', c, s)) :
    ∃ final, Recites step (telling visit) x r (final, c, s) ∧ (r.isOk = true → final = left') := by
  cases r with
  | error e =>
    obtain ⟨final, hfinal⟩ := h
    exact ⟨final, hfinal, fun hok => by cases hok⟩
  | ok found =>
    have hall := h (.done hdone)
    rw [Except.map, List.append_nil] at hall
    exact ⟨left', hall, fun _ => rfl⟩

/-- A machine that gives one match begins with what is told of it. -/
theorem given {p : Place} (h : step x = (.ok (some p), left, c, s)) :
    Begins step visit x ((((visit p).run.run c).run s).1.1.map fun b => [b])
      (left, (((visit p).run.run c).run s).1.2, (((visit p).run.run c).run s).2) := by
  rcases htell : ((visit p).run.run c).run s with ⟨⟨r, c'⟩, s'⟩
  have htelling : telling visit p (left, c, s) = (r, left, c', s') := by rw [telling, htell]
  cases r with
  | error e => exact ⟨left, .untold h htelling⟩
  | ok b =>
    intro others z hothers
    exact .told h htelling hothers

/-- Only the first step depends on where the machine starts. -/
theorem of_step_eq {y z : P × Cache × σ} (he : step x = step y) (h : Begins step visit y r z) :
    Begins step visit x r z := by
  cases r with
  | error e =>
    obtain ⟨left, hleft⟩ := h
    exact ⟨left, .of_step_eq he hleft⟩
  | ok found =>
    intro others u hothers
    exact .of_step_eq he (h hothers)

end Begins

theorem map_nil_append (r : Except Failure (List β)) : r.map ([] ++ ·) = r := by
  cases r <;> rfl

theorem map_cons_append (b : β) (bs : List β) (r : Except Failure (List β)) :
    (r.map (bs ++ ·)).map (b :: ·) = r.map (b :: bs ++ ·) := by
  cases r <;> rfl

/-- A first segment that hands on what the rest of the chain finds begins with what the rest
recites, and goes on where that came to its end. -/
theorem Recites.within
    {inner outer : List Progress × Cache × σ → Pull × (List Progress × Cache × σ)}
    {visit : Place → Work (StateM σ) β} {own next : Progress} {x y : List Progress × Cache × σ}
    (hfound : ∀ {x y p}, inner x = (.ok (some p), y) →
      outer (own :: x.1, x.2) = (.ok (some p), own :: y.1, y.2))
    (hdone : ∀ {x y}, inner x = (.ok none, y) →
      outer (own :: x.1, x.2) = outer (next :: y.1, y.2))
    (hfailed : ∀ {x y e}, inner x = (.error e, y) →
      ∃ left, outer (own :: x.1, x.2) = (.error e, left, y.2))
    {r : Except Failure (List β)} (hr : Recites inner (telling visit) x r y) :
    Begins outer visit (own :: x.1, x.2) r (next :: y.1, y.2) := by
  induction hr with
  | done h =>
    intro others z hothers
    rw [map_nil_append]
    exact .of_step_eq (hdone h) hothers
  | failed h =>
    obtain ⟨left, hleft⟩ := hfailed h
    exact ⟨left, .failed hleft⟩
  | @untold x y z p e h ht => exact ⟨own :: z.1, .untold (hfound h) (by rw [telling_cons, ht])⟩
  | @told x y z u p b more h ht _ ih =>
    have htold : telling visit p (own :: y.1, y.2) = (.ok b, own :: z.1, z.2) := by
      rw [telling_cons, ht]
    cases more with
    | ok rest =>
      intro others v hothers
      rw [← map_cons_append]
      exact .told (hfound h) htold (ih hothers)
    | error e =>
      obtain ⟨left, hleft⟩ := ih
      exact ⟨left, .told (hfound h) htold hleft⟩

/-! ## 3. Recitals of searches -/

variable [FileSystem (StateM σ)] {visit : Place → Work (StateM σ) β}

/-- A recital from `start` comes to what the search comes to, and ends in `final` if there is
no failure. -/
def Recital {P : Type} (pull : P → StateT Cache (StateM σ) (Pull × P))
    (visit : Place → Work (StateM σ) β) (start final : P) (search : Work (StateM σ) (List β)) :
    Prop :=
  ∀ c s, ∃ left, Recites (pulling pull) (telling visit) (start, c, s)
      ((search.run.run c).run s).1.1
      (left, ((search.run.run c).run s).1.2, ((search.run.run c).run s).2) ∧
    (((search.run.run c).run s).1.1.isOk = true → left = final)

omit [FileSystem (StateM σ)] in
/-- A machine that begins with what is found for the first item, and goes on with the others. -/
theorem Recital.cons {P α : Type} {pull : P → StateT Cache (StateM σ) (Pull × P)}
    {start next final : P} {f : α → Work (StateM σ) (List β)} {a : α} {items : List α}
    (hfirst : ∀ {c c' s s' first}, ((f a).run.run c).run s = ((first, c'), s') →
      Begins (pulling pull) visit (start, c, s) first (next, c', s'))
    (hothers : Recital pull visit next final (Work.gather f items)) :
    Recital pull visit start final (Work.gather f (a :: items)) := by
  intro c s
  rw [run_gather_cons]
  rcases hrun : ((f a).run.run c).run s with ⟨⟨first, c'⟩, s'⟩
  have hbegins := hfirst hrun
  cases first with
  | error e =>
    obtain ⟨left, hleft⟩ := hbegins
    exact ⟨left, hleft, fun hok => by cases hok⟩
  | ok found =>
    obtain ⟨left, hr, hleft⟩ := hothers c' s'
    dsimp only
    refine ⟨left, hbegins hr, fun hok => hleft ?_⟩
    cases hothers' : (((Work.gather f items).run.run c').run s').1.1 with
    | error e => rw [hothers'] at hok; cases hok
    | ok found' => rfl

namespace Cursor

variable {segment : Segment} {rest : List Segment} {pattern : String}

theorem search_single (h : ∀ pattern, segment ≠ .wildcard pattern) (seed : Place) :
    Segment.search visit (segment :: rest) seed = (do
      match ← segment.candidate seed with
      | some found => Segment.search visit rest found
      | none => pure []) := by
  cases segment with
  | wildcard pattern => exact absurd rfl (h pattern)
  | _ => rfl

/-- What a chain of no segments comes to. -/
theorem run_search_nil (p : Place) (c : Cache) (s : σ) :
    ((Segment.search visit [] p).run.run c).run s =
      (((((visit p).run.run c).run s).1.1.map fun b => [b], (((visit p).run.run c).run s).1.2),
        (((visit p).run.run c).run s).2) := by
  rw [Segment.search, run_bind]
  rcases ((visit p).run.run c).run s with ⟨⟨r, c'⟩, s'⟩
  cases r <;> rfl

/-- A first segment that has come to a candidate begins with what the rest of the chain finds
from there: it gives the candidate if it is the last segment, and else hands on what the rest
gives, until that has come to its end. -/
theorem begins_onward
    {outer : List Progress × Cache × σ → Pull × (List Progress × Cache × σ)}
    {x : List Progress × Cache × σ} (own next : Progress) {p : Place} {c c' : Cache} {s s' : σ}
    {r : Except Failure (List β)}
    (hlast : rest.isEmpty = true → outer x = (.ok (some p), next :: fresh rest, c, s))
    (hmore : rest.isEmpty = false → outer x = outer (own :: fresh rest, c, s))
    (hstep : rest.isEmpty = false → ∀ {x y answer}, pulling (pullChain rest p) x = (answer, y) →
      match answer with
      | .ok (some q) => outer (own :: x.1, x.2) = (.ok (some q), own :: y.1, y.2)
      | .ok none => outer (own :: x.1, x.2) = outer (next :: y.1, y.2)
      | .error e => ∃ left, outer (own :: x.1, x.2) = (.error e, left, y.2))
    (ih : rest ≠ [] → ∀ p, Recital (pullChain rest p : _ → StateT Cache (StateM σ) _) visit
      (fresh rest) (fresh rest) (Segment.search visit rest p))
    (hrun : ((Segment.search visit rest p).run.run c).run s = ((r, c'), s')) :
    Begins outer visit x r (next :: fresh rest, c', s') := by
  cases hrest : rest.isEmpty with
  | true =>
    obtain rfl := List.isEmpty_iff.1 hrest
    have hgiven : Begins outer visit x _ _ := Begins.given (hlast rfl)
    rw [run_search_nil] at hrun
    cases hrun
    exact hgiven
  | false =>
    obtain ⟨left, hr, hleft⟩ := ih (by rintro rfl; cases hrest) p c s
    rw [hrun] at hr hleft
    refine .of_step_eq (hmore hrest) ((Recites.within (fun hx => hstep hrest hx)
      (fun hx => hstep hrest hx) (fun hx => hstep hrest hx) hr).of_left fun hok => ?_)
    rw [hleft hok]

/-- A segment with one candidate, before a chain whose recital is its search. -/
theorem recital_single (h : ∀ pattern, segment ≠ .wildcard pattern) (seed : Place)
    (ih : rest ≠ [] → ∀ p, Recital (pullChain rest p : _ → StateT Cache (StateM σ) _) visit
      (fresh rest) (fresh rest) (Segment.search visit rest p)) :
    Recital (pullChain (segment :: rest) seed : _ → StateT Cache (StateM σ) _) visit
      (fresh (segment :: rest)) (fresh (segment :: rest))
      (Segment.search visit (segment :: rest) seed) := by
  intro c s
  rw [search_single h, run_bind]
  rcases hask : ((segment.candidate seed : Work (StateM σ) _).run.run c).run s with ⟨⟨r, c₁⟩, s₁⟩
  have hstart : pulling (pullChain (segment :: rest) seed) (fresh (segment :: rest), c, s) = _ :=
    pulling_fresh h hask
  rcases r with e | found | p
  · exact ⟨_, .failed hstart, fun hok => by cases hok⟩
  · exact ⟨_, .done hstart, fun _ => rfl⟩
  · dsimp only at hstart ⊢
    rcases hrun : ((Segment.search visit rest p).run.run c₁).run s₁ with ⟨⟨r, c₂⟩, s₂⟩
    have hbegins : Begins (pulling (pullChain (segment :: rest) seed)) visit
        (fresh (segment :: rest), c, s) r (.spent :: fresh rest, c₂, s₂) := by
      refine begins_onward (.following p) .spent (fun hlast => hstart.trans ?_)
        (fun _ => hstart) (fun hrest x y answer hx => ?_) ih hrun
      · obtain rfl := List.isEmpty_iff.1 hlast
        simp only [pulling, pullChain_single h]
        rfl
      · have hfollow : pulling (pullChain (segment :: rest) seed) (.following p :: x.1, x.2) =
            (answer, afterAnswer p answer :: y.1, y.2) := by
          rw [← pulling_follow hx]
          simp only [pulling, pullChain_single h, hrest]
          rfl
        rcases answer with e | found | q
        · exact ⟨_, hfollow⟩
        · rw [hfollow]
          simp only [pulling, pullChain_single h]
          rfl
        · exact hfollow
    refine hbegins.finish ?_
    simp only [pulling, pullChain_single h]
    rfl

/-! ## 4. Wildcards -/

/-- Goes on from the entry with a name, if it is there. -/
def below (visit : Place → Work (StateM σ) β) (rest : List Segment) (seed : Place)
    (name : String) : Work (StateM σ) (List β) := do
  match ← Cache.meetIfPresent (seed.path.join name) with
  | some found => Segment.search visit rest found
  | none => pure []

/-- The names of a directory, tried one after the other. -/
theorem recital_names (seed : Place)
    (ih : rest ≠ [] → ∀ p, Recital (pullChain rest p : _ → StateT Cache (StateM σ) _) visit
      (fresh rest) (fresh rest) (Segment.search visit rest p)) :
    ∀ names : List String,
      Recital (pullChain (.wildcard pattern :: rest) seed : _ → StateT Cache (StateM σ) _) visit
        (.listing names none :: fresh rest) (fresh (.wildcard pattern :: rest))
        (Work.gather (below visit rest seed) (names.filter (Wildcard.accepts pattern)))
  | [], c, s => ⟨_, .done rfl, fun _ => rfl⟩
  | name :: names, c, s => by
    have hothers := recital_names seed ih names
    by_cases haccept : Wildcard.accepts pattern name = true
    · rw [List.filter_cons_of_pos haccept]
      refine Recital.cons ?_ hothers c s
      intro c c' s s' first hrun
      rcases hask : ((Cache.meetIfPresent (seed.path.join name) : Work (StateM σ) _).run.run c).run s
        with ⟨⟨r, c₁⟩, s₁⟩
      have hstart : pulling (pullChain (.wildcard pattern :: rest) seed)
          (.listing (name :: names) none :: fresh rest, c, s) = _ := pulling_accepted haccept hask
      rw [below, run_bind, hask] at hrun
      rcases r with e | found | p
      · cases hrun
        exact ⟨_, .failed hstart⟩
      · cases hrun
        intro others z hr
        rw [map_nil_append]
        exact .of_step_eq hstart hr
      · dsimp only at hstart hrun
        refine begins_onward (.listing names (some p)) (.listing names none) (fun hlast => ?_)
          (fun hmore => ?_) (fun hrest x y answer hx => ?_) ih hrun
        · rw [hstart, if_pos hlast]
        · rw [hstart, if_neg (by rw [hmore]; exact Bool.false_ne_true)]
        · have hlisted : pulling (pullChain (.wildcard pattern :: rest) seed)
              (.listing names (some p) :: x.1, x.2) = _ := pulling_listed hrest hx
          rcases answer with e | found | q
          · exact ⟨_, hlisted⟩
          · exact hlisted
          · exact hlisted
    · rw [List.filter_cons_of_neg haccept]
      obtain ⟨left, hr, hleft⟩ := hothers c s
      exact ⟨left, .of_step_eq (pulling_passed haccept) hr, hleft⟩

/-- A wildcard, before a chain whose recital is its search. -/
theorem recital_wildcard (seed : Place)
    (ih : rest ≠ [] → ∀ p, Recital (pullChain rest p : _ → StateT Cache (StateM σ) _) visit
      (fresh rest) (fresh rest) (Segment.search visit rest p)) :
    Recital (pullChain (.wildcard pattern :: rest) seed : _ → StateT Cache (StateM σ) _) visit
      (fresh (.wildcard pattern :: rest)) (fresh (.wildcard pattern :: rest))
      (Segment.search visit (.wildcard pattern :: rest) seed) := by
  intro c s
  rcases hask : ((Cache.children seed : Work (StateM σ) _).run.run c).run s with ⟨⟨r, c₁⟩, s₁⟩
  have hstart : pulling (pullChain (.wildcard pattern :: rest) seed)
      (fresh (.wildcard pattern :: rest), c, s) = _ := pulling_unlisted hask
  rw [Segment.search, run_bind, hask]
  cases r with
  | error e => exact ⟨_, .failed hstart, fun hok => by cases hok⟩
  | ok names =>
    obtain ⟨left, hr, hleft⟩ := recital_names seed ih names c₁ s₁
    exact ⟨left, .of_step_eq hstart hr, hleft⟩

/-! ## 5. Chains and expressions -/

/-- A chain of segments recites what it finds, and is back at the start afterwards. -/
theorem recital_pullChain : ∀ segments : List Segment, segments ≠ [] → ∀ seed : Place,
    Recital (pullChain segments seed : _ → StateT Cache (StateM σ) _) visit (fresh segments)
      (fresh segments) (Segment.search visit segments seed)
  | [], h, _ => absurd rfl h
  | segment :: rest, _, seed => by
    have ih : rest ≠ [] → ∀ p, Recital (pullChain rest p : _ → StateT Cache (StateM σ) _) visit
        (fresh rest) (fresh rest) (Segment.search visit rest p) := recital_pullChain rest
    cases segment with
    | wildcard pattern => exact recital_wildcard seed ih
    | _ => exact recital_single (fun _ h => by cases h) seed ih

/-- A cursor without segments gives nothing. -/
theorem pulling_next_of_nil {selector : Selector} (h : selector.segments = []) (seed : Place)
    (c : Cache) (s : σ) :
    pulling (fun cursor : Cursor => (cursor.next seed : StateT Cache (StateM σ) _))
      (ofSelector selector, c, s) = (.ok none, ofSelector selector, c, s) := by
  have hnext : (next (ofSelector selector) seed : StateT Cache (StateM σ) _) = (do
      let out ← pullChain [] seed (fresh [])
      pure (out.1, ⟨selector, out.2⟩)) := by
    rw [next, ofSelector, h]
    rfl
  simp only [pulling, hnext]
  rw [ofSelector, h]
  rfl

/-- The same of a cursor at the start, and its selector. -/
theorem recital_next (selector : Selector) (seed : Place) :
    Recital (fun cursor : Cursor => (cursor.next seed : StateT Cache (StateM σ) _)) visit
      (ofSelector selector) (ofSelector selector) (selector.search visit seed) := by
  intro c s
  by_cases hne : selector.segments = []
  · rw [Selector.search, hne, List.isEmpty_nil, if_pos rfl]
    exact ⟨_, .done (pulling_next_of_nil hne seed c s), fun _ => rfl⟩
  · have hchain : Recital (pullChain selector.segments seed : _ → StateT Cache (StateM σ) _) visit
        (fresh selector.segments) (fresh selector.segments)
        (Segment.search visit selector.segments seed) := recital_pullChain _ hne seed
    obtain ⟨left, hr, hleft⟩ := hchain c s
    rw [Selector.search, if_neg (by simpa using hne)]
    let into : List Progress × Cache × σ → Cursor × Cache × σ := fun x => (⟨selector, x.1⟩, x.2)
    have hstep : ∀ x, pulling (fun cursor : Cursor => cursor.next seed) (into x) =
        ((pulling (pullChain selector.segments seed) x).1,
          into (pulling (pullChain selector.segments seed) x).2) := fun x => rfl
    exact ⟨⟨selector, left⟩, hr.lift hstep fun p x => rfl, fun hok => by rw [hleft hok]; rfl⟩

end Cursor

/-- Without a selector, the value is what is said of the directory. -/
theorem Expression.run_eval_of_none {e : Expression} (h : e.selector = none) (dir : Place)
    (c : Cache) (s : σ) : ((e.eval dir : Work (StateM σ) Value).run.run c).run s =
      (((e.formula.getD .everything).eval (c.nodeAt dir), c), s) := by
  rw [Expression.eval, h]
  rfl

/-- With a selector, the value lists what a search tells. -/
theorem Expression.run_eval_of_some {e : Expression} {selector : Selector}
    (h : e.selector = some selector) (dir : Place) (c : Cache) (s : σ) :
    ((e.eval dir : Work (StateM σ) Value).run.run c).run s =
      let told := ((selector.search (Expression.describe e.formula) dir :
        Work (StateM σ) _).run.run c).run s
      ((told.1.1.map Value.list, told.1.2), told.2) := by
  rw [Expression.eval, h]
  dsimp only
  rw [map_eq_pure_bind, run_bind]
  rcases ((selector.search (Expression.describe e.formula) dir :
    Work (StateM σ) _).run.run c).run s with ⟨⟨r, c'⟩, s'⟩
  cases r <;> rfl

/-- Evaluating with the cursor of the selector, if there is one, in whatever state it is: it is
set back to the start, and its matches are described one after the other. -/
inductive Evaluates (formula : Option Formula) (dir : Place) :
    Option Cursor × Cache × σ → Except Failure Value × Option Cursor × Cache × σ → Prop
  | object (c : Cache) (s : σ) : Evaluates formula dir (none, c, s)
      ((formula.getD .everything).eval (c.nodeAt dir), none, c, s)
  | matching {cursor left : Cursor} {c c' : Cache} {s s' : σ} {values : Except Failure (List Value)}
      (h : Recites (pulling fun cursor : Cursor => cursor.next dir)
        (telling (Expression.describe formula)) (cursor.reset, c, s) values (left, c', s')) :
      Evaluates formula dir (some cursor, c, s) (values.map .list, some left, c', s')

/-- With a cursor that was left in any state, evaluating comes to the one thing that evaluating
the expression comes to. -/
theorem evaluates_iff {e : Expression} {cursor : Option Cursor}
    (hcursor : cursor.map Cursor.selector = e.selector) (dir : Place) (c : Cache) (s : σ) :
    ∃ left : Option Cursor, left.map Cursor.selector = e.selector ∧
      ∀ out, Evaluates e.formula dir (cursor, c, s) out ↔
        out = ((((e.eval dir : Work (StateM σ) Value).run.run c).run s).1.1, left,
          (((e.eval dir : Work (StateM σ) Value).run.run c).run s).1.2,
          (((e.eval dir : Work (StateM σ) Value).run.run c).run s).2) := by
  cases cursor with
  | none =>
    rw [Expression.run_eval_of_none hcursor.symm]
    refine ⟨none, hcursor, fun out => ⟨fun h => ?_, fun h => h ▸ .object c s⟩⟩
    cases h
    rfl
  | some cursor =>
    rw [Expression.run_eval_of_some hcursor.symm]
    have hrecital : Recital (fun cursor : Cursor => (cursor.next dir : StateT Cache (StateM σ) _))
        (Expression.describe e.formula) cursor.reset cursor.reset
        (cursor.selector.search (Expression.describe e.formula) dir) :=
      Cursor.recital_next cursor.selector dir
    obtain ⟨left, hr, -⟩ := hrecital c s
    have hleft : left.selector = cursor.selector :=
      Recites.keeps (I := fun x => x.1.selector = cursor.selector) (fun _ hx => hx)
        (fun _ _ hx => hx) hr rfl
    refine ⟨some left, by rw [Option.map_some, hleft, ← hcursor, Option.map_some], fun out => ?_⟩
    constructor
    · intro h
      cases h with
      | matching h =>
        obtain ⟨rfl, hend⟩ := hr.unique h
        cases hend
        rfl
    · rintro rfl
      exact .matching hr

end ShowTree
