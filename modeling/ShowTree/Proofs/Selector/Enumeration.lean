/-
ShowTree.Proofs.Selector.Enumeration — a cursor finds what a recursive search finds.

The search is written down as the plain recursion that it is: every candidate of a segment
is followed through the rest of the chain before the next one is taken, and the first
failure ends it (`Segment.visits`). A cursor keeps its place in this search between two
answers. Asked until nothing more comes, or a failure does (`Drains`), it gives the places
that the recursion finds, in order, makes the same calls on the way, and is back at the
start if it came to its end (`enumerates_pullChain`). Nothing is assumed about the file
system, which may change between two answers.
-/
import ShowTree.Cursor
import ShowTree.Proofs.Work.Triple

namespace ShowTree

/-! ## 1. The recursive search -/

/-- What a search comes to: the places that were found, and the failure that ended it, if
one did. -/
structure Harvest where
  places : List Place
  failure : Option Failure
  deriving DecidableEq

namespace Segment

variable {m : Type → Type} [Monad m] [FileSystem m]

/-- Goes on from what was found, if anything was. -/
def goOn (onward : Place → StateT Cache m Harvest) :
    Except Failure (Option Place) → StateT Cache m Harvest
  | .ok (some p) => onward p
  | .ok none => pure ⟨[], none⟩
  | .error e => pure ⟨[], some e⟩

/-- Asks for an object and goes on from it. -/
def through (ask : Work m (Option Place)) (onward : Place → StateT Cache m Harvest) :
    StateT Cache m Harvest := do
  goOn onward (← ask.run)

/-- One search after the other, up to the first that fails. -/
def inTurn {α : Type} (search : α → StateT Cache m Harvest) : List α → StateT Cache m Harvest
  | [] => pure ⟨[], none⟩
  | a :: rest => do
    let first ← search a
    match first.failure with
    | some e => pure ⟨first.places, some e⟩
    | none => do
      let others ← inTurn search rest
      pure ⟨first.places ++ others.places, others.failure⟩

/-- The places that the segments find from a seed, depth-first. -/
def visits : List Segment → Place → StateT Cache m Harvest
  | [], p => pure ⟨[p], none⟩
  | .wildcard pattern :: rest, seed => do
    match ← (Cache.children seed : Work m _).run with
    | .ok names =>
      inTurn (fun text => through (Cache.meetIfPresent (seed.path.join text)) (visits rest))
        (names.filter (Wildcard.accepts pattern))
    | .error e => pure ⟨[], some e⟩
  | segment :: rest, seed => through (segment.candidate seed) (visits rest)

theorem visits_single {segment : Segment} (h : ∀ pattern, segment ≠ .wildcard pattern)
    (rest : List Segment) (seed : Place) :
    visits (m := m) (segment :: rest) seed = through (segment.candidate seed) (visits rest) := by
  cases segment with
  | wildcard pattern => exact absurd rfl (h pattern)
  | _ => rfl

/-- The search below the entry with a name. -/
def below (rest : List Segment) (seed : Place) (text : String) : StateT Cache m Harvest :=
  through (Cache.meetIfPresent (seed.path.join text)) (visits rest)

variable {σ : Type} {c c' : Cache} {s s' : σ}

theorem run_below [FileSystem (StateM σ)] {rest : List Segment} {seed : Place} {text : String}
    {r : Except Failure (Option Place)}
    (h : ((Cache.meetIfPresent (seed.path.join text) : Work (StateM σ) _).run.run c).run s =
      ((r, c'), s')) :
    ((below rest seed text : StateT Cache (StateM σ) _).run c).run s =
      ((goOn (visits rest) r : StateT Cache (StateM σ) _).run c').run s' :=
  run_bind_of_eq h

/-- What comes of one search after the other, by what the first came to. -/
theorem run_inTurn_cons {α : Type} {search : α → StateT Cache (StateM σ) Harvest} {a : α}
    {rest : List α} {first : Harvest} (h : ((search a).run c).run s = ((first, c'), s')) :
    ((inTurn search (a :: rest)).run c).run s =
      match first.failure with
      | some e => ((⟨first.places, some e⟩, c'), s')
      | none =>
        let others := ((inTurn search rest).run c').run s'
        ((⟨first.places ++ others.1.1.places, others.1.1.failure⟩, others.1.2), others.2) := by
  rw [inTurn, run_bind_of_eq h]
  cases first.failure <;> rfl

end Segment

/-! ## 2. Asking until nothing more comes -/

/-- Asking a machine until its first answer that is none or a failure: what it gave, and
how it was left. -/
inductive Drains {X : Type} (step : X → Pull × X) : X → Harvest → X → Prop
  | done {x y : X} (h : step x = (.ok none, y)) : Drains step x ⟨[], none⟩ y
  | failed {x y : X} {e : Failure} (h : step x = (.error e, y)) : Drains step x ⟨[], some e⟩ y
  | found {x y z : X} {p : Place} {rest : Harvest} (h : step x = (.ok (some p), y))
      (more : Drains step y rest z) : Drains step x ⟨p :: rest.places, rest.failure⟩ z

namespace Drains

variable {X : Type} {step : X → Pull × X} {x y z : X} {h : Harvest}

/-- Only the first step depends on where the machine starts. -/
theorem of_step_eq (he : step x = step y) (hd : Drains step y h z) : Drains step x h z := by
  cases hd with
  | done hs => exact .done (he.trans hs)
  | failed hs => exact .failed (he.trans hs)
  | found hs more => exact .found (he.trans hs) more

/-- What another machine comes to that gives the same answers: `f` says how it stands before each
answer, and `g` how the last one leaves it. -/
theorem map {Y : Type} {step' : Y → Pull × Y} {f g : X → Y}
    (hdone : ∀ {x y}, step x = (.ok none, y) → step' (f x) = (.ok none, g y))
    (hfailed : ∀ {x y e}, step x = (.error e, y) → step' (f x) = (.error e, g y))
    (hfound : ∀ {x y p}, step x = (.ok (some p), y) → step' (f x) = (.ok (some p), f y))
    (hd : Drains step x h z) : Drains step' (f x) h (g z) := by
  induction hd with
  | done hs => exact .done (hdone hs)
  | failed hs => exact .failed (hfailed hs)
  | found hs _ ih => exact .found (hfound hs) ih

/-- There is only one thing that asking can come to. -/
theorem unique {h' : Harvest} {z' : X} (hd : Drains step x h z) (hd' : Drains step x h' z') :
    h = h' ∧ z = z' := by
  induction hd generalizing h' z' with
  | done hs =>
    cases hd' with
    | done hs' => rw [hs] at hs'; cases hs'; exact ⟨rfl, rfl⟩
    | failed hs' => rw [hs] at hs'; cases hs'
    | found hs' _ => rw [hs] at hs'; cases hs'
  | failed hs =>
    cases hd' with
    | done hs' => rw [hs] at hs'; cases hs'
    | failed hs' => rw [hs] at hs'; cases hs'; exact ⟨rfl, rfl⟩
    | found hs' _ => rw [hs] at hs'; cases hs'
  | found hs _ ih =>
    cases hd' with
    | done hs' => rw [hs] at hs'; cases hs'
    | failed hs' => rw [hs] at hs'; cases hs'
    | found hs' more =>
      rw [hs] at hs'
      cases hs'
      obtain ⟨rfl, rfl⟩ := ih more
      exact ⟨rfl, rfl⟩

end Drains

variable {σ P : Type} [FileSystem (StateM σ)]

/-- One answer of something that keeps `P` between two answers, with the cache and the file
system. -/
def pulling (pull : P → StateT Cache (StateM σ) (Pull × P)) (x : P × Cache × σ) :
    Pull × (P × Cache × σ) :=
  let out := ((pull x.1).run x.2.1).run x.2.2
  (out.1.1.1, out.1.1.2, out.1.2, out.2)

/-- Asking from `start` comes to what the search does to cache and file system and finds,
and ends in `final` if there is no failure. -/
def Enumerates (pull : P → StateT Cache (StateM σ) (Pull × P)) (start final : P)
    (search : StateT Cache (StateM σ) Harvest) : Prop :=
  ∀ c s, ∃ left, Drains (pulling pull) (start, c, s) ((search.run c).run s).1.1
      (left, ((search.run c).run s).1.2, ((search.run c).run s).2) ∧
    (((search.run c).run s).1.1.failure = none → left = final)

omit [FileSystem (StateM σ)] in
theorem pulling_eq_iff {pull : P → StateT Cache (StateM σ) (Pull × P)} {x y : P × Cache × σ}
    {answer : Pull} :
    pulling pull x = (answer, y) ↔
      ((pull x.1).run x.2.1).run x.2.2 = (((answer, y.1), y.2.1), y.2.2) := by
  rw [pulling]
  rcases ((pull x.1).run x.2.1).run x.2.2 with ⟨⟨⟨answer', left⟩, c⟩, s⟩
  obtain ⟨left', c', s'⟩ := y
  constructor
  · intro h
    cases h
    rfl
  · intro h
    cases h
    rfl

/-! ## 3. Segments with one candidate -/

namespace Cursor

variable {segment : Segment} {rest : List Segment}

theorem pullChain_single (h : ∀ pattern, segment ≠ .wildcard pattern) (seed : Place)
    (own : Progress) (left : List Progress) :
    (pullChain (segment :: rest) seed (own :: left) : StateT Cache (StateM σ) _) =
      pullSingle segment rest.isEmpty (pullChain rest) seed own left := by
  cases segment with
  | wildcard pattern => exact absurd rfl (h pattern)
  | _ => rfl

/-- How a segment is left whose candidate has been followed to this answer. -/
def afterAnswer (p : Place) : Pull → Progress
  | .ok (some _) => .following p
  | _ => .fresh

theorem pulling_follow {p : Place} {x y : List Progress × Cache × σ} {answer : Pull}
    (hx : pulling (pullChain rest p) x = (answer, y)) :
    pulling (follow false (pullChain rest) p) x = (answer, afterAnswer p answer :: y.1, y.2) := by
  rw [pulling_eq_iff] at hx ⊢
  unfold follow
  rw [if_neg (by simp), run_bind_of_eq hx]
  rcases answer with e | found | place <;> rfl

/-- A segment that has not been asked is asked for its candidate, which is then followed. -/
theorem pulling_fresh (h : ∀ pattern, segment ≠ .wildcard pattern) {seed : Place}
    {left : List Progress} {c c' : Cache} {s s' : σ} {r : Except Failure (Option Place)}
    (hask : ((segment.candidate seed : Work (StateM σ) _).run.run c).run s = ((r, c'), s')) :
    pulling (pullChain (segment :: rest) seed) (.fresh :: left, c, s) =
      match r with
      | .ok (some p) =>
        pulling (pullChain (segment :: rest) seed) (.following p :: left, c', s')
      | .ok none => (.ok none, .fresh :: left, c', s')
      | .error e => (.error e, .fresh :: left, c', s') := by
  simp only [pulling, pullChain_single h]
  unfold pullSingle
  rw [run_bind_of_eq hask]
  rcases r with e | found | place <;> rfl

/-- While a candidate is followed, the answers are those of the rest of the chain. -/
theorem drains_following (h : ∀ pattern, segment ≠ .wildcard pattern)
    (hrest : rest.isEmpty = false) {seed p : Place} {x y : List Progress × Cache × σ}
    {found : Harvest} (hd : Drains (pulling (pullChain rest p)) x found y) :
    Drains (pulling (pullChain (segment :: rest) seed)) (.following p :: x.1, x.2) found
      (.fresh :: y.1, y.2) := by
  have hstep : ∀ {x y : List Progress × Cache × σ} {answer : Pull},
      pulling (pullChain rest p) x = (answer, y) →
      pulling (pullChain (segment :: rest) seed) (.following p :: x.1, x.2) =
        (answer, afterAnswer p answer :: y.1, y.2) := by
    intro x y answer hx
    rw [← pulling_follow hx]
    simp only [pulling, pullChain_single h, hrest]
    rfl
  exact hd.map (f := fun x => (.following p :: x.1, x.2)) (g := fun y => (.fresh :: y.1, y.2))
    hstep hstep hstep

/-- The progress of segments that have not been asked. -/
def fresh (segments : List Segment) : List Progress :=
  segments.map fun _ => .fresh

/-- A segment with one candidate, before a chain that enumerates what it visits. -/
theorem enumerates_single (h : ∀ pattern, segment ≠ .wildcard pattern) (seed : Place)
    (ih : rest ≠ [] → ∀ p, Enumerates (pullChain rest p : _ → StateT Cache (StateM σ) _)
      (fresh rest) (fresh rest) (Segment.visits rest p)) :
    Enumerates (pullChain (segment :: rest) seed : _ → StateT Cache (StateM σ) _)
      (fresh (segment :: rest)) (fresh (segment :: rest))
      (Segment.visits (segment :: rest) seed) := by
  intro c s
  rw [Segment.visits_single h, Segment.through]
  rcases hask : ((segment.candidate seed : Work (StateM σ) _).run.run c).run s with ⟨⟨r, c₁⟩, s₁⟩
  rw [run_bind_of_eq hask]
  have hstart : pulling (pullChain (segment :: rest) seed) (fresh (segment :: rest), c, s) = _ :=
    pulling_fresh h hask
  rcases r with e | found | p
  · exact ⟨_, .failed hstart, fun hf => by cases hf⟩
  · exact ⟨_, .done hstart, fun _ => rfl⟩
  · cases rest with
    | nil =>
      have hgive : pulling (pullChain [segment] seed) ([.following p], c₁, s₁) =
          (.ok (some p), [.spent], c₁, s₁) := by
        simp only [pulling, pullChain_single h]
        rfl
      have hspent : pulling (pullChain [segment] seed) ([.spent], c₁, s₁) =
          (.ok none, [.fresh], c₁, s₁) := by
        simp only [pulling, pullChain_single h]
        rfl
      exact ⟨_, .of_step_eq hstart (.found hgive (.done hspent)), fun _ => rfl⟩
    | cons next rest =>
      obtain ⟨left, hd, hleft⟩ := ih (by simp) p c₁ s₁
      exact ⟨_, .of_step_eq hstart (drains_following h rfl hd), fun hf => by rw [hleft hf]; rfl⟩

/-! ## 4. Wildcards -/

variable {pattern : String} {names : List String}

/-- A wildcard that has not been asked lists the directory first. -/
theorem pulling_unlisted {seed : Place} {r : Except Failure (List String)} {c c₁ : Cache}
    {s s₁ : σ} (hask : ((Cache.children seed : Work (StateM σ) _).run.run c).run s = ((r, c₁), s₁)) :
    pulling (pullChain (.wildcard pattern :: rest) seed) (fresh (.wildcard pattern :: rest), c, s) =
      match r with
      | .ok names => pulling (pullChain (.wildcard pattern :: rest) seed)
          (.listing names none :: fresh rest, c₁, s₁)
      | .error e => (.error e, fresh (.wildcard pattern :: rest), c₁, s₁) := by
  simp only [pulling, fresh, List.map_cons, pullChain, pullWildcard]
  rw [run_bind_of_eq hask]
  cases r <;> rfl

/-- A candidate of a wildcard is followed to the end, and then the other names are tried. -/
theorem pulling_listed (hrest : rest.isEmpty = false) {seed p : Place}
    {x y : List Progress × Cache × σ} {answer : Pull}
    (hx : pulling (pullChain rest p) x = (answer, y)) :
    pulling (pullChain (.wildcard pattern :: rest) seed) (.listing names (some p) :: x.1, x.2) =
      match answer with
      | .ok none =>
        pulling (pullChain (.wildcard pattern :: rest) seed) (.listing names none :: y.1, y.2)
      | _ => (answer, .listing names (some p) :: y.1, y.2) := by
  rw [pulling_eq_iff] at hx
  simp only [pulling, pullChain, pullWildcard, followListed, hrest]
  rw [run_bind_of_eq hx]
  rcases answer with e | found | place <;> rfl

/-- A candidate whose matches end in a failure. -/
theorem drains_listed_failed (hrest : rest.isEmpty = false) {seed p : Place}
    {x y : List Progress × Cache × σ} {found : Harvest}
    (hd : Drains (pulling (pullChain rest p)) x found y) (hfailed : found.failure ≠ none) :
    Drains (pulling (pullChain (.wildcard pattern :: rest) seed))
      (.listing names (some p) :: x.1, x.2) found (.listing names (some p) :: y.1, y.2) := by
  induction hd with
  | done hs => exact absurd rfl hfailed
  | failed hs => exact .failed (pulling_listed hrest hs)
  | found hs _ ih => exact .found (pulling_listed hrest hs) (ih hfailed)

/-- A candidate whose matches come to an end, before what the other names give. -/
theorem drains_listed_done (hrest : rest.isEmpty = false) {seed p : Place}
    {x y z : List Progress × Cache × σ} {found others : Harvest}
    (hd : Drains (pulling (pullChain rest p)) x found y) (hdone : found.failure = none)
    (hothers : Drains (pulling (pullChain (.wildcard pattern :: rest) seed))
      (.listing names none :: y.1, y.2) others z) :
    Drains (pulling (pullChain (.wildcard pattern :: rest) seed))
      (.listing names (some p) :: x.1, x.2) ⟨found.places ++ others.places, others.failure⟩ z := by
  induction hd with
  | done hs => exact .of_step_eq (pulling_listed hrest hs) hothers
  | failed hs => cases hdone
  | found hs _ ih => exact .found (pulling_listed hrest hs) (ih hdone hothers)

/-- A name that the wildcard accepts is met, and followed from there. -/
theorem pulling_accepted {seed : Place} {name : String} {r : Except Failure (Option Place)}
    {c c₁ : Cache} {s s₁ : σ} (haccept : Wildcard.accepts pattern name = true)
    (hask : ((Cache.meetIfPresent (seed.path.join name) : Work (StateM σ) _).run.run c).run s =
      ((r, c₁), s₁)) :
    pulling (pullChain (.wildcard pattern :: rest) seed)
        (.listing (name :: names) none :: fresh rest, c, s) =
      match r with
      | .ok (some p) =>
        if rest.isEmpty then (.ok (some p), .listing names none :: fresh rest, c₁, s₁)
        else pulling (pullChain (.wildcard pattern :: rest) seed)
          (.listing names (some p) :: fresh rest, c₁, s₁)
      | .ok none => pulling (pullChain (.wildcard pattern :: rest) seed)
          (.listing names none :: fresh rest, c₁, s₁)
      | .error e => (.error e, .listing names none :: fresh rest, c₁, s₁) := by
  simp only [pulling, pullChain, pullWildcard, pullNames, if_pos haccept]
  rw [run_bind_of_eq hask]
  rcases r with e | found | p
  · rfl
  · rfl
  · cases rest <;> rfl

/-- Other names are passed over. -/
theorem pulling_passed {seed : Place} {name : String} {c : Cache} {s : σ}
    (haccept : ¬ Wildcard.accepts pattern name = true) :
    pulling (pullChain (.wildcard pattern :: rest) seed)
        (.listing (name :: names) none :: fresh rest, c, s) =
      pulling (pullChain (.wildcard pattern :: rest) seed)
        (.listing names none :: fresh rest, c, s) := by
  simp only [pulling, pullChain, pullWildcard, pullNames, if_neg haccept]

/-- The machine begins by giving what is in `first`, and goes on from `y` if that is no failure. -/
def Leading {P : Type} (step : P × Cache × σ → Pull × (P × Cache × σ)) (x : P × Cache × σ)
    (first : Harvest) (y : P × Cache × σ) : Prop :=
  match first.failure with
  | some e => ∃ left, Drains step x ⟨first.places, some e⟩ (left, y.2)
  | none => ∀ {others z}, Drains step y others z →
      Drains step x ⟨first.places ++ others.places, others.failure⟩ z

omit [FileSystem (StateM σ)] in
/-- A machine that begins with what is found for the first item, and goes on with the others. -/
theorem enumerates_cons {P α : Type} {pull : P → StateT Cache (StateM σ) (Pull × P)}
    {start next final : P} {search : α → StateT Cache (StateM σ) Harvest} {a : α} {items : List α}
    (hfirst : ∀ {c c' s s' first}, ((search a).run c).run s = ((first, c'), s') →
      Leading (pulling pull) (start, c, s) first (next, c', s'))
    (hothers : Enumerates pull next final (Segment.inTurn search items)) :
    Enumerates pull start final (Segment.inTurn search (a :: items)) := by
  intro c s
  rcases hrun : ((search a).run c).run s with ⟨⟨⟨places, failure⟩, c'⟩, s'⟩
  have hleading := hfirst hrun
  rw [Segment.run_inTurn_cons hrun]
  cases failure with
  | some e =>
    obtain ⟨left, hd⟩ := hleading
    exact ⟨left, hd, fun hf => by cases hf⟩
  | none =>
    obtain ⟨left, hd, hleft⟩ := hothers c' s'
    exact ⟨left, hleading hd, hleft⟩

/-- A name that the wildcard accepts leads to what is found from there. -/
theorem leading_accepted (seed : Place)
    (ih : rest ≠ [] → ∀ p, Enumerates (pullChain rest p : _ → StateT Cache (StateM σ) _)
      (fresh rest) (fresh rest) (Segment.visits rest p))
    {name : String} (haccept : Wildcard.accepts pattern name = true) {c c' : Cache} {s s' : σ}
    {first : Harvest}
    (hrun : ((Segment.below rest seed name : StateT Cache (StateM σ) _).run c).run s =
      ((first, c'), s')) :
    Leading (pulling (pullChain (.wildcard pattern :: rest) seed))
      (.listing (name :: names) none :: fresh rest, c, s) first
      (.listing names none :: fresh rest, c', s') := by
  rcases hask : ((Cache.meetIfPresent (seed.path.join name) : Work (StateM σ) _).run.run c).run s
    with ⟨⟨r, c₁⟩, s₁⟩
  have hstart : pulling (pullChain (.wildcard pattern :: rest) seed)
      (.listing (name :: names) none :: fresh rest, c, s) = _ := pulling_accepted haccept hask
  rw [Segment.run_below hask] at hrun
  rcases r with e | found | p
  · cases hrun
    exact ⟨_, .failed hstart⟩
  · cases hrun
    intro others z hd
    exact .of_step_eq hstart hd
  · cases hrest : rest.isEmpty with
    | true =>
      obtain rfl := List.isEmpty_iff.1 hrest
      cases hrun
      intro others z hd
      exact .found hstart hd
    | false =>
      have hfound : ((Segment.visits rest p : StateT Cache (StateM σ) _).run c₁).run s₁ =
          ((first, c'), s') := hrun
      obtain ⟨left, hd, hleft⟩ := ih (by rintro rfl; cases hrest) p c₁ s₁
      rw [hfound] at hd hleft
      simp only [hrest, Bool.false_eq_true, if_false] at hstart
      obtain ⟨places, failure⟩ := first
      cases failure with
      | some e => exact ⟨_, .of_step_eq hstart (drains_listed_failed hrest hd (by simp))⟩
      | none =>
        rw [hleft rfl] at hd
        intro others z hothers
        exact .of_step_eq hstart (drains_listed_done hrest hd rfl hothers)

/-- The names of a directory, tried one after the other. -/
theorem enumerates_names (seed : Place)
    (ih : rest ≠ [] → ∀ p, Enumerates (pullChain rest p : _ → StateT Cache (StateM σ) _)
      (fresh rest) (fresh rest) (Segment.visits rest p)) :
    ∀ names : List String,
      Enumerates (pullChain (.wildcard pattern :: rest) seed : _ → StateT Cache (StateM σ) _)
        (.listing names none :: fresh rest) (fresh (.wildcard pattern :: rest))
        (Segment.inTurn (Segment.below rest seed) (names.filter (Wildcard.accepts pattern)))
  | [], c, s => ⟨_, .done rfl, fun _ => rfl⟩
  | name :: names, c, s => by
    have hothers := enumerates_names seed ih names
    by_cases haccept : Wildcard.accepts pattern name = true
    · rw [List.filter_cons_of_pos haccept]
      exact enumerates_cons (leading_accepted seed ih haccept) hothers c s
    · rw [List.filter_cons_of_neg haccept]
      obtain ⟨left, hd, hleft⟩ := hothers c s
      exact ⟨left, .of_step_eq (pulling_passed haccept) hd, hleft⟩

/-- A wildcard, before a chain that enumerates what it visits. -/
theorem enumerates_wildcard (seed : Place)
    (ih : rest ≠ [] → ∀ p, Enumerates (pullChain rest p : _ → StateT Cache (StateM σ) _)
      (fresh rest) (fresh rest) (Segment.visits rest p)) :
    Enumerates (pullChain (.wildcard pattern :: rest) seed : _ → StateT Cache (StateM σ) _)
      (fresh (.wildcard pattern :: rest)) (fresh (.wildcard pattern :: rest))
      (Segment.visits (.wildcard pattern :: rest) seed) := by
  intro c s
  rcases hask : ((Cache.children seed : Work (StateM σ) _).run.run c).run s with ⟨⟨r, c₁⟩, s₁⟩
  have hstart : pulling (pullChain (.wildcard pattern :: rest) seed)
      (fresh (.wildcard pattern :: rest), c, s) = _ := pulling_unlisted hask
  rw [Segment.visits, run_bind_of_eq hask]
  cases r with
  | error e => exact ⟨_, .failed hstart, fun hf => by cases hf⟩
  | ok names =>
    obtain ⟨left, hd, hleft⟩ := enumerates_names seed ih names c₁ s₁
    exact ⟨left, .of_step_eq hstart hd, hleft⟩

/-! ## 5. Chains -/

/-- A chain of segments enumerates what it visits, and is back at the start afterwards. -/
theorem enumerates_pullChain : ∀ segments : List Segment, segments ≠ [] → ∀ seed : Place,
    Enumerates (pullChain segments seed : _ → StateT Cache (StateM σ) _) (fresh segments)
      (fresh segments) (Segment.visits segments seed)
  | [], h, _ => absurd rfl h
  | segment :: rest, _, seed => by
    have ih := enumerates_pullChain rest
    cases segment with
    | wildcard pattern => exact enumerates_wildcard seed ih
    | _ => exact enumerates_single (fun _ h => by cases h) seed ih

/-- The same of a selector and its cursor. -/
theorem enumerates_next {selector : Selector} (h : selector.segments ≠ []) (seed : Place) :
    Enumerates (fun cursor : Cursor => (cursor.next seed : StateT Cache (StateM σ) _))
      (ofSelector selector) (ofSelector selector) (Segment.visits selector.segments seed) := by
  intro c s
  obtain ⟨left, hd, hleft⟩ := enumerates_pullChain selector.segments h seed c s
  have hstep : ∀ {x y : List Progress × Cache × σ} {answer : Pull},
      pulling (pullChain selector.segments seed) x = (answer, y) →
      pulling (fun cursor : Cursor => cursor.next seed) (⟨selector, x.1⟩, x.2) =
        (answer, ⟨selector, y.1⟩, y.2) := by
    intro x y answer hx
    rw [pulling_eq_iff] at hx ⊢
    exact run_bind_of_eq hx
  refine ⟨⟨selector, left⟩, ?_, fun hf => by rw [hleft hf]; rfl⟩
  exact hd.map (f := fun x => (Cursor.mk selector x.1, x.2))
    (g := fun y => (Cursor.mk selector y.1, y.2)) hstep hstep hstep

end Cursor

end ShowTree
