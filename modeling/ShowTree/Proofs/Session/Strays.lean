/-
ShowTree.Proofs.Session.Strays — what has been met and is no longer there.

A cache forgets nothing, so it can know of objects that are gone. But an object keeps its
kind for as long as it is there, and nothing is ever taken away except by moving a draft
into the place of a record. So in every session, under whatever names its records are kept
and whatever is refused, an object that has been met is still there as what it was, or it
was a file at the path of a draft that has been moved (`accounted_of_watch`).
-/
import ShowTree.Proofs.FileSystem.WellFormed
import ShowTree.Proofs.Session.Requests

namespace ShowTree

/-! ## 1. Strays -/

/-- Whether an object that has been met is no longer there as what it was. -/
def Node.isStray (t : Tree) (n : Node) : Bool :=
  t.kind? n.place.path.key != some n.stat.isDir

/-- Whether a place is at or below a stray. -/
def Cache.astray (c : Cache) (t : Tree) (p : Place) : Bool :=
  c.nodes.any fun n => n.isStray t && p.upward.contains n.place

/-- Where there are no strays, nothing is astray. -/
theorem Cache.astray_eq_false {c : Cache} {t : Tree} (h : ∀ n ∈ c.nodes, n.isStray t = false)
    (p : Place) : c.astray t p = false := by
  refine List.any_eq_false.2 fun n hn => ?_
  rw [h n hn, Bool.false_and]
  exact Bool.false_ne_true

/-- What has been met is there as what it was, or is a file that was moved away. -/
structure Accounted (layout : Layout) (c : Cache) (w : Watched) : Prop where
  layout : c.layout = layout
  grown : Grown c.nodes
  moved : ∀ n ∈ c.nodes, n.isStray w.tree = true →
    n.stat.isDir = false ∧ n.place.path.key ∈ (movedAway w.log).map Path.key

namespace Accounted

variable {layout : Layout} {c c' : Cache} {w : Watched}

theorem add (h : Accounted layout c w) {p : Place} {st : Stat} {r : Record}
    (hnew : c.node? p = none) (hdir : ∀ dir, p.dir? = some dir → (c.node? dir).isSome)
    (hstat : w.tree.stat p.path = .ok st) : Accounted layout (c.add p st r) w := by
  refine ⟨h.layout, h.grown.add hnew hdir, fun n hn hstray => ?_⟩
  rcases List.mem_append.1 hn with hn | hn
  · exact h.moved n hn hstray
  · obtain rfl := List.mem_singleton.1 hn
    have hkind : w.tree.kind? p.path.key = some st.isDir :=
      Tree.kind?_eq_some_iff.2 ⟨st, hstat, rfl⟩
    simp [Node.isStray, hkind] at hstray

theorem edit (h : Accounted layout c w) {p : Place} (hedit : Edited p c c') :
    Accounted layout c' w := by
  refine ⟨hedit.layout.trans h.layout, hedit.grown h.grown, fun n' hn' hstray => ?_⟩
  obtain ⟨n, hn, hplace, hstat, -⟩ := hedit.node n' hn'
  rw [Node.isStray, ← hplace, ← hstat] at hstray
  rw [← hplace, ← hstat]
  exact h.moved n hn hstray

/-- A change that keeps the kind of all but one key, which is moved away. -/
theorem granted (h : Accounted layout c w) {change : Change} {t : Tree}
    (happly : change.apply w.tree = .ok t) : Accounted layout c (w.granted change t) := by
  refine ⟨h.layout, h.grown, fun n hn hstray => ?_⟩
  cases hold : n.isStray w.tree with
  | true =>
    obtain ⟨hfile, hmoved⟩ := h.moved n hn hold
    refine ⟨hfile, ?_⟩
    cases change with
    | rename source target => exact List.mem_cons_of_mem _ hmoved
    | _ => exact hmoved
  | false =>
    have hkind : w.tree.kind? n.place.path.key = some n.stat.isDir := by
      simpa [Node.isStray] using hold
    have hgone : t.kind? n.place.path.key ≠ some n.stat.isDir := by
      simpa [Node.isStray, Watched.granted] using hstray
    cases change with
    | write p content =>
      have hwrite : w.tree.write p content = .ok t := happly
      exact absurd (Tree.kind?_write hwrite hkind) hgone
    | makeDir p =>
      have hmake : w.tree.makeDir p = .ok t := happly
      exact absurd (Tree.kind?_makeDir hmake hkind) hgone
    | rename source target =>
      have hrename : w.tree.rename source target = .ok t := happly
      by_cases hsource : source.key = n.place.path.key
      · obtain ⟨content, hfile, -⟩ := Tree.get?_rename hrename
        rw [Tree.kind?, ← hsource, hfile] at hkind
        exact ⟨(Option.some.inj hkind).symm, hsource ▸ List.mem_cons_self⟩
      · exact absurd (Tree.kind?_rename hrename hsource hkind) hgone

theorem refused (h : Accounted layout c w) (change : Change) (e : FileError) :
    Accounted layout c (w.refused change e) := by
  refine ⟨h.layout, h.grown, fun n hn hstray => ?_⟩
  have hmoved := h.moved n hn hstray
  cases change <;> exact hmoved

/-- Where there is nothing, nothing has been met, unless it was moved away. -/
theorem node?_of_absent (h : Accounted layout c w) {p : Place}
    (habsent : w.tree.present p.path = false) (hkey : p.path.key ∉ (movedAway w.log).map Path.key) :
    c.node? p = none := by
  cases hn : c.node? p with
  | none => rfl
  | some n =>
    obtain ⟨hmem, rfl⟩ := Cache.node?_eq_some hn
    have hstray : n.isStray w.tree = true := by
      simp [Node.isStray, Tree.kind?, Tree.get?_of_absent habsent]
    exact absurd (h.moved n hmem hstray).2 hkey

end Accounted

/-! ## 2. Runs -/

theorem enduring_accounted (layout : Layout) : Enduring (fun w p st => w.tree.stat p = .ok st)
    (fun w p isDir r => w.tree.recordOf layout p isDir = .ok r) (Accounted layout) :=
  Enduring.of_changes
    (fun _ => truthful_watched.calm (fun _ h => h.layout) fun _ _ _ _ h hnew hdir hstat _ =>
      h.add hnew hdir hstat)
    (fun hedit h => h.edit hedit) (fun happly h => h.granted happly) fun change e h =>
      h.refused change e

/-- After any requests, all that has been met is accounted for. -/
theorem accounted_of_watch {t : Tree} {refusal : Nat → Option FileError} {layout : Layout}
    {dir : Path} {start : Cache} {requests : List Request} {out : Cache × Watched}
    (hstart : Cache.start layout dir = .ok start)
    (hout : Request.watch requests start (.ofTree t refusal) = out) :
    Accounted layout out.1 out.2 := by
  obtain ⟨place, rfl⟩ := Cache.eq_of_start hstart
  exact (enduring_accounted layout).watch ⟨rfl, .nil, by simp⟩ hout

/-- A tree that only a session has changed is well formed if it was so before and nothing was
put under a key that is not canonical. -/
theorem wellFormed_of_watch {t : Tree} {refusal : Nat → Option FileError} {layout : Layout}
    {dir : Path} {start : Cache} {requests : List Request} {out : Cache × Watched}
    (hstart : Cache.start layout dir = .ok start) (ht : t.WellFormed)
    (hout : Request.watch requests start (.ofTree t refusal) = out)
    (hkeys : ∀ a ∈ out.2.log, a.answer.isOk → Tree.CanonicalKey a.change.target.key) :
    out.2.tree.WellFormed := by
  have henduring : Enduring (fun w p st => w.tree.stat p = .ok st)
      (fun w p isDir r => w.tree.recordOf layout p isDir = .ok r)
      (fun c w => c.layout = layout ∧
        ((∀ a ∈ w.log, a.answer.isOk → Tree.CanonicalKey a.change.target.key) →
          w.tree.WellFormed)) := by
    refine Enduring.of_changes
      (fun _ => truthful_watched.calm (fun _ h => h.1) fun _ _ _ _ h _ _ _ _ => h)
      (fun hedit h => ⟨hedit.layout.trans h.1, h.2⟩) (fun {c w change t} happly h => ?_)
      (fun change e h => ⟨h.1, fun hkeys => h.2 fun a ha => hkeys a (List.mem_cons_of_mem _ ha)⟩)
    refine ⟨h.1, fun hkeys => ?_⟩
    have hbefore := h.2 fun a ha => hkeys a (List.mem_cons_of_mem _ ha)
    have hkey := hkeys _ List.mem_cons_self rfl
    cases change with
    | write p content =>
      have hwrite : w.tree.write p content = .ok t := happly
      exact hbefore.write hkey hwrite
    | makeDir p =>
      have hmake : w.tree.makeDir p = .ok t := happly
      exact hbefore.makeDir hkey hmake
    | rename source target =>
      have hrename : w.tree.rename source target = .ok t := happly
      exact hbefore.rename hkey hrename
  obtain ⟨place, rfl⟩ := Cache.eq_of_start hstart
  have hempty : (Cache.mk layout place []).layout = layout ∧
      ((∀ a ∈ (Watched.ofTree t refusal).log, a.answer.isOk →
        Tree.CanonicalKey a.change.target.key) → (Watched.ofTree t refusal).tree.WellFormed) :=
    ⟨rfl, fun _ => ht⟩
  exact (henduring.watch hempty hout).2 hkeys

end ShowTree
