/-
ShowTree.Proofs.Prototype.RoundTrip — references read back.

To ask for the reference to a path is to meet its object and to write down the names that lead
to it from the root of its show, so the answer names the object in the cache that was left
(`Cache.Names`). Every object of the same show then reads the reference as that object, whether
as a target or as one kept in a record; asked again by its canonical path, the object has the same
reference; and no other object of the show has it (`showRelative_read_back`).
-/
import ShowTree.Proofs.Prototype.Following

namespace ShowTree.Cache

variable {σ : Type} [FileSystem (StateM σ)]

/-- An object that has been met and is named by a reference is asked for it without any call. -/
theorem Names.run_showRelative {c : Cache} {reference : String} {p : Place}
    (h : c.Names reference p) (s : σ) :
    ((showRelative p.path : Work (StateM σ) String).run.run c).run s =
      ((.ok reference, c), s) := by
  have hmeet : ((meetPath p.path : Work (StateM σ) Place).run.run c).run s = ((.ok p, c), s) := by
    rw [run_meetPath_of_toPlace p.toPlace_path, run_meet_of_met h.met]
    rfl
  have hnames : (c.showAt p).bind (reference? · p.path) = some reference := h
  rw [showRelative, run_bind, hmeet]
  dsimp only
  rw [run_bind, run_get]
  dsimp only
  rw [hnames]
  rfl

/-- The reference that was asked for names the object of the path. -/
theorem names_of_run_showRelative {c c' : Cache} {s s' : σ} {p : Path} {reference : String}
    (h : ((showRelative p : Work (StateM σ) String).run.run c).run s =
      ((.ok reference, c'), s')) :
    ∃ q, p.toPlace = .ok q ∧ c'.Names reference q := by
  have hnames := names_of_showRelative (J := fun _ => True) (fun _ _ _ _ h _ => h) p c s trivial
  rw [h] at hnames
  exact hnames.2

/-- Objects of one show with the same reference are one. -/
theorem Names.eq_of_showAt {c d : Cache} {reference : String} {p q : Place}
    (hp : c.Names reference p) (hq : d.Names reference q) (hshow : d.showAt q = c.showAt p) :
    q = p := by
  obtain ⟨showRoot, hroot, href⟩ := Option.bind_eq_some_iff.1 hp
  obtain ⟨showRoot', hroot', href'⟩ := Option.bind_eq_some_iff.1 hq
  rw [hshow, hroot, Option.some.injEq] at hroot'
  subst hroot'
  exact Place.reference?_injective href' href

/-- The reference that a path was asked for leads from every object of the show to the canonical
path: as one that is kept in a record, and as a target. Asked for the canonical path, the answer
is the same and meets nothing. Whenever another path has the same reference in the same show, its
canonical path is the same. -/
theorem showRelative_read_back {c c' : Cache} {s s' : σ} {p : Path} {reference : String}
    (h : ((showRelative p : Work (StateM σ) String).run.run c).run s =
      ((.ok reference, c'), s')) :
    ∃ place, p.toPlace = .ok place ∧
      (∀ n, c'.showAt n = c'.showAt place →
        c'.resolveReference reference n = .ok place ∧ c'.resolveTarget reference n = .ok place) ∧
      (∀ t, ((showRelative place.path : Work (StateM σ) String).run.run c').run t =
        ((.ok reference, c'), t)) ∧
      ∀ {q : Path} {d d' : Cache} {t t' : σ},
        ((showRelative q : Work (StateM σ) String).run.run d).run t = ((.ok reference, d'), t') →
        ∀ other, q.toPlace = .ok other → d'.showAt other = c'.showAt place → other = place := by
  obtain ⟨place, hplace, hnames⟩ := names_of_run_showRelative h
  refine ⟨place, hplace, fun n hn => ?_, hnames.run_showRelative, fun hq other hother hshow => ?_⟩
  · obtain ⟨showRoot, hroot, href⟩ := Option.bind_eq_some_iff.1 hnames
    have hshow : c'.showAt n = some showRoot := hn.trans hroot
    exact ⟨resolveReference_reference hshow href, resolve_reference _ hshow href⟩
  · obtain ⟨other', hother', hnames'⟩ := names_of_run_showRelative hq
    rw [hother] at hother'
    cases hother'
    exact hnames.eq_of_showAt hnames' hshow

/-- Asking for the prototype of the outer show by a path that is not canonical. -/
def askProto : (Except Failure String × Cache) × Tree :=
  ((showRelative ⟨"/o//x/../.meta/./proto/P"⟩ : Work (StateM Tree) String).run.run
    ⟨.default, .root, []⟩).run nestedShows

/-- For instance that prototype, read back from the root of its show. -/
theorem showRelative_read_back_proto :
    ∃ c' t', askProto = ((.ok "//.meta/proto/P", c'), t') ∧
      c'.resolveReference "//.meta/proto/P" outerShow = .ok outerProto ∧
      c'.resolveTarget "//.meta/proto/P" outerShow = .ok outerProto := by
  have hanswer : askProto.1.1.toOption = some "//.meta/proto/P" := by decide +kernel
  obtain ⟨reference, hrun⟩ := exists_eq_ok (o := askProto) (by rw [hanswer]; rfl)
  have href : reference = "//.meta/proto/P" := by
    rw [hrun] at hanswer
    exact Option.some.inj hanswer
  subst href
  obtain ⟨place, hplace, hread, -, -⟩ := showRelative_read_back hrun
  have hproto : place = outerProto := by
    have hcanonical : (Path.mk "/o//x/../.meta/./proto/P").toPlace = .ok outerProto := by rfl
    exact Except.ok.inj (hplace.symm.trans hcanonical)
  subst hproto
  exact ⟨_, _, hrun, hread outerShow (by decide +kernel)⟩

end ShowTree.Cache
