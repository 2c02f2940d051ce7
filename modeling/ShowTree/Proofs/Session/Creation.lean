/-
ShowTree.Proofs.Session.Creation — making objects again makes nothing.

What making objects adds to a tree is not seen by the expression that named them, so it
names the same paths afterwards, in the same order. Something is at each of them, so the
second time all are left alone, and the value of the expression lists them all
(`create_again`). It is different only where drafts are written, that is with a working
directory among the metadata: what is made there can be moved away when a record is saved, and
what a draft was met as can hide what is made (`not_create_again_draft`).
-/
import ShowTree.Proofs.Session.Making
import ShowTree.Proofs.Session.Naming

namespace ShowTree

/-! ## 1. Targets that are there, and targets that are not -/

section Targets

variable {σ : Type} [FileSystem (StateM σ)] {view : σ → Tree} {c₀ : Cache} {s₀ : σ}

/-- Where something is at every target, all are left alone. -/
theorem Truthful.run_forEach_present (h : Truthful view) {act : Path → Work (StateM σ) Unit}
    {targets : List Path} (hthere : ∀ p ∈ targets, (view s₀).present p = true) :
    ((Session.forEach (Session.recordNew act) targets : Action (StateM σ) Batch).run.run c₀).run s₀ =
      ((.ok ⟨[], targets, []⟩, c₀), s₀) := by
  have hfold : ∀ b : Batch, ((targets.foldlM (fun b p => Session.recordNew act p b) b :
      StateT Cache (StateM σ) Batch).run c₀).run s₀ =
        (({ b with skipped := b.skipped ++ targets }, c₀), s₀) := by
    induction targets with
    | nil =>
      intro b
      rw [List.append_nil]
      rfl
    | cons p targets ih =>
      intro b
      obtain ⟨hp, hrest⟩ := List.forall_mem_cons.1 hthere
      have hask : ((StateT.lift (FileSystem.present p) : StateT Cache (StateM σ) Bool).run c₀).run
          s₀ = ((true, c₀), s₀) := by
        have hlift : ((StateT.lift (FileSystem.present p) : StateT Cache (StateM σ) Bool).run c₀).run
            s₀ = ((((FileSystem.present p : StateM σ _).run s₀).1, c₀),
              ((FileSystem.present p : StateM σ _).run s₀).2) := rfl
        rw [hlift, h.present, hp]
      have hstep : ((Session.recordNew act p b).run c₀).run s₀ = ((b.addSkipped p, c₀), s₀) := by
        rw [Session.recordNew, run_bind_of_eq hask]
        rfl
      rw [List.foldlM_cons, run_bind_of_eq hstep, ih hrest]
      simp [Batch.addSkipped]
  exact run_lift_of_eq (hfold .empty)

/-- Where there is nothing, a target is not left alone. -/
theorem Truthful.skipped_of_absent (h : Truthful view) (act : Path → Work (StateM σ) Unit) {p : Path}
    (hp : (view s₀).present p = false) :
    Triple (fun c s => c = c₀ ∧ s = s₀)
      (Session.forEach (Session.recordNew act) [p] : Action (StateM σ) Batch)
      (fun b _ _ => b.skipped = []) (fun _ _ _ => False) := by
  have hask : Leads (fun c s => c = c₀ ∧ s = s₀)
      (StateT.lift (FileSystem.present p) : StateT Cache (StateM σ) Bool)
      fun present _ _ => present = false :=
    Leads.lift fun c s hi => by rw [h.present, hi.2, hp]
  have hrecord : Leads (fun _ _ => True) (Session.record act p .empty) fun b _ _ => b.skipped = [] := by
    refine Leads.bind (Q := fun _ _ _ => True) (fun _ _ _ => trivial) fun r => ?_
    cases r with
    | ok _ => exact Leads.pure fun _ _ _ => rfl
    | error e => exact Leads.pure fun _ _ _ => rfl
  have hstep : Leads (fun c s => c = c₀ ∧ s = s₀) (Session.recordNew act p .empty)
      fun b _ _ => b.skipped = [] := by
    refine Leads.bind hask fun present => ?_
    rintro c s rfl
    exact hrecord c s trivial
  exact Leads.bind hstep fun b => Leads.pure fun _ _ hb => hb

end Targets

/-! ## 2. Making objects again -/

section Again

variable {c c₁ : Cache} {w w₁ : Watched} {source : String} {kind : ObjectKind}
variable {proto : Option String} {first : Batch}

/-- Objects are made for the paths that were generated. -/
theorem exists_generated
    (h : ((Session.createObjects source kind proto : Action (StateM Watched) Batch).run.run c).run w =
      ((.ok first, c₁), w₁)) :
    ∃ paths c₂ w₂, ((Session.generate source : Action (StateM Watched) (List Path)).run.run c).run w =
        ((.ok paths, c₂), w₂) ∧
      ((Session.forEach (Session.recordNew (Session.createObject kind proto)) paths :
        Action (StateM Watched) Batch).run.run c₂).run w₂ = ((.ok first, c₁), w₁) := by
  rw [Session.createObjects, run_bind] at h
  generalize ((Session.generate source : Action (StateM Watched) (List Path)).run.run c).run w = out
    at h
  obtain ⟨⟨r, c₂⟩, w₂⟩ := out
  cases r with
  | ok paths => exact ⟨paths, c₂, w₂, rfl, h⟩
  | error e => cases h

theorem run_createObjects_of_generate {paths : List Path} {c₂ : Cache} {w₂ : Watched}
    (h : ((Session.generate source : Action (StateM Watched) (List Path)).run.run c).run w =
      ((.ok paths, c₂), w₂)) :
    ((Session.createObjects source kind proto : Action (StateM Watched) Batch).run.run c).run w =
      ((Session.forEach (Session.recordNew (Session.createObject kind proto)) paths :
        Action (StateM Watched) Batch).run.run c₂).run w₂ := by
  rw [Session.createObjects, run_bind, h]

theorem Enduring.createObjects {known : Watched → Path → Stat → Prop}
    {kept : Watched → Path → Bool → Record → Prop} {I : Assertion Watched}
    (h : Enduring known kept I) (hi : I c w)
    (hfirst : ((Session.createObjects source kind proto :
      Action (StateM Watched) Batch).run.run c).run w = ((.ok first, c₁), w₁)) : I c₁ w₁ := by
  have hafter := h.request (.createObjects source kind proto) c w hi
  have hrun : (((Request.createObjects source kind proto).run :
      StateT Cache (StateM Watched) Unit).run c).run w = (((), c₁), w₁) := by
    rw [Request.run, run_bind_of_eq hfirst]
    rfl
  rw [hrun] at hafter
  exact hafter

variable {e : Expression} {s : Selector}

/-- What making objects leaves of a session: it has gone through the paths that the expression
names, and the expression still names the same. -/
theorem inBatch_of_createObjects (hlayout : c.layout = .default) (hgrown : Grown c.nodes)
    (hw : w.tree.WellFormed) (hdir : c.workingPlace.Plain)
    (hparse : Expression.parse source = .ok e) (hsource : '\\' ∉ source.toList)
    (hselector : e.selector = some s) (hshape : s.UpThenDown)
    (hvisible : .name Layout.metaName.text ∉ s.segments)
    (hfirst : ((Session.createObjects source kind proto :
      Action (StateM Watched) Batch).run.run c).run w = ((.ok first, c₁), w₁)) :
    ∃ paths c₂ showRoot new,
      ((Session.generate source : Action (StateM Watched) (List Path)).run.run c).run w =
        ((.ok paths, c₂), w) ∧
      InBatch c.workingPlace showRoot w.tree new paths first c₁ w₁ ∧
      Named w₁.tree e s paths c₁ := by
  obtain ⟨-, hplain, hroot⟩ := Expression.segments_of_parse hsource hparse hselector
  obtain ⟨paths, c₂, w₂, hgenerate, hmade⟩ := exists_generated hfirst
  have hgenerated := truthful_watched.sessionGenerate hw hgrown hparse hselector hplain hroot c w
    ⟨rfl, rfl⟩
  rw [hgenerate] at hgenerated
  obtain ⟨hsame, hgrown₂, hlayout₂, hplace, hnamed⟩ := hgenerated
  dsimp only at hsame hgrown₂ hlayout₂ hplace hnamed
  subst hsame
  have hsettled : c₂.Settled c.workingPlace (c₂.showAt c.workingPlace) :=
    ⟨hlayout₂.trans hlayout, hplace, hplace ▸ hnamed.met, rfl⟩
  have hshow : ∀ place ∈ c₂.showAt c.workingPlace, place.Plain := fun place hplace =>
    hdir.of_mem_upward (hgrown₂.showAt_mem_upward hplace).2
  have hpaths := hnamed.eq
  rw [hplace, hsettled.layout] at hpaths
  generalize hplaces : Segment.named w₂.tree Layout.default.metaDir (c₂.showAt c.workingPlace)
    s.segments c.workingPlace = places at hpaths
  have hkeys : ∀ p ∈ paths, Tree.CanonicalKey p.key ∧ MadeKey places p.key := by
    intro p hp
    rw [hpaths] at hp
    obtain ⟨q, hq, rfl⟩ := List.mem_map.1 hp
    exact ⟨(Segment.plain_of_mem_named hw hshow hplain hdir (hplaces ▸ hq)).canonicalKey,
      .inr ⟨q, hq, rfl⟩⟩
  have hbatch := triple_createAll (fun dir => .inl ⟨dir, rfl⟩) kind proto hkeys c₂ w₂
    ⟨hsettled, hw, rfl⟩
  rw [hmade] at hbatch
  refine ⟨paths, c₂, _, _, hgenerate, hbatch, ?_⟩
  obtain ⟨-, hsettled₁, hmaking⟩ := hbatch
  have hunseen : Segment.named w₁.tree Layout.default.metaDir (c₂.showAt c.workingPlace) s.segments
      c.workingPlace = places := by
    subst hplaces
    refine Segment.named_of_made hw hmaking.wellFormed hshow hplain hshape hvisible hdir
      hmaking.widened fun hthere => ?_
    have hpresent : ∀ p ∈ paths, w₂.tree.present p = true := by
      rw [hpaths]
      exact List.forall_mem_map.2 hthere
    rw [truthful_watched.run_forEach_present hpresent] at hmade
    injection hmade with _ hsame
    rw [hsame]
  refine ⟨hsettled₁.workingPlace ▸ hsettled₁.met, hnamed.formula, ?_, ?_⟩
  · rw [hsettled₁.workingPlace, hsettled₁.showAt, ← hplace]
    exact hnamed.showRoot
  · rw [hsettled₁.workingPlace, hsettled₁.showAt, hsettled₁.layout, hunseen, hpaths]

/-- In a session that was started in a well-formed tree, without backslashes in the working directory
and in the expressions for which objects are made, take an expression that starts from a root or
goes up, if at all, before all names and wildcards, and that does not name metadata. If objects are
made for it without failure, making objects again makes nothing and fails nowhere, and skips what
was done or skipped, in the order in which it is named; and if the expression has a value, this
lists the same in the same order. With a working directory among metadata this takes that those of
the paths that were moved away as drafts are there, and for the value that none of them is at or
below a stray, which is a file that was moved away. -/
theorem create_again {t : Tree} {refusal : Nat → Option FileError} {workingDir : Path}
    {start : Cache} {requests : List Request} (hstart : Cache.start .default workingDir = .ok start)
    (ht : t.WellFormed) (hdir : start.workingPlace.Plain)
    (hrequests : ∀ request ∈ requests, request.Plain)
    (hrun : Request.watch requests start (.ofTree t refusal) = (c, w))
    (hparse : Expression.parse source = .ok e)
    (hsource : '\\' ∉ source.toList) (hselector : e.selector = some s) (hshape : s.UpThenDown)
    (hvisible : .name Layout.metaName.text ∉ s.segments)
    (hfirst : ((Session.createObjects source kind proto :
      Action (StateM Watched) Batch).run.run c).run w = ((.ok first, c₁), w₁))
    (hfailed : first.failed = [])
    (hdrafts : Layout.metaName ∈ c.workingPlace.names → ∀ p ∈ first.done ++ first.skipped,
      p.key ∈ (movedAway w₁.log).map Path.key → w₁.tree.present p = true) :
    ∃ paths, (∃ c', ((Session.generate source : Action (StateM Watched) (List Path)).run.run
        c).run w = ((.ok paths, c'), w)) ∧
      first.done.Sublist paths ∧ first.skipped.Sublist paths ∧
      (first.done ++ first.skipped).Perm paths ∧
      ((Session.createObjects source kind proto : Action (StateM Watched) Batch).run.run c₁).run w₁ =
        ((.ok ⟨[], paths, []⟩, c₁), w₁) ∧
      (∀ v c' w', ((Session.eval source : Action (StateM Watched) Value).run.run c₁).run w₁ =
          ((.ok v, c'), w') →
        (Layout.metaName ∈ c.workingPlace.names → ∀ q : Place, q.path ∈ paths →
          c₁.astray w₁.tree q = false) → v = .list (paths.map fun p => .text p.text)) ∧
      ∀ n ∈ c₁.nodes, n.isStray w₁.tree = true →
        n.stat.isDir = false ∧ n.place.path.key ∈ (movedAway w₁.log).map Path.key := by
  have haccounted : Accounted .default c w := accounted_of_watch hstart hrun
  obtain ⟨place, rfl⟩ := Cache.eq_of_start hstart
  have hin : InTree place c w := inTree_of_watch hdir hrequests ⟨rfl, .nil, rfl, ht⟩ hrun
  have hw : w.tree.WellFormed := hin.wellFormed
  replace hdir : c.workingPlace.Plain := hin.workingPlace.symm ▸ hdir
  have haccounted₁ : Accounted .default c₁ w₁ :=
    (enduring_accounted .default).createObjects haccounted hfirst
  have hmoved : MovedInMeta c w :=
    enduring_moved.watch ⟨rfl, by simp [movedAway, Watched.ofTree]⟩ hrun
  have hmoved₁ : MovedInMeta c₁ w₁ := enduring_moved.createObjects hmoved hfirst
  obtain ⟨hne, hplain, hroot⟩ := Expression.segments_of_parse hsource hparse hselector
  obtain ⟨paths, c₂, showRoot, new, hgenerate, ⟨htells, hsettled, hmaking⟩, hnamed⟩ :=
    inBatch_of_createObjects haccounted.layout haccounted.grown hw hdir hparse hsource hselector
      hshape hvisible hfirst
  have houtside : Layout.metaName ∉ c.workingPlace.names → ∀ p : Place, p.path ∈ paths →
      ∀ q ∈ p.upward, q.path.key ∉ (movedAway w₁.log).map Path.key := by
    intro houtside p hp q hq hkey
    obtain ⟨r, hr, hsame⟩ := List.mem_map.1 hkey
    rw [← hsettled.workingPlace] at hdir houtside
    exact hnamed.not_inMeta hmaking.wellFormed haccounted₁.grown haccounted₁.layout hdir houtside
      hplain hvisible hp hq (hsame ▸ hmoved₁.2 r hr)
  have hperm : (first.done ++ first.skipped).Perm paths := htells.perm_of_failed_eq_nil hfailed
  have hthere : ∀ p ∈ paths, w₁.tree.present p = true := by
    intro p hp
    have hmade : p ∈ first.done ++ first.skipped := hperm.mem_iff.2 hp
    rcases hmaking.holds p hmade with hthere | hgone
    · exact hthere
    · by_cases hmeta : Layout.metaName ∈ c.workingPlace.names
      · exact hdrafts hmeta p hmade hgone
      · obtain ⟨q, -, rfl⟩ := List.mem_map.1 (hnamed.eq ▸ hp)
        exact absurd hgone (houtside hmeta q hp q q.self_mem_upward)
  refine ⟨paths, ⟨c₂, hgenerate⟩, htells.done, htells.skipped, hperm, ?_, ?_, haccounted₁.moved⟩
  · rw [run_createObjects_of_generate (hnamed.run_sessionGenerate truthful_watched
      hmaking.wellFormed hparse hselector hplain)]
    exact truthful_watched.run_forEach_present hthere
  · intro v c' w' heval hstrays
    have hclear : ∀ q : Place, q.path ∈ paths → c₁.astray w₁.tree q = false := by
      intro q hq
      by_cases hmeta : Layout.metaName ∈ c.workingPlace.names
      · exact hstrays hmeta q hq
      · refine List.any_eq_false.2 fun n hn hstray => ?_
        rw [Bool.and_eq_true, List.contains_iff_mem] at hstray
        exact houtside hmeta q hq n.place hstray.2 (haccounted₁.moved n hn hstray.1).2
    have hvalue := hnamed.sessionEval truthful_watched hmaking.wellFormed haccounted₁.grown
      (fun n hn hstray => (haccounted₁.moved n hn hstray).1) hparse hselector hne hplain hroot hshape
      (fun q hq => hthere q.path hq) hclear c₁ w₁ ⟨rfl, rfl⟩
    rw [heval] at hvalue
    exact hvalue

end Again

/-- A report without failures, read back from what is told of it. -/
theorem eq_ok_of_told {out : (Except Refusal Batch × Cache) × Watched} {done skipped : List Path}
    (h : (out.1.1.toOption.map fun b => (b.done, b.skipped, b.failed.isEmpty)) =
      some (done, skipped, true)) : out = ((.ok ⟨done, skipped, []⟩, out.1.2), out.2) := by
  obtain ⟨⟨r, c⟩, w⟩ := out
  cases r with
  | error e => cases h
  | ok b =>
    obtain ⟨rfl, hrest⟩ := Prod.mk.inj (Option.some.inj h)
    obtain ⟨rfl, hfailed⟩ := Prod.mk.inj hrest
    rw [← List.isEmpty_iff.1 hfailed]

/-- A session that has saved the record of a file. -/
def userSet : Cache × Watched :=
  sessionOver [(⟨"/a/y"⟩, .empty), (⟨"/b/x"⟩, .empty)] [.setUser "/b/x" "k" "v"]

/-- For instance the files of one name in all directories, one of which was there already. -/
theorem create_again_beside :
    ∃ c₁ w₁, ((Session.createObjects "*/x" .file none :
        Action (StateM Watched) Batch).run.run userSet.1).run userSet.2 =
          ((.ok ⟨[⟨"/a/x"⟩], [⟨"/b/x"⟩], []⟩, c₁), w₁) ∧
      ((Session.createObjects "*/x" .file none : Action (StateM Watched) Batch).run.run c₁).run w₁ =
        ((.ok ⟨[], [⟨"/a/x"⟩, ⟨"/b/x"⟩], []⟩, c₁), w₁) := by
  have hparse : Expression.parse "*/x" =
      .ok ⟨"*/x", some ⟨[.wildcard "*", .name "x"]⟩, none⟩ := rfl
  have hrun : _ = (userSet.1, userSet.2) := watch_eq_sessionOver _ _
  have hw : (Tree.ofFiles [(⟨"/a/y"⟩, .empty), (⟨"/b/x"⟩, .empty)]).WellFormed := by
    decide +kernel
  generalize hout : ((Session.createObjects "*/x" .file none :
    Action (StateM Watched) Batch).run.run userSet.1).run userSet.2 = out
  have htold : (out.1.1.toOption.map fun b => (b.done, b.skipped, b.failed.isEmpty)) =
      some ([⟨"/a/x"⟩], [⟨"/b/x"⟩], true) := by
    rw [← hout]
    decide +kernel
  have hpaths : ((((Session.generate "*/x" : Action (StateM Watched) (List Path)).run.run
      userSet.1).run userSet.2).1.1.toOption) = some [⟨"/a/x"⟩, ⟨"/b/x"⟩] := by
    decide +kernel
  have hfirst := hout.trans (eq_ok_of_told htold)
  have houtside : Layout.metaName ∉ userSet.1.workingPlace.names := by decide +kernel
  obtain ⟨paths, ⟨c₂, hgenerate⟩, -, -, -, hsecond, -⟩ := create_again
    (Cache.start_path .default .root) hw Place.plain_root (by decide) hrun hparse (by decide) rfl
    (by decide) (by decide) hfirst rfl fun hmeta => absurd hmeta houtside
  have hsame := hgenerate ▸ hpaths
  obtain rfl : paths = [⟨"/a/x"⟩, ⟨"/b/x"⟩] := Option.some.inj hsame
  exact ⟨_, _, eq_ok_of_told htold, hsecond⟩

/-- A session in a directory. -/
def sessionIn (dir : Path) (files : List (Path × ByteArray)) (requests : List Request) :
    Cache × Watched :=
  Request.watch requests ⟨.default, (Place.ofPath? dir).getD .root, []⟩
    (.ofTree (.ofFiles files) fun _ => none)

/-- A session in the metadata of the prototypes of a show. -/
def besidePrototypes : Cache × Watched :=
  sessionIn ⟨"/.meta/proto/.meta"⟩
    [(⟨"/.meta/_"⟩, { Record.blank with isShowRoot := true }.encode.toUTF8),
      (⟨"/.meta/proto/P"⟩, .empty), (⟨"/.meta/proto/.meta/x"⟩, .empty)] []

/-- A session in metadata that has met a file where a draft is written, has saved the record, and
has made a directory there. -/
def draftRemade : Cache × Watched :=
  sessionIn ⟨"/.meta"⟩ [(⟨"/.meta/_.tmp"⟩, .empty)]
    [.eval "_.tmp", .setUser ".." "k" "v", .createObjects "_.tmp" .dir none]

/-- Among metadata, what is made where the draft of its prototype is written is moved when it is
linked, so it is not left alone the second time; and what is made in a directory is not found if a
file was met there. -/
theorem not_create_again_draft :
    besidePrototypes.2.tree.WellFormed ∧
      (Tree.ofFiles [(⟨"/.meta/_.tmp"⟩, .empty)]).WellFormed ∧ draftRemade.2.tree.WellFormed ∧
      (∃ c₁ w₁, ((Session.createObjects "P._.tmp" .file (some "P") :
          Action (StateM Watched) Batch).run.run besidePrototypes.1).run besidePrototypes.2 =
            ((.ok ⟨[⟨"/.meta/proto/.meta/P._.tmp"⟩], [], []⟩, c₁), w₁) ∧
        ∀ second c₂ w₂, ((Session.createObjects "P._.tmp" .file (some "P") :
            Action (StateM Watched) Batch).run.run c₁).run w₁ = ((.ok second, c₂), w₂) →
          second.skipped = []) ∧
      ∃ c₁ w₁ v c₂ w₂, ((Session.createObjects "_.tmp/x" .file none :
          Action (StateM Watched) Batch).run.run draftRemade.1).run draftRemade.2 =
            ((.ok ⟨[⟨"/.meta/_.tmp/x"⟩], [], []⟩, c₁), w₁) ∧
        ((Session.eval "_.tmp/x" : Action (StateM Watched) Value).run.run c₁).run w₁ =
          ((.ok v, c₂), w₂) ∧ v.display = "[]" := by
  have hw : besidePrototypes.2.tree.WellFormed := by decide +kernel
  have hgrown : Grown besidePrototypes.1.nodes := Grown.nil
  have hdir : besidePrototypes.1.workingPlace.Plain := by decide +kernel
  have hparse : Expression.parse "P._.tmp" = .ok ⟨"P._.tmp", some ⟨[.name "P._.tmp"]⟩, none⟩ := rfl
  refine ⟨hw, by decide +kernel, by decide +kernel, ?_, ?_⟩
  · obtain ⟨out, hout⟩ : ∃ out, ((Session.createObjects "P._.tmp" .file (some "P") :
      Action (StateM Watched) Batch).run.run besidePrototypes.1).run besidePrototypes.2 = out :=
        ⟨_, rfl⟩
    have hmade : (out.1.1.toOption.map fun b => (b.done, b.skipped, b.failed.isEmpty)) =
          some ([⟨"/.meta/proto/.meta/P._.tmp"⟩], [], true) ∧
        out.2.tree.present ⟨"/.meta/proto/.meta/P._.tmp"⟩ = false := by
      rw [← hout]
      decide +kernel
    obtain ⟨htold, habsent⟩ := hmade
    have hfirst := hout.trans (eq_ok_of_told htold)
    refine ⟨_, _, hfirst, fun second c₂ w₂ hsecond => ?_⟩
    obtain ⟨paths, _, _, _, -, ⟨htells, -, hmaking⟩, hnamed⟩ := inBatch_of_createObjects rfl hgrown
      hw hdir hparse (by decide) rfl (by decide) (by decide) hfirst
    have hperm := htells.perm_of_failed_eq_nil rfl
    obtain rfl : paths = [⟨"/.meta/proto/.meta/P._.tmp"⟩] := List.perm_singleton.1 hperm.symm
    have hplain := (Expression.segments_of_parse (by decide) hparse rfl).2.1
    rw [run_createObjects_of_generate (hnamed.run_sessionGenerate truthful_watched
      hmaking.wellFormed hparse rfl hplain)] at hsecond
    have hskips := truthful_watched.skipped_of_absent (Session.createObject .file (some "P"))
      habsent out.1.2 out.2 ⟨rfl, rfl⟩
    rw [hsecond] at hskips
    exact hskips
  · obtain ⟨out, hout⟩ : ∃ out, ((Session.createObjects "_.tmp/x" .file none :
      Action (StateM Watched) Batch).run.run draftRemade.1).run draftRemade.2 = out := ⟨_, rfl⟩
    have hmade : (out.1.1.toOption.map fun b => (b.done, b.skipped, b.failed.isEmpty)) =
          some ([⟨"/.meta/_.tmp/x"⟩], [], true) ∧
        (((Session.eval "_.tmp/x" : Action (StateM Watched) Value).run.run out.1.2).run
          out.2).1.1.toOption.map Value.display = some "[]" := by
      rw [← hout]
      decide +kernel
    obtain ⟨htold, hvalue⟩ := hmade
    obtain ⟨found, hfound, hdisplay⟩ := Option.map_eq_some_iff.1 hvalue
    obtain ⟨v, heval⟩ := exists_eq_ok (Option.isSome_of_eq_some hfound)
    rw [heval] at hfound
    obtain rfl : v = found := Option.some.inj hfound
    exact ⟨_, _, v, _, _, hout.trans (eq_ok_of_told htold), heval, hdisplay⟩

end ShowTree
