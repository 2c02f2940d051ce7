/-
ShowTree.Proofs.Session.Turns — every target of a batch has its turn.

The targets of a batch have their turns in the order in which the expression names them, and each is
skipped, failed or done (`Turn`). What is done was not there, is there afterwards as an empty object,
and is linked to the prototype that was chosen for it, or has none (`createObjects_accounts`). It is
different only among metadata: an empty file can be the draft of a record, or the record itself,
that is saved when something is linked, and an object that takes the place of a draft is still known
by what the draft was met as (`not_createObjects_accounts_draft`).
-/
import ShowTree.Proofs.Session.Created
import ShowTree.Proofs.Session.Creation
import ShowTree.Proofs.Session.Held
import ShowTree.Proofs.Session.Strays

namespace ShowTree

/-! ## 1. One turn after the other -/

/-- How far a batch has come: what has been taken down, the cache and the tree. -/
structure Stage where
  batch : Batch
  cache : Cache
  watched : Watched

/-- What every turn keeps, told of the targets that had theirs, is kept by all of them. -/
theorem Stage.foldl_each {α : Type} {I : List α → Stage → Prop} {turn : Stage → α → Stage}
    {targets : List α} (before : List α) {s : Stage} (hi : I before s)
    (h : ∀ p ∈ targets, ∀ before s, I before s → I (before ++ [p]) (turn s p)) :
    I (before ++ targets) (targets.foldl turn s) := by
  induction targets generalizing before s with
  | nil => rwa [List.append_nil]
  | cons p targets ih =>
    rw [List.append_cons]
    exact ih _ (h p List.mem_cons_self before s hi) fun p' hp' => h p' (List.mem_cons_of_mem p hp')

namespace Session

variable (kind : ObjectKind) (proto : Option String)

/-- The turn of a target. -/
def turn (s : Stage) (p : Path) : Stage :=
  let out := ((recordNew (createObject kind proto) p s.batch :
    StateT Cache (StateM Watched) Batch).run s.cache).run s.watched
  ⟨out.1.1, out.1.2, out.2⟩

/-- A turn for every target. -/
def turns (targets : List Path) (s : Stage) : Stage :=
  targets.foldl (turn kind proto) s

theorem turns_append (first rest : List Path) (s : Stage) :
    turns kind proto (first ++ rest) s = turns kind proto rest (turns kind proto first s) :=
  List.foldl_append

/-- A batch is these turns. -/
theorem run_createAll (targets : List Path) (c : Cache) (w : Watched) :
    ((forEach (recordNew (createObject kind proto)) targets :
      Action (StateM Watched) Batch).run.run c).run w =
        ((.ok (turns kind proto targets ⟨.empty, c, w⟩).batch,
          (turns kind proto targets ⟨.empty, c, w⟩).cache),
          (turns kind proto targets ⟨.empty, c, w⟩).watched) := by
  have hfold : ∀ s : Stage, ((targets.foldlM (fun b p => recordNew (createObject kind proto) p b)
      s.batch : StateT Cache (StateM Watched) Batch).run s.cache).run s.watched =
        (((turns kind proto targets s).batch, (turns kind proto targets s).cache),
          (turns kind proto targets s).watched) := by
    induction targets with
    | nil => exact fun _ => rfl
    | cons p targets ih =>
      intro s
      rw [List.foldlM_cons, run_bind_of_eq rfl]
      exact ih (turn kind proto s p)
  exact run_lift_of_eq (hfold ⟨.empty, c, w⟩)

variable {kind proto} {targets : List Path} {s : Stage}

/-- What making an object where there is nothing keeps is kept by all turns. -/
theorem keeps_turns {I : Assertion Watched}
    (h : ∀ p, Triple (fun c w => I c w ∧ w.tree.present p = false)
      (createObject kind proto p) (fun _ => I) (fun _ => I)) (hi : I s.cache s.watched) :
    I (turns kind proto targets s).cache (turns kind proto targets s).watched :=
  Stage.foldl_each (I := fun _ s => I s.cache s.watched) [] hi fun p _ _ s hi =>
    leads_recordNew (h p) s.batch s.cache s.watched hi

/-- Every target is taken down. -/
theorem tells_turns {before : List Path} (h : s.batch.Tells before) :
    (turns kind proto targets s).batch.Tells (before ++ targets) := by
  refine Stage.foldl_each (I := fun before s => s.batch.Tells before) before h
    fun p _ before s h => ?_
  refine leads_recordNew_of (P := fun _ _ => True) (J := fun b _ _ => b.Tells (before ++ [p]))
    (fun _ _ _ _ => h.addSkipped p) ?_ s.cache s.watched trivial
  refine fun c w _ => ?_
  generalize ((createObject kind proto p : Work (StateM Watched) Unit).run.run c).run w = out
  obtain ⟨⟨r, c'⟩, w'⟩ := out
  cases r with
  | ok _ => exact h.addDone p
  | error e => exact h.addFailed p _

end Session

theorem Enduring.createObject {known : Watched → Path → Stat → Prop}
    {kept : Watched → Path → Bool → Record → Prop} {I : Assertion Watched} (h : Enduring known kept I)
    (kind : ObjectKind) (proto : Option String) (p : Path) :
    Keeps I (Session.createObject kind proto p) :=
  h.sustained.createObject (h.makeEmpty kind p) proto

/-! ## 2. What a turn comes to -/

/-- What a turn of a target comes to: something is there and it is left alone, or an object is to be
made and this fails, or is done. What was made is there right after the turn, and in the end (`final`)
too. -/
inductive Turn (kind : ObjectKind) (proto : Option String) (final : Watched) :
    Place → Stage → Stage → Prop
  | skipped {p : Place} {b : Batch} {c : Cache} {w : Watched} (there : w.tree.present p.path = true) :
    Turn kind proto final p ⟨b, c, w⟩ ⟨b.addSkipped p.path, c, w⟩
  | failed {p : Place} {b : Batch} {c c' : Cache} {w w' : Watched} {e : Failure}
    (absent : w.tree.present p.path = false)
    (run : ((Session.createObject kind proto p.path : Work (StateM Watched) Unit).run.run c).run w =
      ((.error e, c'), w')) :
    Turn kind proto final p ⟨b, c, w⟩ ⟨b.addFailed p.path (.failure e), c', w'⟩
  | done {dir : Place} {name : Name} {b : Batch} {c c' : Cache} {w w' : Watched}
    (absent : w.tree.present (Place.entry dir name).path = false)
    (run : ((Session.createObject kind proto (Place.entry dir name).path :
      Work (StateM Watched) Unit).run.run c).run w = ((.ok (), c'), w'))
    (created : Created kind proto dir name c w c' w')
    (holds : w'.HoldsSince w (Place.entry dir name).path.key kind.entry)
    (stays : final.HoldsSince w (Place.entry dir name).path.key kind.entry) :
    Turn kind proto final (.entry dir name) ⟨b, c, w⟩ ⟨b.addDone (Place.entry dir name).path, c', w'⟩

/-- What was there is there, or was moved away. -/
theorem enduring_holds (t : Tree) : Enduring (fun w p st => w.tree.stat p = .ok st)
    (fun w p isDir r => w.tree.recordOf .default p isDir = .ok r)
    fun c w => c.layout = .default ∧ ∀ p, t.present p = true → w.Holds p :=
  Enduring.of_changes
    (fun _ => truthful_watched.calm (fun _ h => h.1) fun _ _ _ _ h _ _ _ _ => h)
    (fun hedit h => ⟨hedit.layout.trans h.1, h.2⟩)
    (fun happly h => ⟨h.1, fun p hp => (h.2 p hp).granted happly⟩)
    fun change e h => ⟨h.1, fun p hp => (h.2 p hp).refused change e⟩

/-- All that has been met is sound. -/
theorem enduring_sound : Enduring (fun w p st => w.tree.stat p = .ok st)
    (fun w p isDir r => w.tree.recordOf .default p isDir = .ok r)
    fun c _ => c.layout = .default ∧ ∀ n ∈ c.nodes, n.Sound := by
  refine Enduring.of_changes
    (fun _ => truthful_watched.calm (fun _ h => h.1) fun _ _ _ _ h _ _ hstat hread =>
      ⟨h.1, Node.sound_add h.2 hstat hread⟩)
    (fun {p c c' w} hedit h => ⟨hedit.layout.trans h.1, fun n' hn' => ?_⟩) (fun _ h => h)
    fun _ _ h => h
  obtain ⟨n, hn, hplace, hstat, -, hproto⟩ := hedit.node n' hn'
  exact ⟨hplace ▸ hstat ▸ (h.2 n hn).name, hproto (h.2 n hn).proto⟩

/-- What has been met with a backslash in its name stays met. -/
theorem enduring_not_plain : Enduring (fun w p st => w.tree.stat p = .ok st)
    (fun w p isDir r => w.tree.recordOf .default p isDir = .ok r)
    fun c _ => c.layout = .default ∧ ¬ c.Plain :=
  Enduring.of_changes
    (fun _ => truthful_watched.calm (fun _ h => h.1) fun _ _ _ _ h _ _ _ _ =>
      ⟨h.1, fun hplain => h.2 (Cache.plain_of_add hplain).1⟩)
    (fun hedit h => ⟨hedit.layout.trans h.1, fun hplain => h.2 (hedit.plain hplain)⟩)
    (fun _ h => h) fun _ _ h => h

/-- The root has not been moved away. -/
theorem MovedInMeta.root_not_mem {c : Cache} {w : Watched} (h : MovedInMeta c w) :
    Place.root.path.key ∉ (movedAway w.log).map Path.key := by
  intro hgone
  obtain ⟨q, hq, hkey⟩ := List.mem_map.1 hgone
  have hmeta : InMeta Place.root.path.key := hkey ▸ h.2 q hq
  exact absurd hmeta (by decide)

/-- What a session is like between the turns of a batch that was begun with the tree `t`. -/
structure Midway (isDir : Bool) (paths : List Path) (t : Tree) (c : Cache) (w : Watched) : Prop where
  tidy : Tidy isDir (paths.filter fun p => !t.present p) (fun _ => False) c w
  accounted : Accounted .default c w
  moved : MovedInMeta c w
  holds : c.layout = .default ∧ ∀ p, t.present p = true → w.Holds p
  rooted : t.present Place.root.path = true

namespace Midway

variable {kind : ObjectKind} {proto : Option String} {paths : List Path} {t : Tree}
variable {isDir : Bool} {c : Cache} {w : Watched}

theorem ne_root (h : Midway isDir paths t c w) {p : Place}
    (habsent : w.tree.present p.path = false) : p ≠ .root := by
  rintro rfl
  rcases h.holds.2 _ h.rooted with hthere | hgone
  · rw [habsent] at hthere
    cases hthere
  · exact h.moved.root_not_mem hgone

/-- Where there is nothing and nothing was moved away, there was nothing, and nothing has been met. -/
theorem new_of_absent (h : Midway isDir paths t c w) {p : Place} (hp : p.path ∈ paths)
    (habsent : w.tree.present p.path = false) (hkey : p.path.key ∉ (movedAway w.log).map Path.key) :
    p.path ∈ (paths.filter fun p => !t.present p) ∧ c.node? p = none := by
  refine ⟨List.mem_filter.2 ⟨hp, ?_⟩, h.accounted.node?_of_absent habsent hkey⟩
  cases hthere : t.present p.path with
  | false => rfl
  | true =>
    rcases h.holds.2 _ hthere with hstill | hgone
    · rw [habsent] at hstill
      cases hstill
    · exact absurd hgone hkey

/-- Making an object. -/
theorem createObject (h : Midway kind.entry.isDir paths t c w) {dir : Place} {name : Name}
    (hplain : (Place.entry dir name).Plain) (hp : (Place.entry dir name).path ∈ paths)
    (hproto : ∀ text ∈ proto, IsName text)
    (habsent : w.tree.present (Place.entry dir name).path = false) :
    Triple (fun c' w' => c' = c ∧ w' = w)
      (Session.createObject kind proto (Place.entry dir name).path)
      (fun _ c' w' => Midway kind.entry.isDir paths t c' w' ∧
        (c'.Plain → Created kind proto dir name c w c' w') ∧
        w'.HoldsSince w (Place.entry dir name).path.key kind.entry)
      (fun _ => Midway kind.entry.isDir paths t) := by
  have htidy := triple_createObject_tidy hplain hproto h.tidy (h.new_of_absent hp habsent)
  have hmade : Triple _ (Session.createObject kind proto (Place.entry dir name).path) _ _ :=
    triple_createObject_made w
  have haccounted := (enduring_accounted .default).createObject kind proto (Place.entry dir name).path
  have hmoved := enduring_moved.createObject kind proto (Place.entry dir name).path
  have hholds := (enduring_holds t).createObject kind proto (Place.entry dir name).path
  refine (htidy.and (hmade.and (haccounted.and (Triple.and hmoved hholds)))).imp ?_ ?_ ?_
  · rintro c' w' ⟨rfl, rfl⟩
    exact ⟨⟨rfl, rfl⟩, ⟨h.accounted.layout, rfl⟩, h.accounted, h.moved, h.holds⟩
  · rintro _ c' w' ⟨⟨htidy, hcreated⟩, hmade, haccounted, hmoved, hholds⟩
    exact ⟨⟨htidy, haccounted, hmoved, hholds, h.rooted⟩, hcreated, hmade.2⟩
  · rintro e c' w' ⟨htidy, -, haccounted, hmoved, hholds⟩
    exact ⟨htidy, haccounted, hmoved, hholds, h.rooted⟩

variable {s : Stage}

/-- The turn of a target. -/
theorem turn (h : Midway kind.entry.isDir paths t s.cache s.watched) {p : Place} (hplain : p.Plain)
    (hp : p.path ∈ paths) (hproto : ∀ text ∈ proto, IsName text) {s' : Stage}
    (hs' : Session.turn kind proto s p.path = s') :
    Midway kind.entry.isDir paths t s'.cache s'.watched ∧ (s'.cache.Plain → ∀ final : Watched,
      (∀ key e, s'.watched.HoldsSince s.watched key e → final.HoldsSince s.watched key e) →
        Turn kind proto final p s s') := by
  obtain ⟨b, c, w⟩ := s
  subst hs'
  refine leads_recordNew_of (P := fun c' w' => c' = c ∧ w' = w) (J := fun b' c' w' =>
    Midway kind.entry.isDir paths t c' w' ∧ (c'.Plain → ∀ final : Watched,
      (∀ key e, w'.HoldsSince w key e → final.HoldsSince w key e) →
        Turn kind proto final p ⟨b, c, w⟩ ⟨b', c', w'⟩)) ?_ ?_ c w ⟨rfl, rfl⟩
  · rintro c' w' ⟨rfl, rfl⟩ hthere
    exact ⟨h, fun _ _ _ => .skipped hthere⟩
  · rintro c' w' ⟨⟨rfl, rfl⟩, habsent⟩
    cases p with
    | root => exact absurd rfl (h.ne_root habsent)
    | entry dir name =>
      refine (((h.createObject hplain hp hproto habsent).and (Triple.result c' w')).imp
        (fun _ _ hi => ⟨hi, hi⟩) ?_ ?_) c' w' ⟨rfl, rfl⟩
      · rintro ⟨⟩ c w ⟨⟨hmidway, hcreated, hholds⟩, hrun⟩
        exact ⟨hmidway, fun hplain final hlater =>
          .done habsent hrun (hcreated hplain) hholds (hlater _ _ hholds)⟩
      · rintro e c w ⟨hmidway, hrun⟩
        exact ⟨hmidway, fun _ _ _ => .failed habsent hrun⟩

/-- The turns of all targets. -/
theorem turns (h : Midway kind.entry.isDir paths t s.cache s.watched)
    (hpaths : ∀ p ∈ paths, ∃ q : Place, q.Plain ∧ q.path = p) (hproto : ∀ text ∈ proto, IsName text)
    (hplain : (Session.turns kind proto paths s).cache.Plain) {before after : List Path} {p : Path}
    (hsplit : paths = before ++ p :: after) :
    ∃ q : Place, q.path = p ∧ Turn kind proto (Session.turns kind proto paths s).watched q
      (Session.turns kind proto before s) (Session.turns kind proto (before ++ [p]) s) := by
  have hmidway : Midway kind.entry.isDir paths t (Session.turns kind proto before s).cache
      (Session.turns kind proto before s).watched := by
    refine Stage.foldl_each (I := fun _ s => Midway kind.entry.isDir paths t s.cache s.watched)
      [] h fun p' hp' _ s h => ?_
    have hmem : p' ∈ paths := hsplit ▸ List.mem_append_left _ hp'
    obtain ⟨q, hq, rfl⟩ := hpaths p' hmem
    exact (h.turn hq hmem hproto rfl).1
  have hmem : p ∈ paths := hsplit ▸ List.mem_append_right _ List.mem_cons_self
  obtain ⟨q, hq, rfl⟩ := hpaths p hmem
  rw [hsplit, List.append_cons, Session.turns_append] at hplain ⊢
  obtain ⟨hafter, hturn⟩ := hmidway.turn hq hmem hproto (Session.turns_append kind proto before
    [q.path] s).symm
  generalize Session.turns kind proto (before ++ [q.path]) s = s' at *
  have hplain' : s'.cache.Plain := by
    by_contra hnot
    exact (Session.keeps_turns (fun p => (enduring_not_plain.createObject kind proto p).pre
      fun _ _ hi => hi.1) ⟨hafter.tidy.layout, hnot⟩).2 hplain
  refine ⟨q, rfl, hturn hplain' _ fun key e hholds => ?_⟩
  exact (Session.keeps_turns (fun p => triple_createObject_holding _ key e)
    ⟨hafter.tidy.layout, hholds⟩).2

end Midway

/-! ## 3. Batches -/

section Batches

variable {c c' : Cache} {w w' : Watched} {source : String} {kind : ObjectKind}
variable {proto : Option String} {report : Batch}

/-- In a session that was started in a well-formed tree, without backslashes in the working directory,
in the expressions for which objects are made and in what is met, let objects be made of a kind, with
a prototype of some name or of none. Take that no record lists an instance twice, and that none is left
over where an object is to be made. Then the report takes down every path that the expression names,
in order, each in its turn as skipped, failed or done; and so each turn comes to what is said of it
(`Turn`). -/
theorem createObjects_accounts {t : Tree} {refusal : Nat → Option FileError} {workingDir : Path}
    {start : Cache} {requests : List Request} (hstart : Cache.start .default workingDir = .ok start)
    (ht : t.WellFormed) (hdir : start.workingPlace.Plain)
    (hrequests : ∀ request ∈ requests, request.Plain)
    (hrun : Request.watch requests start (.ofTree t refusal) = (c, w))
    (hsource : '\\' ∉ source.toList) (hproto : ∀ name ∈ proto, IsName name)
    (hunrepeated : Unrepeated c w.tree)
    (hleftover : ∀ paths c₀, ((Session.generate source :
        Action (StateM Watched) (List Path)).run.run c).run w = ((.ok paths, c₀), w) →
      ∀ p ∈ paths, w.tree.present p = false →
        w.tree.present (Layout.default.recordPath p kind.entry.isDir) = false)
    (hreport : ((Session.createObjects source kind proto :
      Action (StateM Watched) Batch).run.run c).run w = ((.ok report, c'), w'))
    (hplain : c'.Plain) :
    ∃ paths c₀, ((Session.generate source : Action (StateM Watched) (List Path)).run.run c).run w =
        ((.ok paths, c₀), w) ∧
      report.Tells paths ∧
      Session.turns kind proto paths ⟨.empty, c₀, w⟩ = ⟨report, c', w'⟩ ∧
      ∀ before p after, paths = before ++ p :: after → ∃ q : Place, q.path = p ∧
        Turn kind proto w' q (Session.turns kind proto before ⟨.empty, c₀, w⟩)
          (Session.turns kind proto (before ++ [p]) ⟨.empty, c₀, w⟩) := by
  have haccounted : Accounted .default c w := accounted_of_watch hstart hrun
  obtain ⟨place, rfl⟩ := Cache.eq_of_start hstart
  have hin : InTree place c w := inTree_of_watch hdir hrequests ⟨rfl, .nil, rfl, ht⟩ hrun
  have hmoved : MovedInMeta c w :=
    enduring_moved.watch ⟨rfl, by simp [movedAway, Watched.ofTree]⟩ hrun
  have hsound : c.layout = .default ∧ ∀ n ∈ c.nodes, n.Sound :=
    enduring_sound.watch ⟨rfl, by simp⟩ hrun
  obtain ⟨paths, c₀, w₀, hgenerate, hmade⟩ := exists_generated hreport
  have hgenerated := triple_generate_plain hdir hsource hin c w ⟨rfl, rfl⟩
  rw [hgenerate] at hgenerated
  obtain ⟨⟨rfl, hin₀⟩, hmet, hpaths⟩ := hgenerated
  have htidy : Tidy kind.entry.isDir (paths.filter fun p => !w₀.tree.present p) (fun _ => False) c
      w₀ := by
    refine ⟨haccounted.layout, haccounted.grown, hsound.2, fun _ =>
      { hunrepeated with fresh := fun p _ htarget _ r hr => ?_, recorded := fun _ => False.elim }⟩
    obtain ⟨hp, habsent⟩ := List.mem_filter.1 htarget
    have hnone := hleftover paths c₀ hgenerate p.path hp (by simpa using habsent)
    rcases Tree.recordOf_cases hr with ⟨-, rfl⟩ | ⟨e, he, -⟩
    · rfl
    · rw [Tree.present, he] at hnone
      cases hnone
  have htidy₀ := (calm_tidy w₀).keeps_sessionGenerate source c w₀ ⟨rfl, htidy⟩
  have haccounted₀ := ((enduring_accounted .default).calm w₀).keeps_sessionGenerate source c w₀
    ⟨rfl, haccounted⟩
  rw [hgenerate] at htidy₀ haccounted₀
  have hrooted : w₀.tree.present Place.root.path = true := by
    by_contra hnot
    have habove : Place.root ∈ place.upward := Place.mem_upward_iff.2 List.nil_prefix
    have hroot : (c₀.node? .root).isSome := hin₀.grown.met_of_mem_upward hmet habove
    rw [haccounted₀.2.node?_of_absent (Bool.not_eq_true _ ▸ hnot) hmoved.root_not_mem] at hroot
    cases hroot
  have hmidway : Midway kind.entry.isDir paths w₀.tree c₀ w₀ :=
    ⟨htidy₀.2, haccounted₀.2, ⟨hin₀.layout, hmoved.2⟩, ⟨hin₀.layout, fun _ => .inl⟩, hrooted⟩
  have hturns : Session.turns kind proto paths ⟨.empty, c₀, w₀⟩ = ⟨report, c', w'⟩ := by
    rw [Session.run_createAll] at hmade
    obtain ⟨hbatch, hwatched⟩ := Prod.mk.inj hmade
    obtain ⟨hreport, hcache⟩ := Prod.mk.inj hbatch
    rw [← Except.ok.inj hreport, ← hcache, ← hwatched]
  have htells : (Session.turns kind proto paths ⟨.empty, c₀, w₀⟩).batch.Tells ([] ++ paths) :=
    Session.tells_turns .empty
  rw [hturns] at htells
  refine ⟨paths, c₀, hgenerate, htells, hturns, fun before p after hsplit => ?_⟩
  have hturn := hmidway.turns hpaths hproto (s := ⟨.empty, c₀, w₀⟩) (hturns ▸ hplain) hsplit
  rwa [hturns] at hturn

end Batches

/-- A show in which a file has a prototype. -/
def prototypeLinked : Cache × Watched :=
  sessionOver [(⟨"/.meta/_"⟩, { Record.blank with isShowRoot := true }.encode.toUTF8),
    (⟨"/.meta/proto/P"⟩, .empty), (⟨"/a/y"⟩, .empty), (⟨"/b/x"⟩, .empty)] [.linkProto "/b/x" "P"]

/-- For instance files of this name, with the same prototype: the first one is made and linked, and the
other one, which has a record, is left alone. -/
theorem createObjects_accounts_linked :
    ∃ report c c' w', ((Session.createObjects "*/x" .file (some "P") :
        Action (StateM Watched) Batch).run.run prototypeLinked.1).run prototypeLinked.2 =
          ((.ok report, c'), w') ∧
      report.Tells [⟨"/a/x"⟩, ⟨"/b/x"⟩] ∧ report.done = [⟨"/a/x"⟩] ∧ report.skipped = [⟨"/b/x"⟩] ∧
      ∃ s, Session.turns .file (some "P") [⟨"/a/x"⟩] ⟨.empty, c, prototypeLinked.2⟩ = s ∧
        Created .file (some "P") (.entry .root ⟨"a", by decide⟩) ⟨"x", by decide⟩ c prototypeLinked.2
          s.cache s.watched := by
  have hrun : _ = (prototypeLinked.1, prototypeLinked.2) := watch_eq_sessionOver _ _
  have hunrepeated : Unrepeated prototypeLinked.1 prototypeLinked.2.tree :=
    .of_entries (by decide +kernel) (by decide +kernel)
  obtain ⟨out, hout⟩ : ∃ out, ((Session.createObjects "*/x" .file (some "P") :
    Action (StateM Watched) Batch).run.run prototypeLinked.1).run prototypeLinked.2 = out := ⟨_, rfl⟩
  have htold : (out.1.1.toOption.map fun b => (b.done, b.skipped)) =
      some ([⟨"/a/x"⟩], [⟨"/b/x"⟩]) ∧ out.1.2.Plain := by
    rw [← hout]
    decide +kernel
  obtain ⟨generated, hgenerated⟩ : ∃ generated, ((Session.generate "*/x" :
    Action (StateM Watched) (List Path)).run.run prototypeLinked.1).run prototypeLinked.2 =
      generated := ⟨_, rfl⟩
  have hfirst : generated.1.1.toOption = some [⟨"/a/x"⟩, ⟨"/b/x"⟩] ∧
      (Session.turns .file (some "P") [⟨"/a/x"⟩]
        ⟨.empty, generated.1.2, prototypeLinked.2⟩).batch.done = [⟨"/a/x"⟩] := by
    rw [← hgenerated]
    decide +kernel
  have hleftover : ∀ paths c₀, ((Session.generate "*/x" :
      Action (StateM Watched) (List Path)).run.run prototypeLinked.1).run prototypeLinked.2 =
        ((.ok paths, c₀), prototypeLinked.2) → ∀ p ∈ paths, prototypeLinked.2.tree.present p = false →
      prototypeLinked.2.tree.present (Layout.default.recordPath p ObjectKind.file.entry.isDir) =
        false := by
    intro paths c₀ hgenerate
    rw [← hgenerated, hgenerate] at hfirst
    obtain rfl : paths = [⟨"/a/x"⟩, ⟨"/b/x"⟩] := Option.some.inj hfirst.1
    decide +kernel
  obtain ⟨report, hreport⟩ := exists_eq_ok (Option.isSome_map ▸ Option.isSome_of_eq_some htold.1)
  obtain ⟨paths, c, hgenerate, htells, -, hturn⟩ := createObjects_accounts
    (Cache.start_path .default .root) (by decide +kernel) Place.plain_root (by decide) hrun (by decide)
    (by decide) hunrepeated hleftover (hout.trans hreport) htold.2
  obtain rfl : generated = ((.ok paths, c), prototypeLinked.2) := hgenerated.symm.trans hgenerate
  obtain rfl : paths = [⟨"/a/x"⟩, ⟨"/b/x"⟩] := Option.some.inj hfirst.1
  rw [hreport] at htold
  obtain ⟨hdone, hskipped⟩ := Prod.mk.inj (Option.some.inj htold.1)
  obtain ⟨q, hq, hturned⟩ := hturn [] ⟨"/a/x"⟩ [⟨"/b/x"⟩] rfl
  obtain rfl : q = .entry (.entry .root ⟨"a", by decide⟩) ⟨"x", by decide⟩ :=
    Place.path_injective (hq.trans rfl)
  obtain ⟨-, hmade⟩ := hfirst
  rw [List.nil_append] at hturned
  refine ⟨report, c, _, _, hout.trans hreport, htells, hdone, hskipped, _, rfl, ?_⟩
  generalize Session.turns .file (some "P") [⟨"/a/x"⟩] ⟨.empty, c, prototypeLinked.2⟩ = s at *
  have hturned : Turn .file (some "P") out.2 _ ⟨.empty, c, prototypeLinked.2⟩ s := hturned
  cases hturned with
  | skipped there => cases hmade
  | failed absent run => cases hmade
  | done absent run created holds stays => exact created

/-- A session with nothing in the way of making an object at the one path that an expression names, in
which this is done, and what is left of it then. All that it has met belongs to the show at the root. -/
structure Makes (s : Cache × Watched) (source : String) (kind : ObjectKind) (proto : Option String)
    (p : Path) (left : Cache → Watched → Prop) : Prop where
  wellFormed : s.2.tree.WellFormed
  unrepeated : Unrepeated s.1 s.2.tree
  absent : s.2.tree.present p = false
  notLeftover : s.2.tree.present (Layout.default.recordPath p kind.entry.isDir) = false
  made : ∃ c w, ((Session.createObjects source kind proto :
      Action (StateM Watched) Batch).run.run s.1).run s.2 = ((.ok ⟨[p], [], []⟩, c), w) ∧
    c.Plain ∧ (∀ n ∈ c.nodes, n.showRoot = some .root) ∧ left c w

/-- What can be computed of it. -/
theorem Makes.of_told {s : Cache × Watched} {source : String} {kind : ObjectKind}
    {proto : Option String} {p : Path} {left : Cache → Watched → Prop}
    (h : ∀ out, ((Session.createObjects source kind proto :
        Action (StateM Watched) Batch).run.run s.1).run s.2 = out →
      s.2.tree.WellFormed ∧ (∀ n ∈ s.1.nodes, n.record.instances.Nodup) ∧
      (∀ e ∈ s.2.tree.entries.entries, ∀ r ∈ e.2.record?, r.instances.Nodup) ∧
      s.2.tree.present p = false ∧
      s.2.tree.present (Layout.default.recordPath p kind.entry.isDir) = false ∧
      (out.1.1.toOption.map fun b => (b.done, b.skipped, b.failed.isEmpty)) = some ([p], [], true) ∧
      out.1.2.Plain ∧ (∀ n ∈ out.1.2.nodes, n.showRoot = some .root) ∧ left out.1.2 out.2) :
    Makes s source kind proto p left := by
  obtain ⟨hwell, hmet, hkept, habsent, hleftover, htold, hleft⟩ := h _ rfl
  exact ⟨hwell, .of_entries hmet hkept, habsent, hleftover, _, _, eq_ok_of_told htold, hleft⟩

/-- The same as `besidePrototypes`, but the prototype has been met. -/
def besideMet : Cache × Watched :=
  sessionIn ⟨"/.meta/proto/.meta"⟩
    [(⟨"/.meta/_"⟩, { Record.blank with isShowRoot := true }.encode.toUTF8),
      (⟨"/.meta/proto/P"⟩, .empty), (⟨"/.meta/proto/.meta/x"⟩, .empty)] [.eval "/.meta/proto/P"]

/-- A show in which a file where a draft is written was linked to a prototype, and was moved away then
when the record was saved. -/
def draftLinked : Cache × Watched :=
  sessionOver [(⟨"/.meta/_"⟩, { Record.blank with isShowRoot := true }.encode.toUTF8),
    (⟨"/.meta/_.tmp"⟩, .empty), (⟨"/.meta/proto/P"⟩, .empty)]
    [.linkProto "/.meta/_.tmp" "P", .setUser "." "k" "v"]

/-- Among metadata, an empty file that was made can be moved away in its turn, as a draft, or be written
over, as a record; and a directory that was made where a file was moved away has the prototype of this
file, though none was found for it. -/
theorem not_createObjects_accounts_draft :
    Makes besidePrototypes "P._.tmp" .file (some "P") ⟨"/.meta/proto/.meta/P._.tmp"⟩
      (fun _ w => w.tree.present ⟨"/.meta/proto/.meta/P._.tmp"⟩ = false) ∧
    Makes besideMet "P._" .file (some "P") ⟨"/.meta/proto/.meta/P._"⟩
      (fun _ w => (w.tree.read ⟨"/.meta/proto/.meta/P._"⟩).toOption.map ByteArray.isEmpty =
        some false) ∧
    Makes draftLinked "/.meta/_.tmp" .dir none ⟨"/.meta/_.tmp"⟩ fun c w =>
      (((Cache.findProtoFor Place.root.metaDir "_.tmp" :
        Work (StateM Watched) Path).run.run c).run w).1.1.toOption.isNone ∧
      (c.nodeAt (.entry Place.root.metaDir ⟨"_.tmp", by decide⟩)).record.proto =
        some "//.meta/proto/P" := by
  refine ⟨.of_told ?_, .of_told ?_, .of_told ?_⟩
  · rintro _ rfl
    decide +kernel
  · rintro _ rfl
    decide +kernel
  · rintro _ rfl
    decide +kernel

end ShowTree
