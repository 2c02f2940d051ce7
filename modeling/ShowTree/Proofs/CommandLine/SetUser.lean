/-
ShowTree.Proofs.CommandLine.SetUser — the command that sets user data.

A text without a colon, or with nothing in front of it, ends the command before anything is done
(`mapM_parseAssignment`). Otherwise every target has its turn, whatever came of those before it
(`run_setUserOfAll`). As long as no record fails to be saved, a target that is done has what the
assignments make of the record that it had before, both in the session and in the tree
(`perform_setUser`). A session that has met two objects with one record key and different records is
the exception: a tree takes a backslash for a slash, and saving one of them then brings back its
own record (`not_perform_setUser_backslash`).
-/
import ShowTree.Proofs.Session.Assigning
import ShowTree.Proofs.Session.Turns

namespace ShowTree.CommandLine

/-! ## 1. Assignments as they are written -/

/-- The text of an assignment. -/
def written (pair : String × String) : String :=
  pair.1 ++ ":" ++ pair.2

/-- Whether a text can be read as an assignment: something stands in front of its first colon. -/
def IsAssignment (text : String) : Prop :=
  ':' ∈ text.toList ∧ text.toList.head? ≠ some ':'

instance (text : String) : Decidable (IsAssignment text) :=
  inferInstanceAs (Decidable (_ ∧ _))

theorem parseAssignment_of_isAssignment {text : String} (h : IsAssignment text) :
    ∃ pair : String × String, parseAssignment text = .ok pair ∧ text = written pair ∧
      pair.1 ≠ "" ∧ ':' ∉ pair.1.toList := by
  obtain ⟨front, back, htext, hfront⟩ := List.eq_append_cons_of_mem h.1
  have hcut := Text.cutAt_eq_some_iff.2 ⟨htext, hfront⟩
  cases front with
  | nil => exact absurd (congrArg List.head? htext) h.2
  | cons c key =>
    refine ⟨(String.ofList (c :: key), String.ofList back), ?_, ?_, ?_, ?_⟩
    · rw [parseAssignment, hcut]
    · refine String.toList_injective ?_
      rw [htext, written]
      simp
    · intro he
      simpa using congrArg String.toList he
    · rwa [String.toList_ofList]

theorem parseAssignment_of_not {text : String} (h : ¬ IsAssignment text) :
    parseAssignment text = .error (.argument ("expected key:value, got '" ++ text ++ "'")) := by
  unfold parseAssignment
  split
  · rename_i c key value hcut
    obtain ⟨htext, hkey⟩ := Text.cutAt_eq_some_iff.1 hcut
    refine absurd ⟨by simp [htext], ?_⟩ h
    rw [htext, List.cons_append, List.head?_cons]
    exact fun he => hkey (by simp [Option.some.inj he])
  · rfl

/-- All texts are read before anything is done. -/
theorem run_mapM_parseAssignment (texts : List String) (c : Cache) (w : Watched) :
    ((texts.mapM fun text => ExceptT.mk (pure (parseAssignment text)) :
      Action (StateM Watched) (List (String × String))).run.run c).run w =
        ((texts.mapM parseAssignment, c), w) := by
  induction texts with
  | nil => rfl
  | cons text texts ih =>
    have hfirst : ((ExceptT.mk (pure (parseAssignment text)) :
        Action (StateM Watched) (String × String)).run.run c).run w =
          ((parseAssignment text, c), w) := rfl
    rw [List.mapM_cons, List.mapM_cons, run_bind, hfirst]
    cases parseAssignment text with
    | error e => rfl
    | ok pair =>
      dsimp only
      rw [run_bind, ih]
      cases texts.mapM parseAssignment <;> rfl

/-- One text that cannot be read is enough. -/
theorem mapM_parseAssignment_of_not {texts : List String}
    (h : ∃ text ∈ texts, ¬ IsAssignment text) : ∃ text ∈ texts, ¬ IsAssignment text ∧
      texts.mapM parseAssignment =
        .error (.argument ("expected key:value, got '" ++ text ++ "'")) := by
  induction texts with
  | nil =>
    obtain ⟨_, hmem, -⟩ := h
    cases hmem
  | cons text texts ih =>
    by_cases htext : IsAssignment text
    · obtain ⟨other, hmem, hother⟩ := h
      have hrest : other ∈ texts := (List.mem_cons.1 hmem).resolve_left fun he =>
        hother (he ▸ htext)
      obtain ⟨first, hmem, hfirst, herror⟩ := ih ⟨other, hrest, hother⟩
      obtain ⟨pair, hpair, -⟩ := parseAssignment_of_isAssignment htext
      refine ⟨first, List.mem_cons_of_mem text hmem, hfirst, ?_⟩
      rw [List.mapM_cons, hpair, herror]
      rfl
    · refine ⟨text, List.mem_cons_self, htext, ?_⟩
      rw [List.mapM_cons, parseAssignment_of_not htext]
      rfl

theorem mapM_parseAssignment {texts : List String} (h : ∀ text ∈ texts, IsAssignment text) :
    ∃ pairs : List (String × String), texts.mapM parseAssignment = .ok pairs ∧
      texts = pairs.map written ∧ ∀ pair ∈ pairs, pair.1 ≠ "" ∧ ':' ∉ pair.1.toList := by
  induction texts with
  | nil => exact ⟨[], rfl, rfl, by simp⟩
  | cons text texts ih =>
    obtain ⟨htext, htexts⟩ := List.forall_mem_cons.1 h
    obtain ⟨pair, hpair, hwritten, hkey⟩ := parseAssignment_of_isAssignment htext
    obtain ⟨pairs, hpairs, hwrittens, hkeys⟩ := ih htexts
    refine ⟨pair :: pairs, ?_, by rw [hwritten, hwrittens]; rfl,
      List.forall_mem_cons.2 ⟨hkey, hkeys⟩⟩
    rw [List.mapM_cons, hpair, hpairs]
    rfl

/-! ## 2. One target after the other -/

/-- The turn of a target: it gets its assignments, and what came of it is taken down. -/
def turn (pairs : List (String × String)) (s : Stage) (target : String) : Stage :=
  let out := ((pairs.forM fun (key, value) => Session.setUser target key value :
    Action (StateM Watched) PUnit).run.run s.cache).run s.watched
  let batch := match out.1.1 with
    | .ok _ => s.batch.addDone ⟨target⟩
    | .error e => s.batch.addFailed ⟨target⟩ e
  ⟨batch, out.1.2, out.2⟩

/-- A turn for every target. -/
def turns (pairs : List (String × String)) (targets : List String) (s : Stage) : Stage :=
  targets.foldl (turn pairs) s

variable {pairs : List (String × String)} {targets : List String}

/-- Whatever comes of a target, the next one has its turn. -/
theorem run_setUserOfAll (pairs : List (String × String)) (targets : List String) (c : Cache)
    (w : Watched) :
    ((setUserOfAll pairs targets : Action (StateM Watched) Batch).run.run c).run w =
      ((.ok (turns pairs targets ⟨.empty, c, w⟩).batch, (turns pairs targets ⟨.empty, c, w⟩).cache),
        (turns pairs targets ⟨.empty, c, w⟩).watched) := by
  rw [setUserOfAll]
  generalize Batch.empty = b
  induction targets generalizing b c w with
  | nil => rfl
  | cons target targets ih =>
    have hattempt : ∀ act : Action (StateM Watched) PUnit, ((attempt act).run.run c).run w =
        ((.ok ((act.run.run c).run w).1.1, ((act.run.run c).run w).1.2),
          ((act.run.run c).run w).2) :=
      fun _ => rfl
    rw [List.foldlM_cons, run_bind, run_bind, hattempt, turns, List.foldl_cons, ← turns, turn]
    generalize ((pairs.forM fun (key, value) => Session.setUser target key value :
      Action (StateM Watched) PUnit).run.run c).run w = out
    obtain ⟨⟨r, c'⟩, w'⟩ := out
    cases r with
    | ok _ => exact ih c' w' _
    | error e => exact ih c' w' _

/-- Every target is taken down, as done or as failed. -/
theorem tells_turns (pairs : List (String × String)) (targets : List String) (c : Cache)
    (w : Watched) :
    (turns pairs targets ⟨.empty, c, w⟩).batch.Tells (targets.map Path.mk) ∧
      (turns pairs targets ⟨.empty, c, w⟩).batch.skipped = [] := by
  refine Stage.foldl_each (I := fun before s => s.batch.Tells (before.map Path.mk) ∧
    s.batch.skipped = []) [] ⟨.empty, rfl⟩ ?_
  rintro target - before ⟨b, c, w⟩ ⟨htells, hskipped⟩
  rw [List.map_append, turn]
  dsimp only
  split
  · exact ⟨htells.addDone ⟨target⟩, hskipped⟩
  · exact ⟨htells.addFailed ⟨target⟩ _, hskipped⟩

/-- Without assignments, nothing is done for any target. -/
theorem turns_nil (targets : List String) (c : Cache) (w : Watched) :
    (turns [] targets ⟨.empty, c, w⟩).cache = c ∧ (turns [] targets ⟨.empty, c, w⟩).watched = w :=
  Stage.foldl_each (I := fun _ s => s.cache = c ∧ s.watched = w) [] ⟨rfl, rfl⟩
    fun _ _ _ _ hi => hi

/-- What is told of one record key is told after all turns. -/
theorem assigning_turns {o : Origin} {n : Node} {old : Record} (hold : old.Distinct)
    (hpairs : pairs ≠ []) (targets : List String) {c : Cache} {w : Watched}
    (h : Assigning o pairs n old [] c w) :
    Assigning o pairs n old (turns pairs targets ⟨.empty, c, w⟩).batch.done
      (turns pairs targets ⟨.empty, c, w⟩).cache (turns pairs targets ⟨.empty, c, w⟩).watched := by
  refine Stage.foldl_each (I := fun _ s => Assigning o pairs n old s.batch.done s.cache s.watched)
    [] h ?_
  rintro target - before ⟨b, c₁, w₁⟩ hi
  have hturn := triple_assignAll hold hpairs b.done target c₁ w₁ hi
  rw [turn]
  dsimp only
  generalize ((pairs.forM fun (key, value) => Session.setUser target key value :
    Action (StateM Watched) PUnit).run.run c₁).run w₁ = out at hturn ⊢
  obtain ⟨⟨r, c'⟩, w'⟩ := out
  cases r with
  | ok _ => exact hturn
  | error e => exact hturn

/-! ## 3. The command -/

/-- The target leads to an object, and if its record had keys that differ in more than case, then
what is found in it now, in the session and in the tree, is what the assignments make of what was
found before. It may be otherwise if the session had met something, and another one of the targets
that are `done` has the same record key and had another record. -/
def HasAssignments (o : Origin) (pairs : List (String × String)) (done : List Path)
    (target : String) (c : Cache) (t : Tree) : Prop :=
  ∃ p n, c.Finds target p ∧ c.node? p = some n ∧
    ∀ old, o.record n = .ok old → old.Distinct → o.cache.nodes = [] ∨ o.Agrees done n old c →
      ∃ kept, t.recordOf .default p.path n.stat.isDir = .ok kept ∧
        ∀ k, n.record.userValue? k = afterAssignments pairs (old.userValue? k) k ∧
          kept.userValue? k = afterAssignments pairs (old.userValue? k) k

theorem assigning_start {c : Cache} (h : ReachableBy Watched Deed.SparesProto c)
    (hlayout : c.layout = .default) (t : Tree) (refusal : Nat → Option FileError) (n : Node)
    {old : Record} (hold : old.Distinct) :
    Assigning ⟨c, t⟩ pairs n old [] c (.ofTree t refusal) := by
  refine ⟨hlayout, fun _ => ⟨h.proto_ne_empty, fun _ hp => hp, fun _ m hm _ hbefore => ?_,
    fun _ => .inl rfl, by simp⟩⟩
  rw [Origin.record, h.reachable.grown.node?_of_mem hm] at hbefore
  rw [Except.ok.inj hbefore]
  exact .inl (.refl hold)

/-- A target that is done has its assignments. -/
theorem hasAssignments_of_done {c : Cache} (h : ReachableBy Watched Deed.SparesProto c)
    (hlayout : c.layout = .default) {t : Tree} {refusal : Nat → Option FileError}
    (hpairs : pairs ≠ []) {batch : Batch} {c' : Cache} {w' : Watched}
    (hturns : turns pairs targets ⟨.empty, c, .ofTree t refusal⟩ = ⟨batch, c', w'⟩)
    (hw : w'.Unfailing) {target : String} (hdone : ⟨target⟩ ∈ batch.done) :
    HasAssignments ⟨c, t⟩ pairs batch.done target c' w'.tree := by
  have htracked : ∀ (n : Node) (old : Record), old.Distinct →
      Tracked ⟨c, t⟩ pairs n old batch.done c' w' := by
    intro n old hold
    have hassigning := assigning_turns hold hpairs targets
      (assigning_start h hlayout t refusal n hold)
    rw [hturns] at hassigning
    exact hassigning.2 hw
  obtain ⟨p, hfinds, -⟩ := (htracked (.unmet .root) .blank (by decide)).done target hdone
  obtain ⟨n, hn⟩ := Option.isSome_iff_exists.1 hfinds.met
  refine ⟨p, n, hfinds, hn, fun old hbefore hold hagrees => ?_⟩
  have hagrees := hagrees.elim (fun hfresh => Origin.agrees_of_fresh hfresh hbefore _ c') id
  obtain ⟨q, hfinds', hassigned⟩ := (htracked n old hold).done target hdone
  obtain rfl : q = p := Except.ok.inj (hfinds'.resolved.symm.trans hfinds.resolved)
  obtain ⟨hrecord, hholds⟩ := hassigned hagrees n hn rfl
  obtain ⟨kept, hkept, hread⟩ := hholds.recordOf
  rw [(Cache.node?_eq_some hn).2] at hread
  exact ⟨kept, hread, fun k => ⟨hrecord.userValue?_eq k, hkept.userValue?_eq k⟩⟩

/-- The command reads all texts, and then every target has its turn. -/
theorem run_perform_setUser (texts targets : List String) (c : Cache) (w : Watched) :
    (((Command.setUser texts targets).perform : Action (StateM Watched) Answer).run.run c).run w =
      match texts.mapM parseAssignment with
      | .error e => ((.error e, c), w)
      | .ok pairs => ((.ok (.ofBatch (turns pairs targets ⟨.empty, c, w⟩).batch),
          (turns pairs targets ⟨.empty, c, w⟩).cache),
          (turns pairs targets ⟨.empty, c, w⟩).watched) := by
  rw [Command.perform, run_bind, run_mapM_parseAssignment]
  cases texts.mapM parseAssignment with
  | error e => rfl
  | ok pairs =>
    dsimp only
    rw [map_eq_pure_bind, run_bind, run_setUserOfAll]
    rfl

/-- In any session with the usual layout, over any tree and whatever is refused: if one text is no
assignment, the command is refused and nothing has changed. Otherwise every target has its turn
and is done or failed, one after the other; and if no attempt to save a record fails, all that
are done have their assignments. -/
theorem perform_setUser {c : Cache} (h : ReachableBy Watched Deed.SparesProto c)
    (hlayout : c.layout = .default) (t : Tree) (refusal : Nat → Option FileError)
    (texts targets : List String) :
    ((∃ text ∈ texts, ¬ IsAssignment text) → ∃ text ∈ texts, ¬ IsAssignment text ∧
      (((Command.setUser texts targets).perform : Action (StateM Watched) Answer).run.run c).run
        (.ofTree t refusal) =
          ((.error (.argument ("expected key:value, got '" ++ text ++ "'")), c),
            .ofTree t refusal)) ∧
    ((∀ text ∈ texts, IsAssignment text) → ∃ pairs batch c' w',
      texts.mapM parseAssignment = .ok pairs ∧ texts = pairs.map written ∧
      (∀ pair ∈ pairs, pair.1 ≠ "" ∧ ':' ∉ pair.1.toList) ∧
      (((Command.setUser texts targets).perform : Action (StateM Watched) Answer).run.run c).run
        (.ofTree t refusal) = ((.ok (.ofBatch batch), c'), w') ∧
      turns pairs targets ⟨.empty, c, .ofTree t refusal⟩ = ⟨batch, c', w'⟩ ∧
      batch.Tells (targets.map Path.mk) ∧ batch.skipped = [] ∧
      (texts = [] → c' = c ∧ w' = .ofTree t refusal) ∧
      (texts ≠ [] → w'.Unfailing → ∀ target, ⟨target⟩ ∈ batch.done →
        HasAssignments ⟨c, t⟩ pairs batch.done target c' w'.tree)) := by
  refine ⟨fun hnot => ?_, fun hall => ?_⟩
  · obtain ⟨text, hmem, htext, herror⟩ := mapM_parseAssignment_of_not hnot
    refine ⟨text, hmem, htext, ?_⟩
    rw [run_perform_setUser, herror]
  · obtain ⟨pairs, hpairs, hwritten, hkeys⟩ := mapM_parseAssignment hall
    obtain ⟨htells, hskipped⟩ := tells_turns pairs targets c (.ofTree t refusal)
    refine ⟨pairs, _, _, _, hpairs, hwritten, hkeys, ?_, rfl, htells, hskipped, ?_, ?_⟩
    · rw [run_perform_setUser, hpairs]
      rfl
    · rintro rfl
      obtain rfl : pairs = [] := List.map_eq_nil_iff.1 hwritten.symm
      exact turns_nil targets c (.ofTree t refusal)
    · intro hne hw target hdone
      have hsome : pairs ≠ [] := fun he => hne (by rw [hwritten, he]; rfl)
      exact hasAssignments_of_done h hlayout hsome rfl hw hdone

/-- A tree with one file, whose record has two user keys. -/
def recordedFile : Tree :=
  .ofFiles [(fileA.path, .empty),
    (⟨"/.meta/a._"⟩, (Record.edited .blank [.setUser "Size" "1", .setUser "x" "0"]).encode.toUTF8)]

/-- For instance this file named in two ways, and something that is not there: the second one fails,
and in the file the last assignment of each key counts, in whatever case it is written. -/
theorem perform_setUser_twice :
    ∃ batch c w, (((Command.setUser ["size:2", "y:", "SIZE:3", "x:", "t:a:b"]
        ["a", "nowhere", "/b/../a"]).perform : Action (StateM Watched) Answer).run.run
          ⟨.default, .root, []⟩).run (.ofTree recordedFile fun _ => none) =
            ((.ok (.ofBatch batch), c), w) ∧
      batch.done = [⟨"a"⟩, ⟨"/b/../a"⟩] ∧ batch.failed.map (·.1) = [⟨"nowhere"⟩] ∧
      ∃ kept, w.tree.recordOf .default fileA.path false = .ok kept ∧
        kept.userValue? "Size" = some "3" ∧ kept.userValue? "X" = none ∧
        kept.userValue? "T" = some "a:b" := by
  have hreach : ReachableBy Watched Deed.SparesProto ⟨.default, .root, []⟩ :=
    .start (Cache.start_path .default .root)
  obtain ⟨pairs, batch, c, w, hpairs, -, -, hrun, hturns, -, -, -, hdone⟩ :=
    (perform_setUser hreach rfl recordedFile (fun _ => none)
      ["size:2", "y:", "SIZE:3", "x:", "t:a:b"] ["a", "nowhere", "/b/../a"]).2 (by decide)
  obtain rfl : pairs = [("size", "2"), ("y", ""), ("SIZE", "3"), ("x", ""), ("t", "a:b")] :=
    Except.ok.inj (hpairs.symm.trans (by decide))
  have htold : ∀ s, turns [("size", "2"), ("y", ""), ("SIZE", "3"), ("x", ""), ("t", "a:b")]
      ["a", "nowhere", "/b/../a"]
      ⟨.empty, ⟨.default, .root, []⟩, .ofTree recordedFile fun _ => none⟩ = s →
      s.batch.done = [⟨"a"⟩, ⟨"/b/../a"⟩] ∧ s.batch.failed.map (·.1) = [⟨"nowhere"⟩] ∧
      s.watched.Unfailing ∧ s.cache.resolveTarget "a" s.cache.workingPlace = .ok fileA ∧
      (s.cache.node? fileA).map (·.stat.isDir) = some false := by
    rintro _ rfl
    decide +kernel
  have hold : recordedFile.recordOf .default fileA.path false =
      .ok (Record.edited .blank [.setUser "Size" "1", .setUser "x" "0"]) := by decide +kernel
  obtain ⟨hdones, hfailed, hunfailing, hresolved, hfile⟩ := htold _ hturns
  dsimp only at hdones hfailed hunfailing hresolved hfile
  obtain ⟨p, n, hfinds, hn, hvalues⟩ := hdone (by decide) hunfailing "a" (by rw [hdones]; decide)
  obtain rfl : p = fileA := Except.ok.inj (hfinds.resolved.symm.trans hresolved)
  rw [hn] at hfile
  have hfile : n.stat.isDir = false := Option.some.inj hfile
  have hplace : n.place = fileA := (Cache.node?_eq_some hn).2
  have hbefore : Origin.record ⟨⟨.default, .root, []⟩, recordedFile⟩ n =
      .ok (Record.edited .blank [.setUser "Size" "1", .setUser "x" "0"]) := by
    rw [Origin.record_of_unmet rfl, hplace, hfile, hold]
  obtain ⟨kept, hkept, hfound⟩ := hvalues _ hbefore (by decide +kernel) (.inl rfl)
  rw [hfile] at hkept
  refine ⟨batch, c, w, hrun, hdones, hfailed, kept, hkept, ?_, ?_, ?_⟩
  · rw [(hfound "Size").2]
    decide +kernel
  · rw [(hfound "X").2]
    decide +kernel
  · rw [(hfound "T").2]
    decide +kernel

/-- A session that has met a directory under two names, and has set user data under one of them. -/
def metTwice : Cache × Watched :=
  sessionOver [(⟨"/a/b/x"⟩, .empty)] [.protoOf "/a\\b", .setUser "/a/b" "x" "1"]

/-- When both of them get an assignment, each is saved as the session has it in mind, so what was
set before is lost. -/
theorem not_perform_setUser_backslash :
    ∃ batch c w p old kept, (((Command.setUser ["k:v"] ["/a/b", "/a\\b"]).perform :
        Action (StateM Watched) Answer).run.run metTwice.1).run
          (.ofTree metTwice.2.tree fun _ => none) = ((.ok (.ofBatch batch), c), w) ∧
      batch.done = [⟨"/a/b"⟩, ⟨"/a\\b"⟩] ∧ w.Unfailing ∧
      c.resolveTarget "/a/b" c.workingPlace = .ok p ∧
      ((metTwice.1.node? p).map fun n => (n.record, n.stat.isDir)) = some (old, true) ∧
      metTwice.2.tree.recordOf .default p.path true = .ok old ∧ old.Distinct ∧
      afterAssignments [("k", "v")] (old.userValue? "x") "x" = some "1" ∧
      w.tree.recordOf .default p.path true = .ok kept ∧ kept.userValue? "x" = none := by
  have hread : ["k:v"].mapM parseAssignment = .ok [("k", "v")] := by decide
  have hrun := run_perform_setUser ["k:v"] ["/a/b", "/a\\b"] metTwice.1
    (.ofTree metTwice.2.tree fun _ => none)
  rw [hread] at hrun
  refine ⟨_, _, _, .entry (.entry .root ⟨"a", by decide⟩) ⟨"b", by decide⟩,
    .setUser .blank "x" "1", .setUser .blank "k" "v", hrun, ?_⟩
  decide +kernel

end ShowTree.CommandLine
