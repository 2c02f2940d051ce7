/-
ShowTree.Proofs.Session.Assigning — assignments to the user data of one target.

A target is found anew for every assignment, but what has been found once is found again in the
same place, whatever user data has been changed since (`Cache.Finds.run_find`). So a target gets
all of its assignments, each saved at once, or it cannot be found for the first one. What a tree
keeps as a record is touched only when an object is saved whose record has the same key
(`SaveCourse.get?_recordKey`); in a tree that takes a backslash for a slash, this can be another
object. Of one such key is told what the session and the tree hold under it (`Tracked`), and all
of it is kept when a target gets its assignments (`triple_assignAll`).
-/
import ShowTree.CommandLine.Run
import ShowTree.Proofs.Cache.Atomic
import ShowTree.Proofs.Cache.Widening
import ShowTree.Proofs.Prototype.Following
import ShowTree.Proofs.Record.Assigned

namespace ShowTree

/-! ## 1. The keys of records -/

/-- The key under which a tree keeps the record of an object that has been met. -/
def Node.recordKey (n : Node) : String :=
  (Layout.default.recordPath n.place.path n.stat.isDir).key

theorem Node.recordKey_eq (n : Node) :
    n.recordKey = (n.place.recordPlace n.stat.isDir).path.key := by
  rw [recordKey, Place.recordPath_path]

/-- The last character of a name, other than a backslash, is that of the key. -/
theorem Place.getLast?_key_entry {dir : Place} {name : Name} {c : Char}
    (hlast : name.chars.getLast? = some c) (hback : c ≠ '\\') :
    (entry dir name).path.key.toList.getLast? = some c := by
  have hslash : c ≠ '/' := fun e => name.getLast?_chars_ne (e ▸ hlast)
  have htext : (slashed (entry dir name).path.text.toList).getLast? = some c := by
    rw [slashed, List.getLast?_map, getLast?_path_entry, hlast, Option.map_some, if_neg hback]
  have hhead : (slashed (entry dir name).path.text.toList).reverse.head? ≠ some '/' := by
    rw [List.head?_reverse, htext]
    exact fun e => hslash (Option.some.inj e)
  rw [Path.toList_key_eq, dropSlashes_of_head? hhead, List.reverse_reverse, htext]

theorem Node.getLast?_recordKey (n : Node) : n.recordKey.toList.getLast? = some '_' := by
  rw [recordKey_eq]
  exact Place.getLast?_key_entry (n.place.getLast?_recordName n.stat.isDir) (by decide)

/-- Saving the record of one object touches no other record, unless it has the same key. -/
theorem SaveCourse.get?_recordKey {w w' : Watched} {m : Node} {content : ByteArray}
    {r : Except Failure Unit}
    (h : SaveCourse w (m.place.recordHolder m.stat.isDir).metaDir.path
      (m.place.draftPlace m.stat.isDir).path (m.place.recordPlace m.stat.isDir).path content r w')
    (n : Node) : w'.tree.get? n.recordKey =
      if r.isOk ∧ m.recordKey = n.recordKey then some (.file content)
      else w.tree.get? n.recordKey := by
  have hdir : (m.place.recordHolder m.stat.isDir).metaDir.path.key ≠ n.recordKey := by
    intro hkey
    have hlast : (m.place.recordHolder m.stat.isDir).metaDir.path.key.toList.getLast? = some 'a' :=
      Place.getLast?_key_entry (by decide) (by decide)
    rw [hkey, n.getLast?_recordKey] at hlast
    exact absurd hlast (by decide)
  have hdraft : (m.place.draftPlace m.stat.isDir).path.key ≠ n.recordKey := by
    intro hkey
    have hlast : (m.place.draftPlace m.stat.isDir).path.key.toList.getLast? = some 'p' :=
      Place.getLast?_key_entry (Place.getLast?_append_draftEnding _) (by decide)
    rw [hkey, n.getLast?_recordKey] at hlast
    exact absurd hlast (by decide)
  rw [h.get?_eq hdir hdraft, m.recordKey_eq]

/-- No attempt has come to nothing. -/
def Watched.Unfailing (w : Watched) : Prop :=
  ∀ a ∈ w.log, a.failed = false

instance (w : Watched) : Decidable w.Unfailing :=
  inferInstanceAs (Decidable (∀ a ∈ w.log, _))

/-- Saving succeeds if no attempt fails. -/
theorem SaveCourse.of_unfailing {w w' : Watched} {dir draft file : Path} {content : ByteArray}
    {r : Except Failure Unit} (h : SaveCourse w dir draft file content r w') (hw : w'.Unfailing) :
    r = .ok () ∧ w.Unfailing := by
  have hmade : ∀ {w₁}, DirMade w dir w₁ → ∃ a, w₁.log = a :: w.log := by
    rintro w₁ (made | taken)
    · exact ⟨_, rfl⟩
    · exact ⟨_, rfl⟩
  cases h with
  | @noDir e free =>
    have hfailed := hw _ List.mem_cons_self
    simp [Attempt.failed, free] at hfailed
  | noDraft made => cases hw _ List.mem_cons_self
  | notMoved made written => cases hw _ List.mem_cons_self
  | saved made written moved =>
    obtain ⟨a, hlog⟩ := hmade made
    refine ⟨rfl, fun b hb => hw b ?_⟩
    refine List.mem_cons_of_mem _ (List.mem_cons_of_mem _ ?_)
    rw [hlog]
    exact List.mem_cons_of_mem a hb

/-! ## 2. Finding a target -/

/-- The session has met the working directory, from which the target leads to `p`. -/
structure Cache.Resolves (c : Cache) (target : String) (p : Place) : Prop where
  working : (c.node? c.workingPlace).isSome
  resolved : c.resolveTarget target c.workingPlace = .ok p

/-- It has also met the object there. -/
structure Cache.Finds (c : Cache) (target : String) (p : Place) : Prop
    extends c.Resolves target p where
  met : (c.node? p).isSome

namespace Cache

variable {c c' : Cache} {target : String} {p : Place}

theorem isSome_node?_add (h : (c.node? p).isSome) (q : Place) (st : Stat) (r : Record) :
    ((c.add q st r).node? p).isSome := by
  rw [node?_add, Option.isSome_or, h, Bool.true_or]

theorem isSome_node?_editRecord (q : Place) (change : Record → Record) :
    ((c.editRecord q change).node? p).isSome = (c.node? p).isSome := by
  rw [node?_editRecord, Option.isSome_map]

/-- Meeting another object changes nothing of where a target leads to. -/
theorem Resolves.add (h : c.Resolves target p) (q : Place) (st : Stat) (r : Record) :
    (c.add q st r).Resolves target p where
  working := isSome_node?_add h.working q st r
  resolved := by
    have hshow : (c.add q st r).showAt c.workingPlace = c.showAt c.workingPlace := by
      rw [showAt, nodeAt_add h.working, showAt]
    rw [← h.resolved]
    change resolve _ _ c.workingPlace _ = _
    rw [resolve, hshow]
    rfl

/-- Nor does changing a record. -/
theorem Resolves.editRecord (h : c.Resolves target p) (q : Place) (change : Record → Record) :
    (c.editRecord q change).Resolves target p where
  working := (isSome_node?_editRecord q change).trans h.working
  resolved := by
    rw [← h.resolved]
    change resolve _ _ c.workingPlace _ = _
    rw [resolve, showAt_editRecord]
    rfl

namespace Finds

theorem add (h : c.Finds target p) (q : Place) (st : Stat) (r : Record) :
    (c.add q st r).Finds target p :=
  ⟨h.toResolves.add q st r, isSome_node?_add h.met q st r⟩

theorem editRecord (h : c.Finds target p) (q : Place) (change : Record → Record) :
    (c.editRecord q change).Finds target p :=
  ⟨h.toResolves.editRecord q change, (isSome_node?_editRecord q change).trans h.met⟩

variable {σ : Type} [FileSystem (StateM σ)] {s : σ}

/-- What has been found is found again, and nothing is met for it. -/
theorem run_find (h : c.Finds target p) :
    ((Session.find target : Work (StateM σ) Place).run.run c).run s = ((.ok p, c), s) := by
  rw [Session.find, run_bind, run_meetWorkingPlace_of_met h.working]
  dsimp only
  rw [run_bind, run_get]
  dsimp only
  rw [run_bind, run_ofExcept, h.resolved]
  dsimp only
  rw [run_bind, run_meet_of_met h.met]
  rfl

end Finds

end Cache

section Find

variable {σ : Type} [FileSystem (StateM σ)]

/-- A target that is found is found in one place from then on. -/
theorem Calm.find {known : Path → Stat → Prop} {kept : Path → Bool → Record → Prop}
    {I : Assertion σ} (h : Calm known kept I) (target : String) :
    Triple I (Session.find target) (fun p c s => I c s ∧ c.Finds target p) (fun _ => I) := by
  refine Triple.bind (Q := fun dir c s => I c s ∧ (c.node? dir).isSome ∧ c.workingPlace = dir)
    ?_ fun dir => Triple.bind Triple.get fun c₁ => ?_
  · refine Triple.bind Triple.get fun c₀ => ?_
    have hplace : Calm (fun _ _ => True) (fun _ _ _ => True)
        fun c (_ : σ) => c.workingPlace = c₀.workingPlace :=
      Calm.of_cache fun _ _ _ _ hi _ _ => hi
    refine Triple.bind (((h.meet c₀.workingPlace).and (hplace.meet c₀.workingPlace)).imp ?_
      (fun _ _ _ hi => hi) fun _ _ _ hi => hi.1) fun _ => Triple.pure ?_
    · rintro c s ⟨rfl, hi⟩
      exact ⟨hi, rfl⟩
    · exact fun c s hi => ⟨hi.1.1, hi.1.2, hi.2.1⟩
  · refine Triple.bind (Q := fun p c s => I c s ∧ c.Resolves target p) (Triple.ofExcept ?_)
      fun p => ?_
    · rintro c s ⟨rfl, hi, hmet, rfl⟩
      cases hp : c₁.resolveTarget target c₁.workingPlace with
      | ok p => exact ⟨hi, hmet, hp⟩
      | error e => exact hi
    · have hresolves : Calm (fun _ _ => True) (fun _ _ _ => True)
          fun c (_ : σ) => c.Resolves target p :=
        Calm.of_cache fun _ q st r hi _ _ => hi.add q st r
      refine Triple.bind (((h.meet p).and (hresolves.meet p)).imp (fun _ _ hi => hi)
        (fun _ _ _ hi => hi) fun _ _ _ hi => hi.1) fun _ => Triple.pure ?_
      exact fun c s hi => ⟨hi.1.1, hi.2.1, hi.1.2⟩

end Find

/-! ## 3. What is held under one key -/

/-- What a session starts from: what it has met, and the tree. -/
structure Origin where
  cache : Cache
  tree : Tree

/-- The record that an object had: the one that the session had in mind, or that the tree kept if
the object had not been met. -/
def Origin.record (o : Origin) (n : Node) : Except Failure Record :=
  match o.cache.node? n.place with
  | some met => .ok met.record
  | none => o.tree.recordOf .default n.place.path n.stat.isDir

/-- All targets among these that are found, and whose record has the same key as that of `n`, had
the record `old`. -/
def Origin.Agrees (o : Origin) (targets : List Path) (n : Node) (old : Record) (c : Cache) : Prop :=
  ∀ target : String, ⟨target⟩ ∈ targets → ∀ p m, c.Finds target p → c.node? p = some m →
    m.recordKey = n.recordKey → o.record m = .ok old

/-- A tree holds such a record under a key, and it can be read. -/
def Tree.HoldsRecord (t : Tree) (key : String) (P : Record → Prop) : Prop :=
  ∃ r : Record, P r ∧ r.proto ≠ some "" ∧ t.get? key = some (.file r.encode.toUTF8)

/-- A record that is as it was, or has been given the assignments. -/
def Record.AtMostAssigned (pairs : List (String × String)) (old r : Record) : Prop :=
  Assigned [] old r ∨ Assigned pairs old r

theorem Record.AtMostAssigned.edited {pairs : List (String × String)} {old r : Record}
    (h : AtMostAssigned pairs old r) : Assigned pairs old (r.edited (pairs.map Edit.assign)) :=
  h.elim Assigned.first Assigned.again

/-- What is told of one record key while targets get their assignments. -/
structure Tracked (o : Origin) (pairs : List (String × String)) (n : Node) (old : Record)
    (done : List Path) (c : Cache) (w : Watched) : Prop where
  proto : ∀ m ∈ c.nodes, m.record.proto ≠ some ""
  met : ∀ p, (o.cache.node? p).isSome → (c.node? p).isSome
  records : o.Agrees done n old c → ∀ m ∈ c.nodes, m.recordKey = n.recordKey →
    o.record m = .ok old → Record.AtMostAssigned pairs old m.record
  kept : o.Agrees done n old c → w.tree.get? n.recordKey = o.tree.get? n.recordKey ∨
    w.tree.HoldsRecord n.recordKey (Record.AtMostAssigned pairs old)
  done : ∀ target : String, ⟨target⟩ ∈ done → ∃ p, c.Finds target p ∧
    (o.Agrees done n old c → ∀ m, c.node? p = some m → m.recordKey = n.recordKey →
      Record.Assigned pairs old m.record ∧
        w.tree.HoldsRecord n.recordKey (Record.Assigned pairs old))

section Tracked

variable {o : Origin} {c : Cache} {t t' : Tree} {pairs : List (String × String)} {n m : Node}
variable {old : Record} {done : List Path} {w w' : Watched} {p : Place} {target : String}

theorem Origin.record_of_unmet (h : o.cache.node? n.place = none) :
    o.record n = o.tree.recordOf .default n.place.path n.stat.isDir := by
  rw [record, h]

theorem Cache.mem_editRecord {change : Record → Record} (hm : m ∈ (c.editRecord p change).nodes) :
    ∃ m₀ ∈ c.nodes, m.place = m₀.place ∧ m.stat = m₀.stat ∧
      m.record = if m₀.place = p then change m₀.record else m₀.record := by
  obtain ⟨m₀, hm₀, rfl⟩ := List.mem_map.1 hm
  refine ⟨m₀, hm₀, ?_⟩
  split <;> exact ⟨rfl, rfl, rfl⟩

theorem Origin.Agrees.of_add {st : Stat} {r : Record} (h : o.Agrees done n old (c.add p st r)) :
    o.Agrees done n old c := by
  intro target htarget q m hfinds hm
  refine h target htarget q m (hfinds.add p st r) ?_
  rw [Cache.node?_add, hm, Option.some_or]

/-- What is read as the record of an object depends on its record key alone. -/
theorem Tree.recordOf_of_recordKey {r : Record} (hkey : m.recordKey = n.recordKey)
    (h : t.recordOf .default n.place.path n.stat.isDir = .ok r) :
    t.recordOf .default m.place.path m.stat.isDir = .ok r := by
  have hentry : t.entry? (Layout.default.recordPath m.place.path m.stat.isDir) =
      t.entry? (Layout.default.recordPath n.place.path n.stat.isDir) :=
    congrArg t.entries.get? hkey
  have hpath : (Layout.default.recordPath m.place.path m.stat.isDir).key =
      (Layout.default.recordPath n.place.path n.stat.isDir).key := hkey
  rw [recordOf, read] at h ⊢
  rw [hentry, hpath]
  split at h
  · rename_i content _
    dsimp only [Cache.recordIn] at h ⊢
    cases hdecode : Record.decode? content with
    | some record => rwa [hdecode] at h
    | none => simp [hdecode] at h
  · simp [Cache.recordIn, FileError.isNotFound] at h
  · exact h

/-- A session that has met nothing has no record in mind that differs from what the tree keeps. -/
theorem Origin.agrees_of_fresh (hfresh : o.cache.nodes = []) (hold : o.record n = .ok old)
    (targets : List Path) (c : Cache) : o.Agrees targets n old c := by
  have hunmet : ∀ p, o.cache.node? p = none := fun p => by rw [Cache.node?, hfresh, List.find?_nil]
  intro target _ p m _ _ hkey
  rw [record_of_unmet (hunmet _)] at hold ⊢
  exact Tree.recordOf_of_recordKey hkey hold

/-- What an object had does not depend on its record now. -/
theorem Origin.Agrees.of_editRecord {change : Record → Record} {targets : List Path}
    (h : o.Agrees targets n old (c.editRecord p change)) : o.Agrees targets n old c := by
  intro target htarget q m hfinds hm
  have hedited := h target htarget q _ (hfinds.editRecord p change)
    (by rw [Cache.node?_editRecord, hm, Option.map_some])
  split at hedited <;> exact hedited

theorem Origin.Agrees.of_append {more : List Path} (h : o.Agrees (done ++ more) n old c) :
    o.Agrees done n old c :=
  fun target htarget => h target (List.mem_append_left more htarget)

namespace Tree.HoldsRecord

variable {P Q : Record → Prop} {key : String}

theorem mono (h : t.HoldsRecord key P) (hPQ : ∀ r, P r → Q r) : t.HoldsRecord key Q := by
  obtain ⟨r, hr, hproto, hget⟩ := h
  exact ⟨r, hPQ r hr, hproto, hget⟩

theorem of_get?_eq (h : t.HoldsRecord key P) (hget : t'.get? key = t.get? key) :
    t'.HoldsRecord key P := by
  obtain ⟨r, hr, hproto, hget'⟩ := h
  exact ⟨r, hr, hproto, hget.trans hget'⟩

/-- A record that a tree holds is read as what it is. -/
theorem recordOf (h : t.HoldsRecord n.recordKey P) :
    ∃ r, P r ∧ t.recordOf .default n.place.path n.stat.isDir = .ok r := by
  obtain ⟨r, hr, hproto, hget⟩ := h
  rw [Node.recordKey_eq] at hget
  exact ⟨r, hr, Tree.recordOf_of_get? hget hproto⟩

end Tree.HoldsRecord

namespace Tracked

/-- An object that is met has its record from the tree. -/
theorem add (h : Tracked o pairs n old done c w) (hold : old.Distinct) (hnew : c.node? p = none)
    {st : Stat} {r : Record} (hr : w.tree.recordOf .default p.path st.isDir = .ok r) :
    Tracked o pairs n old done (c.add p st r) w where
  proto m hm := by
    rcases List.mem_append.1 hm with hm | hm
    · exact h.proto m hm
    · obtain rfl := List.mem_singleton.1 hm
      exact Tree.proto_ne_empty_of_recordOf hr
  met q hq := Cache.isSome_node?_add (h.met q hq) p st r
  records hagrees m hm hkey hbefore := by
    rcases List.mem_append.1 hm with hm | hm
    · exact h.records hagrees.of_add m hm hkey hbefore
    · obtain rfl := List.mem_singleton.1 hm
      have hunmet : o.cache.node? p = none := by
        refine Option.not_isSome_iff_eq_none.1 fun hmet => ?_
        have hmet' := h.met p hmet
        rw [hnew] at hmet'
        cases hmet'
      rw [Origin.record_of_unmet hunmet] at hbefore
      rcases h.kept hagrees.of_add with hsame | hholds
      · rw [← hkey, Node.recordKey_eq] at hsame
        rw [Tree.recordOf_congr hsame, hbefore] at hr
        exact .inl (Except.ok.inj hr ▸ .refl hold)
      · rw [← hkey] at hholds
        obtain ⟨r', hr', hread⟩ := hholds.recordOf
        exact Except.ok.inj (hread.symm.trans hr) ▸ hr'
  kept hagrees := h.kept hagrees.of_add
  done target htarget := by
    obtain ⟨q, hfinds, hdone⟩ := h.done target htarget
    refine ⟨q, hfinds.add p st r, fun hagrees m hm => hdone hagrees.of_add m ?_⟩
    obtain ⟨m₀, hm₀⟩ := Option.isSome_iff_exists.1 hfinds.met
    rw [Cache.node?_add, hm₀, Option.some_or] at hm
    rw [hm₀, hm]

section Found

variable (h : Tracked o pairs n old done c w) (hfinds : c.Finds target p)
variable (hm : c.node? p = some m)
variable (hsaved : w'.tree.get? n.recordKey = if m.recordKey = n.recordKey then
    some (.file (m.record.edited (pairs.map Record.Edit.assign)).encode.toUTF8)
  else w.tree.get? n.recordKey)
variable (hagrees : o.Agrees (done ++ [⟨target⟩]) n old c)

include h hfinds hm hsaved hagrees

/-- If the target that is found has this key, then its record is known, and so is what has been
saved. -/
theorem found_assigned (hkey : m.recordKey = n.recordKey) :
    Record.Assigned pairs old (m.record.edited (pairs.map Record.Edit.assign)) ∧
      w'.tree.HoldsRecord n.recordKey (Record.Assigned pairs old) := by
  obtain ⟨hmem, -⟩ := Cache.node?_eq_some hm
  have hbefore := hagrees target (by simp) p m hfinds hm hkey
  have hrecord := (h.records hagrees.of_append m hmem hkey hbefore).edited
  have hproto : (m.record.edited (pairs.map Record.Edit.assign)).proto ≠ some "" :=
    Record.proto_edited m.record _ ▸ h.proto m hmem
  rw [if_pos hkey] at hsaved
  exact ⟨hrecord, _, hrecord, hproto, hsaved⟩

/-- Under the key stands what has been saved for this target, or what stood there before. -/
theorem found_holds : w'.tree.HoldsRecord n.recordKey (Record.Assigned pairs old) ∨
    w'.tree.get? n.recordKey = w.tree.get? n.recordKey := by
  by_cases hkey : m.recordKey = n.recordKey
  · exact .inl (h.found_assigned hfinds hm hsaved hagrees hkey).2
  · rw [if_neg hkey] at hsaved
    exact .inr hsaved

/-- A target that was done before is still done. -/
theorem done_lasts {target' : String} {q : Place} {m₀ : Node} (hdone : ⟨target'⟩ ∈ done)
    (hfinds' : c.Finds target' q) (hm₀ : c.node? q = some m₀)
    (hkey : m₀.recordKey = n.recordKey) : Record.Assigned pairs old m₀.record ∧
      w'.tree.HoldsRecord n.recordKey (Record.Assigned pairs old) := by
  obtain ⟨q', hfinds'', hassigned⟩ := h.done target' hdone
  obtain rfl : q' = q := Except.ok.inj (hfinds''.resolved.symm.trans hfinds'.resolved)
  obtain ⟨hrecord, hkept⟩ := hassigned hagrees.of_append m₀ hm₀ hkey
  exact ⟨hrecord, (h.found_holds hfinds hm hsaved hagrees).elim id hkept.of_get?_eq⟩

end Found

/-- A target that is found gets its assignments, and they are saved. -/
theorem assign (h : Tracked o pairs n old done c w) (hfinds : c.Finds target p)
    (hm : c.node? p = some m)
    (hsaved : w'.tree.get? n.recordKey = if m.recordKey = n.recordKey then
        some (.file (m.record.edited (pairs.map Record.Edit.assign)).encode.toUTF8)
      else w.tree.get? n.recordKey) :
    Tracked o pairs n old (done ++ [⟨target⟩])
      (c.editRecord p (·.edited (pairs.map Record.Edit.assign))) w' where
  proto m' hm' := by
    obtain ⟨m₀, hm₀, -, -, hrecord⟩ := Cache.mem_editRecord hm'
    rw [hrecord]
    split
    · exact Record.proto_edited m₀.record _ ▸ h.proto m₀ hm₀
    · exact h.proto m₀ hm₀
  met q hq := (Cache.isSome_node?_editRecord p _).trans (h.met q hq)
  records hagrees m' hm' hkey hbefore := by
    obtain ⟨m₀, hm₀, hplace, hstat, hrecord⟩ := Cache.mem_editRecord hm'
    rw [Node.recordKey, hplace, hstat] at hkey
    rw [Origin.record, hplace, hstat] at hbefore
    have hrecord₀ := h.records hagrees.of_editRecord.of_append m₀ hm₀ hkey hbefore
    rw [hrecord]
    split
    · exact .inr hrecord₀.edited
    · exact hrecord₀
  kept hagrees := by
    rcases h.found_holds hfinds hm hsaved hagrees.of_editRecord with hassigned | hsame
    · exact .inr (hassigned.mono fun _ => .inr)
    · rw [hsame]
      exact (h.kept hagrees.of_editRecord.of_append).imp_right (·.of_get?_eq hsame)
  done target' htarget' := by
    -- The target has just been done, or it was done before, in this place or in another one.
    have hdone : ∃ q, c.Finds target' q ∧ (q ≠ p → ⟨target'⟩ ∈ done) := by
      rcases List.mem_append.1 htarget' with hbefore | hlast
      · obtain ⟨q, hfinds', -⟩ := h.done target' hbefore
        exact ⟨q, hfinds', fun _ => hbefore⟩
      · obtain rfl : target' = target := congrArg Path.text (List.mem_singleton.1 hlast)
        exact ⟨p, hfinds, fun hne => absurd rfl hne⟩
    obtain ⟨q, hfinds', hdone⟩ := hdone
    refine ⟨q, hfinds'.editRecord p _, fun hagrees m' hm' hkey => ?_⟩
    rw [Cache.node?_editRecord] at hm'
    obtain ⟨m₀, hm₀, rfl⟩ := Option.map_eq_some_iff.1 hm'
    by_cases hq : q = p
    · subst hq
      obtain rfl := Option.some.inj (hm.symm.trans hm₀)
      rw [if_pos rfl] at hkey ⊢
      exact h.found_assigned hfinds hm hsaved hagrees.of_editRecord hkey
    · rw [if_neg hq] at hkey ⊢
      exact h.done_lasts hfinds hm hsaved hagrees.of_editRecord (hdone hq) hfinds' hm₀ hkey

end Tracked

end Tracked

/-! ## 4. The assignments of one target -/

section Assign

variable {o : Origin} {pairs : List (String × String)} {n : Node} {old : Record}
variable {done : List Path} {target : String} {p : Place}

/-- What is left of a session in which these targets are done, as long as no attempt fails. -/
def Assigning (o : Origin) (pairs : List (String × String)) (n : Node) (old : Record)
    (done : List Path) : Assertion Watched :=
  fun c w => c.layout = .default ∧ (w.Unfailing → Tracked o pairs n old done c w)

/-- The target has been found at `p`, and some assignments have been made and saved. -/
def Partway (o : Origin) (pairs : List (String × String)) (n : Node) (old : Record)
    (done : List Path) (target : String) (p : Place) (made : List (String × String)) :
    Assertion Watched :=
  fun c w => ∃ c₁ w₁ m, Assigning o pairs n old done c₁ w₁ ∧ c₁.Finds target p ∧
    c₁.node? p = some m ∧ c = c₁.editRecord p (·.edited (made.map Record.Edit.assign)) ∧
    (w.Unfailing → w₁.Unfailing ∧ w.tree.get? n.recordKey =
      if made ≠ [] ∧ m.recordKey = n.recordKey then
        some (.file (m.record.edited (made.map Record.Edit.assign)).encode.toUTF8)
      else w₁.tree.get? n.recordKey)

theorem Cache.editRecord_id (c : Cache) (p : Place) : c.editRecord p (fun r => r) = c := by
  have hid : (fun m : Node => if m.place = p then { m with record := m.record } else m) = id := by
    funext m
    split <;> rfl
  rw [editRecord, hid, List.map_id]

theorem Cache.editRecord_editRecord (c : Cache) (p : Place) (f g : Record → Record) :
    (c.editRecord p f).editRecord p g = c.editRecord p fun r => g (f r) := by
  simp only [editRecord, List.map_map]
  congr 1
  refine List.map_congr_left fun m _ => ?_
  simp only [Function.comp_apply]
  by_cases hm : m.place = p
  · rw [if_pos hm, if_pos hm, if_pos hm]
  · rw [if_neg hm, if_neg hm, if_neg hm]

/-- The change that an assignment makes is an edit. -/
theorem Record.apply_assign (key value : String) : (fun r : Record =>
    if value.isEmpty then r.removeUser key else r.setUser key value) =
      (Edit.assign (key, value)).apply := by
  funext r
  rw [Edit.assign]
  split <;> rfl

/-- Finding a target changes nothing that is told. -/
theorem triple_find_assigning (hold : old.Distinct) (target : String) :
    Triple (Assigning o pairs n old done) (Session.find target)
      (fun p c w => Assigning o pairs n old done c w ∧ c.Finds target p)
      (fun _ => Assigning o pairs n old done) := by
  intro c w h
  have hcalm : Calm (fun p st => w.tree.stat p = .ok st)
      (fun p isDir r => w.tree.recordOf .default p isDir = .ok r)
      fun c w' => w' = w ∧ Assigning o pairs n old done c w :=
    truthful_watched.calm (fun _ h => h.1) fun c p st r h hnew _ _ hr =>
      ⟨h.1, fun hw => (h.2 hw).add hold hnew hr⟩
  refine (hcalm.find target).imp (fun _ _ hi => hi) ?_ ?_ c w ⟨rfl, h⟩
  · rintro p c _ ⟨⟨rfl, h⟩, hfinds⟩
    exact ⟨h, hfinds⟩
  · rintro _ c _ ⟨rfl, h⟩
    exact h

/-- One assignment more, where the target has been found. -/
theorem triple_assign (made : List (String × String)) (key value : String) :
    Triple (Partway o pairs n old done target p made)
      (do
        modify (·.editRecord p fun r =>
          if value.isEmpty then r.removeUser key else r.setUser key value)
        Cache.save p : Work (StateM Watched) Unit)
      (fun _ => Partway o pairs n old done target p (made ++ [(key, value)]))
      (fun _ => Assigning o pairs n old done) := by
  have hedited : ∀ r : Record, r.edited ((made ++ [(key, value)]).map Record.Edit.assign) =
      (Record.Edit.assign (key, value)).apply (r.edited (made.map Record.Edit.assign)) := by
    intro r
    rw [List.map_append, Record.edited, List.foldl_append]
    rfl
  rw [Record.apply_assign]
  refine Triple.bind (Q := fun _ c w => ∃ c₁ w₁ m, Assigning o pairs n old done c₁ w₁ ∧
      c₁.Finds target p ∧ c₁.node? p = some m ∧
      c = c₁.editRecord p (·.edited ((made ++ [(key, value)]).map Record.Edit.assign)) ∧
      (w.Unfailing → w₁.Unfailing ∧ (m.recordKey ≠ n.recordKey →
        w.tree.get? n.recordKey = w₁.tree.get? n.recordKey))) (Triple.modify ?_) fun _ =>
      triple_save_of_courses ?_ ?_ ?_
  · rintro _ w ⟨c₁, w₁, m, h, hfinds, hm, rfl, hw⟩
    refine ⟨c₁, w₁, m, h, hfinds, hm, ?_, fun hu => ⟨(hw hu).1, fun hne => ?_⟩⟩
    · rw [Cache.editRecord_editRecord]
      exact congrArg _ (funext fun r => (hedited r).symm)
    · rw [(hw hu).2, if_neg fun hboth => hne hboth.2]
  · rintro _ w ⟨c₁, w₁, m, h, -, -, rfl, -⟩
    exact h.1
  · rintro _ w ⟨c₁, w₁, m, -, -, hm, rfl, -⟩ hnone
    rw [Cache.node?_editRecord, hm] at hnone
    cases hnone
  · rintro _ m' w r w' ⟨c₁, w₁, m, h, hfinds, hm, rfl, hw⟩ hm' course
    obtain ⟨-, rfl⟩ := Cache.node?_eq_some hm
    rw [Cache.node?_editRecord, hm, Option.map_some, if_pos rfl] at hm'
    obtain rfl := Option.some.inj hm'
    have hget := SaveCourse.get?_recordKey (m := m) course n
    cases r with
    | error e => exact ⟨h.1, fun hu => by cases (course.of_unfailing hu).1⟩
    | ok _ =>
      refine ⟨c₁, w₁, m, h, hfinds, hm, rfl, fun hu => ?_⟩
      obtain ⟨hu₁, hother⟩ := hw (course.of_unfailing hu).2
      refine ⟨hu₁, ?_⟩
      rw [hget]
      by_cases hkey : m.recordKey = n.recordKey
      · rw [if_pos ⟨rfl, hkey⟩, if_pos ⟨by simp, hkey⟩]
      · rw [if_neg fun hboth => hkey hboth.2, if_neg fun hboth => hkey hboth.2, hother hkey]

/-- What is left of a target that has been found and has got all of its assignments. -/
theorem Partway.assigning {c : Cache} {w : Watched}
    (h : Partway o pairs n old done target p pairs c w) (hpairs : pairs ≠ []) :
    Assigning o pairs n old (done ++ [⟨target⟩]) c w := by
  obtain ⟨c₁, w₁, m, h, hfinds, hm, rfl, hw⟩ := h
  refine ⟨h.1, fun hu => ?_⟩
  obtain ⟨hu₁, hsaved⟩ := hw hu
  refine (h.2 hu₁).assign hfinds hm (hsaved.trans ?_)
  by_cases hkey : m.recordKey = n.recordKey
  · rw [if_pos ⟨hpairs, hkey⟩, if_pos hkey]
  · rw [if_neg fun hboth => hkey hboth.2, if_neg hkey]

/-- The rest of the assignments, where the target has been found. -/
theorem triple_assignRest : ∀ (rest made : List (String × String)),
    Triple (Partway o pairs n old done target p made)
      (rest.forM fun (key, value) => Session.setUser target key value :
        Action (StateM Watched) PUnit)
      (fun _ => Partway o pairs n old done target p (made ++ rest))
      (fun _ => Assigning o pairs n old done)
  | [], made => Triple.pure fun _ _ h => by rwa [List.append_nil]
  | (key, value) :: rest, made => by
    have hfind : Triple (Partway o pairs n old done target p made)
        (Session.find target : Work (StateM Watched) Place)
        (fun q c w => Partway o pairs n old done target p made c w ∧ q = p)
        (fun _ => Assigning o pairs n old done) := by
      rintro _ w ⟨c₁, w₁, m, h, hfinds, hm, rfl, hw⟩
      rw [(hfinds.editRecord p _).run_find]
      exact ⟨⟨c₁, w₁, m, h, hfinds, hm, rfl, hw⟩, rfl⟩
    have hrest := triple_assignRest rest (made ++ [(key, value)])
    rw [List.append_assoc, List.singleton_append] at hrest
    refine Triple.bind (Triple.adapt (Triple.bind hfind fun q => Triple.of_fact ?_)) fun _ => hrest
    rintro rfl
    exact triple_assign made key value

/-- A target gets all of its assignments, or it cannot be found. -/
theorem triple_assignAll (hold : old.Distinct) (hpairs : pairs ≠ []) (done : List Path)
    (target : String) :
    Triple (Assigning o pairs n old done)
      (pairs.forM fun (key, value) => Session.setUser target key value :
        Action (StateM Watched) PUnit)
      (fun _ => Assigning o pairs n old (done ++ [⟨target⟩]))
      (fun _ => Assigning o pairs n old done) := by
  cases pairs with
  | nil => exact absurd rfl hpairs
  | cons pair rest =>
    obtain ⟨key, value⟩ := pair
    have hfound : ∀ p c w, Assigning o ((key, value) :: rest) n old done c w ∧ c.Finds target p →
        Partway o ((key, value) :: rest) n old done target p [] c w := by
      rintro p c w ⟨h, hfinds⟩
      obtain ⟨m, hm⟩ := Option.isSome_iff_exists.1 hfinds.met
      refine ⟨c, w, m, h, hfinds, hm, (c.editRecord_id p).symm, fun hu => ⟨hu, ?_⟩⟩
      rw [if_neg fun hboth => hboth.1 rfl]
    have hfirst : Triple (Assigning o ((key, value) :: rest) n old done)
        (Session.setUser target key value : Action (StateM Watched) Unit)
        (fun _ c w => ∃ p, Partway o ((key, value) :: rest) n old done target p [(key, value)] c w)
        (fun _ => Assigning o ((key, value) :: rest) n old done) :=
      Triple.adapt (Triple.bind (triple_find_assigning hold target) fun p =>
        ((triple_assign [] key value).pre (hfound p)).post fun _ _ _ h => ⟨p, h⟩)
    refine Triple.bind hfirst fun _ => ?_
    rintro c w ⟨p, h⟩
    exact ((triple_assignRest rest [(key, value)]).post fun _ _ _ h => h.assigning hpairs) c w h

end Assign

end ShowTree
