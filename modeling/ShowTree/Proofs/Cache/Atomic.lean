/-
ShowTree.Proofs.Cache.Atomic — a record is saved as a whole or not at all.

However far saving a record comes, its file holds either what it held before or the whole
new record, and nothing happens to the records of other objects (`save_atomic`). What was
saved can be read again, because a cache never holds an empty reference to a prototype, as
long as references are made by linking (`ReachableBy.proto_ne_empty`).
-/
import ShowTree.Proofs.Cache.Agreement

namespace ShowTree

/-! ## 1. Caches that are reached by some deeds -/

/-- The caches that allowed deeds lead to from one that has met nothing, with a file system
that anything can have happened to between two deeds. -/
inductive ReachableBy (σ : Type) [FileSystem (StateM σ)] (allowed : Deed → Prop) : Cache → Prop
  | start {layout : Layout} {dir : Path} {c : Cache} (h : Cache.start layout dir = .ok c) :
      ReachableBy σ allowed c
  | deed {c : Cache} (d : Deed) (hd : allowed d) (s : σ) (before : ReachableBy σ allowed c) :
      ReachableBy σ allowed (((d.run : StateT Cache (StateM σ) Unit).run c).run s).1.2

/-- A deed changes no reference to a prototype itself, though it may link. -/
def Deed.SparesProto : Deed → Prop
  | .edit _ change _ => ∀ r, (change r).proto = r.proto
  | _ => True

namespace ReachableBy

variable {σ : Type} [FileSystem (StateM σ)] {allowed : Deed → Prop} {c : Cache}

theorem reachable (h : ReachableBy σ allowed c) : Reachable σ c := by
  induction h with
  | start h => exact .start h
  | deed d _ s _ ih => exact ih.deed d s

/-- What an empty cache has and every allowed deed keeps holds of all of them. -/
theorem invariant {J : Cache → Prop} (h : ReachableBy σ allowed c)
    (hempty : ∀ layout place, J ⟨layout, place, []⟩)
    (hdeed : ∀ d, allowed d → Leads (fun c (_ : σ) => J c) d.run fun _ c _ => J c) : J c := by
  induction h with
  | start h =>
    obtain ⟨place, rfl⟩ := Cache.eq_of_start h
    exact hempty _ place
  | deed d hd s _ ih => exact hdeed d hd _ s ih

/-- Without other changes of references, no object has an empty one to its prototype. -/
theorem proto_ne_empty (h : ReachableBy σ Deed.SparesProto c) :
    ∀ n ∈ c.nodes, n.record.proto ≠ some "" := by
  have hedited : ∀ {p : Place} {c c' : Cache}, Edited p c c' →
      (∀ n ∈ c.nodes, n.record.proto ≠ some "") → ∀ n ∈ c'.nodes, n.record.proto ≠ some "" := by
    intro p c c' hedit hproto n' hn'
    obtain ⟨n, hn, -, -, -, hkeep⟩ := hedit.node n' hn'
    exact hkeep (hproto n hn)
  have hcalm : Calm (fun _ _ => True) (fun _ _ r => r.proto ≠ some "")
      fun c (_ : σ) => ∀ n ∈ c.nodes, n.record.proto ≠ some "" := by
    refine Calm.of_records (fun _ _ _ => Cache.proto_ne_empty_of_recordIn) ?_
    intro c p st r hproto _ _ hr n hn
    rcases List.mem_append.1 hn with hn | hn
    · exact hproto n hn
    · obtain rfl := List.mem_singleton.1 hn
      exact hr
  refine h.invariant (J := fun c => ∀ n ∈ c.nodes, n.record.proto ≠ some "") (by simp)
    fun d hd => ?_
  refine leads_deed_of hcalm (fun c p change hchange =>
      hedited (edited_editRecord c p hchange.mark hchange.proto))
    (fun c p => hedited (edited_markShowRoot c p)) d ?_
  rintro p change hflag rfl c
  exact hedited (edited_editRecord c p hflag fun r hr => hd r ▸ hr)

end ReachableBy

/-! ## 2. Saving -/

/-- A record that is there can be read. -/
theorem Cache.run_loadRecord_of_get? {c : Cache} (hlayout : c.layout = .default) {p : Place}
    {isDir : Bool} {r : Record} (hproto : r.proto ≠ some "") {w : Watched}
    (h : w.tree.get? (p.recordPlace isDir).path.key = some (.file r.encode.toUTF8)) :
    ((Cache.loadRecord p.path isDir : Work (StateM Watched) Record).run.run c).run w =
      ((.ok r, c), w) := by
  have hread := Tree.recordOf_of_get? h hproto
  rw [Cache.run_loadRecord, hlayout]
  dsimp only
  rw [truthful_watched.read]
  dsimp only
  rw [← Tree.recordOf, hread]

/-- Whatever is refused when the record of an object that has been met is saved: if saving
fails, the file of the record is what it was, and if it succeeds, the file holds the record
and can be read as such, and the draft is gone. No other record is touched, and the cache is
left alone. -/
theorem save_atomic {c : Cache} (h : ReachableBy Watched Deed.SparesProto c)
    (hlayout : c.layout = .default) (hplain : c.Plain) {n : Node} (hn : n ∈ c.nodes)
    (w : Watched) :
    ∃ r w', ((Cache.save n.place : Work (StateM Watched) Unit).run.run c).run w = ((r, c), w') ∧
      (∀ failure, r = .error failure →
        w'.tree.get? (c.layout.recordPath n.place.path n.stat.isDir).key =
          w.tree.get? (c.layout.recordPath n.place.path n.stat.isDir).key) ∧
      (r = .ok () →
        w'.tree.get? (c.layout.recordPath n.place.path n.stat.isDir).key =
          some (.file n.record.encode.toUTF8) ∧
        w'.tree.get? (Layout.draftPath (c.layout.recordPath n.place.path n.stat.isDir)).key = none ∧
        ((Cache.loadRecord n.place.path n.stat.isDir : Work (StateM Watched) Record).run.run c).run
          w' = ((.ok n.record, c), w')) ∧
      ∀ (p : Place) (isDir : Bool), p.Plain → (p ≠ n.place ∨ isDir ≠ n.stat.isDir) →
        w'.tree.get? (c.layout.recordPath p.path isDir).key =
          w.tree.get? (c.layout.recordPath p.path isDir).key := by
  have hplace : n.place.Plain := hplain n hn
  have hdir : ∀ {p : Place} {isDir : Bool}, p.Plain →
      (n.place.recordHolder n.stat.isDir).metaDir.path.key ≠ (p.recordPlace isDir).path.key :=
    fun hp => Place.metaDir_key_ne_record (hplace.recordHolder _) hp _
  have hdraft : ∀ {p : Place} {isDir : Bool}, p.Plain →
      (n.place.draftPlace n.stat.isDir).path.key ≠ (p.recordPlace isDir).path.key :=
    fun hp => Place.draft_key_ne_record hplace hp _ _
  obtain ⟨r, w', hrun, course⟩ :=
    saveCourse_of_run hlayout (h.reachable.grown.node?_of_mem hn) w
  refine ⟨r, w', hrun, ?_, ?_, ?_⟩
  · rintro failure rfl
    rw [hlayout, Place.recordPath_path, course.get?_eq (hdir hplace) (hdraft hplace)]
    simp [Except.isOk, Except.toBool]
  · rintro rfl
    have hrecord : w'.tree.get? (n.place.recordPlace n.stat.isDir).path.key =
        some (.file n.record.encode.toUTF8) := by
      rw [course.get?_eq (hdir hplace) (hdraft hplace)]
      simp [Except.isOk, Except.toBool]
    rw [hlayout, Place.recordPath_path, Place.draftPath_path]
    exact ⟨hrecord, course.get?_draft (hdraft hplace).symm,
      Cache.run_loadRecord_of_get? hlayout (h.proto_ne_empty n hn) hrecord⟩
  · intro p isDir hp hother
    have hne := Place.record_key_ne hplace hp n.stat.isDir isDir
      (hother.imp Ne.symm Ne.symm)
    rw [hlayout, Place.recordPath_path, course.get?_eq (hdir hp) (hdraft hp), if_neg]
    exact fun hkey => hne hkey.2

/-- The place of a file. -/
def fileA : Place :=
  .entry .root ⟨"a", by decide⟩

/-- The tree with this file alone. -/
def oneFile (refusal : Nat → Option FileError) : Watched :=
  .ofTree (.ofFiles [(fileA.path, .empty)]) refusal

/-- A cache that has met the file. -/
def fileMet : Cache :=
  ((((Deed.meet fileA.path).run : StateT Cache (StateM Watched) Unit).run ⟨.default, .root, []⟩).run
    (oneFile fun _ => none)).1.2

/-- For instance saving a changed record of the file, if the last change is refused and if none
is. -/
theorem save_atomic_edited :
    ∃ c n, c = fileMet.editRecord fileA (·.setUser "k" "v") ∧ c.node? fileA = some n ∧
      (∃ failure w', ((Cache.save fileA : Work (StateM Watched) Unit).run.run c).run
          (oneFile fun i => if i = 2 then some (.io "full") else none) =
            ((.error failure, c), w') ∧ w'.tree.present ⟨"/.meta/a._"⟩ = false) ∧
      ∃ w', ((Cache.save fileA : Work (StateM Watched) Unit).run.run c).run
          (oneFile fun _ => none) = ((.ok (), c), w') ∧
        w'.tree.read ⟨"/.meta/a._"⟩ = .ok n.record.encode.toUTF8 := by
  have hreach : ReachableBy Watched Deed.SparesProto
      (fileMet.editRecord fileA (·.setUser "k" "v")) :=
    .deed (.edit fileA (·.setUser "k" "v") fun _ => rfl) (fun _ => rfl) (oneFile fun _ => none)
      (.deed (.meet fileA.path) trivial (oneFile fun _ => none)
        (.start (Cache.start_path .default .root)))
  have hlayout : (fileMet.editRecord fileA (·.setUser "k" "v")).layout = .default := by
    decide +kernel
  have hplain : (fileMet.editRecord fileA (·.setUser "k" "v")).Plain := by decide +kernel
  have hnode : ((fileMet.editRecord fileA (·.setUser "k" "v")).node? fileA).map
      (·.stat.isDir) = some false := by decide +kernel
  have hrefused : (((Cache.save fileA : Work (StateM Watched) Unit).run.run
      (fileMet.editRecord fileA (·.setUser "k" "v"))).run
        (oneFile fun i => if i = 2 then some (.io "full") else none)).1.1.isOk = false := by
    decide +kernel
  have hsaved : (((Cache.save fileA : Work (StateM Watched) Unit).run.run
      (fileMet.editRecord fileA (·.setUser "k" "v"))).run (oneFile fun _ => none)).1.1.isOk =
        true := by
    decide +kernel
  generalize fileMet.editRecord fileA (·.setUser "k" "v") = c at *
  obtain ⟨n, hn, hfile⟩ := Option.map_eq_some_iff.1 hnode
  obtain ⟨hmem, hplace⟩ := Cache.node?_eq_some hn
  have hpath : Layout.default.recordPath fileA.path false = ⟨"/.meta/a._"⟩ := by decide
  refine ⟨c, n, rfl, hn, ?_, ?_⟩
  · obtain ⟨r, w', hrun, hfailed, -, -⟩ := save_atomic hreach hlayout hplain hmem
      (oneFile fun i => if i = 2 then some (.io "full") else none)
    rw [hplace] at hrun hfailed
    rw [hrun] at hrefused
    cases r with
    | ok _ => cases hrefused
    | error failure =>
      have hsame := hfailed failure rfl
      rw [hlayout, hfile, hpath] at hsame
      refine ⟨failure, w', hrun, ?_⟩
      rw [Tree.present, show w'.tree.entry? _ = _ from hsame]
      decide +kernel
  · obtain ⟨r, w', hrun, -, hheld, -⟩ := save_atomic hreach hlayout hplain hmem
      (oneFile fun _ => none)
    rw [hplace] at hrun hheld
    rw [hrun] at hsaved
    cases r with
    | error failure => cases hsaved
    | ok _ =>
      have hrecord := (hheld rfl).1
      rw [hlayout, hfile, hpath] at hrecord
      exact ⟨w', hrun, Tree.read_eq_of_get? hrecord⟩

end ShowTree
