/-
ShowTree.Proofs.Prototype.Tidy — records stay tidy while links are made.

No record, met or kept, lists an instance twice, and where an object is to be made no record
lies that gives it a prototype (`Records`). Changing a record and saving it keeps this, whatever
is refused, and if it succeeds the record is in the tree as the cache has it
(`triple_editSave_tidy`). So linking keeps it, and leaves the records of both ends in the tree
(`triple_setProto_tidy`).
-/
import ShowTree.Proofs.Cache.Agreement
import ShowTree.Proofs.FileSystem.WellFormed
import ShowTree.Proofs.Prototype.Following
import ShowTree.Proofs.Prototype.Standing

namespace ShowTree

/-! ## 1. What has been met -/

/-- What has been met goes by its own name, and does not refer to a prototype by an empty
reference. -/
structure Node.Sound (n : Node) : Prop where
  name : n.stat.name = Tree.lastName n.place.path.key
  proto : n.record.proto ≠ some ""

theorem Tree.name_of_stat {t : Tree} {p : Path} {st : Stat} (h : t.stat p = .ok st) :
    st.name = lastName p.key := by
  rw [stat] at h
  split at h
  · rw [← Except.ok.inj h]
  · rw [← Except.ok.inj h]
  · cases h

/-- The name of an entry that has been met. -/
theorem Node.Sound.name_eq {n : Node} (h : n.Sound) {dir : Place} {name : Name}
    (hplace : n.place = .entry dir name) (hname : '\\' ∉ name.chars) : n.stat.name = name.text := by
  have hkey := Place.toList_key_entry dir hname
  have hlong : ¬ (Place.entry dir name).path.key.length ≤ 1 := by
    have hpos := List.length_pos_iff.2 name.chars_ne_nil
    rw [← String.length_toList, hkey]
    simp only [List.length_append, List.length_cons]
    omega
  rw [h.name, hplace, Tree.lastName, if_neg hlong, cutKey?_eq hkey name.slash_not_mem_chars]
  exact String.ofList_toList

/-- What is found after an object has been met was met before, or is this object. -/
theorem Cache.node?_of_add {c : Cache} {p q : Place} {st : Stat} {r : Record} {n : Node}
    (h : (c.add q st r).node? p = some n) :
    c.node? p = some n ∨ c.node? p = none ∧ q = p ∧ n.stat = st ∧ n.record = r := by
  rw [node?_add] at h
  cases hold : c.node? p with
  | some m =>
    rw [hold, Option.some_or] at h
    exact .inl h
  | none =>
    rw [hold, Option.none_or, Option.ite_none_right_eq_some] at h
    obtain ⟨rfl, h⟩ := h
    obtain rfl := Option.some.inj h
    exact .inr ⟨rfl, rfl, rfl, rfl⟩

/-- The record of an object that has been met is in the tree as the cache has it. -/
def Recorded (c : Cache) (t : Tree) (p : Place) : Prop :=
  ∀ n, c.node? p = some n → t.recordOf .default p.path n.stat.isDir = .ok n.record

/-- No record lists an instance twice. -/
structure Unrepeated (c : Cache) (t : Tree) : Prop where
  met : ∀ n ∈ c.nodes, n.record.instances.Nodup
  kept : ∀ (p : Place) isDir r, p.Plain → t.recordOf .default p.path isDir = .ok r →
    r.instances.Nodup

/-- It is enough to look at all files. -/
theorem Unrepeated.of_entries {c : Cache} {t : Tree} (hmet : ∀ n ∈ c.nodes, n.record.instances.Nodup)
    (hkept : ∀ e ∈ t.entries.entries, ∀ r ∈ e.2.record?, r.instances.Nodup) : Unrepeated c t := by
  refine ⟨hmet, fun p isDir r _ hr => ?_⟩
  rcases Tree.recordOf_cases hr with ⟨-, rfl⟩ | ⟨e, he, hrecord⟩
  · exact List.nodup_nil
  · exact hkept _ (Dictionary.mem_of_lookupEntry he) r hrecord

/-- The records of a session that is to make objects of one kind at `targets`. Those of some
objects are `recorded`. -/
structure Records (isDir : Bool) (targets : List Path) (recorded : Place → Prop) (c : Cache)
    (t : Tree) : Prop extends Unrepeated c t where
  /-- A target that has not been met has no prototype. -/
  fresh : ∀ p : Place, p.Plain → p.path ∈ targets → c.node? p = none → ∀ r,
    t.recordOf .default p.path isDir = .ok r → r.proto = none
  recorded : ∀ p, recorded p → Recorded c t p

namespace Records

variable {isDir : Bool} {targets : List Path} {recorded recorded' : Place → Prop} {c : Cache}
variable {t t' : Tree}

theorem imp (h : Records isDir targets recorded c t) (hsub : ∀ p, recorded' p → recorded p) :
    Records isDir targets recorded' c t :=
  { h with recorded := fun p hp => h.recorded p (hsub p hp) }

/-! ## 2. One step -/

theorem add (h : Records isDir targets recorded c t) {p : Place} {st : Stat} {r : Record}
    (hp : p.Plain) (hread : t.recordOf .default p.path st.isDir = .ok r) :
    Records isDir targets recorded (c.add p st r) t where
  met n hn := by
    rcases List.mem_append.1 hn with hn | hn
    · exact h.met n hn
    · obtain rfl := List.mem_singleton.1 hn
      exact h.kept p _ r hp hread
  kept := h.kept
  fresh q hq htarget hnone := by
    rw [Cache.node?_add, Option.or_eq_none_iff] at hnone
    exact h.fresh q hq htarget hnone.1
  recorded q hq n hn := by
    rcases Cache.node?_of_add hn with hold | ⟨-, rfl, rfl, rfl⟩
    · exact h.recorded q hq n hold
    · exact hread

/-- What has been changed in the cache is not recorded. -/
theorem edit (h : Records isDir targets recorded c t) {p : Place} {change : Record → Record}
    (hchange : Record.Proper change) :
    Records isDir targets (fun q => q ≠ p ∧ recorded q) (c.editRecord p change) t where
  met n' hn' := by
    obtain ⟨n, hn, rfl⟩ := List.mem_map.1 hn'
    split
    · exact hchange.nodup n.record (h.met n hn)
    · exact h.met n hn
  kept := h.kept
  fresh q hq htarget hnone := by
    rw [Cache.node?_editRecord, Option.map_eq_none_iff] at hnone
    exact h.fresh q hq htarget hnone
  recorded q hq n' hn' := by
    rw [Cache.node?_editRecord] at hn'
    obtain ⟨n, hn, rfl⟩ := Option.map_eq_some_iff.1 hn'
    rw [if_neg hq.1]
    exact h.recorded q hq.2 n hn

theorem still (h : Records isDir targets recorded c t) (hplain : c.Plain)
    (hstill : Tree.Still t t') : Records isDir targets recorded c t' where
  met := h.met
  kept q b r hq hr := h.kept q b r hq (hstill.record q b hq ▸ hr)
  fresh q hq htarget hnone r hr := h.fresh q hq htarget hnone r (hstill.record q isDir hq ▸ hr)
  recorded q hq n hn := by
    obtain ⟨hmem, rfl⟩ := Cache.node?_eq_some hn
    rw [hstill.record _ _ (hplain n hmem)]
    exact h.recorded _ hq n hn

/-- What has been saved is recorded. -/
theorem stored (h : Records isDir targets recorded c t) (hplain : c.Plain) {p : Place} {n : Node}
    (hn : c.node? p = some n) (hstored : Tree.Stored t t' p n.stat.isDir n.record) :
    Records isDir targets (fun q => q = p ∨ recorded q) c t' where
  met := h.met
  kept q b r hq hr := by
    by_cases hsame : p = q ∧ n.stat.isDir = b
    · obtain ⟨rfl, rfl⟩ := hsame
      rw [hstored.record] at hr
      exact Except.ok.inj hr ▸ h.met n (Cache.node?_eq_some hn).1
    · rw [hstored.others q b hq (Decidable.not_and_iff_not_or_not.1 hsame)] at hr
      exact h.kept q b r hq hr
  fresh q hq htarget hnone r hr := by
    have hne : p ≠ q := by
      rintro rfl
      rw [hn] at hnone
      cases hnone
    rw [hstored.others q isDir hq (.inl hne)] at hr
    exact h.fresh q hq htarget hnone r hr
  recorded q hq m hm := by
    by_cases hsame : p = q
    · obtain rfl := hsame
      obtain rfl : n = m := Option.some.inj (hn.symm.trans hm)
      exact hstored.record
    · have hplainPlace : q.Plain := by
        obtain ⟨hmem, rfl⟩ := Cache.node?_eq_some hm
        exact hplain m hmem
      rw [hstored.others q _ hplainPlace (.inl hsame)]
      exact h.recorded q (hq.resolve_left (Ne.symm hsame)) m hm

end Records

/-! ## 3. Sessions -/

/-- Of a session: it has met only what is sound, and its records are tidy if it has met nothing
with a backslash in its name. -/
structure Tidy (isDir : Bool) (targets : List Path) (recorded : Place → Prop) (c : Cache)
    (w : Watched) : Prop where
  layout : c.layout = .default
  grown : Grown c.nodes
  sound : ∀ n ∈ c.nodes, n.Sound
  records : c.Plain → Records isDir targets recorded c w.tree

namespace Tidy

variable {isDir : Bool} {targets : List Path} {recorded recorded' : Place → Prop} {c : Cache}
variable {w : Watched}

theorem imp (h : Tidy isDir targets recorded c w) (hsub : ∀ p, recorded' p → recorded p) :
    Tidy isDir targets recorded' c w :=
  { h with records := fun hplain => (h.records hplain).imp hsub }

theorem forget (h : Tidy isDir targets recorded c w) : Tidy isDir targets (fun _ => False) c w :=
  h.imp fun _ => False.elim

end Tidy

/-- What is added is sound if it is as the tree describes it. -/
theorem Node.sound_of_read {t : Tree} {p : Place} {st : Stat} {r : Record} {showRoot : Option Place}
    (hstat : t.stat p.path = .ok st) (hread : t.recordOf .default p.path st.isDir = .ok r) :
    (Node.mk p st showRoot r).Sound :=
  ⟨Tree.name_of_stat hstat, Tree.proto_ne_empty_of_recordOf hread⟩

theorem Node.sound_add {c : Cache} {t : Tree} {p : Place} {st : Stat} {r : Record}
    (h : ∀ n ∈ c.nodes, n.Sound) (hstat : t.stat p.path = .ok st)
    (hread : t.recordOf .default p.path st.isDir = .ok r) : ∀ n ∈ (c.add p st r).nodes, n.Sound := by
  intro n hn
  rcases List.mem_append.1 hn with hn | hn
  · exact h n hn
  · obtain rfl := List.mem_singleton.1 hn
    exact sound_of_read hstat hread

section Linking

variable {isDir : Bool} {targets : List Path} {recorded : Place → Prop}

theorem Cache.plain_of_add {c : Cache} {p : Place} {st : Stat} {r : Record} (h : (c.add p st r).Plain) :
    c.Plain ∧ p.Plain :=
  ⟨fun n hn => h n (List.mem_append_left _ hn), h _ (List.mem_append_right _ List.mem_cons_self)⟩

theorem calm_tidy (w₀ : Watched) : Calm (fun p st => w₀.tree.stat p = .ok st)
    (fun p b r => w₀.tree.recordOf .default p b = .ok r)
    (fun c w => w = w₀ ∧ Tidy isDir targets recorded c w₀) :=
  truthful_watched.calm (fun _ h => h.layout) fun _ _ _ _ h hnew hdir hstat hread =>
    { layout := h.layout
      grown := h.grown.add hnew hdir
      sound := Node.sound_add h.sound hstat hread
      records := fun hplain => (h.records (Cache.plain_of_add hplain).1).add
        (Cache.plain_of_add hplain).2 hread }

/-- A record that is changed and saved at once is recorded, unless it cannot be saved. -/
theorem triple_editSave_tidy {p : Place} {change : Record → Record}
    (hchange : Record.Proper change) :
    Triple (Tidy isDir targets recorded)
      (do modify (·.editRecord p change); Cache.save p : Work (StateM Watched) Unit)
      (fun _ => Tidy isDir targets fun q => q = p ∨ recorded q)
      (fun _ => Tidy isDir targets fun _ => False) := by
  have hedit : Triple (Tidy isDir targets recorded)
      (modify (·.editRecord p change) : Work (StateM Watched) PUnit)
      (fun _ => Tidy isDir targets fun q => q ≠ p ∧ recorded q)
      (fun _ => Tidy isDir targets fun _ => False) := by
    refine Triple.modify fun c w h => ⟨h.layout, h.grown.edit hchange.mark, fun n' hn' => ?_,
      fun hplain => (h.records ?_).edit hchange⟩
    · obtain ⟨n, hn, rfl⟩ := List.mem_map.1 hn'
      split
      · exact ⟨(h.sound n hn).name, hchange.proto n.record (h.sound n hn).proto⟩
      · exact h.sound n hn
    · exact (edited_editRecord c p hchange.mark hchange.proto).plain hplain
  have hor : ∀ q, q = p ∨ recorded q → q = p ∨ q ≠ p ∧ recorded q := fun q hq =>
    (em (q = p)).imp id fun hne => ⟨hne, hq.resolve_left hne⟩
  refine Triple.bind hedit fun _ => ?_
  refine triple_save_of_courses (fun h => h.layout) (fun {c w} h hnone => ?_)
    fun {c n w r w'} h hn course => ?_
  · -- nothing is saved, and nothing was changed
    refine ⟨h.layout, h.grown, h.sound, fun hplain => ?_⟩
    have hrecords := h.records hplain
    refine { hrecords with recorded := fun q hq n hn => ?_ }
    rcases hor q hq with rfl | hq
    · rw [hnone] at hn
      cases hn
    · exact hrecords.recorded q hq n hn
  · have hmem := (Cache.node?_eq_some hn).1
    have hplace := (Cache.node?_eq_some hn).2
    have heffect := fun hplain : c.Plain =>
      (course.effect (hplace ▸ hplain n hmem) (h.sound n hmem).proto).2
    cases r with
    | ok _ =>
      refine ⟨h.layout, h.grown, h.sound, fun hplain => ?_⟩
      exact ((h.records hplain).stored hplain hn (heffect hplain)).imp hor
    | error e =>
      refine ⟨h.layout, h.grown, h.sound, fun hplain => ?_⟩
      exact ((h.records hplain).still hplain (heffect hplain)).imp fun _ => False.elim

theorem steady_tidy : Steady (Tidy isDir targets fun _ => False) where
  meet p := Keeps.of_calm calm_tidy fun hcalm => hcalm.keeps_meet p
  edit _ _ hchange := (triple_editSave_tidy hchange).post fun _ _ _ h => h.forget

/-- When an object has been linked to its prototype, the records of both are recorded. -/
theorem triple_setProto_tidy (p : Place) (proto : Path) :
    Triple (Tidy isDir targets fun _ => False) (Cache.setProto p proto)
      (fun _ c w => ∃ q, proto.toPlace = .ok q ∧ Tidy isDir targets (fun r => r = q ∨ r = p) c w)
      (fun _ => Tidy isDir targets fun _ => False) := by
  have hsteady : Steady (Tidy isDir targets fun _ => False) := steady_tidy
  refine Triple.bind (hsteady.showRelative proto) fun reference => Triple.of_fact fun hreference => ?_
  refine Triple.bind (hsteady.showRelative p.path) fun own => ?_
  refine Triple.bind ((hsteady.unlink p own).pre fun _ _ h => h.1) fun _ => ?_
  rw [← bind_assoc]
  refine Triple.bind (triple_editSave_tidy (Record.proper_link hreference)) fun _ => ?_
  have hmeet : Triple (Tidy isDir targets fun q => q = p ∨ False) (Cache.meetPath proto)
      (fun q c w => Tidy isDir targets (fun q => q = p ∨ False) c w ∧ proto.toPlace = .ok q)
      (fun _ => Tidy isDir targets fun _ => False) := by
    refine Triple.of_forall fun c₀ w₀ h => ?_
    have hcalm : Calm _ _ fun c w => w = w₀ ∧ Tidy isDir targets (fun q => q = p ∨ False) c w₀ :=
      calm_tidy w₀
    refine (hcalm.meetPath proto).imp ?_ ?_ ?_
    · rintro c w ⟨rfl, rfl⟩
      exact ⟨rfl, h⟩
    · rintro q c w ⟨⟨rfl, h⟩, -, hplace⟩
      exact ⟨h, hplace⟩
    · rintro e c w ⟨rfl, h⟩
      exact h.forget
  refine Triple.bind hmeet fun q => Triple.of_fact fun hq => ?_
  refine (triple_editSave_tidy (Record.proper_addInstance own)).post fun _ c w h => ?_
  exact ⟨q, hq, h.imp fun r hr => hr.imp id .inl⟩

end Linking

end ShowTree
