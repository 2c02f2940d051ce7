/-
ShowTree.Proofs.Record.RoundTrip — a record that has been written is read again.

The members of a record that are not blank are written under keys of their own, so each is
found again under its key (`member?_flatMap`), and each section is read as it was written.
The one thing that writing loses is the difference between an empty reference to a prototype
and none; a record without such a reference is read from its bytes as it was
(`decode?_encode`), and no other records are ever read (`proto_ne_empty_of_decode?`).
-/
import ShowTree.Proofs.Dictionary
import ShowTree.Proofs.Json.RoundTrip
import ShowTree.Record.Written

namespace ShowTree

open ShowTree.Json

/-! ## 1. Members -/

namespace Json

theorem legibleMembers_append : ∀ {a b : List (String × Json)},
    LegibleMembers a → LegibleMembers b → LegibleMembers (a ++ b)
  | [], _, _, hb => hb
  | _ :: _, _, ha, hb => ⟨ha.1, legibleMembers_append ha.2 hb⟩

theorem legibleMembers_memberOf {key : String} {value : Option Json}
    (h : ∀ j, value = some j → Legible j) : LegibleMembers (Record.memberOf key value) := by
  cases value with
  | none => trivial
  | some j => exact ⟨h j rfl, trivial⟩

/-- Under its own key, a member is found again, whether it was written or blank. -/
theorem member?_flatMap {name : String} : ∀ {members : List (String × Option Json)},
    (members.map (·.1)).Nodup →
    member? (members.flatMap fun m => Record.memberOf m.1 m.2) name =
      some ((members.find? (·.1 == name)).bind (·.2)) := by
  have hown : ∀ (key : String) (value : Option Json),
      (Record.memberOf key value).filter (·.1 == name) =
        if key = name then Record.memberOf key value else [] := by
    intro key value
    by_cases h : key = name <;> cases value <;> simp [Record.memberOf, h]
  have habsent : ∀ members : List (String × Option Json), name ∉ members.map (·.1) →
      (members.flatMap fun m => Record.memberOf m.1 m.2).filter (·.1 == name) = [] := by
    intro members
    induction members with
    | nil => simp
    | cons m members ih =>
      intro h
      have hm : m.1 ≠ name := fun e => h (by simp [e])
      have hrest : name ∉ members.map (·.1) := fun hn => h (by simp [hn])
      rw [List.flatMap_cons, List.filter_append, hown, if_neg hm, ih hrest]
      rfl
  intro members
  induction members with
  | nil => simp [member?]
  | cons m members ih =>
    intro h
    rw [List.map_cons, List.nodup_cons] at h
    by_cases hm : m.1 = name
    · rw [member?, List.flatMap_cons, List.filter_append, hown, if_pos hm,
        habsent members (hm ▸ h.1)]
      obtain ⟨key, value⟩ := m
      cases hm
      cases value <;> simp [Record.memberOf]
    · have hrest := ih h.2
      rw [member?] at hrest
      rw [member?, List.flatMap_cons, List.filter_append, hown, if_neg hm, List.nil_append, hrest]
      simp [hm]

/-- What is read of items, one by one, is read of all of them. -/
theorem mapM_of_forall {α β γ : Type} {write : α → β} {read : β → Option γ} {made : α → γ} :
    ∀ items : List α, (∀ a, read (write a) = some (made a)) →
      (items.map write).mapM read = some (items.map made)
  | [], _ => by simp
  | a :: rest, h => by simp [h a, mapM_of_forall rest h]

theorem legible_ofInt32 (n : Int32) : Legible (.ofInt32 n) :=
  isNumeral_toString n.toInt

theorem int32?_ofInt32 (n : Int32) : int32? (.ofInt32 n) = some n := by
  have hlow := Int32.le_toInt n
  have hhigh := Int32.toInt_lt n
  rw [int32?, Json.ofInt32, integer?_toString]
  simp
  omega

end Json

/-! ## 2. Sections -/

theorem ImageInfo.ofJson?_toJson (i : ImageInfo) : ImageInfo.ofJson? i.toJson = some i := by
  simp [ImageInfo.ofJson?, ImageInfo.toJson, fields?, member?, field?, int32?_ofInt32]

theorem Sequence.ofJson?_toJson (s : Sequence) : Sequence.ofJson? s.toJson = some s := by
  simp [Sequence.ofJson?, Sequence.toJson, fields?, member?, field?, int32?_ofInt32, text?]

theorem Contract.ofJson?_toJson (c : Contract) : Contract.ofJson? c.toJson = some c := by
  simp [Contract.ofJson?, Contract.toJson, fields?, member?, field?, text?]

namespace Record

/-- The members of a record, written or blank. -/
def members (r : Record) : List (String × Option Json) :=
  [("proto", r.proto.map .text), ("instances", r.instancesToJson?),
    ("user_data", r.userDataToJson?),
    ("is_show_root", if r.isShowRoot then some (.truth true) else none),
    ("img_info", r.imageInfo.map ImageInfo.toJson), ("seq", r.sequence.map Sequence.toJson),
    ("contract", r.contract.map Contract.toJson)]

theorem toJson_eq (r : Record) :
    r.toJson = .object (r.members.flatMap fun m => memberOf m.1 m.2) := by
  simp [toJson, members]

/-! ## 3. Records -/

theorem legible_texts : ∀ texts : List String, LegibleItems (texts.map .text)
  | [] => trivial
  | _ :: rest => ⟨trivial, legible_texts rest⟩

theorem legible_entries : ∀ entries : List (String × String),
    LegibleMembers (entries.map fun e => (e.1, .text e.2))
  | [] => trivial
  | _ :: rest => ⟨trivial, legible_entries rest⟩

/-- A written record has nothing in it that cannot be read. -/
theorem legible_toJson (r : Record) : Legible r.toJson := by
  have himage : ∀ i : ImageInfo, Legible i.toJson := fun i =>
    ⟨legible_ofInt32 i.width, legible_ofInt32 i.height, trivial⟩
  have hsequence : ∀ s : Sequence, Legible s.toJson := fun s =>
    ⟨trivial, legible_ofInt32 s.first, legible_ofInt32 s.last, trivial⟩
  have hvalue : ∀ m ∈ r.members, ∀ j, m.2 = some j → Legible j := by
    intro m hm j hj
    simp only [members, List.mem_cons, List.not_mem_nil, or_false] at hm
    rcases hm with rfl | rfl | rfl | rfl | rfl | rfl | rfl
    · obtain ⟨p, -, rfl⟩ := Option.map_eq_some_iff.1 hj
      trivial
    · simp only [instancesToJson?] at hj
      split at hj <;> cases hj
      exact legible_texts r.instances
    · simp only [userDataToJson?] at hj
      split at hj <;> cases hj
      exact legible_entries r.userData.entries
    · split at hj <;> cases hj
      trivial
    · obtain ⟨i, -, rfl⟩ := Option.map_eq_some_iff.1 hj
      exact himage i
    · obtain ⟨s, -, rfl⟩ := Option.map_eq_some_iff.1 hj
      exact hsequence s
    · obtain ⟨c, -, rfl⟩ := Option.map_eq_some_iff.1 hj
      exact ⟨trivial, trivial⟩
  have hall : ∀ ms : List (String × Option Json), (∀ m ∈ ms, ∀ j, m.2 = some j → Legible j) →
      LegibleMembers (ms.flatMap fun m => memberOf m.1 m.2) := by
    intro ms
    induction ms with
    | nil => exact fun _ => trivial
    | cons m ms ih =>
      intro h
      rw [List.flatMap_cons]
      exact legibleMembers_append (legibleMembers_memberOf (h m (by simp)))
        (ih fun n hn => h n (by simp [hn]))
  rw [toJson_eq]
  exact hall r.members hvalue

/-- The fields of a written record. -/
theorem fields?_toJson (r : Record) :
    r.toJson.fields? ["proto", "instances", "user_data", "is_show_root", "img_info", "seq",
      "contract"] = some (r.members.map (·.2)) := by
  have hkeys : r.members.map (·.1) = ["proto", "instances", "user_data", "is_show_root",
      "img_info", "seq", "contract"] := rfl
  have hnodup : (r.members.map (·.1)).Nodup := by
    rw [hkeys]
    decide
  rw [toJson_eq, fields?]
  simp only [List.mapM_cons, List.mapM_nil, member?_flatMap hnodup]
  rfl

variable {r : Record}

theorem field?_proto (h : r.proto ≠ some "") :
    field? reference? none (r.proto.map .text) = some r.proto := by
  cases hp : r.proto with
  | none => rfl
  | some p =>
    have hne : p ≠ "" := fun e => h (by rw [hp, e])
    simp [field?, reference?, orNull?, text?, hne]

theorem field?_instances : field? (list? text?) [] r.instancesToJson? = some r.instances := by
  rw [instancesToJson?]
  cases hempty : r.instances.isEmpty with
  | true => simp [field?, List.isEmpty_iff.1 hempty]
  | false =>
    have hread : (r.instances.map Json.text).mapM text? = some (r.instances.map id) :=
      mapM_of_forall r.instances fun _ => rfl
    simpa [field?, list?] using hread

theorem field?_userData :
    field? (entries? text?) [] r.userDataToJson? = some r.userData.entries := by
  rw [userDataToJson?, Dictionary.isEmpty]
  cases hempty : r.userData.entries.isEmpty with
  | true => simp [field?, List.isEmpty_iff.1 hempty]
  | false =>
    have hread : (r.userData.entries.map fun e => (e.1, Json.text e.2)).mapM
        (fun (m : String × Json) => (text? m.2).map (m.1, ·)) = some (r.userData.entries.map id) :=
      mapM_of_forall r.userData.entries fun _ => rfl
    simpa [field?, entries?] using hread

theorem field?_section {α : Type} {write : α → Json} {read : Json → Option α}
    (h : ∀ a, read (write a) = some a) (hnull : ∀ a, write a ≠ .null) (a : Option α) :
    field? (orNull? read) none (a.map write) = some a := by
  cases a with
  | none => rfl
  | some a =>
    have hread : orNull? read (write a) = (read (write a)).map some := by
      unfold orNull?
      split
      · rename_i heq
        exact absurd heq (hnull a)
      · rfl
    simp [field?, hread, h a]

/-- A record without an empty reference is read as it was written. -/
theorem ofJson?_toJson (h : r.proto ≠ some "") : ofJson? r.toJson = some r := by
  have hroot : field? truth? false (if r.isShowRoot then some (.truth true) else none) =
      some r.isShowRoot := by
    cases r.isShowRoot <;> rfl
  have himage := field?_section ImageInfo.ofJson?_toJson (fun _ h => by cases h) r.imageInfo
  have hsequence := field?_section Sequence.ofJson?_toJson (fun _ h => by cases h) r.sequence
  have hcontract := field?_section Contract.ofJson?_toJson (fun _ h => by cases h) r.contract
  rw [ofJson?, fields?_toJson]
  simp only [members, List.map_cons, List.map_nil, field?_proto h, field?_instances,
    field?_userData, hroot, himage, hsequence, hcontract, Dictionary.ofList_entries,
    Option.bind_eq_bind, Option.bind_some]

/-- A record without an empty reference is read from its bytes as it was written. -/
theorem decode?_encode (h : r.proto ≠ some "") : decode? r.encode.toUTF8 = some r := by
  rw [decode?, encode, parse?_toLines r.legible_toJson, Option.bind_eq_bind, Option.bind_some,
    ofJson?_toJson h]

/-- A record that is written is never without content. -/
theorem isEmpty_encode (r : Record) : r.encode.toUTF8.isEmpty = false := by
  have hparse : parse? (Text.Glyph.ofBytes r.encode.toUTF8) = some r.toJson :=
    parse?_toLines r.legible_toJson
  cases hempty : r.encode.toUTF8.isEmpty with
  | false => rfl
  | true =>
    have hnil : r.encode.toUTF8 = .empty := by
      rw [← ByteArray.size_eq_zero_iff]
      exact eq_of_beq hempty
    rw [hnil] at hparse
    have hnone : (parse? (Text.Glyph.ofBytes .empty)).isNone := by decide +kernel
    rw [hparse] at hnone
    cases hnone

/-- No record is read that has an empty reference. -/
theorem proto_ne_empty_of_decode? {content : ByteArray} (h : decode? content = some r) :
    r.proto ≠ some "" := by
  have hread : ∀ {j : Option Json} {p : Option String},
      field? reference? none j = some p → p ≠ some "" := by
    intro j p hp
    cases j with
    | none => simp [field?] at hp; simp [← hp]
    | some j =>
      simp only [field?, reference?] at hp
      obtain ⟨q, -, rfl⟩ := Option.map_eq_some_iff.1 hp
      intro he
      have := Option.filter_eq_some_iff.1 he
      simp at this
  obtain ⟨j, -, hj⟩ := Option.bind_eq_some_iff.1 h
  unfold ofJson? at hj
  split at hj
  · obtain ⟨p, hp, hrest⟩ := Option.bind_eq_some_iff.1 hj
    have hproto : r.proto = p := by
      simp only [Option.bind_eq_bind, Option.bind_eq_some_iff] at hrest
      obtain ⟨_, _, _, _, _, _, _, _, _, _, _, _, he⟩ := hrest
      rw [← Option.some.inj he]
    rw [hproto]
    exact hread hp
  · cases hj

end Record

end ShowTree
