/-
ShowTree.Proofs.Metadata.Fields — fields are found by name, whatever its case.

Where no two keys of a map differ in case only, the value under a key is that of the one entry
which means the same (`Value.lookup?_map`). What an object says about itself has such maps at
every depth if its user data does (`Node.unambiguous_field?`), so two chains of names that mean
the same lead to the same answer (`Value.Unambiguous.inner_congr`). A name that is not the
name of a field asks for user data, as the same name does after `meta`
(`Record.lookup?_userData`).
-/
import Mathlib.Data.List.Nodup
import ShowTree.Metadata
import ShowTree.Proofs.Record.UserData

namespace ShowTree

/-! ## 1. Maps -/

/-- Where a key comes once, the first item with it is the one that has it. -/
theorem find?_eq_some_of_mem {α β : Type} [DecidableEq β] {f : α → β} {key : β} {a : α} :
    ∀ {items : List α}, (items.map f).Nodup → a ∈ items → f a = key →
      items.find? (fun x => f x == key) = some a
  | x :: rest, h, ha, hkey => by
    obtain ⟨hx, hrest⟩ := List.nodup_cons.1 h
    rcases List.mem_cons.1 ha with rfl | ha
    · exact List.find?_cons_of_pos (beq_iff_eq.2 hkey)
    · have hne : f x ≠ key := fun hsame =>
        hx (List.mem_map.2 ⟨a, ha, hkey.trans hsame.symm⟩)
      rw [List.find?_cons, beq_false_of_ne hne]
      exact find?_eq_some_of_mem hrest ha hkey

/-- A map of entries under keys of their own has just these entries. -/
theorem Value.mem_ofEntries_iff {entries : List (String × Value)}
    (h : (entries.map (·.1)).Nodup) :
    ∃ made, ofEntries entries = .map made ∧ (made.map (·.1)).Nodup ∧
      ∀ e, e ∈ made ↔ e ∈ entries := by
  have hmade := Dictionary.nodup_of_rising
    (Dictionary.rising_foldl_insertEntry entries List.Pairwise.nil)
  refine ⟨_, rfl, hmade, fun e => ?_⟩
  rw [← Dictionary.lookupEntry_eq_some_iff hmade, Dictionary.lookupEntry_foldl_insertEntry h,
    ← Dictionary.lookupEntry_eq_some_iff h]
  cases lookupEntry e.1 entries <;> simp [lookupEntry]

namespace Value

/-- A value in whose maps, at every depth, all keys differ in more than case. -/
inductive Unambiguous : Value → Prop where
  | number (x : Float) : Unambiguous (.number x)
  | text (s : String) : Unambiguous (.text s)
  | truth (b : Bool) : Unambiguous (.truth b)
  | list (items : List Value) : Unambiguous (.list items)
  | map {entries : List (String × Value)} (distinct : (entries.map fun e => Text.lower e.1).Nodup)
      (inner : ∀ e ∈ entries, Unambiguous e.2) : Unambiguous (.map entries)

variable {v w : Value} {a b : String} {entries : List (String × Value)}

/-- Whether a key is there as it is spelled makes no difference if no other means the same. -/
theorem lookup?_map (h : (entries.map fun e => Text.lower e.1).Nodup) (key : String) :
    (Value.map entries).lookup? key =
      (entries.find? fun e => Text.lower e.1 == Text.lower key).map (·.2) := by
  rw [lookup?]
  cases hfound : lookupEntry key entries with
  | none => rfl
  | some v => rw [find?_eq_some_of_mem h (Dictionary.mem_of_lookupEntry hfound) rfl]; rfl

theorem Unambiguous.lookup?_congr (h : v.Unambiguous) (hkey : Text.lower a = Text.lower b) :
    v.lookup? a = v.lookup? b := by
  cases h with
  | map distinct => rw [lookup?_map distinct, lookup?_map distinct, hkey]
  | _ => rfl

theorem Unambiguous.of_lookup? (h : v.Unambiguous) (hfound : v.lookup? a = some w) :
    w.Unambiguous := by
  cases h with
  | map distinct inner =>
    rw [lookup?_map distinct] at hfound
    obtain ⟨e, he, rfl⟩ := Option.map_eq_some_iff.1 hfound
    exact inner e (List.mem_of_find?_eq_some he)
  | _ => cases hfound

/-- A map that is put together from keys that differ in more than case. -/
theorem unambiguous_ofEntries (h : (entries.map fun e => Text.lower e.1).Nodup)
    (hinner : ∀ e ∈ entries, e.2.Unambiguous) : (ofEntries entries).Unambiguous := by
  have hkeys : (entries.map (·.1)).Nodup :=
    List.Nodup.of_map Text.lower (by rwa [List.map_map])
  obtain ⟨made, heq, hmade, hmem⟩ := mem_ofEntries_iff hkeys
  rw [heq]
  refine .map ?_ fun e he => hinner e ((hmem e).1 he)
  exact List.Nodup.map_on (fun a ha b hb hsame =>
    List.inj_on_of_nodup_map h ((hmem a).1 ha) ((hmem b).1 hb) hsame) hmade.of_map

end Value

/-- Whether two answers are the same value, or are both that there is no such field, under
names that mean the same. -/
def SameAnswer : Except Failure Value → Except Failure Value → Prop
  | .ok v, .ok w => v = w
  | .error (.unknownField a), .error (.unknownField b) => Text.lower a = Text.lower b
  | _, _ => False

/-- Chains of names that mean the same lead on to the same answer. -/
theorem Value.Unambiguous.inner_congr {v : Value} (h : v.Unambiguous) :
    ∀ {names names' : List String}, names.map Text.lower = names'.map Text.lower →
      SameAnswer (v.inner names) (v.inner names')
  | [], [], _ => rfl
  | a :: rest, b :: rest', hnames => by
    obtain ⟨hfirst, hrest⟩ := List.cons.inj hnames
    rw [inner, inner, h.lookup?_congr hfirst]
    cases hfound : v.lookup? b with
    | none => exact hfirst
    | some w => exact (h.of_lookup? hfound).inner_congr hrest

/-! ## 2. Values of fields -/

namespace Value

theorem ofUserText_of_isNone {text : String} (h : (Decimal.parseFloat? text).isNone = true) :
    ofUserText text = .text text := by
  rw [ofUserText, Option.isNone_iff_eq_none.1 h]

theorem ofUserText_ne_map (text : String) (entries : List (String × Value)) :
    ofUserText text ≠ .map entries := by
  unfold ofUserText
  split
  · split <;> exact Value.noConfusion
  · exact Value.noConfusion

theorem unambiguous_ofUserText (text : String) : (ofUserText text).Unambiguous := by
  unfold ofUserText
  split
  · split
    · exact .number _
    · exact .text _
  · exact .text _

end Value

theorem Record.unambiguous_userData {r : Record} (h : r.Distinct) :
    r.userDataToValue.Unambiguous := by
  refine .map ?_ fun e he => ?_
  · rw [List.map_map]
    rwa [Distinct, Dictionary.keys, List.map_map] at h
  · obtain ⟨a, -, rfl⟩ := List.mem_map.1 he
    exact Value.unambiguous_ofUserText a.2

/-- In the map of the user data there is under a key what is found under it. -/
theorem Record.lookup?_userData {r : Record} (h : r.Distinct) (key : String) :
    r.userDataToValue.lookup? key = (r.userValue? key).map .ofUserText := by
  cases unambiguous_userData h with
  | map distinct =>
    rw [userDataToValue, Value.lookup?_map distinct, userValue?_eq_head?, namesakes,
      List.head?_filter, List.find?_map, Option.map_map, Option.map_map]
    rfl

theorem ImageInfo.unambiguous_toValue (i : ImageInfo) : i.toValue.Unambiguous := by
  refine Value.unambiguous_ofEntries ?_ ?_
  · change (["width", "height"].map Text.lower).Nodup
    rw [Text.map_lower_of_isSmall rfl]
    decide
  · simp [Value.ofInt32, Value.Unambiguous.number]

theorem Sequence.unambiguous_toValue (s : Sequence) : s.toValue.Unambiguous := by
  refine Value.unambiguous_ofEntries ?_ ?_
  · change (["basename", "first", "last"].map Text.lower).Nodup
    rw [Text.map_lower_of_isSmall rfl]
    decide
  · simp [Value.ofInt32, Value.Unambiguous.number, Value.Unambiguous.text]

theorem Contract.unambiguous_toValue (c : Contract) : c.toValue.Unambiguous := by
  refine Value.unambiguous_ofEntries (List.nodup_singleton _) ?_
  simp [Value.Unambiguous.text]

namespace Node

variable {n : Node} {name : String} {v : Value}

/-- The name of a field is one of those that are listed, or the other name of the user data. -/
theorem ownField?_eq_none_iff :
    n.ownField? name = none ↔ name ∉ fieldNames ∧ name ≠ "userdata" := by
  unfold ownField? fieldNames
  split <;> simp_all

theorem unambiguous_ownField? (h : n.record.Distinct) (hv : n.ownField? name = some (some v)) :
    v.Unambiguous := by
  unfold ownField? at hv
  split at hv <;> simp only [Option.some.injEq, Option.map_eq_some_iff, reduceCtorEq] at hv
  case h_1 | h_2 => exact hv ▸ .text _
  case h_3 => exact hv ▸ .number _
  case h_4 =>
    obtain ⟨moment, -, hmoment⟩ := Option.bind_eq_some_iff.1 hv
    obtain ⟨_, -, rfl⟩ := Option.map_eq_some_iff.1 hmoment
    exact .number _
  case h_5 | h_10 => exact hv ▸ .truth _
  case h_6 | h_7 | h_8 =>
    obtain ⟨_, -, rfl⟩ := hv
    exact .text _
  case h_9 => exact hv ▸ .list _
  case h_11 | h_12 => exact hv ▸ Record.unambiguous_userData h
  case h_13 =>
    obtain ⟨info, -, rfl⟩ := hv
    exact info.unambiguous_toValue
  case h_14 =>
    obtain ⟨sequence, -, rfl⟩ := hv
    exact sequence.unambiguous_toValue
  case h_15 =>
    obtain ⟨contract, -, rfl⟩ := hv
    exact contract.unambiguous_toValue

theorem unambiguous_field? (h : n.record.Distinct) (hv : n.field? name = some v) :
    v.Unambiguous := by
  unfold field? at hv
  split at hv
  · rename_i hown
    exact unambiguous_ownField? h (hv ▸ hown)
  · obtain ⟨text, -, rfl⟩ := Option.map_eq_some_iff.1 hv
    exact Value.unambiguous_ofUserText text

/-- The case of a field's name does not matter. -/
theorem field?_congr {a b : String} (h : Text.lower a = Text.lower b) :
    n.field? a = n.field? b := by
  rw [field?, field?, h, Record.userValue?_congr h]

/-- A name that no field has asks for user data. -/
theorem field?_of_not_own (h : Text.lower name ∉ fieldNames)
    (hdata : Text.lower name ≠ "userdata") :
    n.field? name = (n.record.userValue? name).map .ofUserText := by
  rw [field?, ownField?_eq_none_iff.2 ⟨h, hdata⟩]

/-- The user data has two names, in any spelling. -/
theorem field?_userData (h : Text.lower name = "meta" ∨ Text.lower name = "userdata") :
    n.field? name = some n.record.userDataToValue := by
  rcases h with h | h <;> rw [field?, h] <;> rfl

theorem field?_meta : n.field? "meta" = some n.record.userDataToValue :=
  field?_userData (.inl (Text.lower_of_isSmall rfl))

end Node

/-! ## 3. Formulas of one field -/

theorem Formula.eval_field {n : Node} {name : String} {inner : List String} {v : Value}
    (h : n.field? name = some v) : (Formula.field name inner).eval n = v.inner inner := by
  rw [Formula.eval, h]

theorem Formula.eval_field_of_none {n : Node} {name : String} {inner : List String}
    (h : n.field? name = none) :
    (Formula.field name inner).eval n = .error (.unknownField name) := by
  rw [Formula.eval, h]

theorem Formula.eval_field_eq_ok_iff {n : Node} {name : String} {v : Value} :
    (Formula.field name []).eval n = .ok v ↔ n.field? name = some v := by
  rw [Formula.eval]
  cases n.field? name <;> simp [Value.inner]

/-- A chain of names gives the same answer however its names are spelled, if the keys of the
user data differ in more than case. A name that is none of a field asks for user data, whether
it stands alone or after `meta`. -/
theorem eval_field_congr (n : Node) (h : n.record.Distinct) :
    (∀ name name' inner inner', Text.lower name = Text.lower name' →
      inner.map Text.lower = inner'.map Text.lower →
      SameAnswer ((Formula.field name inner).eval n) ((Formula.field name' inner').eval n)) ∧
    ∀ name, Text.lower name ∉ fieldNames → Text.lower name ≠ "userdata" →
      SameAnswer ((Formula.field name []).eval n) ((Formula.field "meta" [name]).eval n) ∧
      ∀ v, (Formula.field name []).eval n = .ok v ↔
        ∃ text ∈ n.record.userValue? name, v = .ofUserText text := by
  constructor
  · intro name name' inner inner' hname hinner
    have hfields := n.field?_congr hname
    cases hfield : n.field? name' with
    | none =>
      rw [Formula.eval_field_of_none hfield, Formula.eval_field_of_none (hfields.trans hfield)]
      exact hname
    | some v =>
      rw [Formula.eval_field hfield, Formula.eval_field (hfields.trans hfield)]
      exact (Node.unambiguous_field? h hfield).inner_congr hinner
  · intro name hown hdata
    -- Both formulas come down to one look-up in the user data.
    have hfield := n.field?_of_not_own hown hdata
    have hlookup := Record.lookup?_userData h name
    rw [Formula.eval_field Node.field?_meta, Value.inner]
    cases hvalue : n.record.userValue? name with
    | none =>
      rw [hvalue] at hfield hlookup
      rw [Formula.eval_field_of_none hfield, hlookup]
      exact ⟨rfl, by simp⟩
    | some text =>
      rw [hvalue] at hfield hlookup
      rw [Formula.eval_field hfield, hlookup]
      exact ⟨rfl, by simp [Value.inner, eq_comm]⟩

/-- An object with user data, for runs. -/
def artwork : Node :=
  ⟨.root, ⟨"", 0, none, true⟩, none, (Record.blank.setUser "Width" "1920").setUser "artist" "kim"⟩

/-- Two spellings of a chain of two names, and a name that no field has. -/
theorem eval_field_congr_artwork :
    artwork.record.Distinct ∧ Text.lower "META" = Text.lower "meta" ∧
    ["WIDTH"].map Text.lower = ["width"].map Text.lower ∧
    SameAnswer ((Formula.field "META" ["WIDTH"]).eval artwork)
      ((Formula.field "meta" ["width"]).eval artwork) ∧
    Text.lower "Artist" ∉ fieldNames ∧ Text.lower "Artist" ≠ "userdata" ∧
    (Formula.field "Artist" []).eval artwork = .ok (.text "kim") := by
  have hdistinct : artwork.record.Distinct := by decide +kernel
  have hmeta : Text.lower "META" = Text.lower "meta" := by decide +kernel
  have hwidth : ["WIDTH"].map Text.lower = ["width"].map Text.lower := by decide +kernel
  have hown : Text.lower "Artist" ∉ fieldNames := by decide +kernel
  have hdata : Text.lower "Artist" ≠ "userdata" := by decide +kernel
  obtain ⟨hcase, huser⟩ := eval_field_congr artwork hdistinct
  refine ⟨hdistinct, hmeta, hwidth, hcase _ _ _ _ hmeta hwidth, hown, hdata, ?_⟩
  refine ((huser "Artist" hown hdata).2 _).2 ⟨"kim", by decide +kernel, ?_⟩
  rw [Value.ofUserText_of_isNone (by decide +kernel)]

end ShowTree
