/-
ShowTree.Proofs.Metadata.Everything — the map of all metadata, and what its keys ask for.

The map has an entry for each field that the object has, and one for each key of the user data
that is not the name of a field (`Node.mem_metadata_iff`). As a formula of one field such a
key gives the value that the map shows (`eval_everything`). There is one exception: user data
has a second name, which is missing from the list of names that hide keys. So a key `userdata`
is shown with its own value, but asks for all user data.
-/
import ShowTree.Proofs.Metadata.Fields

namespace ShowTree

/-! ## 1. What the map shows -/

/-- What is made of some items, and keeps their keys, has some of the keys in order. -/
theorem sublist_of_filterMap {α β γ : Type} {make : α → Option β} {old : α → γ} {new : β → γ}
    (h : ∀ a b, make a = some b → new b = old a) :
    ∀ items : List α, ((items.filterMap make).map new).Sublist (items.map old)
  | [] => .slnil
  | a :: rest => by
    have ih := sublist_of_filterMap h rest
    cases hmake : make a with
    | none =>
      rw [List.filterMap_cons_none hmake]
      exact ih.cons (old a)
    | some b =>
      rw [List.filterMap_cons_some hmake, List.map_cons, List.map_cons, h a b hmake]
      exact ih.cons_cons (old a)

namespace Node

variable {n : Node} {key : String} {v : Value}

/-- The names of the fields are in small letters. -/
theorem lower_fieldNames (name : String) (h : name ∈ fieldNames) : Text.lower name = name :=
  have hsmall : fieldNames.all Text.isSmall = true := rfl
  Text.lower_of_isSmall (List.all_eq_true.1 hsmall name h)

/-- The fields that an object has, under their names. -/
def ownEntries (n : Node) : List (String × Value) :=
  fieldNames.filterMap fun name => (n.field? name).map (name, ·)

/-- The user data under the keys that are not the name of a field. -/
def userEntries (n : Node) : List (String × Value) :=
  n.record.userData.entries.filterMap fun (key, text) =>
    if fieldNames.contains (Text.lower key) then none else some (key, Value.ofUserText text)

theorem metadata_eq (n : Node) : n.metadata = .ofEntries (n.userEntries ++ n.ownEntries) :=
  rfl

theorem mem_ownEntries_iff :
    (key, v) ∈ n.ownEntries ↔ key ∈ fieldNames ∧ n.field? key = some v := by
  simp [ownEntries, List.mem_filterMap]

theorem mem_userEntries_iff : (key, v) ∈ n.userEntries ↔ Text.lower key ∉ fieldNames ∧
    ∃ text, (key, text) ∈ n.record.userData.entries ∧ v = .ofUserText text := by
  rw [userEntries, List.mem_filterMap]
  constructor
  · rintro ⟨⟨k, text⟩, hmem, he⟩
    dsimp only at he
    split at he
    · cases he
    · rename_i hvisible
      cases he
      exact ⟨fun h => hvisible (List.contains_iff_mem.2 h), text, hmem, rfl⟩
  · rintro ⟨hvisible, text, hmem, rfl⟩
    exact ⟨(key, text), hmem, if_neg fun h => hvisible (List.contains_iff_mem.1 h)⟩

/-- Each key stands for one entry: names come once in their list, and keys in a dictionary, and
no name is among the keys that are shown. -/
theorem nodup_keys (n : Node) : ((n.userEntries ++ n.ownEntries).map (·.1)).Nodup := by
  have hown : (n.ownEntries.map (·.1)).Sublist fieldNames := by
    rw [← List.map_id fieldNames]
    refine sublist_of_filterMap ?_ fieldNames
    intro name e he
    obtain ⟨v, -, rfl⟩ := Option.map_eq_some_iff.1 he
    rfl
  have huser : (n.userEntries.map (·.1)).Sublist n.record.userData.keys := by
    refine sublist_of_filterMap ?_ n.record.userData.entries
    rintro ⟨key, text⟩ e he
    dsimp only at he
    split at he
    · cases he
    · cases he
      rfl
  rw [List.map_append]
  refine List.Nodup.append ((Dictionary.nodup_of_rising n.record.userData.rising).sublist huser)
    ((by decide : fieldNames.Nodup).sublist hown) fun key hshown hname => ?_
  obtain ⟨⟨k, v⟩, hmem, rfl⟩ := List.mem_map.1 hshown
  have hname' := hown.subset hname
  exact (mem_userEntries_iff.1 hmem).1 ((lower_fieldNames k hname').symm ▸ hname')

/-- The map shows the fields that the object has under their names, and user data under the
keys that are not the name of a field. -/
theorem mem_metadata_iff (n : Node) :
    ∃ shown, n.metadata = .map shown ∧ ∀ key v, (key, v) ∈ shown ↔
      (key ∈ fieldNames ∧ n.field? key = some v) ∨
      (Text.lower key ∉ fieldNames ∧
        ∃ text, (key, text) ∈ n.record.userData.entries ∧ v = .ofUserText text) := by
  obtain ⟨shown, heq, -, hmem⟩ := Value.mem_ofEntries_iff n.nodup_keys
  refine ⟨shown, n.metadata_eq.trans heq, fun key v => ?_⟩
  rw [hmem, List.mem_append, mem_userEntries_iff, mem_ownEntries_iff, or_comm]

end Node

/-! ## 2. Asking for what is shown -/

/-- If the keys of the user data differ in more than case, a key of the map of all metadata
gives as a formula of one field what the map shows under it, except for keys that mean
`userdata`; and whatever field or visible key gives a value is shown with it. -/
theorem eval_everything (n : Node) (h : n.record.Distinct) :
    ∃ shown, Formula.everything.eval n = .ok (.map shown) ∧
      (∀ key v, (key, v) ∈ shown →
        ((Formula.field key []).eval n = .ok v ↔ Text.lower key ≠ "userdata")) ∧
      ∀ key v, key ∈ fieldNames ∨ key ∈ n.record.userData.keys ∧ Text.lower key ∉ fieldNames →
        Text.lower key ≠ "userdata" → (Formula.field key []).eval n = .ok v → (key, v) ∈ shown := by
  obtain ⟨shown, heq, hmem⟩ := n.mem_metadata_iff
  have huser : ∀ {key text}, (key, text) ∈ n.record.userData.entries →
      Text.lower key ∉ fieldNames → Text.lower key ≠ "userdata" →
      n.field? key = some (.ofUserText text) := by
    intro key text he hown hdata
    rw [Node.field?_of_not_own hown hdata, h.userValue?_of_mem he]
    rfl
  refine ⟨shown, congrArg Except.ok heq, fun key v hshown => ?_, fun key v hkey hdata hv => ?_⟩
  · rw [Formula.eval_field_eq_ok_iff]
    rcases (hmem key v).1 hshown with ⟨hname, hv⟩ | ⟨hown, text, he, rfl⟩
    · have hdata : Text.lower key ≠ "userdata" := by
        rw [Node.lower_fieldNames key hname]
        exact fun heq => absurd (heq ▸ hname) (by decide)
      exact ⟨fun _ => hdata, fun _ => hv⟩
    · refine ⟨fun hv hdata => ?_, huser he hown⟩
      rw [Node.field?_userData (.inr hdata)] at hv
      exact Value.ofUserText_ne_map _ _ (Option.some.inj hv).symm
  · rw [Formula.eval_field_eq_ok_iff] at hv
    refine (hmem key v).2 ?_
    rcases hkey with hname | ⟨hkept, hown⟩
    · exact .inl ⟨hname, hv⟩
    · obtain ⟨⟨k, text⟩, he, rfl⟩ := List.mem_map.1 hkept
      rw [huser he hown hdata] at hv
      exact .inr ⟨hown, text, he, (Option.some.inj hv).symm⟩

/-- The map of an object with user data shows a key of it, which gives its value. -/
theorem eval_everything_artwork :
    artwork.record.Distinct ∧ ∃ shown, Formula.everything.eval artwork = .ok (.map shown) ∧
      ("artist", .text "kim") ∈ shown ∧ Text.lower "artist" ≠ "userdata" ∧
      (Formula.field "artist" []).eval artwork = .ok (.text "kim") := by
  have hdistinct : artwork.record.Distinct := by decide +kernel
  have hdata : Text.lower "artist" ≠ "userdata" := by decide +kernel
  have hown : Text.lower "artist" ∉ fieldNames := by decide +kernel
  have hfield : (Formula.field "artist" []).eval artwork = .ok (.text "kim") := by
    have hvalue : artwork.record.userValue? "artist" = some "kim" := by decide +kernel
    rw [Formula.eval_field_eq_ok_iff, Node.field?_of_not_own hown hdata, hvalue, Option.map_some,
      Value.ofUserText_of_isNone (by decide +kernel)]
  obtain ⟨shown, heq, hgives, hshows⟩ := eval_everything artwork hdistinct
  have hshown := hshows "artist" _ (.inr ⟨by decide +kernel, hown⟩) hdata hfield
  exact ⟨hdistinct, shown, heq, hshown, hdata, (hgives _ _ hshown).2 hdata⟩

/-- An object whose user data has a key that is spelled like the second name of user data. -/
def annotated : Node :=
  ⟨.root, ⟨"", 0, none, true⟩, none, Record.blank.setUser "userdata" "x"⟩

/-- Under this key the map shows a text, but the formula gives a map. -/
theorem not_eval_everything_userdata :
    annotated.record.Distinct ∧ ∃ shown, Formula.everything.eval annotated = .ok (.map shown) ∧
      ("userdata", .text "x") ∈ shown ∧
      (Formula.field "userdata" []).eval annotated = .ok (.map [("userdata", .text "x")]) ∧
      (Formula.field "userdata" []).eval annotated ≠ .ok (.text "x") := by
  have htext : Value.ofUserText "x" = .text "x" :=
    Value.ofUserText_of_isNone (by decide +kernel)
  have hentries : annotated.record.userData.entries = [("userdata", "x")] := by decide +kernel
  have heval : (Formula.field "userdata" []).eval annotated =
      .ok (.map [("userdata", .text "x")]) := by
    rw [Formula.eval_field_eq_ok_iff, Node.field?_userData (.inr (by decide +kernel)),
      Record.userDataToValue, hentries, List.map_singleton, htext]
  obtain ⟨shown, heq, hmem⟩ := annotated.mem_metadata_iff
  refine ⟨by decide +kernel, shown, congrArg Except.ok heq, ?_, heval, by simp [heval]⟩
  refine (hmem _ _).2 (.inr ⟨by decide +kernel, "x", ?_, htext.symm⟩)
  rw [hentries]
  exact List.mem_singleton_self _

end ShowTree
