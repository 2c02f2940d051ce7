/-
ShowTree.Proofs.Prototype.Reference — references within a show.

A reference says by which names an object is reached from the root of its show
(`reference?_path_eq_some_iff`). So it leads back to the object wherever that root is known
(`toPlace_reference`, `resolveReference_reference`), and different objects have different
references (`reference?_injective`).
-/
import ShowTree.Proofs.Cache.Reading
import ShowTree.Proofs.Layout.Sidecar
import ShowTree.Proofs.Path.Walk

namespace ShowTree

open ShowTree.Text

/-! ## 1. What a reference says -/

theorem join_eq_intercalate (sep : List Char) : ∀ pieces, join sep pieces = sep.intercalate pieces
  | [] => rfl
  | [piece] => by simp [join]
  | piece :: second :: rest => by
    have ih := join_eq_intercalate sep (second :: rest)
    rw [join, ih, List.intercalate_cons_cons, List.append_assoc]
    exact List.cons_ne_nil second rest

theorem toList_intercalate_names (ns : List Name) :
    ("/".intercalate (ns.map Name.text)).toList = join ['/'] (ns.map Name.chars) := by
  rw [String.toList_intercalate, join_eq_intercalate, List.map_map]
  rfl

namespace Place

/-- A reference to an object is there if the names that lead to it start with those that
lead to the root of the show. -/
theorem reference?_path_eq_some_iff {showRoot p : Place} {reference : String} :
    reference? showRoot p.path = some reference ↔ ∃ ns, p.names = showRoot.names ++ ns ∧
      reference = "//" ++ "/".intercalate (ns.map Name.text) := by
  have hname : Function.Injective Part.name := fun a b h => by injection h
  rw [reference?, Path.partsBelow?, parts_path, parts_path]
  constructor
  · intro h
    obtain ⟨parts, hparts, rfl⟩ := Option.map_eq_some_iff.1 h
    split at hparts
    · rename_i hprefix
      obtain ⟨rest, hrest⟩ := List.isPrefixOf_iff_prefix.1 hprefix
      rw [List.cons_append, List.cons.injEq] at hrest
      obtain ⟨front, ns, hp, hfront, hns⟩ := List.map_eq_append_iff.1 hrest.2.symm
      have hshow : front = showRoot.names := List.map_inj_right (fun a b h => hname h) |>.1 hfront
      refine ⟨ns, by rw [hp, hshow], ?_⟩
      obtain rfl := Option.some.inj hparts
      rw [hp, hshow, List.map_append, List.length_cons, List.drop_succ_cons, List.length_map]
      simp [Function.comp_def, Part.text]
    · cases hparts
  · rintro ⟨ns, hp, rfl⟩
    have hprefix : (Part.root :: showRoot.names.map Part.name).isPrefixOf
        (Part.root :: p.names.map Part.name) = true := by
      rw [List.isPrefixOf_iff_prefix, hp, List.map_append]
      exact ⟨ns.map Part.name, rfl⟩
    rw [if_pos hprefix, hp, List.map_append, List.length_cons, List.drop_succ_cons,
      List.length_map]
    simp [Function.comp_def, Part.text]

/-! ## 2. Where a reference leads -/

/-- A reference leads to its object from the root of the show. -/
theorem toPlace_reference {showRoot p : Place} {reference : String}
    (h : reference? showRoot p.path = some reference) :
    (showRoot.path.join (afterSlashes reference)).toPlace = .ok p := by
  obtain ⟨ns, hp, rfl⟩ := reference?_path_eq_some_iff.1 h
  have htext : ("//" ++ "/".intercalate (ns.map Name.text)).toList =
      '/' :: '/' :: join ['/'] (ns.map Name.chars) := by
    rw [String.toList_append, toList_intercalate_names]
    rfl
  have hdown : p = showRoot.down ns := names_injective (by rw [hp, names_down])
  rw [toPlace_join showRoot (head?_afterSlashes _), afterSlashes, String.toList_ofList, htext,
    walk_dropWhile_slash, walk_cons_slash, walk_cons_slash, walk_join_names, hdown]

/-- Different objects have different references. -/
theorem reference?_injective {showRoot p q : Place} {reference : String}
    (hp : reference? showRoot p.path = some reference)
    (hq : reference? showRoot q.path = some reference) : p = q := by
  have h := toPlace_reference hp
  rw [toPlace_reference hq] at h
  exact (Except.ok.inj h).symm

end Place

namespace Cache

/-- A reference leads to what it is a reference to, from every object of the show and whatever
other targets start from. -/
theorem resolve_reference {c : Cache} {showRoot p q : Place} {reference : String} (base : Path)
    (hshow : c.showAt p = some showRoot) (h : reference? showRoot q.path = some reference) :
    c.resolve reference p base = .ok q := by
  obtain ⟨ns, -, href⟩ := Place.reference?_path_eq_some_iff.1 h
  have hslashes : ∃ cs, reference.toList = '/' :: '/' :: cs := by
    rw [href, String.toList_append]
    exact ⟨_, rfl⟩
  obtain ⟨cs, hcs⟩ := hslashes
  rw [resolve, hcs, hshow]
  exact Place.toPlace_reference h

/-- A reference that an object keeps leads to what it is a reference to. -/
theorem resolveReference_reference {c : Cache} {showRoot p q : Place} {reference : String}
    (hshow : c.showAt p = some showRoot) (h : reference? showRoot q.path = some reference) :
    c.resolveReference reference p = .ok q :=
  resolve_reference _ hshow h

end Cache

end ShowTree
