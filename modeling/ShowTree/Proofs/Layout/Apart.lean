/-
ShowTree.Proofs.Layout.Apart — records do not get in each other's way.

With the names that are used unless others are asked for, the records of two objects lie at two
places, and neither is where a record is drafted, its own or that of the other. This is a matter
of their last names: a draft's ends in another letter than a record's, the record of a directory
has one character, and that of a file more, with the file's name in front (`recordPath_apart`).
-/
import ShowTree.Proofs.Layout.Sidecar
import ShowTree.Proofs.Path.Clean

namespace ShowTree

/-- The paths of two places have the same parts only if the places are one. -/
theorem Place.same_path_iff {p q : Place} : p.path.same q.path = true ↔ p = q := by
  rw [Path.same, beq_iff_eq, parts_path, parts_path, List.cons.injEq]
  have hname : ∀ a b, Part.name a = Part.name b → a = b := fun a b h => by injection h
  constructor
  · rintro ⟨-, hnames⟩
    exact names_injective (List.map_inj_right hname |>.1 hnames)
  · rintro rfl
    exact ⟨rfl, rfl⟩

namespace Layout

variable {p q : Path}

theorem recordPath_same_recordPath (hp : p.IsClean) (hq : q.IsClean) (hne : p ≠ q) (a b : Bool) :
    (default.recordPath p a).same (default.recordPath q b) = false := by
  obtain ⟨place, rfl⟩ := Path.isClean_iff.1 hp
  obtain ⟨other, rfl⟩ := Path.isClean_iff.1 hq
  rw [Place.recordPath_path, Place.recordPath_path, Bool.eq_false_iff, ne_eq, Place.same_path_iff]
  intro hsame
  exact hne (congrArg Place.path (Place.recordPlace_injective hsame).1)

theorem recordPath_same_draftPath (hp : p.IsClean) (hq : q.IsClean) (a b : Bool) :
    (default.recordPath p a).same (draftPath (default.recordPath q b)) = false := by
  obtain ⟨place, rfl⟩ := Path.isClean_iff.1 hp
  obtain ⟨other, rfl⟩ := Path.isClean_iff.1 hq
  rw [Place.recordPath_path, Place.recordPath_path, Place.draftPath_path, Bool.eq_false_iff, ne_eq,
    Place.same_path_iff]
  exact place.recordPlace_ne_draftPlace other a b

/-- Two objects at different clean paths, be they directories or files, have different records,
and the record of neither is the draft of the other's or of its own. -/
theorem recordPath_apart (hp : p.IsClean) (hq : q.IsClean) (hne : p ≠ q) (a b : Bool) :
    (default.recordPath p a).same (default.recordPath q b) = false ∧
      (default.recordPath p a).same (draftPath (default.recordPath q b)) = false ∧
      (default.recordPath q b).same (draftPath (default.recordPath p a)) = false ∧
      (default.recordPath p a).same (draftPath (default.recordPath p a)) = false ∧
      (default.recordPath q b).same (draftPath (default.recordPath q b)) = false :=
  ⟨recordPath_same_recordPath hp hq hne a b, recordPath_same_draftPath hp hq a b,
    recordPath_same_draftPath hq hp b a, recordPath_same_draftPath hp hp a a,
    recordPath_same_draftPath hq hq b b⟩

/-- For instance a directory, and a file in it that is called after the draft of its record. -/
theorem recordPath_apart_inside :
    let r : Path := ⟨"/s/.meta/_"⟩
    let s : Path := ⟨"/s/.meta/_.tmp._"⟩
    Path.IsClean ⟨"/s"⟩ ∧ Path.IsClean ⟨"/s/_.tmp"⟩ ∧ default.recordPath ⟨"/s"⟩ true = r ∧
      default.recordPath ⟨"/s/_.tmp"⟩ false = s ∧ r.same s = false ∧
      r.same (draftPath s) = false ∧ s.same (draftPath r) = false ∧
      r.same (draftPath r) = false ∧ s.same (draftPath s) = false := by
  intro r s
  let dir : Place := .entry .root ⟨"s", by decide⟩
  have hdir : Path.IsClean ⟨"/s"⟩ := Path.isClean_iff.2 ⟨dir, by decide⟩
  have hfile : Path.IsClean ⟨"/s/_.tmp"⟩ :=
    Path.isClean_iff.2 ⟨.entry dir ⟨"_.tmp", by decide⟩, by decide⟩
  have hr : default.recordPath ⟨"/s"⟩ true = r := by decide
  have hs : default.recordPath ⟨"/s/_.tmp"⟩ false = s := by decide
  have hapart := recordPath_apart hdir hfile (by decide) true false
  rw [hr, hs] at hapart
  exact ⟨hdir, hfile, hr, hs, hapart⟩

end Layout

end ShowTree
