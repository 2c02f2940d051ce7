/-
ShowTree.Proofs.Path.Walk — where a text leads from a place.

A text without a slash at its front is walked piece by piece: a name goes down, two dots go
up, and empty pieces and single dots lead nowhere (`Place.walk`). The parts of a joined path
are those of the two sides one after the other (`Path.parts_join`), so a text that is joined
to the path of a place is walked from there (`Place.toPlace_join`), as an absolute path is
walked from the root (`Path.toPlace_eq_walk`).
-/
import ShowTree.Proofs.Path.Canonical
import ShowTree.Target

namespace ShowTree

open ShowTree.Text

/-! ## 1. Parts -/

namespace Path

theorem isAbsolute_iff {p : Path} : p.isAbsolute = true ↔ ∃ cs, p.text.toList = '/' :: cs := by
  rw [isAbsolute, beq_iff_eq, List.head?_eq_some_iff]

/-- Joining puts the parts of the tail after those of the path. -/
theorem parts_join {p : Path} (hp : p.isAbsolute = true) {tail : String}
    (htail : tail.toList.head? ≠ some '/') :
    (p.join tail).parts = p.parts ++ (splitOn '/' tail.toList).filterMap Part.ofPiece? := by
  obtain ⟨cs, hcs⟩ := isAbsolute_iff.1 hp
  rw [join, if_neg htail]
  split
  · -- the path ends in a slash already
    rename_i hlast
    rw [hcs] at hlast
    rcases List.eq_nil_or_concat cs with rfl | ⟨front, c, rfl⟩
    · have hjoined : (p.text ++ tail).toList = '/' :: tail.toList := by simp [hcs]
      rw [parts_eq hjoined, parts_eq hcs]
      simp [splitOn, ofPiece?_nil]
    · have hc : c = '/' := by simpa [List.getLast?_cons] using hlast
      subst hc
      have hjoined : (p.text ++ tail).toList = '/' :: (front ++ '/' :: tail.toList) := by
        simp [hcs]
      rw [parts_eq hjoined, parts_eq hcs, splitOn_append_sep, List.concat_eq_append,
        splitOn_append_sep]
      simp [splitOn, ofPiece?_nil]
  · have hjoined : (p.text ++ "/" ++ tail).toList = '/' :: (cs ++ '/' :: tail.toList) := by
      simp [hcs]
    rw [parts_eq hjoined, parts_eq hcs, splitOn_append_sep]
    simp

end Path

/-! ## 2. Walking -/

namespace Place

/-- The place that a text leads to from a place. -/
def walk (p : Place) (cs : List Char) : Place :=
  ((splitOn '/' cs).filterMap Part.ofPiece?).foldl step p

theorem walk_nil (p : Place) : p.walk [] = p := by
  rw [walk, splitOn, List.filterMap_cons, Path.ofPiece?_nil]
  rfl

theorem walk_cons_slash (p : Place) (cs : List Char) : p.walk ('/' :: cs) = p.walk cs := by
  rw [walk, walk, splitOn, if_pos rfl, List.filterMap_cons, Path.ofPiece?_nil]

/-- Slashes at the front of a text lead nowhere. -/
theorem walk_dropWhile_slash (p : Place) (cs : List Char) :
    p.walk (cs.dropWhile (· == '/')) = p.walk cs := by
  induction cs with
  | nil => rfl
  | cons c cs ih =>
    by_cases hc : c = '/'
    · subst hc
      rw [List.dropWhile_cons_of_pos (by simp), ih, walk_cons_slash]
    · rw [List.dropWhile_cons_of_neg (by simpa using hc)]

/-- Names with slashes between them lead down. -/
theorem walk_join_names (p : Place) (ns : List Name) :
    p.walk (join ['/'] (ns.map Name.chars)) = p.down ns := by
  by_cases hne : ns = []
  · subst hne
    exact walk_nil p
  · have hslash : ∀ piece ∈ ns.map Name.chars, '/' ∉ piece := by
      intro piece hpiece
      obtain ⟨n, -, rfl⟩ := List.mem_map.1 hpiece
      exact n.slash_not_mem_chars
    have hname : Part.ofPiece? ∘ Name.chars = some ∘ Part.name := funext Name.ofPiece?_chars
    rw [walk, splitOn_join (by simpa using hne) hslash, List.filterMap_map, hname,
      List.filterMap_eq_map, List.foldl_map]
    rfl

/-- A canonical path with parts after it leads on from its place. -/
theorem ofPath?_of_parts {p : Place} {q : Path} {parts : List Part}
    (h : q.parts = p.path.parts ++ parts) : ofPath? q = some (parts.foldl step p) := by
  rw [ofPath?, h, parts_path, List.cons_append]
  dsimp only
  rw [List.foldl_append, foldl_step_names]

theorem isAbsolute_path (p : Place) : p.path.isAbsolute = true :=
  Path.isAbsolute_iff.2 ⟨_, p.toList_path⟩

/-- What is joined to the path of a place is walked from there. -/
theorem toPlace_join (p : Place) {tail : String} (htail : tail.toList.head? ≠ some '/') :
    (p.path.join tail).toPlace = .ok (p.walk tail.toList) := by
  rw [Path.toPlace, ofPath?_of_parts (Path.parts_join p.isAbsolute_path htail)]
  rfl

end Place

/-- An absolute path is walked from the root. -/
theorem Path.toPlace_eq_walk {p : Path} {cs : List Char} (h : p.text.toList = '/' :: cs) :
    p.toPlace = .ok (Place.root.walk cs) := by
  rw [toPlace, Place.ofPath?, parts_eq h]
  rfl

/-! ## 3. Targets -/

theorem head?_afterSlashes (text : String) : (afterSlashes text).toList.head? ≠ some '/' := by
  rw [afterSlashes, String.toList_ofList]
  intro h
  have := List.head?_dropWhile_not (· == '/') text.toList
  rw [h] at this
  simp at this

end ShowTree
