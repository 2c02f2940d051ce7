/-
ShowTree.Proofs.Path.Clean — the canonical form of a path.

A path is cleaned by going to its place and writing down the path of that (`Path.clean`). The
same comes of following its parts on the text, where two dots take the parent and a name is
joined (`Place.foldl_follow`). Every absolute path has a clean form, which cleaning leaves as it
is and which can stand for the path wherever something is joined to it
(`clean_of_isAbsolute`).
-/
import ShowTree.Proofs.Cache.Reading
import ShowTree.Proofs.Path.Walk

namespace ShowTree

open ShowTree.Text

namespace Path

/-! ## 1. Clean paths -/

/-- The canonical path of the place that a path leads to. -/
def clean (p : Path) : Except Failure Path :=
  p.toPlace.map Place.path

/-- Whether a path is written in the canonical way: from the root on there are names alone, and
unless it is the root, one slash stands before each name and no other. -/
structure IsClean (p : Path) : Prop where
  isAbsolute : p.isAbsolute = true
  parts : ∀ part ∈ p.parts, part ≠ .root → ∃ n, part = .name n
  pieces : p.text ≠ "/" → ∀ piece ∈ p.pieces.tail, IsName (String.ofList piece)

/-- The path that a part leads to from a path. -/
def follow (p : Path) : Part → Path
  | .root => ⟨"/"⟩
  | .here => p
  | .up => p.up
  | .name n => p.join n.text

theorem clean_of_toPlace {p : Path} {place : Place} (h : p.toPlace = .ok place) :
    p.clean = .ok place.path := by
  rw [clean, h]
  rfl

end Path

namespace Place

theorem isClean_path (p : Place) : p.path.IsClean where
  isAbsolute := p.isAbsolute_path
  parts part hpart hroot := by
    rw [parts_path] at hpart
    rcases List.mem_cons.1 hpart with heq | hname
    · exact absurd heq hroot
    · obtain ⟨n, -, rfl⟩ := List.mem_map.1 hname
      exact ⟨n, rfl⟩
  pieces hroot piece hpiece := by
    have hnames : p.names ≠ [] := fun h =>
      hroot (congrArg (fun q => (path q).text) (names_injective (q := .root) h))
    rw [pieces_path, if_neg hnames, List.tail_cons] at hpiece
    obtain ⟨n, -, rfl⟩ := List.mem_map.1 hpiece
    rw [Name.chars, String.ofList_toList]
    exact n.isName

end Place

/-- The clean paths are those of places. -/
theorem Path.isClean_iff {p : Path} : p.IsClean ↔ ∃ place : Place, place.path = p := by
  refine ⟨fun h => ?_, fun ⟨place, hplace⟩ => hplace ▸ place.isClean_path⟩
  by_cases hroot : p.text = "/"
  · exact ⟨.root, Path.ext hroot.symm⟩
  · obtain ⟨cs, hcs⟩ := isAbsolute_iff.1 h.isAbsolute
    have htail : p.pieces.tail = splitOn '/' cs := by rw [Path.pieces, hcs, splitOn, if_pos rfl]; rfl
    have hnames : ∀ piece ∈ splitOn '/' cs, IsName (String.ofList piece) := htail ▸ h.pieces hroot
    let names : List Name := (splitOn '/' cs).pmap (fun piece => Name.mk (String.ofList piece)) hnames
    have hchars : names.map Name.chars = splitOn '/' cs := by
      simp [names, List.map_pmap, Name.chars]
    refine ⟨Place.root.down names, Path.ext (String.toList_injective ?_)⟩
    rw [Place.toList_path, Place.pieces, Place.names_down, Place.names, List.nil_append, hchars,
      join_splitOn, hcs]

namespace Place

/-! ## 2. Following the parts of a path -/

/-- The parent of a canonical path is that of the place above; the root stays. -/
theorem path_up : ∀ p : Place, p.path.up = p.up.path
  | .root => by decide
  | .entry dir name => by rw [Path.up, parent?_path_entry, Option.getD_some, up]

theorem follow_path (p : Place) (part : Part) : p.path.follow part = (p.step part).path := by
  cases part with
  | root => rfl
  | here => rfl
  | up => exact p.path_up
  | name n => rfl

/-- Following parts on the text leads to the path of the place that they lead to. -/
theorem foldl_follow (parts : List Part) (p : Place) :
    parts.foldl Path.follow p.path = (parts.foldl step p).path := by
  induction parts generalizing p with
  | nil => rfl
  | cons part parts ih => rw [List.foldl_cons, follow_path, ih, List.foldl_cons]

end Place

namespace Path

/-- Two paths with parts that lead to one place still do when the same is joined to them. -/
theorem toPlace_join {p : Path} (hp : p.isAbsolute = true) {tail : String}
    (htail : tail.toList.head? ≠ some '/') {place : Place} (h : p.toPlace = .ok place) :
    (p.join tail).toPlace = .ok (place.walk tail.toList) := by
  obtain ⟨cs, hcs⟩ := isAbsolute_iff.1 hp
  have hplace : ((splitOn '/' cs).filterMap Part.ofPiece?).foldl Place.step .root = place :=
    Except.ok.inj ((toPlace_eq_walk hcs).symm.trans h)
  rw [toPlace, Place.ofPath?, parts_join hp htail, parts_eq hcs, List.cons_append]
  dsimp only
  rw [List.foldl_append, hplace]
  rfl

/-! ## 3. Cleaning -/

theorem ofPiece?_ne_root (piece : List Char) : Part.ofPiece? piece ≠ some .root := by
  unfold Part.ofPiece?
  dsimp only
  split
  · simp
  · split <;> simp

theorem ofFirst?_ne_root (piece : List Char) : Part.ofFirst? piece ≠ some .root := by
  unfold Part.ofFirst?
  split
  · simp
  · exact ofPiece?_ne_root piece

/-- A path that does not start with a slash leads nowhere. -/
theorem toPlace_of_not_isAbsolute {p : Path} (hp : p.isAbsolute = false) :
    p.toPlace = .error (.badTarget p.text "path is not absolute") := by
  have hroot : ∀ rest, p.parts ≠ .root :: rest := by
    intro rest h
    have htext := join_splitOn '/' p.text.toList
    rw [← pieces] at htext
    rw [parts] at h
    rcases hpieces : p.pieces with - | ⟨- | ⟨c, first⟩, others⟩
    · rw [hpieces] at h
      cases h
    · cases others with
      | nil =>
        rw [hpieces] at h
        cases h
      | cons piece others =>
        -- nothing stands before the first slash, so the text starts with it
        rw [hpieces, Text.join, List.nil_append] at htext
        · rw [isAbsolute, ← htext] at hp
          cases hp
        · simp
    · have hmem : Part.root ∈
          (Part.ofFirst? (c :: first)).toList ++ others.filterMap Part.ofPiece? := by
        rw [hpieces] at h
        dsimp only at h
        rw [h]
        exact List.mem_cons_self
      rcases List.mem_append.1 hmem with hfirst | hothers
      · exact ofFirst?_ne_root _ (Option.mem_toList.1 hfirst)
      · obtain ⟨piece, -, hpiece⟩ := List.mem_filterMap.1 hothers
        exact ofPiece?_ne_root piece hpiece
  rw [toPlace, Place.ofPath?]
  split
  · rename_i place hplace
    split at hplace
    · rename_i rest hparts
      exact absurd hparts (hroot rest)
    · cases hplace
  · rfl

/-- Every absolute path has a clean form. It is where the parts lead when they are followed from
the root, cleaning it changes nothing, and cleaning anything relative that is joined to the
path is cleaning what is joined to the clean form. -/
theorem clean_of_isAbsolute {p : Path} (hp : p.isAbsolute = true) :
    ∃ q, p.clean = .ok q ∧ q.IsClean ∧ q.clean = .ok q ∧
      (∀ r : Path, r.isAbsolute = false → (p.join r.text).clean = (q.join r.text).clean) ∧
      q = p.parts.foldl follow ⟨"/"⟩ := by
  obtain ⟨cs, hcs⟩ := isAbsolute_iff.1 hp
  have hplace := toPlace_eq_walk hcs
  refine ⟨_, clean_of_toPlace hplace, Place.isClean_path _, clean_of_toPlace (Place.toPlace_path _),
    fun r hr => ?_, ?_⟩
  · have htail : r.text.toList.head? ≠ some '/' := by simpa [isAbsolute] using hr
    rw [clean_of_toPlace (toPlace_join hp htail hplace),
      clean_of_toPlace (Place.toPlace_join _ htail)]
  · rw [parts_eq hcs]
    exact (Place.foldl_follow (.root :: _) .root).symm

/-- Slashes, dots, and more steps up than there are directories. -/
theorem clean_of_isAbsolute_dots :
    isAbsolute ⟨"/a//./b/../../../c/"⟩ = true ∧ isAbsolute ⟨"./d/"⟩ = false ∧
      clean ⟨"/a//./b/../../../c/"⟩ = .ok ⟨"/c"⟩ ∧ clean ⟨"/c"⟩ = .ok ⟨"/c"⟩ ∧
      clean ⟨"/a//./b/../../../c/./d/"⟩ = clean ⟨"/c/./d/"⟩ := by
  have habsolute : isAbsolute ⟨"/a//./b/../../../c/"⟩ = true := by decide
  have hrelative : isAbsolute ⟨"./d/"⟩ = false := by decide
  obtain ⟨q, hq, -, hagain, hjoin, hfollow⟩ := clean_of_isAbsolute habsolute
  obtain rfl : q = ⟨"/c"⟩ := hfollow.trans (by decide +kernel)
  exact ⟨habsolute, hrelative, hq, hagain, hjoin ⟨"./d/"⟩ hrelative⟩

end Path

end ShowTree
