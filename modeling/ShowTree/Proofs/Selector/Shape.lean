/-
ShowTree.Proofs.Selector.Shape — what the segments of a selector look like.

A selector that was read from a text has at most one root, at its front
(`segments_of_parse?`). All other segments are pieces between slashes: they go no or one
level up, are patterns, or are the names of entries, with no other characters than the text
(`plain_of_mem_ofPieces`).
-/
import ShowTree.Expression.Basic
import ShowTree.Proofs.Path.Canonical

namespace ShowTree

open ShowTree.Text

/-! ## 1. Characters of pieces -/

theorem mem_of_mem_splitOn {sep c : Char} : ∀ {cs piece : List Char}, piece ∈ splitOn sep cs →
    c ∈ piece → c ∈ cs
  | [], piece, hpiece, hc => by
    obtain rfl : piece = [] := by simpa [splitOn] using hpiece
    cases hc
  | d :: cs, piece, hpiece, hc => by
    rw [splitOn] at hpiece
    split at hpiece
    · rcases List.mem_cons.1 hpiece with rfl | hpiece
      · cases hc
      · exact List.mem_cons_of_mem d (mem_of_mem_splitOn hpiece hc)
    · split at hpiece
      · rename_i hnil
        exact absurd hnil (splitOn_ne_nil sep cs)
      · rename_i first rest hsplit
        have hfirst : ∀ {p}, p ∈ first :: rest → c ∈ p → c ∈ cs := fun hp hcp =>
          mem_of_mem_splitOn (hsplit ▸ hp) hcp
        rcases List.mem_cons.1 hpiece with rfl | hpiece
        · rcases List.mem_cons.1 hc with rfl | hc
          · exact List.mem_cons_self
          · exact List.mem_cons_of_mem d (hfirst List.mem_cons_self hc)
        · exact List.mem_cons_of_mem d (hfirst (List.mem_cons_of_mem _ hpiece) hc)

/-- The first piece begins with the first character. -/
theorem exists_splitOn_cons {sep c : Char} (cs : List Char) (h : c ≠ sep) :
    ∃ piece pieces, splitOn sep (c :: cs) = (c :: piece) :: pieces := by
  rw [splitOn, if_neg h]
  cases hsplit : splitOn sep cs with
  | nil => exact ⟨[], [], rfl⟩
  | cons piece pieces => exact ⟨piece, pieces, rfl⟩

theorem trim_sublist (cs : List Char) : (trim cs).Sublist cs := by
  have hback := List.dropWhile_sublist (l := (cs.dropWhile isBlank).reverse) isBlank
  exact (List.reverse_sublist.1 (by rwa [trim, List.reverse_reverse])).trans
    (List.dropWhile_sublist isBlank)

theorem mem_of_mem_trim {c : Char} {cs : List Char} (h : c ∈ trim cs) : c ∈ cs :=
  (trim_sublist cs).mem h

theorem mem_of_mem_cutAt {sep c : Char} : ∀ {cs : List Char}, c ∈ (cutAt sep cs).1 → c ∈ cs
  | [], h => h
  | d :: cs, h => by
    rw [cutAt] at h
    split at h
    · cases h
    · rcases List.mem_cons.1 h with rfl | h
      · exact List.mem_cons_self
      · exact List.mem_cons_of_mem d (mem_of_mem_cutAt h)

/-! ## 2. Segments -/

namespace Segment

/-- A name in a chain is the name of an entry, without backslashes. -/
def Plain : Segment → Prop
  | .name text => IsName text ∧ '\\' ∉ text.toList
  | _ => True

/-- Whether a segment leads to entries. -/
def descends : Segment → Bool
  | .name _ | .wildcard _ => true
  | _ => false

theorem isName_of_piece {piece : List Char} (hne : piece ≠ []) (hdot : piece ≠ ['.'])
    (hdots : piece ≠ ['.', '.']) (hslash : '/' ∉ piece) : IsName (String.ofList piece) := by
  refine ⟨fun h => hne ?_, fun h => hdot ?_, fun h => hdots ?_, ?_⟩
  · simpa using congrArg String.toList h
  · simpa using congrArg String.toList h
  · simpa using congrArg String.toList h
  · rwa [String.toList_ofList]

/-- A piece is no root, and a name in it has only characters of the text. -/
theorem plain_of_mem_ofPieces {cs : List Char} (hplain : '\\' ∉ cs) {segment : Segment}
    (h : segment ∈ ofPieces cs) : segment.Plain ∧ segment.isRoot = false := by
  obtain ⟨piece, hpiece, rfl⟩ := List.mem_map.1 h
  obtain ⟨hsplit, hne⟩ := List.mem_filter.1 hpiece
  have hchars : '\\' ∉ piece := fun hc => hplain (mem_of_mem_splitOn hsplit hc)
  have hslash := not_mem_of_mem_splitOn '/' cs piece hsplit
  rw [ofPiece]
  split
  · exact ⟨trivial, rfl⟩
  · rename_i hdot
    split
    · exact ⟨trivial, rfl⟩
    · rename_i hdots
      split
      · exact ⟨trivial, rfl⟩
      · exact ⟨⟨isName_of_piece (by simpa using hne) hdot hdots hslash, by simpa using hchars⟩, rfl⟩

theorem ofPieces_ne_nil {c : Char} {cs : List Char} (h : c ≠ '/') : ofPieces (c :: cs) ≠ [] := by
  obtain ⟨piece, pieces, hsplit⟩ := exists_splitOn_cons cs h
  rw [ofPieces, hsplit]
  simp

end Segment

/-! ## 3. Selectors -/

/-- Only names and wildcards come after the first name or wildcard. -/
def Selector.UpThenDown (s : Selector) : Prop :=
  ∀ segment ∈ s.segments.dropWhile (!·.descends), segment.descends = true

instance (s : Selector) : Decidable s.UpThenDown :=
  inferInstanceAs (Decidable (∀ segment ∈ s.segments.dropWhile (!·.descends),
    segment.descends = true))

/-- A selector that was read has segments, plain ones if the text has no backslash, and its
root, if it has one, is the first of them. -/
theorem Selector.segments_of_parse? {cs : List Char} (hplain : '\\' ∉ cs) {s : Selector}
    (h : Selector.parse? cs = some s) : s.segments ≠ [] ∧ (∀ seg ∈ s.segments, seg.Plain) ∧
      ∀ seg ∈ s.segments.tail, seg.isRoot = false := by
  have htrim : '\\' ∉ trim cs := fun hc => hplain (mem_of_mem_trim hc)
  have hrooted : ∀ {root : Segment} {rest : List Char}, root.Plain → '\\' ∉ rest →
      root :: Segment.ofPieces rest ≠ [] ∧ (∀ seg ∈ root :: Segment.ofPieces rest, seg.Plain) ∧
        ∀ seg ∈ (root :: Segment.ofPieces rest).tail, seg.isRoot = false := by
    intro root rest hroot hrest
    refine ⟨by simp, fun seg hseg => ?_, fun seg hseg => ?_⟩
    · rcases List.mem_cons.1 hseg with rfl | hseg
      · exact hroot
      · exact (Segment.plain_of_mem_ofPieces hrest hseg).1
    · exact (Segment.plain_of_mem_ofPieces hrest hseg).2
  unfold Selector.parse? at h
  split at h
  · cases h
  · rename_i rest htext
    obtain rfl := Option.some.inj h
    rw [htext] at htrim
    exact hrooted trivial fun hc => htrim (List.mem_cons_of_mem _ (List.mem_cons_of_mem _ hc))
  · rename_i rest _ htext
    obtain rfl := Option.some.inj h
    rw [htext] at htrim
    exact hrooted trivial fun hc => htrim (List.mem_cons_of_mem _ hc)
  · rename_i hnil hdouble hsingle
    obtain rfl := Option.some.inj h
    refine ⟨?_, fun seg hseg => (Segment.plain_of_mem_ofPieces htrim hseg).1,
      fun seg hseg => (Segment.plain_of_mem_ofPieces htrim (List.mem_of_mem_tail hseg)).2⟩
    cases htext : trim cs with
    | nil => exact absurd htext hnil
    | cons c rest => exact Segment.ofPieces_ne_nil fun e => hsingle rest (by rw [htext, e])

/-- The same of the selector of an expression. -/
theorem Expression.segments_of_parse {source : String} {e : Expression} {s : Selector}
    (hplain : '\\' ∉ source.toList) (he : Expression.parse source = .ok e)
    (hs : e.selector = some s) : s.segments ≠ [] ∧ (∀ seg ∈ s.segments, seg.Plain) ∧
      ∀ seg ∈ s.segments.tail, seg.isRoot = false := by
  have hselector : e.selector = Selector.parse? (cutAt ':' source.toList).1 := by
    unfold Expression.parse at he
    dsimp only at he
    split at he
    · rw [← Except.ok.inj he]
    · rename_i cs _
      cases hformula : Formula.parse (String.ofList cs) ((cutAt ':' source.toList).1.length + 1) with
      | error err =>
        rw [hformula] at he
        cases he
      | ok f =>
        rw [hformula] at he
        rw [← Except.ok.inj he]
  rw [hselector] at hs
  exact Selector.segments_of_parse? (fun hc => hplain (mem_of_mem_cutAt hc)) hs

end ShowTree
