/-
ShowTree.Proofs.Selector.RoundTrip — a selector is read back from what is shown of it.

What is shown of a selector is its text without the blanks around it and without the slashes
that say nothing, and from that its segments are read again (`Segment.ofTarget_displayAll`). But
slashes also part a blank from the end of the text. Where they are gone the blank is at the end
when the text is shown, and is lost when that is read: this is the only way in which it reads as
another selector (`Selector.parse?_display_iff`).
-/
import ShowTree.Proofs.Selector.Target

namespace ShowTree

open ShowTree.Text

/-! ## 1. Trimmed texts -/

namespace Text

theorem head?_dropWhile_isBlank (cs : List Char) :
    (cs.dropWhile isBlank).head?.any isBlank = false := by
  induction cs with
  | nil => rfl
  | cons c cs ih =>
    by_cases hc : isBlank c = true
    · rw [List.dropWhile_cons_of_pos hc, ih]
    · rw [List.dropWhile_cons_of_neg hc]
      simpa using hc

theorem getLast?_trim (cs : List Char) : (trim cs).getLast?.any isBlank = false := by
  rw [trim, List.getLast?_reverse, head?_dropWhile_isBlank]

theorem head?_trim (cs : List Char) : (trim cs).head?.any isBlank = false := by
  have hfront : trim cs <+: cs.dropWhile isBlank := by
    rw [trim, ← List.reverse_suffix, List.reverse_reverse]
    exact List.dropWhile_suffix isBlank
  obtain ⟨back, hback⟩ := hfront
  cases htrim : trim cs with
  | nil => rfl
  | cons c rest =>
    have hhead := head?_dropWhile_isBlank cs
    rwa [← hback, htrim] at hhead

theorem trim_trim (cs : List Char) : trim (trim cs) = trim cs :=
  trim_eq_self (head?_trim cs) (getLast?_trim cs)

/-- A text that ends in a blank is longer than what is left of it. -/
theorem length_trim_lt {cs : List Char} (h : cs.getLast?.any isBlank = true) :
    (trim cs).length < cs.length := by
  refine Nat.lt_of_le_of_ne (trim_sublist cs).length_le fun hlength => ?_
  have hlast := getLast?_trim cs
  rw [(trim_sublist cs).eq_of_length hlength, h] at hlast
  cases hlast

/-! ## 2. Joined pieces -/

theorem join_cons_cons (sep piece second : List Char) (rest : List (List Char)) :
    join sep (piece :: second :: rest) = piece ++ sep ++ join sep (second :: rest) :=
  rfl

/-- Joining fewer pieces leaves characters out. -/
theorem join_sublist {sep : List Char} {fewer all : List (List Char)} (h : fewer.Sublist all) :
    (join sep fewer).Sublist (join sep all) := by
  induction h with
  | slnil => exact List.Sublist.refl _
  | @cons fewer all piece h ih =>
    cases all with
    | nil =>
      rw [List.sublist_nil.1 h]
      exact List.nil_sublist _
    | cons second rest => exact ih.trans (List.sublist_append_right _ _)
  | @cons_cons fewer all piece h ih =>
    cases all with
    | nil =>
      rw [List.sublist_nil.1 h]
    | cons second rest =>
      cases fewer with
      | nil =>
        rw [join_cons_cons, List.append_assoc]
        exact List.sublist_append_left _ _
      | cons first others => exact ih.append_left (piece ++ sep)

theorem head?_join_cons {sep piece : List Char} (h : piece ≠ []) (rest : List (List Char)) :
    (join sep (piece :: rest)).head? = piece.head? := by
  obtain ⟨c, cs, rfl⟩ := List.exists_cons_of_ne_nil h
  cases rest <;> rfl

end Text

/-! ## 3. Pieces that say something -/

namespace Segment

/-- The pieces between slashes that stand for segments. -/
def saidPieces (cs : List Char) : List (List Char) :=
  (splitOn '/' cs).filter (!·.isEmpty)

/-- A text without the slashes that say nothing. -/
def tidy (cs : List Char) : List Char :=
  join ['/'] (saidPieces cs)

theorem of_mem_saidPieces {cs piece : List Char} (h : piece ∈ saidPieces cs) :
    piece ≠ [] ∧ '/' ∉ piece := by
  obtain ⟨hsplit, hne⟩ := List.mem_filter.1 h
  exact ⟨by simpa using hne, not_mem_of_mem_splitOn '/' cs piece hsplit⟩

theorem tidy_sublist (cs : List Char) : (tidy cs).Sublist cs := by
  have hall : (join ['/'] (saidPieces cs)).Sublist (join ['/'] (splitOn '/' cs)) :=
    join_sublist List.filter_sublist
  rwa [join_splitOn] at hall

theorem saidPieces_tidy (cs : List Char) : saidPieces (tidy cs) = saidPieces cs := by
  by_cases hnone : saidPieces cs = []
  · rw [tidy, hnone]
    rfl
  · have hsplit : splitOn '/' (tidy cs) = saidPieces cs :=
      splitOn_join hnone fun piece hpiece => (of_mem_saidPieces hpiece).2
    rw [saidPieces, hsplit, List.filter_eq_self]
    intro piece hpiece
    simpa using (of_mem_saidPieces hpiece).1

theorem ofPieces_tidy (cs : List Char) : ofPieces (tidy cs) = ofPieces cs :=
  congrArg (List.map ofPiece) (saidPieces_tidy cs)

theorem head?_tidy {cs : List Char} (h : cs.head? ≠ some '/') : (tidy cs).head? = cs.head? := by
  cases cs with
  | nil => rfl
  | cons c cs =>
    have hc : c ≠ '/' := fun e => h (by rw [e]; rfl)
    obtain ⟨piece, pieces, hsplit⟩ := exists_splitOn_cons cs hc
    rw [tidy, saidPieces, hsplit, List.filter_cons_of_pos (by simp),
      head?_join_cons (List.cons_ne_nil c piece)]
    rfl

theorem head?_tidy_ne (cs : List Char) : (tidy cs).head? ≠ some '/' := by
  cases hsaid : saidPieces cs with
  | nil =>
    rw [tidy, hsaid]
    simp [join]
  | cons piece rest =>
    have hfirst : piece ∈ saidPieces cs := by rw [hsaid]; exact List.mem_cons_self
    obtain ⟨hne, hslash⟩ := of_mem_saidPieces hfirst
    rw [tidy, hsaid, head?_join_cons hne]
    exact fun h => hslash (List.mem_of_mem_head? h)

/-! ## 4. What is shown of segments -/

/-- A piece is shown as it is written. -/
theorem toList_display_ofPiece (piece : List Char) : (ofPiece piece).display.toList = piece := by
  rw [ofPiece]
  split
  · rename_i hdot
    rw [hdot]
    rfl
  · split
    · rename_i hdots
      rw [hdots]
      rfl
    · split <;> exact String.toList_ofList

theorem isRoot_ofPiece (piece : List Char) : (ofPiece piece).isRoot = false := by
  rw [ofPiece]
  repeat' split
  all_goals rfl

theorem toList_displayAll_pieces : ∀ pieces : List (List Char),
    (displayAll (pieces.map ofPiece)).toList = join ['/'] pieces
  | [] => rfl
  | [piece] => toList_display_ofPiece piece
  | piece :: second :: rest => by
    have ih := toList_displayAll_pieces (second :: rest)
    rw [List.map_cons] at ih
    rw [List.map_cons, List.map_cons, displayAll, isRoot_ofPiece, String.toList_append,
      String.toList_append, toList_display_ofPiece, ih]
    · rfl
    · simp

theorem toList_displayAll_root {root : Segment} (h : root.isRoot = true) (segments : List Segment) :
    (displayAll (root :: segments)).toList = root.display.toList ++ (displayAll segments).toList := by
  cases segments with
  | nil => simp [displayAll]
  | cons segment rest => simp [displayAll, h]

theorem toList_displayAll_ofPieces (cs : List Char) :
    (displayAll (ofPieces cs)).toList = tidy cs :=
  toList_displayAll_pieces (saidPieces cs)

/-- What is shown of the segments of a text is the text without some of its slashes, begins as
the text does, and has the same segments. -/
theorem ofTarget_displayAll (cs : List Char) :
    (displayAll (ofTarget cs)).toList.Sublist cs ∧
      (displayAll (ofTarget cs)).toList.head? = cs.head? ∧
      ofTarget (displayAll (ofTarget cs)).toList = ofTarget cs := by
  rcases ofTarget_cases cs with ⟨rest, rfl, he⟩ | ⟨rest, rfl, -, he⟩ | ⟨hfirst, he⟩
  · have hshown : (displayAll (.showRoot :: ofPieces rest)).toList = '/' :: '/' :: tidy rest := by
      rw [toList_displayAll_root rfl, toList_displayAll_ofPieces]
      rfl
    rw [he, hshown]
    exact ⟨((tidy_sublist rest).cons_cons _).cons_cons _, rfl,
      congrArg (Segment.showRoot :: ·) (ofPieces_tidy rest)⟩
  · have hshown : (displayAll (.fileRoot :: ofPieces rest)).toList = '/' :: tidy rest := by
      rw [toList_displayAll_root rfl, toList_displayAll_ofPieces]
      rfl
    rw [he, hshown, ofTarget_slash (head?_tidy_ne rest), ofPieces_tidy]
    exact ⟨(tidy_sublist rest).cons_cons _, rfl, rfl⟩
  · rw [he, toList_displayAll_ofPieces, ofTarget_of_head? (head?_tidy_ne cs), ofPieces_tidy]
    exact ⟨tidy_sublist cs, head?_tidy hfirst, rfl⟩

theorem ofTarget_ne_nil {cs : List Char} (h : cs ≠ []) : ofTarget cs ≠ [] := by
  rcases ofTarget_cases cs with ⟨rest, -, he⟩ | ⟨rest, -, -, he⟩ | ⟨hfirst, he⟩
  · rw [he]
    exact List.cons_ne_nil _ _
  · rw [he]
    exact List.cons_ne_nil _ _
  · obtain ⟨c, cs, rfl⟩ := List.exists_cons_of_ne_nil h
    rw [he]
    exact ofPieces_ne_nil fun e => hfirst (by rw [e]; rfl)

end Segment

/-! ## 5. Selectors -/

namespace Selector

open Segment (ofTarget)

/-- What is read is what is left of the text when it is trimmed. -/
theorem parse?_eq_some_iff {cs : List Char} {s : Selector} :
    parse? cs = some s ↔ trim cs ≠ [] ∧ s = ⟨ofTarget (trim cs)⟩ := by
  have hparse : parse? (trim cs) = parse? cs := by rw [parse?, trim_trim, parse?]
  rw [← hparse]
  by_cases hnone : trim cs = []
  · rw [hnone]
    simp [parse?, trim]
  · rw [parse?_of_trim (trim_trim cs) hnone, Option.some.injEq, eq_comm]
    exact (and_iff_right hnone).symm

/-- A selector that was read from a text has segments. It is read again from what is shown of it,
unless that ends in a blank, and then it is not. -/
theorem parse?_display_iff {cs : List Char} {s : Selector} (h : parse? cs = some s) :
    s.segments ≠ [] ∧
      (parse? s.display.toList = some s ↔ s.display.toList.getLast?.any isBlank = false) := by
  obtain ⟨hne, rfl⟩ := parse?_eq_some_iff.1 h
  obtain ⟨-, hhead, hagain⟩ := Segment.ofTarget_displayAll (trim cs)
  refine ⟨Segment.ofTarget_ne_nil hne, ?_⟩
  rw [display, parse?_eq_some_iff]
  generalize hshown : (Segment.displayAll (ofTarget (trim cs))).toList = shown at hhead hagain
  constructor
  · rintro ⟨-, hsame⟩
    -- nothing was lost, so nothing was trimmed
    have hle : shown.length ≤ (trim shown).length := by
      have hsub := (Segment.ofTarget_displayAll (trim shown)).1
      rw [← Selector.mk.inj hsame, hshown] at hsub
      exact hsub.length_le
    refine Bool.eq_false_iff.2 fun hlast => ?_
    exact Nat.not_lt_of_le hle (length_trim_lt hlast)
  · intro hlast
    have htrim : trim shown = shown := trim_eq_self (hhead ▸ head?_trim cs) hlast
    rw [htrim, hagain]
    refine ⟨fun hnone => hne ?_, rfl⟩
    rw [hnone] at hhead
    exact List.head?_eq_none_iff.1 hhead.symm

/-- For instance with slashes that say nothing, stars, and blanks inside and around; and with a
slash at the end that hides a blank. -/
theorem parse?_display_iff_blanks :
    let s : Selector := ⟨[.showRoot, .name " a ", .up 0, .wildcard "*\t.b", .up 1]⟩
    let t : Selector := ⟨[.fileRoot, .name "a", .name ". "]⟩
    parse? " /// a /.//*\t.b/../ ".toList = some s ∧ s.segments ≠ [] ∧
      parse? s.display.toList = some s ∧
      parse? "/a/. /".toList = some t ∧ parse? t.display.toList ≠ some t := by
  intro s t
  have hs : parse? " /// a /.//*\t.b/../ ".toList = some s := by decide +kernel
  have ht : parse? "/a/. /".toList = some t := by decide +kernel
  obtain ⟨hne, hread⟩ := parse?_display_iff hs
  refine ⟨hs, hne, hread.2 (by decide +kernel), ht, fun hagain => ?_⟩
  exact absurd ((parse?_display_iff ht).2.1 hagain) (by decide +kernel)

end Selector

end ShowTree
