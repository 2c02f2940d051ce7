/-
ShowTree.Text.Split — cutting a text at a separator, and joining the pieces again.

Cutting keeps empty pieces, so nothing is lost: the pieces joined by the separator are
the text (`join_splitOn`), and no piece holds the separator (`not_mem_of_mem_splitOn`).
The other way round, pieces without the separator are found again (`splitOn_join`).
-/

namespace ShowTree.Text

/-- The pieces of a text between the occurrences of `sep`. There is always at least one. -/
def splitOn (sep : Char) : List Char → List (List Char)
  | [] => [[]]
  | c :: cs =>
    if c = sep then [] :: splitOn sep cs
    else
      match splitOn sep cs with
      | [] => [[c]]
      | piece :: pieces => (c :: piece) :: pieces

/-- The pieces in one text, with `sep` between neighbours. -/
def join (sep : List Char) : List (List Char) → List Char
  | [] => []
  | [piece] => piece
  | piece :: pieces => piece ++ sep ++ join sep pieces

/-- A text cut at the first `sep`: what stands before it, and what follows it if it occurs. -/
def cutAt (sep : Char) : List Char → List Char × Option (List Char)
  | [] => ([], none)
  | c :: cs =>
    if c = sep then ([], some cs)
    else ((c :: (cutAt sep cs).1), (cutAt sep cs).2)

/-- The texts in one, with `sep` between neighbours. -/
def joinTexts (sep : String) (texts : List String) : String :=
  String.ofList (join sep.toList (texts.map String.toList))

theorem splitOn_ne_nil (sep : Char) (cs : List Char) : splitOn sep cs ≠ [] := by
  cases cs with
  | nil => simp [splitOn]
  | cons c cs =>
    simp only [splitOn]
    split
    · simp
    · split <;> simp

theorem not_mem_of_mem_splitOn (sep : Char) :
    ∀ (cs : List Char), ∀ piece ∈ splitOn sep cs, sep ∉ piece
  | [], piece, h => by simp [splitOn] at h; simp [h]
  | c :: cs, piece, h => by
    have ih := not_mem_of_mem_splitOn sep cs
    simp only [splitOn] at h
    split at h
    · rcases List.mem_cons.1 h with rfl | h
      · simp
      · exact ih piece h
    · rename_i hc
      split at h
      · rename_i heq
        exact absurd heq (splitOn_ne_nil sep cs)
      · rename_i first rest heq
        rcases List.mem_cons.1 h with rfl | h
        · simp only [List.mem_cons, not_or]
          exact ⟨fun e => hc e.symm, ih first (by simp [heq])⟩
        · exact ih piece (by simp [heq, h])

theorem join_splitOn (sep : Char) : ∀ cs : List Char, join [sep] (splitOn sep cs) = cs
  | [] => by simp [splitOn, join]
  | c :: cs => by
    have ih := join_splitOn sep cs
    have hne := splitOn_ne_nil sep cs
    simp only [splitOn]
    split
    · rename_i hc
      cases hs : splitOn sep cs with
      | nil => exact absurd hs hne
      | cons first rest => simp [join, ← hs, ih, hc]
    · cases hs : splitOn sep cs with
      | nil => exact absurd hs hne
      | cons first rest =>
        rw [hs] at ih
        cases rest with
        | nil => simp_all [join]
        | cons second rest => simp_all [join]

/-- A piece without the separator is not cut. -/
theorem splitOn_eq_singleton {sep : Char} :
    ∀ {piece : List Char}, sep ∉ piece → splitOn sep piece = [piece]
  | [], _ => rfl
  | c :: cs, h => by
    have hc : c ≠ sep := fun e => h (by simp [e])
    have ih := splitOn_eq_singleton (fun m => h (List.mem_cons_of_mem c m))
    simp [splitOn, hc, ih]

/-- A text is cut at every separator, so its two sides are cut on their own. -/
theorem splitOn_append_sep (sep : Char) (ds : List Char) :
    ∀ cs : List Char, splitOn sep (cs ++ sep :: ds) = splitOn sep cs ++ splitOn sep ds
  | [] => by simp [splitOn]
  | c :: cs => by
    have ih := splitOn_append_sep sep ds cs
    simp only [List.cons_append, splitOn, ih]
    split
    · rfl
    · cases hs : splitOn sep cs with
      | nil => exact absurd hs (splitOn_ne_nil sep cs)
      | cons first rest => rfl

theorem splitOn_append_cons {sep : Char} (cs : List Char) {piece : List Char} (h : sep ∉ piece) :
    splitOn sep (piece ++ sep :: cs) = piece :: splitOn sep cs := by
  rw [splitOn_append_sep, splitOn_eq_singleton h, List.singleton_append]

/-- Cutting undoes joining, for at least one piece and none with the separator in it. -/
theorem splitOn_join {sep : Char} :
    ∀ {pieces : List (List Char)}, pieces ≠ [] → (∀ piece ∈ pieces, sep ∉ piece) →
      splitOn sep (join [sep] pieces) = pieces
  | [], hne, _ => absurd rfl hne
  | [piece], _, h => splitOn_eq_singleton (h piece (by simp))
  | piece :: second :: rest, _, h => by
    have ih := @splitOn_join _ (second :: rest) (by simp)
      (fun p hp => h p (List.mem_cons_of_mem piece hp))
    simp only [join, List.append_assoc, List.singleton_append]
    rw [splitOn_append_cons _ (h piece (by simp)), ih]

/-- Joining all pieces is joining the first and the last of them. -/
theorem join_append (sep : List Char) :
    ∀ {front back : List (List Char)}, front ≠ [] → back ≠ [] →
      join sep (front ++ back) = join sep front ++ sep ++ join sep back
  | [], _, hne, _ => absurd rfl hne
  | [piece], [], _, hne => absurd rfl hne
  | [piece], second :: rest, _, _ => rfl
  | piece :: second :: rest, back, _, hback => by
    have ih := @join_append sep (second :: rest) back (by simp) hback
    simp only [List.cons_append] at ih
    simp only [List.cons_append, join, ih, List.append_assoc]

theorem join_concat (sep last : List Char) {pieces : List (List Char)} (h : pieces ≠ []) :
    join sep (pieces ++ [last]) = join sep pieces ++ sep ++ last :=
  join_append sep h (by simp)

/-- A text is cut at its first separator, if that occurs in it. -/
theorem cutAt_eq_some_iff {sep : Char} : ∀ {cs front back : List Char},
    cutAt sep cs = (front, some back) ↔ cs = front ++ sep :: back ∧ sep ∉ front
  | [], front, back => by simp [cutAt]
  | c :: cs, front, back => by
    have ih := @cutAt_eq_some_iff sep cs
    rw [cutAt]
    split
    · rename_i hc
      constructor
      · intro h
        cases h
        exact ⟨by rw [hc, List.nil_append], List.not_mem_nil⟩
      · rintro ⟨hcs, hfront⟩
        cases front with
        | nil => rw [(List.cons.inj hcs).2]
        | cons d front => exact absurd ((List.cons.inj hcs).1 ▸ hc) fun e => hfront (by simp [e])
    · rename_i hc
      constructor
      · intro h
        obtain ⟨rfl, hback⟩ := Prod.mk.inj h
        obtain ⟨hcs, hfront⟩ := ih.1 (Prod.ext rfl hback)
        refine ⟨by rw [List.cons_append, ← hcs], fun hmem => ?_⟩
        rcases List.mem_cons.1 hmem with rfl | hmem
        · exact hc rfl
        · exact hfront hmem
      · rintro ⟨hcs, hfront⟩
        cases front with
        | nil => exact absurd (List.cons.inj hcs).1 hc
        | cons d front =>
          obtain ⟨rfl, hrest⟩ := List.cons.inj hcs
          rw [ih.2 ⟨hrest, fun hmem => hfront (List.mem_cons_of_mem c hmem)⟩]

/-- A text without the separator is not cut. -/
theorem cutAt_eq_of_not_mem {sep : Char} : ∀ {cs : List Char}, sep ∉ cs → cutAt sep cs = (cs, none)
  | [], _ => rfl
  | c :: cs, h => by
    obtain ⟨hc, hcs⟩ := not_or.1 (fun hm => h (List.mem_cons.2 hm))
    rw [cutAt, if_neg fun e => hc e.symm, cutAt_eq_of_not_mem hcs]

end ShowTree.Text
