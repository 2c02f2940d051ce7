/-
ShowTree.Proofs.Json.RoundTrip — a value that has been written is read again.

The words of a legible value spell that value, whatever brackets are open around it
(`read_words`); with what is known of cutting a text into words, parsing what was written
over several lines gives the value back, also by way of its bytes (`parse?_toLines`). An
integer is legible (`isNumeral_toString`), and reading its spelling gives the integer
(`integer?_toString`).
-/
import ShowTree.Json.Shape
import ShowTree.Proofs.Json.Lexing

namespace ShowTree.Json

open ShowTree.Text (Glyph)

/-! ## 1. Reading words -/

/-- A value does not begin with a closing bracket. -/
theorem words_eq_cons : ∀ j : Json, ∃ w ws, words j = w :: ws ∧ w ≠ .closeArray
  | .null => ⟨_, _, rfl, by simp⟩
  | .truth _ => ⟨_, _, rfl, by simp⟩
  | .number _ => ⟨_, _, rfl, by simp⟩
  | .text _ => ⟨_, _, rfl, by simp⟩
  | .array items => ⟨.openArray, itemWords items ++ [.closeArray], by simp [words], by simp⟩
  | .object members =>
    ⟨.openObject, memberWords members ++ [.closeObject], by simp [words], by simp⟩
  | .garbled => ⟨_, _, rfl, by simp⟩

/-- The first item of an array is read as any other. -/
theorem step_firstItem {w : Token} (h : w ≠ .closeArray) (frames : List Frame) :
    Reading.step (.firstItem frames) w = Reading.step (.awaitValue (.array [] :: frames)) w := by
  cases w <;> first | rfl | exact absurd rfl h

mutual
/-- The words of a value are read as the value, whatever brackets are open. -/
theorem read_words : ∀ j : Json, Legible j → ∀ frames : List Frame,
    (words j).foldlM Reading.step (.awaitValue frames) = some (.complete j frames)
  | .null, _, _ => rfl
  | .truth true, _, _ => rfl
  | .truth false, _, _ => rfl
  | .number literal, h, frames => by
    have hword : literal? (atom (.number literal)) = some (.number literal) := h.1
    simp [words, Reading.step, Reading.startValue, hword]
  | .text _, _, _ => rfl
  | .array [], _, _ => rfl
  | .array (j :: rest), h, frames => by
    obtain ⟨x, done, hread, hitems⟩ := read_itemWords (j :: rest) (by simp) h [] frames
    have hopen : Reading.step (.awaitValue frames) .openArray = some (.firstItem frames) := rfl
    have hfirst : (itemWords (j :: rest)).foldlM Reading.step (.firstItem frames) =
        (itemWords (j :: rest)).foldlM Reading.step (.awaitValue (.array [] :: frames)) := by
      obtain ⟨w, ws, hw, hne⟩ := words_eq_cons j
      have hcons : ∃ ws', itemWords (j :: rest) = w :: ws' := by
        cases rest <;> simp [itemWords, hw]
      obtain ⟨ws', hws'⟩ := hcons
      rw [hws', List.foldlM_cons, List.foldlM_cons, step_firstItem hne]
    rw [words, List.cons_append, List.foldlM_cons, hopen, Option.bind_eq_bind, Option.bind_some,
      List.foldlM_append, hfirst, hread, Option.bind_eq_bind, Option.bind_some]
    simp [Reading.step] at hitems ⊢
    exact hitems
  | .object [], _, _ => rfl
  | .object (m :: rest), h, frames => by
    obtain ⟨x, k, done, hread, hmembers⟩ := read_memberWords (m :: rest) (by simp) h [] frames
    have hopen : Reading.step (.awaitValue frames) .openObject = some (.firstKey frames) := rfl
    have hfirst : (memberWords (m :: rest)).foldlM Reading.step (.firstKey frames) =
        (memberWords (m :: rest)).foldlM Reading.step (.awaitKey (some []) frames) := by
      have hcons : ∃ ws, memberWords (m :: rest) = .text (some m.1) :: ws := by
        obtain ⟨k, j⟩ := m
        cases rest <;> simp [memberWords]
      obtain ⟨ws, hws⟩ := hcons
      rw [hws]
      rfl
    rw [words, List.cons_append, List.foldlM_cons, hopen, Option.bind_eq_bind, Option.bind_some,
      List.foldlM_append, hfirst, hread, Option.bind_eq_bind, Option.bind_some]
    simp [Reading.step, Members.add, Members.close] at hmembers ⊢
    exact hmembers
  | .garbled, h, _ => h.elim

/-- The words of items are read up to the last one. -/
theorem read_itemWords : ∀ items : List Json, items ≠ [] → LegibleItems items →
    ∀ (done : List Json) (frames : List Frame), ∃ x done',
      (itemWords items).foldlM Reading.step (.awaitValue (.array done :: frames)) =
        some (.complete x (.array done' :: frames)) ∧
      (x :: done').reverse = done.reverse ++ items
  | [], hne, _, _, _ => absurd rfl hne
  | [j], _, h, done, frames => ⟨j, done, read_words j h.1 _, by simp⟩
  | j :: second :: rest, _, h, done, frames => by
    obtain ⟨x, done', hread, hitems⟩ :=
      read_itemWords (second :: rest) (by simp) h.2 (j :: done) frames
    refine ⟨x, done', ?_, by simpa using hitems⟩
    rw [itemWords, List.foldlM_append, read_words j h.1, Option.bind_eq_bind, Option.bind_some]
    exact hread
    simp

/-- The words of members are read up to the last one. -/
theorem read_memberWords : ∀ members : List (String × Json), members ≠ [] →
    LegibleMembers members → ∀ (done : List (String × Json)) (frames : List Frame), ∃ x k done',
      (memberWords members).foldlM Reading.step (.awaitKey (some done) frames) =
        some (.complete x (.object (some done') (some k) :: frames)) ∧
      ((k, x) :: done').reverse = done.reverse ++ members
  | [], hne, _, _, _ => absurd rfl hne
  | [(k, j)], _, h, done, frames => by
    refine ⟨j, k, done, ?_, by simp⟩
    have hvalue := read_words j h.1 (.object (some done) (some k) :: frames)
    exact hvalue
  | (k, j) :: second :: rest, _, h, done, frames => by
    obtain ⟨x, k', done', hread, hmembers⟩ :=
      read_memberWords (second :: rest) (by simp) h.2 ((k, j) :: done) frames
    refine ⟨x, k', done', ?_, by simpa using hmembers⟩
    have hvalue := read_words j h.1 (.object (some done) (some k) :: frames)
    have hfirst : (Token.text (some k) :: .colon :: words j).foldlM Reading.step
        (.awaitKey (some done) frames) =
        some (.complete j (.object (some done) (some k) :: frames)) := hvalue
    rw [memberWords, List.foldlM_append, hfirst, Option.bind_eq_bind, Option.bind_some]
    exact hread
    simp
end

theorem glyphs_toUTF8 (s : String) : Glyph.ofBytes s.toUTF8 = s.toList.map .char := by
  have hvalid : String.fromUTF8? s.toUTF8 = some s := by
    have h : s.toUTF8.IsValidUTF8 := s.isValidUTF8
    rw [String.fromUTF8?, dif_pos h]
    rfl
  rw [Glyph.ofBytes, hvalid]

/-- A legible value that has been written over several lines is read again. -/
theorem parse?_toLines {j : Json} (h : Legible j) :
    parse? (Glyph.ofBytes j.toLines.toUTF8) = some j := by
  rw [parse?, glyphs_toUTF8, toLines, String.toList_ofList, tokens?_pretty h, Option.bind_eq_bind,
    Option.bind_some, ofTokens?, read_words j h []]

/-! ## 2. Integers -/

/-- The digits of a number. -/
abbrev digits (n : Nat) : List Char :=
  Nat.toDigits 10 n

theorem isDigit_of_mem_digits {n : Nat} {c : Char} (h : c ∈ digits n) : c.isDigit = true :=
  Nat.isDigit_of_mem_toDigits (by decide) (by decide) h

/-- A number is spelled without a zero in front. -/
theorem digits_eq_cons (n : Nat) : ∃ c cs, digits n = c :: cs ∧ (c = '0' → cs = []) := by
  induction n using Nat.strongRecOn with
  | ind n ih =>
    by_cases h : n < 10
    · exact ⟨n.digitChar, [], Nat.toDigits_of_lt_base h, fun _ => rfl⟩
    · obtain ⟨c, cs, hcs, hzero⟩ := ih (n / 10) (by omega)
      refine ⟨c, cs ++ [(n % 10).digitChar], ?_, ?_⟩
      · rw [digits, Nat.toDigits_of_base_le (by decide) (by omega), ← digits, hcs]
        rfl
      · intro hc
        have hvalue : Nat.ofDigitChars 10 (digits (n / 10)) 0 = n / 10 :=
          Nat.ofDigitChars_ten_toDigits
        rw [hcs, hc, hzero hc] at hvalue
        simp [Nat.ofDigitChars] at hvalue
        omega

theorem isNumber_digits (n : Nat) :
    isNumber (digits n) = true ∧ isNumber ('-' :: digits n) = true := by
  obtain ⟨c, cs, hcs, hzero⟩ := digits_eq_cons n
  have hdigit : ∀ d ∈ c :: cs, d.isDigit = true := fun d hd =>
    isDigit_of_mem_digits (hcs ▸ hd)
  have hminus : c ≠ '-' := by
    rintro rfl
    exact absurd (hdigit '-' (by simp)) (by decide)
  have hwhole : afterWhole? (c :: cs) = some [] := by
    by_cases hc : c = '0'
    · rw [hc, hzero hc]
      rfl
    · have hrest : ∀ ds : List Char, (∀ d ∈ ds, d.isDigit = true) →
          ds.dropWhile Char.isDigit = [] := by
        intro ds
        induction ds with
        | nil => simp
        | cons d ds ih =>
          intro h
          rw [List.dropWhile_cons_of_pos (h d (by simp))]
          exact ih fun e he => h e (by simp [he])
      unfold afterWhole?
      split
      · rename_i heq
        exact absurd (List.cons.inj heq).1 hc
      · rw [afterDigits?, hrest _ hdigit]
        simp [hdigit c]
  have hnumber : ((afterWhole? (c :: cs) >>= afterFraction?) >>= afterExponent?) == some [] := by
    rw [hwhole]
    rfl
  rw [hcs]
  refine ⟨?_, hnumber⟩
  unfold isNumber
  split
  · rename_i heq
    exact absurd (List.cons.inj heq).1 hminus
  · exact hnumber

/-- The spelling of an integer: its digits, after a minus if there is one. -/
theorem toList_toString (i : Int) :
    (toString i).toList = if i < 0 then '-' :: digits i.natAbs else digits i.natAbs := by
  cases i with
  | ofNat n =>
    have hneg : ¬ Int.ofNat n < 0 := by simp
    rw [if_neg hneg]
    exact Nat.toList_repr
  | negSucc n =>
    have hneg : Int.negSucc n < 0 := Int.negSucc_lt_zero n
    have happend : (toString (Int.negSucc n)).toList = '-' :: (Nat.repr (n + 1)).toList := by
      rw [Int.toString_eq_repr, Int.repr, String.toList_append]
      rfl
    rw [if_pos hneg, happend, Nat.toList_repr]
    rfl

theorem literal?_of_isNumber {cs : List Char} (h : isNumber cs = true)
    (hhead : ∀ c ∈ cs.head?, c = '-' ∨ c.isDigit = true) :
    literal? cs = some (.number (String.ofList cs)) := by
  have hne : ∀ (word : List Char) (c : Char), word.head? = some c → c ≠ '-' → c.isDigit = false →
      cs ≠ word := by
    rintro word c hword hminus hdigit rfl
    rcases hhead c hword with h | h
    · exact hminus h
    · rw [hdigit] at h
      cases h
  rw [literal?, if_neg (hne _ 'n' rfl (by decide) (by decide)),
    if_neg (hne _ 't' rfl (by decide) (by decide)), if_neg (hne _ 'f' rfl (by decide) (by decide)),
    if_pos h]

/-- A digit is no mark and no blank, and is told by its code. -/
theorem isDigit_plain {c : Char} (h : c.isDigit = true) :
    isGap c = false ∧ c ≠ '"' ∧ punctuation? c = none := by
  have hall : ∀ k : Fin 10, isGap (Char.ofNat (48 + k)) = false ∧ Char.ofNat (48 + k) ≠ '"' ∧
      punctuation? (Char.ofNat (48 + k)) = none := by decide
  obtain ⟨hlow, hhigh⟩ := Char.isDigit_iff_toNat.1 h
  have hlow : 48 ≤ c.toNat := hlow
  have hhigh : c.toNat ≤ 57 := hhigh
  have hc : Char.ofNat (48 + (c.toNat - 48)) = c := by
    rw [show 48 + (c.toNat - 48) = c.toNat by omega, Char.ofNat_toNat]
  rw [← hc]
  exact hall ⟨c.toNat - 48, by omega⟩

/-- The spelling of an integer can be read again. -/
theorem isNumeral_toString (i : Int) : IsNumeral (toString i) := by
  obtain ⟨c, cs, hcs, -⟩ := digits_eq_cons i.natAbs
  have hchars : ∀ d ∈ (toString i).toList, d = '-' ∨ d.isDigit = true := by
    intro d hd
    rw [toList_toString] at hd
    split at hd
    · rcases List.mem_cons.1 hd with rfl | hd
      · exact .inl rfl
      · exact .inr (isDigit_of_mem_digits hd)
    · exact .inr (isDigit_of_mem_digits hd)
  have hnumber : isNumber (toString i).toList = true := by
    rw [toList_toString]
    split
    · exact (isNumber_digits i.natAbs).2
    · exact (isNumber_digits i.natAbs).1
  refine ⟨?_, ?_, ?_⟩
  · have h := literal?_of_isNumber hnumber fun c hc => hchars c (List.mem_of_mem_head? hc)
    rwa [String.ofList_toList] at h
  · rw [toList_toString, hcs]
    split <;> simp
  · intro d hd
    rcases hchars d hd with rfl | hdigit
    · decide
    · exact isDigit_plain hdigit

/-- Reading the spelling of an integer gives the integer. -/
theorem integer?_toString (i : Int) : integer? (.number (toString i)) = some i := by
  have hall : (digits i.natAbs).all Decimal.isDigit = true := by
    rw [List.all_eq_true]
    intro c hc
    have hdigit := isDigit_of_mem_digits hc
    rw [Char.isDigit] at hdigit
    simpa [Decimal.isDigit, Char.le_def] using hdigit
  have hvalue : Decimal.valueOf (digits i.natAbs) = i.natAbs :=
    Nat.ofDigitChars_ten_toDigits
  rw [integer?, toList_toString]
  by_cases hneg : i < 0
  · have hne : i.natAbs ≠ 0 := by omega
    have habs : -(i.natAbs : Int) = i := by omega
    simp only [if_pos hneg, hall, hvalue]
    rw [if_pos (by simp [hne]), habs]
  · obtain ⟨c, cs, hcs, -⟩ := digits_eq_cons i.natAbs
    have hminus : c ≠ '-' := by
      rintro rfl
      exact absurd (isDigit_of_mem_digits (n := i.natAbs) (c := '-') (by simp [hcs])) (by decide)
    simp only [if_neg hneg]
    split
    · rename_i heq
      rw [hcs] at heq
      exact absurd (List.cons.inj heq).1 hminus
    · rw [if_pos hall, hvalue]
      congr 1
      omega

end ShowTree.Json
