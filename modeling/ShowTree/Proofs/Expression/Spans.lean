/-
ShowTree.Proofs.Expression.Spans — no character of a formula is lost.

A word is taken as far as it goes, and what was taken is a word on its own, whatever came after
it (`Lexeme.at?_take`): a number that is cut out of its text has the same digits, point and
letters again (`Lexeme.numberAt_numberAt`), and a text in quotes has its second quote with it. So
the words of a text stand in stretches of it that do not meet, one for each word and in their
order, and all that lies between them is blank (`Token.laid_of_ofText`).
-/
import Mathlib.Data.List.Forall2
import Mathlib.Data.List.TakeWhile
import ShowTree.Proofs.Expression.Culprit

namespace ShowTree

open ShowTree.Decimal (isDigit parseFloat?)
open ShowTree.Text (isBlank startsWord continuesWord)

/-! ## 1. Numbers on their own -/

section Stretches

variable {p : Char → Bool} {front back cs : List Char}

/-- All of a stretch is taken, and no more where nothing can be taken after it. -/
theorem takeWhile_append_of_stop (hfront : ∀ c ∈ front, p c = true) (hback : back.takeWhile p = []) :
    (front ++ back).takeWhile p = front := by
  rw [List.takeWhile_append_of_pos hfront, hback, List.append_nil]

theorem takeWhile_dropWhile (p : Char → Bool) (cs : List Char) :
    (cs.dropWhile p).takeWhile p = [] := by
  induction cs with
  | nil => rfl
  | cons c cs ih =>
    by_cases hc : p c = true
    · rw [List.dropWhile_cons_of_pos hc, ih]
    · rw [List.dropWhile_cons_of_neg hc, List.takeWhile_cons_of_neg hc]

theorem takeWhile_eq_nil_of_prefix (h : front <+: cs) (hcs : cs.takeWhile p = []) :
    front.takeWhile p = [] := by
  obtain ⟨back, rfl⟩ := h
  cases front with
  | nil => rfl
  | cons c front =>
    by_cases hc : p c = true
    · rw [List.cons_append, List.takeWhile_cons_of_pos hc] at hcs
      cases hcs
    · exact List.takeWhile_cons_of_neg hc

end Stretches

namespace Lexeme

theorem fractionAt_append {d : Char} {digits back : List Char} (hd : isDigit d = true)
    (hdigits : ∀ c ∈ digits, isDigit c = true) (hback : back.takeWhile isDigit = []) :
    fractionAt ('.' :: d :: digits ++ back) = '.' :: d :: digits := by
  have hall : ∀ c ∈ d :: digits, isDigit c = true := List.forall_mem_cons.2 ⟨hd, hdigits⟩
  have hstop := takeWhile_append_of_stop hall hback
  rw [List.cons_append, List.cons_append, fractionAt, if_pos hd, ← List.cons_append, hstop]

theorem afterDigits_eq {cs fraction back : List Char} (hcs : cs = fraction ++ back)
    (h : fractionAt cs = fraction) : afterDigits cs = fraction ++ back.takeWhile continuesWord := by
  rw [afterDigits, h, hcs, List.drop_left]

/-- What came after the first digits of a number comes after them when it stands alone. -/
theorem afterDigits_afterDigits (cs : List Char) : afterDigits (afterDigits cs) = afterDigits cs := by
  -- the letters that were taken are taken again
  have hletters : ∀ back : List Char, (back.takeWhile continuesWord).takeWhile continuesWord =
      back.takeWhile continuesWord := fun back =>
    List.takeWhile_eq_self_iff.2 fun c => List.mem_takeWhile_imp
  rcases fractionAt_cases cs with hnone | ⟨d, rest, hd, rfl, hsome⟩
  · have hagain : fractionAt (cs.takeWhile continuesWord) = [] := by
      rcases fractionAt_cases (cs.takeWhile continuesWord) with h | ⟨d, rest, -, hpoint, -⟩
      · exact h
      · have hword : continuesWord '.' = true :=
          List.mem_takeWhile_imp (hpoint ▸ List.mem_cons_self)
        exact absurd hword (by decide)
    have hnothing : ∀ {ds : List Char}, fractionAt ds = [] →
        afterDigits ds = ds.takeWhile continuesWord := fun h =>
      afterDigits_eq (List.nil_append _).symm h
    rw [hnothing hnone, hnothing hagain, hletters]
  · have hcs : '.' :: d :: rest =
        '.' :: d :: rest.takeWhile isDigit ++ rest.dropWhile isDigit := by
      rw [List.cons_append, List.cons_append, List.takeWhile_append_dropWhile]
    have hdigits : ∀ c ∈ rest.takeWhile isDigit, isDigit c = true := fun c => List.mem_takeWhile_imp
    have hstop : ((rest.dropWhile isDigit).takeWhile continuesWord).takeWhile isDigit = [] :=
      takeWhile_eq_nil_of_prefix (List.takeWhile_prefix continuesWord)
        (takeWhile_dropWhile isDigit rest)
    rw [afterDigits_eq hcs hsome, afterDigits_eq rfl (fractionAt_append hd hdigits hstop), hletters]

/-- A number that is cut out of a text is the same number. -/
theorem numberAt_numberAt (cs : List Char) : numberAt (numberAt cs) = numberAt cs := by
  have hdigits : ∀ c ∈ cs.takeWhile isDigit, isDigit c = true := fun c => List.mem_takeWhile_imp
  have hafter := afterDigits_prefix (cs.dropWhile isDigit)
  have hstop : (afterDigits (cs.dropWhile isDigit)).takeWhile isDigit = [] :=
    takeWhile_eq_nil_of_prefix hafter (takeWhile_dropWhile isDigit cs)
  have hdrop : (afterDigits (cs.dropWhile isDigit)).dropWhile isDigit =
      afterDigits (cs.dropWhile isDigit) := by
    rw [← drop_length_takeWhile, hstop, List.length_nil, List.drop_zero]
  rw [numberAt_eq cs, numberAt_eq, takeWhile_append_of_stop hdigits hstop,
    List.dropWhile_append_of_pos hdigits, hdrop, afterDigits_afterDigits]

/-! ## 2. Words on their own -/

/-- What was taken as a word is taken as that word when nothing comes after it. -/
theorem at?_take {c : Char} {rest : List Char} {lexeme : Lexeme} {n : Nat}
    (h : at? c rest = .ok (lexeme, n)) : n ≤ rest.length ∧ at? c (rest.take n) = .ok (lexeme, n) := by
  cases at?_eq_ok_iff.1 h with
  | number hdigit hvalue =>
    have hspelling := numberAt_prefix (c :: rest)
    have hlength : (numberAt (c :: rest)).length ≤ rest.length + 1 := hspelling.length_le
    refine ⟨by omega, ?_⟩
    rw [at?, if_pos hdigit, ← numberAt_cons hdigit rest]
    dsimp only
    rw [numberAt_numberAt, hvalue]
  | @text inside after body hdigit hquote hrest hinside =>
    subst hrest
    have htake : (inside ++ c :: after).take (inside.length + 1) = inside ++ [c] :=
      List.take_length_add_append 1
    refine ⟨by simp, ?_⟩
    rw [htake]
    exact at?_eq_ok_iff.2 (.text hdigit hquote rfl hinside)
  | word hdigit hquote hstart =>
    have htail : rest.takeWhile continuesWord <+: rest := List.takeWhile_prefix continuesWord
    refine ⟨htail.length_le, ?_⟩
    rw [← List.prefix_iff_eq_take.1 htail, at?_eq_ok_iff]
    have htaken : Taken c (rest.takeWhile continuesWord) _ _ := .word hdigit hquote hstart
    rwa [List.takeWhile_eq_self_iff.2 fun d => List.mem_takeWhile_imp] at htaken
  | sign hdigit hquote hstart hsign =>
    exact ⟨Nat.zero_le _, at?_eq_ok_iff.2 (.sign hdigit hquote hstart hsign)⟩

end Lexeme

/-! ## 3. Stretches of a text -/

/-- A stretch of a text that is not empty: the characters with the numbers from `start` on and
below `stop`. -/
structure Span where
  start : Nat
  stop : Nat
  start_lt_stop : start < stop

namespace Span

/-- The characters of a text in a stretch of it. -/
def chars (s : Span) (cs : List Char) : List Char :=
  (cs.take s.stop).drop s.start

/-- The character with the number `i` is in the stretch. -/
def Holds (s : Span) (i : Nat) : Prop :=
  s.start ≤ i ∧ i < s.stop

/-- The stretch where it is when `n` more characters come first. -/
def shift (n : Nat) (s : Span) : Span :=
  ⟨n + s.start, n + s.stop, Nat.add_lt_add_left s.start_lt_stop n⟩

theorem chars_shift (s : Span) (front cs : List Char) :
    (s.shift front.length).chars (front ++ cs) = s.chars cs := by
  rw [chars, shift, List.take_length_add_append, List.drop_length_add_append]
  rfl

end Span

namespace Token

/-- A word stands in a stretch of a text whose first character has the column `column`: its own
column is that of the first character of the stretch, and the stretch read on its own is this
word and no more. -/
structure StandsIn (column : Nat) (cs : List Char) (span : Span) (token : Token) : Prop where
  stop_le : span.stop ≤ cs.length
  column_eq : token.column = column + span.start
  alone : ofText (String.ofList (span.chars cs)) 0 = .ok [⟨token.lexeme, 1⟩]

/-- How the words of a text are laid out in it: each stands in a stretch of its own, one after
the other, and what is in none of the stretches is blank. -/
structure Laid (column : Nat) (cs : List Char) (spans : List Span) (tokens : List Token) :
    Prop where
  each : List.Forall₂ (StandsIn column cs) spans tokens
  apart : spans.Pairwise fun a b => a.stop ≤ b.start
  blank : ∀ i, ∀ c ∈ cs[i]?, (∀ s ∈ spans, ¬ s.Holds i) → isBlank c = true

variable {column : Nat} {cs : List Char} {spans : List Span} {tokens : List Token}

theorem StandsIn.shift {front : List Char} {span : Span} {token : Token}
    (h : StandsIn (column + front.length) cs span token) :
    StandsIn column (front ++ cs) (span.shift front.length) token where
  stop_le := by
    rw [List.length_append]
    exact Nat.add_le_add_left h.stop_le _
  column_eq := by rw [h.column_eq, Span.shift, Nat.add_assoc]
  alone := by rw [Span.chars_shift, h.alone]

namespace Laid

theorem nil : Laid column [] [] [] :=
  ⟨.nil, .nil, by simp⟩

/-- The words of a text stand in the same stretches when more characters come first. -/
theorem each_shift (front : List Char) (h : Laid (column + front.length) cs spans tokens) :
    List.Forall₂ (StandsIn column (front ++ cs)) (spans.map (Span.shift front.length)) tokens :=
  List.forall₂_map_left_iff.2 (h.each.imp fun _ _ => StandsIn.shift)

theorem apart_shift {n : Nat} (h : Laid column cs spans tokens) :
    (spans.map (Span.shift n)).Pairwise fun a b => a.stop ≤ b.start :=
  List.pairwise_map.2 (h.apart.imp fun hab => Nat.add_le_add_left hab n)

theorem blank_shift (front : List Char) {c : Char} {i : Nat} (h : Laid column cs spans tokens)
    (hi : front.length ≤ i) (hc : c ∈ (front ++ cs)[i]?)
    (hfree : ∀ s ∈ spans.map (Span.shift front.length), ¬ s.Holds i) : isBlank c = true := by
  rw [List.getElem?_append_right hi] at hc
  refine h.blank (i - front.length) c hc fun s hs hholds => ?_
  refine hfree _ (List.mem_map_of_mem hs) ⟨?_, ?_⟩
  · have := hholds.1
    simp only [Span.shift]
    omega
  · have := hholds.2
    simp only [Span.shift]
    omega

/-- One more blank comes first. -/
theorem cons_blank {c : Char} (hc : isBlank c = true) (h : Laid (column + 1) cs spans tokens) :
    Laid column (c :: cs) (spans.map (Span.shift 1)) tokens where
  each := h.each_shift [c]
  apart := h.apart_shift
  blank i d hd hfree := by
    cases i with
    | zero => rwa [← Option.some.inj hd]
    | succ i => exact h.blank_shift [c] (by simp) hd hfree

/-- One more word comes first. -/
theorem word {front : List Char} {lexeme : Lexeme} (hne : front ≠ [])
    (halone : ofText (String.ofList front) 0 = .ok [⟨lexeme, 1⟩])
    (h : Laid (column + front.length) cs spans tokens) :
    Laid column (front ++ cs)
      (⟨0, front.length, List.length_pos_iff.2 hne⟩ :: spans.map (Span.shift front.length))
      (⟨lexeme, column⟩ :: tokens) where
  each := by
    refine .cons ⟨by simp, rfl, ?_⟩ (h.each_shift front)
    rw [Span.chars, List.take_left, List.drop_zero, halone]
  apart := by
    refine List.pairwise_cons.2 ⟨fun s hs => ?_, h.apart_shift⟩
    obtain ⟨t, -, rfl⟩ := List.mem_map.1 hs
    exact Nat.le_add_right _ _
  blank i c hc hfree := by
    obtain ⟨hfirst, hothers⟩ := List.forall_mem_cons.1 hfree
    exact h.blank_shift front (Nat.le_of_not_lt fun hi => hfirst ⟨Nat.zero_le i, hi⟩) hc hothers

/-- The columns of the words rise. -/
theorem columns_rise (h : Laid column cs spans tokens) :
    tokens.Pairwise fun a b => a.column < b.column := by
  have hcolumns : spans.map (fun s => column + s.start) = tokens.map (·.column) := by
    refine List.forall₂_eq_eq_eq ▸ ?_
    rw [List.forall₂_map_left_iff, List.forall₂_map_right_iff]
    exact h.each.imp fun _ _ hstands => hstands.column_eq.symm
  have hstarts : (spans.map fun s => column + s.start).Pairwise (· < ·) :=
    List.pairwise_map.2 (h.apart.imp fun {a b} hab =>
      Nat.add_lt_add_left (Nat.lt_of_lt_of_le a.start_lt_stop hab) column)
  rw [hcolumns] at hstarts
  exact List.pairwise_map.1 hstarts

end Laid

/-! ## 4. All words -/

/-- What was taken as a word is the only word of its characters. -/
theorem ofText_alone {c : Char} {rest : List Char} {lexeme : Lexeme} {n : Nat}
    (hblank : ¬ isBlank c = true) (h : Lexeme.at? c rest = .ok (lexeme, n)) :
    ofText (String.ofList (c :: rest.take n)) 0 = .ok [⟨lexeme, 1⟩] := by
  have hdrop : (rest.take n).drop n = [] := List.drop_eq_nil_of_le (List.length_take_le n rest)
  rw [ofText, String.toList_ofList, scan, if_neg hblank, (Lexeme.at?_take h).2]
  dsimp only
  rw [hdrop, scan]
  rfl

theorem laid_of_scan (h : scan column cs = .ok tokens) : ∃ spans, Laid column cs spans tokens := by
  fun_induction scan column cs generalizing tokens with
  | case1 =>
    cases h
    exact ⟨[], .nil⟩
  | case2 column c cs hblank ih =>
    obtain ⟨spans, hlaid⟩ := ih h
    exact ⟨_, hlaid.cons_blank hblank⟩
  | case3 => cases h
  | case4 column c cs hblank lexeme n hat ih =>
    cases hscan : scan (column + 1 + n) (cs.drop n) with
    | error e => rw [hscan] at h; cases h
    | ok others =>
      rw [hscan] at h
      cases h
      obtain ⟨spans, hlaid⟩ := ih hscan
      have hlength : (c :: cs.take n).length = 1 + n := by
        rw [List.length_cons, List.length_take, Nat.min_eq_left (Lexeme.at?_take hat).1,
          Nat.add_comm]
      rw [Nat.add_assoc, ← hlength] at hlaid
      have hword := hlaid.word (List.cons_ne_nil c _) (ofText_alone hblank hat)
      rw [List.cons_append, List.take_append_drop] at hword
      exact ⟨_, hword⟩

/-- The words of a text account for all its characters: each stands in a stretch of its own, which
is not empty and is that word alone, the stretches follow one another, and outside of them all is
blank. The columns, which tell where the stretches start, rise strictly. -/
theorem laid_of_ofText {text : String} {offset : Nat} (h : ofText text offset = .ok tokens) :
    (∃ spans, Laid (offset + 1) text.toList spans tokens) ∧
      tokens.Pairwise fun a b => a.column < b.column := by
  obtain ⟨spans, hlaid⟩ := laid_of_scan h
  exact ⟨⟨spans, hlaid⟩, hlaid.columns_rise⟩

/-- For instance two points of which only the first one is part of a number, and a quote that ends
no text. -/
theorem laid_of_ofText_points :
    let text := " 2.5.k2-('x\\'y')"
    let tokens : List Token :=
      [⟨.number 2.5, 6⟩, ⟨.dot, 9⟩, ⟨.word "k2", 10⟩, ⟨.op .minus, 12⟩, ⟨.leftParen, 13⟩,
        ⟨.text "x'y", 14⟩, ⟨.rightParen, 20⟩]
    ofText text 4 = .ok tokens ∧ (∃ spans, Laid 5 text.toList spans tokens) ∧
      tokens.Pairwise fun a b => a.column < b.column := by
  intro text tokens
  have hnumber : Lexeme.at? '2' ".5.k2-('x\\'y')".toList = .ok (.number 2.5, 2) := by rfl
  have hrest : scan 9 ".k2-('x\\'y')".toList =
      .ok [⟨.dot, 9⟩, ⟨.word "k2", 10⟩, ⟨.op .minus, 12⟩, ⟨.leftParen, 13⟩, ⟨.text "x'y", 14⟩,
        ⟨.rightParen, 20⟩] := by cbv
  have htext : text.toList = ' ' :: '2' :: ".5.k2-('x\\'y')".toList := by decide
  have htokens : ofText text 4 = .ok tokens := by
    rw [ofText, htext, scan, if_pos (by decide), scan, if_neg (by decide), hnumber]
    dsimp only
    rw [show ".5.k2-('x\\'y')".toList.drop 2 = ".k2-('x\\'y')".toList by decide, hrest]
    rfl
  exact ⟨htokens, laid_of_ofText htokens⟩

end Token

end ShowTree
