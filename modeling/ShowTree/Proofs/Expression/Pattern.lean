/-
ShowTree.Proofs.Expression.Pattern — what a pattern with stars matches.

A row says for each end of a name whether a pattern matches it, so rows are read against the
ends (`Reads`), and each character of the pattern makes the row of what it stands for before
what the rest stands for. A name matches exactly if it is the pattern with runs of characters
in the places of the stars, none of which holds a line feed (`accepts_iff_fits`). The same is
found by searching for the expression that is put together from the quoted pieces between the
stars, with a run within a line between each two and fixed at both ends
(`finds_expression_iff`).
-/
import Mathlib.Data.List.Forall2
import ShowTree.Expression.Wildcard
import ShowTree.Text.Split

namespace ShowTree.Wildcard

variable {pattern name : List Char}

/-! ## 1. Stars replaced by runs -/

/-- A pattern with the runs in the places of its stars. -/
def fill : List Char → List (List Char) → List Char
  | [], _ => []
  | c :: pattern, runs =>
    if c = '*' then runs.headD [] ++ fill pattern runs.tail else c :: fill pattern runs

/-- Whether a name is a pattern with a run within a line in the place of each star. -/
def Fits (pattern name : List Char) : Prop :=
  ∃ runs : List (List Char), runs.length = pattern.count '*' ∧ '\n' ∉ runs.flatten ∧
    name = fill pattern runs

theorem fits_nil_iff : Fits [] name ↔ name = [] := by
  constructor
  · rintro ⟨runs, -, -, rfl⟩
    rfl
  · rintro rfl
    exact ⟨[], rfl, by simp, rfl⟩

theorem fits_cons_iff {c : Char} (hc : c ≠ '*') :
    Fits (c :: pattern) name ↔ ∃ rest, name = c :: rest ∧ Fits pattern rest := by
  have hcount : (c :: pattern).count '*' = pattern.count '*' := List.count_cons_of_ne hc
  constructor
  · rintro ⟨runs, hlength, hline, rfl⟩
    rw [hcount] at hlength
    exact ⟨_, by rw [fill, if_neg hc], runs, hlength, hline, rfl⟩
  · rintro ⟨rest, rfl, runs, hlength, hline, rfl⟩
    exact ⟨runs, hlength.trans hcount.symm, hline, by rw [fill, if_neg hc]⟩

theorem fits_star_iff : Fits ('*' :: pattern) name ↔
    ∃ run rest, name = run ++ rest ∧ '\n' ∉ run ∧ Fits pattern rest := by
  constructor
  · rintro ⟨runs, hlength, hline, rfl⟩
    rw [List.count_cons_self] at hlength
    cases runs with
    | nil => cases hlength
    | cons run runs =>
      rw [List.flatten_cons, List.mem_append, not_or] at hline
      refine ⟨run, fill pattern runs, by rw [fill, if_pos rfl]; rfl, hline.1, runs, ?_, hline.2, rfl⟩
      exact Nat.succ.inj hlength
  · rintro ⟨run, rest, rfl, hrun, runs, hlength, hline, rfl⟩
    refine ⟨run :: runs, ?_, ?_, by rw [fill, if_pos rfl]; rfl⟩
    · rw [List.length_cons, hlength, List.count_cons_self]
    · rw [List.flatten_cons, List.mem_append, not_or]
      exact ⟨hrun, hline⟩

/-! ## 2. Rows -/

/-- Whether a row says of each end of a name if it is one of those that are meant. -/
def Reads (meant : List Char → Prop) (name : List Char) (r : Row) : Prop :=
  List.Forall₂ (fun (b : Bool) rest => b = true ↔ meant rest) r name.tails

variable {meant meant' : List Char → Prop} {next : Row}

theorem Reads.headD_iff {r : Row} (h : Reads meant name r) : r.headD false = true ↔ meant name := by
  cases name <;> cases h <;> assumption

theorem Reads.congr {r : Row} (h : Reads meant name r) (hmeant : ∀ cs, meant cs ↔ meant' cs) :
    Reads meant' name r :=
  h.imp fun _ cs hb => hb.trans (hmeant cs)

theorem reads_emptyRow : ∀ name : List Char, Reads (· = []) name (emptyRow name)
  | [] => .cons (by simp) .nil
  | c :: name => .cons (by simp) (reads_emptyRow name)

theorem reads_charRow (c : Char) : ∀ {name : List Char} {next : Row}, Reads meant name next →
    Reads (fun cs => ∃ rest, cs = c :: rest ∧ meant rest) name (charRow c name next)
  | [], next, _ => .cons (by simp) .nil
  | x :: name, _, .cons _ hrest => by
    refine .cons ?_ (reads_charRow c hrest)
    rw [Bool.and_eq_true, beq_iff_eq, Reads.headD_iff hrest]
    simp

theorem reads_starRow : ∀ {name : List Char} {next : Row}, Reads meant name next →
    Reads (fun cs => ∃ run rest, cs = run ++ rest ∧ '\n' ∉ run ∧ meant rest) name
      (starRow name next)
  | [], _, .cons hfirst .nil => by
    refine .cons (hfirst.trans ?_) .nil
    simp
  | x :: name, _, .cons hfirst hrest => by
    have ih := reads_starRow hrest
    refine .cons ?_ ih
    rw [Bool.or_eq_true, hfirst, Bool.and_eq_true, bne_iff_ne, ih.headD_iff]
    constructor
    · rintro (hmeant | ⟨hx, run, rest, rfl, hrun, hmeant⟩)
      · exact ⟨[], _, rfl, List.not_mem_nil, hmeant⟩
      · exact ⟨x :: run, rest, rfl, by simp [hrun, hx.symm], hmeant⟩
    · rintro ⟨run, rest, heq, hrun, hmeant⟩
      cases run with
      | nil => exact .inl (heq ▸ hmeant)
      | cons y run =>
        obtain ⟨rfl, rfl⟩ := List.cons.inj heq
        rw [List.mem_cons, not_or] at hrun
        exact .inr ⟨hrun.1 ∘ Eq.symm, run, rest, rfl, hrun.2, hmeant⟩

theorem reads_row (name : List Char) : ∀ pattern : List Char,
    Reads (Fits pattern) name (row name pattern)
  | [] => (reads_emptyRow name).congr fun _ => fits_nil_iff.symm
  | c :: pattern => by
    have ih := reads_row name pattern
    rw [row]
    split
    · rename_i hc
      subst hc
      exact (reads_starRow ih).congr fun _ => fits_star_iff.symm
    · rename_i hc
      exact (reads_charRow c ih).congr fun _ => (fits_cons_iff hc).symm

/-- A name is accepted if it is the pattern with a run within a line in the place of each
star. -/
theorem accepts_iff_fits {pattern name : String} :
    accepts pattern name = true ↔ Fits pattern.toList name.toList :=
  (reads_row name.toList pattern.toList).headD_iff

/-! ## 3. The expression of a pattern -/

/-- A part of an expression: one of the ends of the text, quoted characters, or any number of
characters of one line. -/
inductive Part where
  | start
  | quoted (text : List Char)
  | line
  | finish

/-- What a part matches between the characters `before` and `after`. -/
def Part.Matches (before cs after : List Char) : Part → Prop
  | .start => before = [] ∧ cs = []
  | .quoted text => cs = text
  | .line => '\n' ∉ cs
  | .finish => after = [] ∧ cs = []

/-- What parts match, one after the other. -/
def MatchesAll (before cs after : List Char) : List Part → Prop
  | [] => cs = []
  | part :: parts => ∃ first rest, cs = first ++ rest ∧
      part.Matches before first (rest ++ after) ∧ MatchesAll (before ++ first) rest after parts

/-- Whether parts match somewhere in a text. -/
def Finds (parts : List Part) (text : List Char) : Prop :=
  ∃ before cs after, text = before ++ cs ++ after ∧ MatchesAll before cs after parts

/-- The pieces of a pattern between its stars, quoted, with any characters of a line in the
places of the stars. -/
def body (pattern : List Char) : List Part :=
  List.intersperse .line ((Text.splitOn '*' pattern).map .quoted)

/-- The expression of a pattern, fixed at both ends. -/
def expression (pattern : List Char) : List Part :=
  .start :: (body pattern ++ [.finish])

variable {before cs after : List Char} {parts : List Part}

theorem body_star (pattern : List Char) :
    body ('*' :: pattern) = .quoted [] :: .line :: body pattern := by
  rw [body, Text.splitOn, if_pos rfl, body]
  cases hpieces : Text.splitOn '*' pattern with
  | nil => exact absurd hpieces (Text.splitOn_ne_nil '*' pattern)
  | cons piece pieces => rfl

/-- A character that is no star is quoted with the piece it stands in front of. -/
theorem body_cons {c : Char} (hc : c ≠ '*') (pattern : List Char) :
    ∃ piece parts, body pattern = .quoted piece :: parts ∧
      body (c :: pattern) = .quoted (c :: piece) :: parts := by
  rw [body, body, Text.splitOn, if_neg hc]
  cases hpieces : Text.splitOn '*' pattern with
  | nil => exact absurd hpieces (Text.splitOn_ne_nil '*' pattern)
  | cons piece pieces =>
    cases pieces with
    | nil => exact ⟨piece, [], rfl, rfl⟩
    | cons second pieces => exact ⟨piece, _, rfl, rfl⟩

theorem matchesAll_quoted_iff {text : List Char} :
    MatchesAll before cs after (.quoted text :: parts) ↔
      ∃ rest, cs = text ++ rest ∧ MatchesAll (before ++ text) rest after parts := by
  constructor
  · rintro ⟨first, rest, rfl, rfl, hparts⟩
    exact ⟨rest, rfl, hparts⟩
  · rintro ⟨rest, rfl, hparts⟩
    exact ⟨text, rest, rfl, rfl, hparts⟩

theorem matchesAll_finish_iff : MatchesAll before cs after [.finish] ↔ after = [] ∧ cs = [] := by
  constructor
  · rintro ⟨first, rest, rfl, ⟨hafter, rfl⟩, rfl⟩
    exact ⟨hafter, rfl⟩
  · rintro ⟨rfl, rfl⟩
    exact ⟨[], [], rfl, ⟨rfl, rfl⟩, rfl⟩

/-- Up to the end of the text, the body matches what fits the pattern. -/
theorem matchesAll_body_iff : ∀ {pattern before cs : List Char},
    MatchesAll before cs after (body pattern ++ [.finish]) ↔ after = [] ∧ Fits pattern cs
  | [], before, cs => by
    change MatchesAll before cs after [.quoted [], .finish] ↔ _
    rw [matchesAll_quoted_iff, fits_nil_iff]
    simp [matchesAll_finish_iff]
  | c :: pattern, before, cs => by
    by_cases hc : c = '*'
    · subst hc
      rw [body_star, fits_star_iff, List.cons_append, matchesAll_quoted_iff]
      constructor
      · rintro ⟨_, rfl, run, rest, rfl, hrun, hbody⟩
        obtain ⟨hafter, hfits⟩ := matchesAll_body_iff.1 hbody
        exact ⟨hafter, run, rest, rfl, hrun, hfits⟩
      · rintro ⟨hafter, run, rest, rfl, hrun, hfits⟩
        exact ⟨_, rfl, run, rest, rfl, hrun, matchesAll_body_iff.2 ⟨hafter, hfits⟩⟩
    · -- The body of the rest starts with the piece that `c` is quoted with, so it is read after `c`.
      obtain ⟨piece, parts, hpattern, hbody⟩ := body_cons hc pattern
      have ih : ∀ rest, MatchesAll (before ++ [c]) rest after (body pattern ++ [.finish]) ↔
          after = [] ∧ Fits pattern rest := fun rest => matchesAll_body_iff
      rw [hpattern] at ih
      rw [hbody, fits_cons_iff hc, List.cons_append, matchesAll_quoted_iff]
      constructor
      · rintro ⟨rest, rfl, hparts⟩
        obtain ⟨hafter, hfits⟩ := (ih (piece ++ rest)).1
          (matchesAll_quoted_iff.2 ⟨rest, rfl, by simpa using hparts⟩)
        exact ⟨hafter, _, rfl, hfits⟩
      · rintro ⟨hafter, rest, rfl, hfits⟩
        obtain ⟨rest, rfl, hparts⟩ := matchesAll_quoted_iff.1 ((ih rest).2 ⟨hafter, hfits⟩)
        exact ⟨rest, rfl, by simpa using hparts⟩

/-- Searching for the expression of a pattern finds the names that fit it. -/
theorem finds_expression_iff : Finds (expression pattern) name ↔ Fits pattern name := by
  constructor
  · rintro ⟨before, cs, after, rfl, first, rest, rfl, ⟨rfl, rfl⟩, hbody⟩
    obtain ⟨rfl, hfits⟩ := matchesAll_body_iff.1 hbody
    simpa using hfits
  · intro hfits
    exact ⟨[], name, [], by simp, [], name, rfl, ⟨rfl, rfl⟩, matchesAll_body_iff.2 ⟨rfl, hfits⟩⟩

/-! ## 4. What a pattern matches -/

/-- A pattern with runs in the places of all its stars holds all of the runs. -/
theorem mem_fill {x : Char} : ∀ {pattern : List Char} {runs : List (List Char)},
    runs.length = pattern.count '*' → x ∈ runs.flatten → x ∈ fill pattern runs
  | [], runs, hlength, hx => by
    rw [List.eq_nil_of_length_eq_zero hlength] at hx
    cases hx
  | c :: pattern, runs, hlength, hx => by
    rw [fill]
    split
    · rename_i hc
      subst hc
      rw [List.count_cons_self] at hlength
      cases runs with
      | nil => cases hlength
      | cons run runs =>
        rw [List.flatten_cons] at hx
        refine List.mem_append.2 ((List.mem_append.1 hx).imp id fun hx => ?_)
        exact mem_fill (Nat.succ.inj hlength) hx
    · rename_i hc
      rw [List.count_cons_of_ne hc] at hlength
      exact List.mem_cons_of_mem c (mem_fill hlength hx)

/-- A name matches a pattern exactly if it is the pattern with a run of characters in the place
of each star, where no run holds a line feed. That is what searching for the expression of the
pattern finds. For names without line feeds any runs will do. -/
theorem accepts_iff (pattern name : String) :
    (accepts pattern name = true ↔ ∃ runs : List (List Char),
      runs.length = pattern.toList.count '*' ∧ '\n' ∉ runs.flatten ∧
        name.toList = fill pattern.toList runs) ∧
    (accepts pattern name = true ↔ Finds (expression pattern.toList) name.toList) ∧
    ('\n' ∉ name.toList → (accepts pattern name = true ↔ ∃ runs : List (List Char),
      runs.length = pattern.toList.count '*' ∧ name.toList = fill pattern.toList runs)) := by
  refine ⟨accepts_iff_fits, accepts_iff_fits.trans finds_expression_iff.symm, fun hline => ?_⟩
  rw [accepts_iff_fits]
  constructor
  · rintro ⟨runs, hlength, -, hname⟩
    exact ⟨runs, hlength, hname⟩
  · rintro ⟨runs, hlength, hname⟩
    exact ⟨runs, hlength, fun hmem => hline (hname ▸ mem_fill hlength hmem), hname⟩

/-- Two stars in a pattern, one of which stands for nothing. -/
theorem accepts_iff_footage :
    '\n' ∉ "footage_01.mp4".toList ∧ accepts "f*_*01.mp4" "footage_01.mp4" = true := by
  have hline : '\n' ∉ "footage_01.mp4".toList := by decide
  refine ⟨hline, ((accepts_iff _ _).2.2 hline).2 ⟨["ootage".toList, []], ?_, ?_⟩⟩
  · decide
  · decide

/-- A star stands for no run with a line feed in it. -/
theorem not_accepts_across_lines :
    '*' ∈ "*".toList ∧ ["a\nb".toList].length = "*".toList.count '*' ∧
      "a\nb".toList = fill "*".toList ["a\nb".toList] ∧ accepts "*" "a\nb" = false := by
  decide +kernel

end ShowTree.Wildcard
