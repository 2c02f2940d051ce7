/-
ShowTree.Proofs.Expression.Culprit — an error points at what is wrong.

How words are written is said without the reader of words (`Lexeme.SpelledBy`): between quotes
stands what no quote ends (`Quoted`), and all other words are their own characters. The reader of
words takes a word where one is written (`Lexeme.spelledBy_of_at?`), counts the characters that
it passes over, and stops where no word can be taken. So the column of a word is the place of its
first character (`Token.placed_of_scan`), the column of an error that of the characters it
complains of (`Token.placed_of_scan_error`), and the same of the whole expression, counted from
its first character (`culprit_of_parse_error`).
-/
import ShowTree.Expression.Basic
import ShowTree.Proofs.Expression.Viable

namespace ShowTree

open ShowTree.Decimal (isDigit parseFloat?)
open ShowTree.Formula (Refuses Lacks)
open ShowTree.Text (cutAt cutAt_eq_some_iff isBlank startsWord continuesWord)

/-! ## 1. How words are written -/

/-- What is written between two quotes, and the text that it stands for: a backslash hides the
character after it, and the quote stands nowhere else. -/
inductive Quoted (quote : Char) : List Char → List Char → Prop
  | nil : Quoted quote [] []
  | plain {c : Char} {cs body : List Char} (hquote : c ≠ quote) (hslash : c ≠ '\\')
    (rest : Quoted quote cs body) : Quoted quote (c :: cs) (c :: body)
  | hidden {c : Char} {cs body : List Char} (rest : Quoted quote cs body) :
    Quoted quote ('\\' :: c :: cs) (Lexeme.unescape c :: body)

/-- The characters that stand around a text. -/
def IsQuote (c : Char) : Prop :=
  c = '"' ∨ c = '\''

theorem isQuote_iff {c : Char} : (c = '"' || c = '\'') = true ↔ IsQuote c := by
  simp [IsQuote]

theorem IsQuote.ne_slash {c : Char} (h : IsQuote c) : '\\' ≠ c := by
  rcases h with rfl | rfl <;> decide

/-- The characters that spell a word. -/
inductive Lexeme.SpelledBy : Lexeme → List Char → Prop
  | number {c : Char} {cs : List Char} {value : Float} (hdigit : isDigit c = true)
    (h : parseFloat? (String.ofList (c :: cs)) = some value) : SpelledBy (.number value) (c :: cs)
  | text {quote : Char} {cs body : List Char} (hquote : IsQuote quote)
    (h : Quoted quote cs body) : SpelledBy (.text (String.ofList body)) (quote :: cs ++ [quote])
  | word {c : Char} {cs : List Char} (hstart : startsWord c = true)
    (h : ∀ d ∈ cs, continuesWord d = true) : SpelledBy (.word (String.ofList (c :: cs))) (c :: cs)
  | dot : SpelledBy .dot ['.']
  | op (operator : Operator) : SpelledBy (.op operator) [operator.symbol]
  | leftParen : SpelledBy .leftParen ['(']
  | rightParen : SpelledBy .rightParen [')']

namespace Lexeme

theorem SpelledBy.ne_nil {lexeme : Lexeme} {cs : List Char} (h : lexeme.SpelledBy cs) :
    cs ≠ [] := by
  cases h <;> simp

/-! ## 2. Texts in quotes -/

section Quotes

variable {quote : Char}

theorem quoted?_quote (rest : List Char) : quoted? quote (quote :: rest) = some ([], 1) := by
  rw [quoted?.eq_def]
  simp

theorem quoted?_plain {c : Char} (hquote : c ≠ quote) (hslash : c ≠ '\\') (rest : List Char) :
    quoted? quote (c :: rest) = (quoted? quote rest).map fun (body, n) => (c :: body, n + 1) := by
  rw [quoted?.eq_def]
  simp [hquote, hslash]

theorem quoted?_hidden (hquote : '\\' ≠ quote) (c : Char) (rest : List Char) :
    quoted? quote ('\\' :: c :: rest) =
      (quoted? quote rest).map fun (body, n) => (unescape c :: body, n + 2) := by
  rw [quoted?.eq_def]
  simp [hquote]

/-- A text that its quote ends is taken up to that quote. -/
theorem quoted?_append (hquote : IsQuote quote) {cs body : List Char} (h : Quoted quote cs body)
    (after : List Char) : quoted? quote (cs ++ quote :: after) = some (body, cs.length + 1) := by
  induction h with
  | nil => exact quoted?_quote after
  | plain hne hslash _ ih => simp [quoted?_plain hne hslash, ih]
  | hidden _ ih => simp [quoted?_hidden hquote.ne_slash, ih]

/-- What is taken as a text is ended by its quote. -/
theorem quoted_of_quoted? {cs body : List Char} {n : Nat} (h : quoted? quote cs = some (body, n)) :
    ∃ inside after, cs = inside ++ quote :: after ∧ n = inside.length + 1 ∧
      Quoted quote inside body := by
  induction cs using quoted?.induct quote generalizing body n with
  | case1 => cases h
  | case2 rest =>
    rw [quoted?_quote] at h
    cases h
    exact ⟨[], rest, rfl, rfl, .nil⟩
  | case3 hquote =>
    rw [quoted?.eq_def] at h
    simp [hquote] at h
  | case4 c rest hquote ih =>
    rw [quoted?_hidden hquote] at h
    obtain ⟨⟨body', n'⟩, hrest, heq⟩ := Option.map_eq_some_iff.1 h
    cases heq
    obtain ⟨inside, after, rfl, rfl, hinside⟩ := ih hrest
    exact ⟨'\\' :: c :: inside, after, rfl, rfl, .hidden hinside⟩
  | case5 c rest hquote hslash ih =>
    rw [quoted?_plain hquote hslash] at h
    obtain ⟨⟨body', n'⟩, hrest, heq⟩ := Option.map_eq_some_iff.1 h
    cases heq
    obtain ⟨inside, after, rfl, rfl, hinside⟩ := ih hrest
    exact ⟨c :: inside, after, rfl, rfl, .plain hquote hslash hinside⟩

end Quotes

/-! ## 3. Numbers -/

theorem drop_length_takeWhile (p : Char → Bool) (cs : List Char) :
    cs.drop (cs.takeWhile p).length = cs.dropWhile p := by
  have h : (cs.takeWhile p ++ cs.dropWhile p).drop (cs.takeWhile p).length = cs.dropWhile p :=
    List.drop_left
  rwa [List.takeWhile_append_dropWhile] at h

/-- The point of a number and the digits after it, if both are at the front. -/
def fractionAt : List Char → List Char
  | '.' :: d :: rest => if isDigit d then '.' :: (d :: rest).takeWhile isDigit else []
  | _ => []

/-- What belongs to a number after its first digits. -/
def afterDigits (cs : List Char) : List Char :=
  fractionAt cs ++ (cs.drop (fractionAt cs).length).takeWhile continuesWord

theorem numberAt_eq (cs : List Char) :
    numberAt cs = cs.takeWhile isDigit ++ afterDigits (cs.dropWhile isDigit) := by
  rw [afterDigits, ← drop_length_takeWhile, List.drop_drop, ← List.append_assoc]
  rfl

/-- A number has a fraction where a point with a digit comes next. -/
theorem fractionAt_cases (cs : List Char) :
    fractionAt cs = [] ∨ ∃ d rest, isDigit d = true ∧ cs = '.' :: d :: rest ∧
      fractionAt cs = '.' :: d :: rest.takeWhile isDigit := by
  unfold fractionAt
  split
  · rename_i d rest
    split
    · rename_i hd
      exact .inr ⟨d, rest, hd, rfl, by rw [List.takeWhile_cons_of_pos hd]⟩
    · exact .inl rfl
  · exact .inl rfl

/-- What is at the front stays there with as much as a condition allows of what comes after it. -/
theorem append_takeWhile_prefix {front cs : List Char} (p : Char → Bool) (h : front <+: cs) :
    front ++ (cs.drop front.length).takeWhile p <+: cs := by
  obtain ⟨rest, rfl⟩ := h
  rw [List.drop_left]
  exact (List.prefix_append_right_inj front).2 (List.takeWhile_prefix p)

theorem fractionAt_prefix (cs : List Char) : fractionAt cs <+: cs := by
  rcases fractionAt_cases cs with hnone | ⟨d, rest, -, rfl, hsome⟩
  · rw [hnone]
    exact List.nil_prefix
  · rw [hsome, List.prefix_cons_inj, List.prefix_cons_inj]
    exact List.takeWhile_prefix isDigit

theorem afterDigits_prefix (cs : List Char) : afterDigits cs <+: cs := by
  have hfraction := fractionAt_prefix cs
  exact append_takeWhile_prefix continuesWord hfraction

/-- The characters of a number are the first ones. -/
theorem numberAt_prefix (cs : List Char) : numberAt cs <+: cs := by
  have hafter := afterDigits_prefix (cs.dropWhile isDigit)
  have hall := (List.prefix_append_right_inj (cs.takeWhile isDigit)).2 hafter
  rwa [← numberAt_eq, List.takeWhile_append_dropWhile] at hall

/-- The characters of a number are its first digit and those taken after it. -/
theorem numberAt_cons {c : Char} (hc : isDigit c = true) (rest : List Char) :
    numberAt (c :: rest) = c :: rest.take ((numberAt (c :: rest)).length - 1) := by
  have hne : numberAt (c :: rest) ≠ [] := by
    simp [numberAt, hc]
  obtain ⟨d, tail, hcons⟩ := List.exists_cons_of_ne_nil hne
  obtain ⟨after, hafter⟩ := numberAt_prefix (c :: rest)
  rw [hcons, List.cons_append, List.cons.injEq] at hafter
  obtain ⟨rfl, rfl⟩ := hafter
  rw [hcons, List.length_cons, Nat.add_sub_cancel, List.take_left]

/-! ## 4. One word -/

theorem spelledBy_of_ofSign? {c : Char} {lexeme : Lexeme} (h : ofSign? c = some lexeme) :
    lexeme.SpelledBy [c] := by
  unfold ofSign? at h
  repeat' split at h
  all_goals cases h
  all_goals subst c
  · exact .dot
  · exact .op .plus
  · exact .op .minus
  · exact .op .times
  · exact .op .over
  · exact .leftParen
  · exact .rightParen

/-- The words that are taken at `c`, with how many of the characters after it they take. -/
inductive Taken (c : Char) (rest : List Char) : Lexeme → Nat → Prop
  | number {value : Float} (hdigit : isDigit c = true)
    (hvalue : parseFloat? (String.ofList (numberAt (c :: rest))) = some value) :
    Taken c rest (.number value) ((numberAt (c :: rest)).length - 1)
  | text {inside after body : List Char} (hdigit : ¬ isDigit c = true) (hquote : IsQuote c)
    (hrest : rest = inside ++ c :: after) (hinside : Quoted c inside body) :
    Taken c rest (.text (String.ofList body)) (inside.length + 1)
  | word (hdigit : ¬ isDigit c = true) (hquote : ¬ IsQuote c) (hstart : startsWord c = true) :
    Taken c rest (.word (String.ofList (c :: rest.takeWhile continuesWord)))
      (rest.takeWhile continuesWord).length
  | sign {lexeme : Lexeme} (hdigit : ¬ isDigit c = true) (hquote : ¬ IsQuote c)
    (hstart : ¬ startsWord c = true) (hsign : ofSign? c = some lexeme) : Taken c rest lexeme 0

theorem at?_eq_ok_iff {c : Char} {rest : List Char} {lexeme : Lexeme} {n : Nat} :
    at? c rest = .ok (lexeme, n) ↔ Taken c rest lexeme n := by
  constructor
  · intro h
    unfold at? at h
    split at h
    · rename_i hdigit
      dsimp only at h
      split at h <;> cases h
      exact .number hdigit ‹_›
    · rename_i hdigit
      split at h
      · rename_i hquote
        rw [isQuote_iff] at hquote
        split at h <;> cases h
        rename_i body n hbody
        obtain ⟨inside, after, hrest, rfl, hinside⟩ := quoted_of_quoted? hbody
        exact .text hdigit hquote hrest hinside
      · rename_i hquote
        rw [isQuote_iff] at hquote
        split at h
        · cases h
          exact .word hdigit hquote ‹_›
        · split at h <;> cases h
          exact .sign hdigit hquote ‹_› ‹_›
  · intro h
    cases h with
    | number hdigit hvalue =>
      rw [at?, if_pos hdigit]
      dsimp only
      rw [hvalue]
    | text hdigit hquote hrest hinside =>
      rw [at?, if_neg hdigit, if_pos (isQuote_iff.2 hquote), hrest, quoted?_append hquote hinside]
    | word hdigit hquote hstart =>
      rw [at?, if_neg hdigit, if_neg (mt isQuote_iff.1 hquote), if_pos hstart]
    | sign hdigit hquote hstart hsign =>
      rw [at?, if_neg hdigit, if_neg (mt isQuote_iff.1 hquote), if_neg hstart, hsign]

/-- The word that is taken is written at the front. -/
theorem spelledBy_of_at? {c : Char} {rest : List Char} {lexeme : Lexeme} {n : Nat}
    (h : at? c rest = .ok (lexeme, n)) : lexeme.SpelledBy (c :: rest.take n) := by
  cases at?_eq_ok_iff.1 h with
  | number hdigit hvalue =>
    rw [numberAt_cons hdigit rest] at hvalue
    exact .number hdigit hvalue
  | @text inside after body hdigit hquote hrest hinside =>
    have htake : (inside ++ c :: after).take (inside.length + 1) = inside ++ [c] :=
      List.take_length_add_append 1
    rw [hrest, htake]
    exact .text hquote hinside
  | word hdigit hquote hstart =>
    rw [← List.prefix_iff_eq_take.1 (List.takeWhile_prefix continuesWord)]
    exact .word hstart (List.all_eq_true.1 List.all_takeWhile)
  | sign hdigit hquote hstart hsign => exact spelledBy_of_ofSign? hsign

end Lexeme

/-! ## 5. What is wrong at a place -/

/-- At the front of the characters stands a word of the formula that the reader refuses, after
words that it takes. -/
def RefusedWord (words : Except SyntaxError (List Token)) (e : SyntaxError) (cs : List Char)
    (token : Token) : Prop :=
  ∃ before after, words = .ok (before ++ token :: after) ∧ Refuses before token e ∧
    ∃ spelling rest, cs = spelling ++ rest ∧ token.lexeme.SpelledBy spelling

/-- At the front of the characters stands what an error complains of: the character; the quote of
a text that no quote ends; what is no number; or the first word that the reader refuses, which
the error shows if it says what was found. -/
def Culprit (words : Except SyntaxError (List Token)) (e : SyntaxError) (cs : List Char) : Prop :=
  match e.cause with
  | .unexpectedChar c => ∃ rest, cs = c :: rest
  | .unterminatedText => ∃ quote rest, cs = quote :: rest ∧ IsQuote quote ∧
      ∀ inside body after, Quoted quote inside body → rest ≠ inside ++ quote :: after
  | .badNumber text => text ≠ "" ∧ parseFloat? text = none ∧ ∃ rest, cs = text.toList ++ rest
  | .unexpectedToken found _ => ∃ token, RefusedWord words e cs token ∧
      found = token.lexeme.display
  | .missingFieldName | .missingRightParen => ∃ token, RefusedWord words e cs token
  | .badPattern _ | .unexpectedEnd => False

/-- Where no word can be taken, the first character is what is wrong, or stands at its front. -/
theorem culprit_of_at? {words : Except SyntaxError (List Token)} {e : SyntaxError} {c : Char}
    {rest : List Char} (h : Lexeme.at? c rest = .error e.cause) : Culprit words e (c :: rest) := by
  unfold Culprit
  unfold Lexeme.at? at h
  split at h
  · rename_i hdigit
    dsimp only at h
    split at h
    · cases h
    · rename_i hnone
      rw [← Except.error.inj h]
      obtain ⟨after, hafter⟩ := Lexeme.numberAt_prefix (c :: rest)
      refine ⟨?_, hnone, after, by rw [String.toList_ofList, hafter]⟩
      rw [Lexeme.numberAt_cons hdigit]
      intro hempty
      simpa using congrArg String.toList hempty
  · split at h
    · rename_i hquote
      split at h
      · cases h
      · rename_i hnone
        rw [isQuote_iff] at hquote
        rw [← Except.error.inj h]
        refine ⟨c, rest, rfl, hquote, fun inside body after hinside hrest => ?_⟩
        rw [hrest, Lexeme.quoted?_append hquote hinside] at hnone
        cases hnone
    · split at h
      · cases h
      · split at h
        · cases h
        · rw [← Except.error.inj h]
          exact ⟨rest, rfl⟩

/-- A refused word is what is wrong. -/
theorem culprit_of_refuses {words : Except SyntaxError (List Token)} {before after : List Token}
    {token : Token} {e : SyntaxError} (hwords : words = .ok (before ++ token :: after))
    (h : Refuses before token e) {spelling rest : List Char}
    (hspelled : token.lexeme.SpelledBy spelling) : Culprit words e (spelling ++ rest) := by
  have hrefused : RefusedWord words e (spelling ++ rest) token :=
    ⟨before, after, hwords, h, spelling, rest, rfl, hspelled⟩
  unfold Culprit
  rcases h.blames.cause with ⟨expected, hcause⟩ | hcause | hcause
  · rw [hcause]
    exact ⟨token, hrefused, rfl⟩
  · rw [hcause]
    exact ⟨token, hrefused⟩
  · rw [hcause]
    exact ⟨token, hrefused⟩

/-! ## 6. Columns -/

/-- What is passed over to come to more characters is as much as was to be passed over. -/
theorem length_take_of_drop {n : Nat} {cs rest : List Char} (h : cs.drop n = rest)
    (hne : rest ≠ []) : (cs.take n).length = n := by
  have hlt : n < cs.length :=
    Nat.lt_of_not_le fun hle => hne (h ▸ List.drop_eq_nil_of_le hle)
  rw [List.length_take]
  omega

/-- Every word stands where its column says. -/
theorem Token.placed_of_scan {column : Nat} {cs : List Char} {tokens : List Token}
    (h : scan column cs = .ok tokens) : ∀ token ∈ tokens, ∃ front spelling rest,
      cs = front ++ (spelling ++ rest) ∧ token.column = column + front.length ∧
        token.lexeme.SpelledBy spelling := by
  fun_induction scan column cs generalizing tokens with
  | case1 => cases h; simp
  | case2 column c cs hblank ih =>
    intro token htoken
    obtain ⟨front, spelling, rest, rfl, hcolumn, hspelled⟩ := ih h token htoken
    refine ⟨c :: front, spelling, rest, rfl, ?_, hspelled⟩
    rw [hcolumn, List.length_cons]
    omega
  | case3 => cases h
  | case4 column c cs hblank lexeme n hat ih =>
    cases hscan : scan (column + 1 + n) (cs.drop n) with
    | error e => rw [hscan] at h; cases h
    | ok others =>
      rw [hscan] at h
      cases h
      intro token htoken
      rcases List.mem_cons.1 htoken with rfl | htoken
      · refine ⟨[], c :: cs.take n, cs.drop n, ?_, rfl, Lexeme.spelledBy_of_at? hat⟩
        simp
      · obtain ⟨front, spelling, rest, hdrop, hcolumn, hspelled⟩ := ih hscan token htoken
        have hpassed := length_take_of_drop hdrop (by simp [hspelled.ne_nil])
        refine ⟨c :: cs.take n ++ front, spelling, rest, ?_, ?_, hspelled⟩
        · rw [List.append_assoc, ← hdrop, List.cons_append, List.take_append_drop]
        · rw [hcolumn, List.length_append, List.length_cons, hpassed]
          omega

/-- Where there is no word, its place is where the column of the error says. -/
theorem Token.placed_of_scan_error {column : Nat} {cs : List Char} {e : SyntaxError}
    (h : scan column cs = .error e) : ∃ front c rest, cs = front ++ c :: rest ∧
      e.column = some (column + front.length) ∧ Lexeme.at? c rest = .error e.cause := by
  fun_induction scan column cs with
  | case1 => cases h
  | case2 column c cs hblank ih =>
    obtain ⟨front, d, rest, rfl, hcolumn, hat⟩ := ih h
    refine ⟨c :: front, d, rest, rfl, ?_, hat⟩
    rw [hcolumn, List.length_cons]
    congr 1
    omega
  | case3 column c cs hblank cause hat =>
    cases h
    exact ⟨[], c, cs, rfl, rfl, hat⟩
  | case4 column c cs hblank lexeme n hat ih =>
    cases hscan : scan (column + 1 + n) (cs.drop n) with
    | ok others => rw [hscan] at h; cases h
    | error e' =>
      rw [hscan] at h
      cases h
      obtain ⟨front, d, rest, hdrop, hcolumn, hat⟩ := ih hscan
      have hpassed := length_take_of_drop hdrop (by simp)
      refine ⟨c :: cs.take n ++ front, d, rest, ?_, ?_, hat⟩
      · rw [List.append_assoc, ← hdrop, List.cons_append, List.take_append_drop]
      · rw [hcolumn, List.length_append, List.length_cons, hpassed]
        congr 1
        omega

/-! ## 7. Errors of expressions -/

/-- A column of the formula, counted in the whole source. -/
theorem drop_column {source : String} {path front rest : List Char} {column : Nat}
    (hsource : source.toList = path ++ ':' :: (front ++ rest)) (hrest : rest ≠ [])
    (hcolumn : column = path.length + 1 + 1 + front.length) :
    path.length + 1 < column ∧ column ≤ source.length ∧
      source.toList.drop (column - 1) = rest := by
  have hlength : source.length = path.length + 1 + front.length + rest.length := by
    rw [← String.length_toList, hsource]
    simp
    omega
  have hpos : 0 < rest.length := List.length_pos_iff.2 hrest
  refine ⟨by omega, by omega, ?_⟩
  have hfront : path ++ ':' :: (front ++ rest) = (path ++ ':' :: front) ++ rest := by simp
  have hdrop : column - 1 = (path ++ ':' :: front).length := by
    simp
    omega
  rw [hsource, hfront, hdrop, List.drop_left]

/-- A text that is no expression has a colon. If its error has a column, that lies after the first
colon and within the text, and what is wrong stands there; if it has none, all words of the
formula were taken, and something more had to come. -/
theorem culprit_of_parse_error {source : String} {e : SyntaxError}
    (h : Expression.parse source = .error e) :
    ∃ path formula words, source.toList = path ++ ':' :: formula ∧ ':' ∉ path ∧
      words = Token.ofText (String.ofList formula) (path.length + 1) ∧
      match e.column with
      | some column => path.length + 1 < column ∧ column ≤ source.length ∧
          Culprit words e (source.toList.drop (column - 1))
      | none => ∃ tokens, words = .ok tokens ∧ Lacks tokens e := by
  unfold Expression.parse at h
  rcases hcut : cutAt ':' source.toList with ⟨path, formula⟩
  rw [hcut] at h
  cases formula with
  | none => cases h
  | some formula =>
    obtain ⟨hsource, hpath⟩ := cutAt_eq_some_iff.1 hcut
    refine ⟨path, formula, _, hsource, hpath, rfl, ?_⟩
    have hformula : Formula.parse (String.ofList formula) (path.length + 1) = .error e := by
      cases hparse : Formula.parse (String.ofList formula) (path.length + 1) with
      | ok f => simp [hparse] at h; cases h
      | error e' => simp [hparse] at h; cases h; rfl
    unfold Formula.parse at hformula
    have hscan : Token.ofText (String.ofList formula) (path.length + 1) =
        Token.scan (path.length + 1 + 1) formula := by
      rw [Token.ofText, String.toList_ofList]
    cases hwords : Token.ofText (String.ofList formula) (path.length + 1) with
    | error e' =>
      -- no word could be taken
      rw [hwords] at hformula
      cases hformula
      obtain ⟨front, c, rest, rfl, hcolumn, hat⟩ := Token.placed_of_scan_error (hscan ▸ hwords)
      obtain ⟨hafter, hwithin, hdrop⟩ := drop_column hsource (by simp) rfl
      rw [hcolumn]
      exact ⟨hafter, hwithin, hdrop ▸ culprit_of_at? hat⟩
    | ok tokens =>
      rw [hwords] at hformula
      rcases Formula.ofTokens_eq_error_iff.1 hformula with
        ⟨before, token, after, htokens, hrefuses⟩ | ⟨-, hlacks⟩
      · -- the reader refused a word
        obtain ⟨front, spelling, rest, rfl, hcolumn, hspelled⟩ :=
          Token.placed_of_scan (hscan ▸ hwords) token (by simp [htokens])
        obtain ⟨hafter, hwithin, hdrop⟩ := drop_column hsource (by simp [hspelled.ne_nil]) hcolumn
        rw [hrefuses.blames.column]
        refine ⟨hafter, hwithin, ?_⟩
        rw [hdrop]
        exact culprit_of_refuses (by rw [htokens]) hrefuses hspelled
      · -- the reader took all words
        obtain ⟨r, -, hfinish⟩ := id hlacks
        rw [r.column_of_finish_error hfinish]
        exact ⟨tokens, rfl, hlacks⟩

/-- For instance the seventh character, which is not the seventh byte. -/
theorem culprit_of_parse_error_umlauts :
    let source := "ä:\"ö\" )"
    let e : SyntaxError := ⟨.unexpectedToken ")" ["operator"], some 7⟩
    Expression.parse source = .error e ∧ source.toList.drop 6 = [')'] ∧
      ∃ words token, RefusedWord words e [')'] token ∧ ")" = token.lexeme.display := by
  intro source e
  have hcut : cutAt ':' source.toList = (['ä'], some ['"', 'ö', '"', ' ', ')']) := by decide
  have hwords : Token.scan 3 ['"', 'ö', '"', ' ', ')'] =
      .ok [⟨.text "ö", 3⟩, ⟨.rightParen, 7⟩] := by
    have hquote : Lexeme.at? '"' ['ö', '"', ' ', ')'] = .ok (.text "ö", 2) := by rfl
    have hparen : Lexeme.at? ')' [] = .ok (.rightParen, 0) := by rfl
    rw [Token.scan, if_neg (by decide), hquote]
    simp only [List.drop]
    rw [Token.scan, if_pos (by decide), Token.scan, if_neg (by decide), hparen]
    simp only [List.drop]
    rw [Token.scan]
    rfl
  have hparse : Expression.parse source = .error e := by
    rw [Expression.parse, hcut]
    dsimp only
    rw [Formula.parse, Token.ofText, String.toList_ofList, List.length_singleton, hwords]
    rfl
  have hdrop : source.toList.drop 6 = [')'] := by decide
  obtain ⟨path, formula, words, -, -, -, -, -, hculprit⟩ := culprit_of_parse_error hparse
  have hfound : ∃ token, RefusedWord words e (source.toList.drop 6) token ∧
      ")" = token.lexeme.display := hculprit
  rw [hdrop] at hfound
  exact ⟨hparse, hdrop, words, hfound⟩

end ShowTree
