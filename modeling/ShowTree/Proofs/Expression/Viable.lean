/-
ShowTree.Proofs.Expression.Viable — the reader stops at the first word that cannot stand there.

Wherever the reader is, there are words that finish the formula: an operand or a name where one
is missing, and then a closing parenthesis for each that is open (`Reading.reads_ending`). So
words that were taken can be gone on with to a formula, and those up to a refused word cannot,
since what was refused is refused whatever follows (`ofTokens_eq_error_iff`). Hence an error at
a word says that everything before it could have been the beginning of a formula and that with
this word it cannot, and an error at the end that something more had to come
(`viable_take_of_ofTokens_error`).
-/
import ShowTree.Proofs.Expression.Reading

namespace ShowTree.Formula

open Reading

/-! ## 1. What finishes a formula -/

/-- How many parentheses are open. -/
def depth : List Frame → Nat
  | [] => 0
  | .paren :: frames => depth frames + 1
  | _ :: frames => depth frames

/-- At an end everything is closed, or everything up to the innermost open parenthesis. -/
theorem close_zero : ∀ (frames : List Frame) (value : Formula),
    (∃ f, close 0 value frames = (f, []) ∧ depth frames = 0) ∨
    ∃ f outer, close 0 value frames = (f, .paren :: outer) ∧ depth frames = depth outer + 1
  | [], value => .inl ⟨value, rfl, rfl⟩
  | .paren :: frames, value => .inr ⟨value, frames, rfl, rfl⟩
  | .sign :: frames, value => close_zero frames (.negate value)
  | .left op first :: frames, value => by
    rw [close_left (Nat.zero_le _)]
    exact close_zero frames (.binary op first value)

/-- After an operand, closing every open parenthesis finishes the formula. -/
theorem Reading.Holds.reads_closing {value : Formula} {frames : List Frame} {r : Reading}
    (h : Holds 0 value frames r) : ∃ r' f,
      Reads r (List.replicate (depth frames) .rightParen) r' ∧ r'.finish = .ok f := by
  induction hdepth : depth frames generalizing value frames r with
  | zero =>
    rcases close_zero frames value with ⟨f, hclose, -⟩ | ⟨f, outer, -, houter⟩
    · have hdone : Holds 0 f [] r := h.imp (Nat.le_refl 0) fun s hs => by
        rw [Nat.le_zero.1 hs, hclose]
        rfl
      exact ⟨r, f, Reads.nil r, hdone.finish⟩
    · omega
  | succ n ih =>
    rcases close_zero frames value with ⟨f, -, hnone⟩ | ⟨f, outer, hclose, houter⟩
    · omega
    · have hopen : Holds 0 f (.paren :: outer) r := h.imp (Nat.le_refl 0) fun s hs => by
        rw [Nat.le_zero.1 hs, hclose]
        rfl
      have hclosed : Holds 0 f outer (.afterOperand f outer) := fun _ _ => rfl
      obtain ⟨r', g, hreads, hfinish⟩ := ih hclosed (by omega)
      exact ⟨r', g, Reads.cons hopen.step_rightParen hreads, hfinish⟩

/-- Words that finish the formula. -/
def Reading.ending : Reading → List Lexeme
  | .operand frames => .text "" :: List.replicate (depth frames) .rightParen
  | .afterField _ _ frames => List.replicate (depth frames) .rightParen
  | .afterDot _ _ frames => .word "" :: List.replicate (depth frames) .rightParen
  | .afterOperand _ frames => List.replicate (depth frames) .rightParen

theorem Reading.reads_ending (r : Reading) : ∃ r' f, Reads r r.ending r' ∧ r'.finish = .ok f := by
  -- what the reader has come to after a whole operand
  have hfield : ∀ name inner frames,
      Holds 0 (.field name inner.reverse) frames (.afterField name inner frames) :=
    fun _ _ _ _ _ => rfl
  have hoperand : ∀ value frames, Holds 0 value frames (.afterOperand value frames) :=
    fun _ _ _ _ => rfl
  cases r with
  | operand frames =>
    obtain ⟨r', f, hreads, hfinish⟩ := (hoperand (.text "") frames).reads_closing
    exact ⟨r', f, Reads.cons (fun _ => rfl) hreads, hfinish⟩
  | afterField name inner frames => exact (hfield name inner frames).reads_closing
  | afterDot name inner frames =>
    obtain ⟨r', f, hreads, hfinish⟩ := (hfield name ("" :: inner) frames).reads_closing
    exact ⟨r', f, Reads.cons (fun _ => rfl) hreads, hfinish⟩
  | afterOperand value frames => exact (hoperand value frames).reads_closing

/-! ## 2. Where the reader stops -/

/-- The error is at this word, and says that it was found or what is missing before it. -/
structure Blames (e : SyntaxError) (token : Token) : Prop where
  column : e.column = some token.column
  cause : (∃ expected, e.cause = .unexpectedToken token.lexeme.display expected) ∨
    e.cause = .missingFieldName ∨ e.cause = .missingRightParen

theorem blames_of_startOperand {frames : List Frame} {token : Token} {e : SyntaxError}
    (h : startOperand frames token = .error e) : Blames e token := by
  unfold startOperand at h
  split at h
  case h_6 => cases h; exact ⟨rfl, .inl ⟨_, rfl⟩⟩
  all_goals cases h

theorem blames_of_followOperand {value : Formula} {frames : List Frame} {token : Token}
    {e : SyntaxError} (h : followOperand value frames token = .error e) : Blames e token := by
  unfold followOperand at h
  split at h
  · cases h
  · split at h
    · cases h
    · split at h
      · cases h
        exact ⟨rfl, .inr (.inr rfl)⟩
      · cases h
        exact ⟨rfl, .inl ⟨_, rfl⟩⟩

/-- A refused word is blamed. -/
theorem Reading.blames_of_step {r : Reading} {token : Token} {e : SyntaxError}
    (h : r.step token = .error e) : Blames e token := by
  cases r with
  | operand frames => exact blames_of_startOperand h
  | afterField name inner frames =>
    simp only [step] at h
    split at h
    · cases h
    · exact blames_of_followOperand h
  | afterDot name inner frames =>
    simp only [step] at h
    split at h
    · cases h
    · cases h
      exact ⟨rfl, .inr (.inl rfl)⟩
  | afterOperand value frames => exact blames_of_followOperand h

/-- What is missing at the end has no column. -/
theorem Reading.column_of_finish_error {r : Reading} {e : SyntaxError} (h : r.finish = .error e) :
    e.column = none := by
  have hoperand : ∀ {value frames}, finishOperand value frames = .error e → e.column = none := by
    intro value frames h
    unfold finishOperand at h
    split at h <;> cases h
    rfl
  cases r with
  | operand frames => cases h; rfl
  | afterField name inner frames => exact hoperand h
  | afterDot name inner frames => cases h; rfl
  | afterOperand value frames => exact hoperand h

/-- The reader takes all words before this one, and refuses this one. -/
def Refuses (before : List Token) (token : Token) (e : SyntaxError) : Prop :=
  ∃ r, before.foldlM step (.operand []) = .ok r ∧ r.step token = .error e

/-- The reader takes all words, and something more had to come. -/
def Lacks (tokens : List Token) (e : SyntaxError) : Prop :=
  ∃ r, tokens.foldlM step (.operand []) = .ok r ∧ r.finish = .error e

/-- A run of the reader ends at the first word that it refuses. -/
theorem foldlM_step_error {e : SyntaxError} : ∀ {tokens : List Token} {r : Reading},
    tokens.foldlM step r = .error e → ∃ before token after r', tokens = before ++ token :: after ∧
      before.foldlM step r = .ok r' ∧ r'.step token = .error e
  | [], r, h => by cases h
  | token :: tokens, r, h => by
    rw [List.foldlM_cons] at h
    cases hstep : r.step token with
    | error e' =>
      rw [hstep] at h
      cases h
      exact ⟨[], token, tokens, r, rfl, rfl, hstep⟩
    | ok next =>
      rw [hstep] at h
      obtain ⟨before, refused, after, r', rfl, hbefore, hrefused⟩ := foldlM_step_error h
      refine ⟨token :: before, refused, after, r', rfl, ?_, hrefused⟩
      rw [List.foldlM_cons, hstep]
      exact hbefore

/-- Words are no formula exactly if one of them is refused, or something is missing after all of
them. -/
theorem ofTokens_eq_error_iff {tokens : List Token} {e : SyntaxError} :
    ofTokens tokens = .error e ↔
      (∃ before token after, tokens = before ++ token :: after ∧ Refuses before token e) ∨
      tokens ≠ [] ∧ Lacks tokens e := by
  by_cases hne : tokens = []
  · subst hne
    simp [ofTokens]
  · rw [ofTokens, if_neg (by simpa using hne)]
    constructor
    · intro h
      cases hrun : tokens.foldlM step (.operand []) with
      | error e' =>
        rw [hrun] at h
        cases h
        obtain ⟨before, token, after, r, htokens, hbefore, hrefused⟩ := foldlM_step_error hrun
        exact .inl ⟨before, token, after, htokens, r, hbefore, hrefused⟩
      | ok r =>
        rw [hrun] at h
        exact .inr ⟨hne, r, hrun, h⟩
    · rintro (⟨before, token, after, rfl, r, hbefore, hrefused⟩ | ⟨-, r, hrun, hfinish⟩)
      · rw [List.foldlM_append, hbefore]
        change (List.foldlM step r (token :: after) >>= finish) = .error e
        rw [List.foldlM_cons, hrefused]
        rfl
      · rw [hrun]
        exact hfinish

/-! ## 3. Words that can begin a formula -/

/-- The words are the beginning of words that are read as a formula. -/
def Viable (tokens : List Token) : Prop :=
  ∃ rest f, ofTokens (tokens ++ rest) = .ok f

/-- Words that were taken are followed by their ending to a formula. -/
theorem exists_ofTokens_ending {tokens : List Token} {r : Reading}
    (h : tokens.foldlM step (.operand []) = .ok r) : ∃ f,
      ofTokens (tokens ++ r.ending.map (⟨·, 0⟩)) = .ok f := by
  obtain ⟨r', f, hreads, hfinish⟩ := r.reads_ending
  by_cases hnone : tokens ++ r.ending.map (⟨·, 0⟩) = []
  · rw [hnone]
    exact ⟨.everything, rfl⟩
  · refine ⟨f, ?_⟩
    have hending := hreads (r.ending.map (⟨·, 0⟩)) (by simp [Function.comp_def])
    rw [ofTokens, if_neg (by simpa using hnone), List.foldlM_append, h]
    change (List.foldlM step r (r.ending.map (⟨·, 0⟩)) >>= finish) = .ok f
    rw [hending]
    exact hfinish

theorem Refuses.blames {before : List Token} {token : Token} {e : SyntaxError}
    (h : Refuses before token e) : Blames e token := by
  obtain ⟨r, -, hstep⟩ := h
  exact r.blames_of_step hstep

/-- Before a refused word the words can begin a formula, and with it they cannot. -/
theorem Refuses.viable {before : List Token} {token : Token} {e : SyntaxError}
    (h : Refuses before token e) : Viable before ∧ ¬ Viable (before ++ [token]) := by
  constructor
  · obtain ⟨r, hbefore, -⟩ := h
    exact ⟨_, exists_ofTokens_ending hbefore⟩
  · rintro ⟨rest, f, hf⟩
    have herror : ofTokens (before ++ [token] ++ rest) = .error e :=
      ofTokens_eq_error_iff.2 (.inl ⟨before, token, rest, by simp, h⟩)
    rw [herror] at hf
    cases hf

/-- Words after which something is missing can be gone on with. -/
theorem Lacks.exists_rest {tokens : List Token} {e : SyntaxError} (hne : tokens ≠ [])
    (h : Lacks tokens e) : ∃ rest, rest ≠ [] ∧ ∃ f, ofTokens (tokens ++ rest) = .ok f := by
  obtain ⟨r, hrun, hfinish⟩ := h
  obtain ⟨f, hf⟩ := exists_ofTokens_ending hrun
  refine ⟨_, fun hnil => ?_, f, hf⟩
  have herror : ofTokens tokens = .error e :=
    ofTokens_eq_error_iff.2 (.inr ⟨hne, r, hrun, hfinish⟩)
  rw [hnil, List.append_nil, herror] at hf
  cases hf

/-- Where words in different columns are no formula, the error is at one of the words or at the
end. If it is at a word, the words before it are the beginning of words that are a formula, and
with it they are not; if it is at the end, all of them are, and more has to come. -/
theorem viable_take_of_ofTokens_error {tokens : List Token} {e : SyntaxError}
    (hcolumns : (tokens.map Token.column).Nodup) (h : ofTokens tokens = .error e) :
    (∀ column, e.column = some column → ∃ token ∈ tokens, token.column = column) ∧
    (∀ k token, tokens[k]? = some token → e.column = some token.column →
      Viable (tokens.take k) ∧ ¬ Viable (tokens.take (k + 1))) ∧
    (e.column = none → ∃ rest, rest ≠ [] ∧ ∃ f, ofTokens (tokens ++ rest) = .ok f) := by
  rcases ofTokens_eq_error_iff.1 h with ⟨before, refused, after, rfl, hrefuses⟩ | ⟨hne, hlacks⟩
  · have hcolumn := hrefuses.blames.column
    refine ⟨fun column hc => ⟨refused, by simp, ?_⟩, fun k token hk hc => ?_, fun hnone => ?_⟩
    · rw [hcolumn] at hc
      exact Option.some.inj hc
    · -- the refused word is the only one in its column
      have hk' : k = before.length := by
        have hlt : k < (before ++ refused :: after).length := (List.getElem?_eq_some_iff.1 hk).1
        have hthis : ((before ++ refused :: after).map Token.column)[k]? = some refused.column := by
          rw [List.getElem?_map, hk, Option.map_some, ← hc, hcolumn]
        have hthat : ((before ++ refused :: after).map Token.column)[before.length]? =
            some refused.column := by
          rw [List.getElem?_map, List.getElem?_append_right (Nat.le_refl _), Nat.sub_self]
          rfl
        exact (List.getElem?_inj (by simpa using hlt) hcolumns).1 (hthis.trans hthat.symm)
      subst hk'
      have htake : (before ++ refused :: after).take (before.length + 1) = before ++ [refused] :=
        List.take_length_add_append 1
      rw [List.take_left, htake]
      exact hrefuses.viable
    · rw [hcolumn] at hnone
      cases hnone
  · obtain ⟨r, -, hfinish⟩ := id hlacks
    have hcolumn := Reading.column_of_finish_error hfinish
    refine ⟨fun column hc => ?_, fun k token _ hc => ?_, fun _ => hlacks.exists_rest hne⟩
    · rw [hcolumn] at hc
      cases hc
    · rw [hcolumn] at hc
      cases hc

/-- For instance in `(a.b (c`, where after the field an operator or the closing parenthesis had to
come. -/
theorem viable_take_of_ofTokens_error_nested :
    let tokens : List Token :=
      [⟨.leftParen, 1⟩, ⟨.word "a", 2⟩, ⟨.dot, 3⟩, ⟨.word "b", 4⟩, ⟨.leftParen, 6⟩, ⟨.word "c", 7⟩]
    (tokens.map Token.column).Nodup ∧ ofTokens tokens = .error ⟨.missingRightParen, some 6⟩ ∧
      Viable (tokens.take 4) ∧ ¬ Viable (tokens.take 5) := by
  intro tokens
  have hcolumns : (tokens.map Token.column).Nodup := by decide
  have herror : ofTokens tokens = .error ⟨.missingRightParen, some 6⟩ := rfl
  have hstops := (viable_take_of_ofTokens_error hcolumns herror).2.1
  exact ⟨hcolumns, herror, hstops 4 ⟨.leftParen, 6⟩ rfl rfl⟩

end ShowTree.Formula
