/-
ShowTree.Proofs.Expression.Reading — the reader accepts the grammar, and reads it rightly.

The reader goes through the words once and keeps what is open on a stack. To read the words of
a part of a derivation comes to the same as to have its formula at hand, with what was open
before still open (`Reading.Holds`); from that, everything that is derived is read, sums and
products grouped to the left. In the other direction, whatever the reader has come to, the
words so far are those of derivations that were finished and of what is open
(`Reading.Spells`), and closing puts them together. So words are read as a formula exactly if
they have a derivation, of which there is one only, that stands for it
(`ofTokens_eq_ok_iff`).
-/
import ShowTree.Proofs.Expression.Grammar

namespace ShowTree.Formula

/-! ## 1. Closing -/

/-- Nothing on top of the stack is closed by an operator of this strength. -/
def Stands (strength : Nat) : List Frame → Prop
  | .sign :: _ => False
  | .left op _ :: _ => op.strength < strength
  | _ => True

theorem Stands.mono {a b : Nat} (hab : a ≤ b) : ∀ {frames : List Frame}, Stands a frames →
    Stands b frames
  | [], _ => trivial
  | frame :: _, h => by
    cases frame with
    | paren => trivial
    | sign => exact h
    | left op value => exact Nat.lt_of_lt_of_le h hab

/-- No operator is looser than a plus, so at its strength nothing is on top but a parenthesis. -/
theorem Stands.of_one {s : Nat} : ∀ {frames : List Frame}, Stands 1 frames → Stands s frames
  | [], _ => trivial
  | frame :: _, h => by
    cases frame with
    | paren => trivial
    | sign => exact h
    | left op value =>
      have hop : op.strength < 1 := h
      cases op <;> exact absurd hop (by decide)

theorem close_of_stands {strength : Nat} (value : Formula) :
    ∀ {frames : List Frame}, Stands strength frames →
      close strength value frames = (value, frames)
  | [], _ => rfl
  | frame :: _, h => by
    cases frame with
    | paren => rfl
    | sign => exact h.elim
    | left op first => rw [close, if_neg (Nat.not_le.2 h)]

theorem close_left {strength : Nat} {op : Operator} (h : strength ≤ op.strength)
    (first value : Formula) (frames : List Frame) :
    close strength value (.left op first :: frames) =
      close strength (.binary op first value) frames := by
  rw [close, if_pos h]

/-! ## 2. What is derived is read -/

namespace Reading

/-- Words take one reading to another, wherever they stand. -/
def Reads (r : Reading) (words : List Lexeme) (r' : Reading) : Prop :=
  ∀ tokens : List Token, tokens.map Token.lexeme = words → tokens.foldlM step r = .ok r'

theorem Reads.nil (r : Reading) : Reads r [] r := by
  intro tokens h
  rw [List.map_eq_nil_iff.1 h]
  rfl

theorem Reads.append {r r' r'' : Reading} {words words' : List Lexeme} (h : Reads r words r')
    (h' : Reads r' words' r'') : Reads r (words ++ words') r'' := by
  intro tokens htokens
  obtain ⟨front, back, rfl, hfront, hback⟩ := List.map_eq_append_iff.1 htokens
  rw [List.foldlM_append, h front hfront]
  exact h' back hback

theorem Reads.one {r r' : Reading} {word : Lexeme} (h : ∀ column, r.step ⟨word, column⟩ = .ok r') :
    Reads r [word] r' := by
  intro tokens htokens
  obtain ⟨token, rfl, rfl⟩ := List.map_eq_singleton_iff.1 htokens
  rw [List.foldlM_cons, h token.column]
  rfl

theorem Reads.cons {r r' r'' : Reading} {word : Lexeme} {words : List Lexeme}
    (h : ∀ column, r.step ⟨word, column⟩ = .ok r') (h' : Reads r' words r'') :
    Reads r (word :: words) r'' :=
  (Reads.one h).append h'

/-- After an operand, to close anything up to a strength comes to the same as if this
formula stood there, with these frames open. -/
def Holds (strength : Nat) (value : Formula) (frames : List Frame) : Reading → Prop
  | .afterField name inner pending =>
    ∀ s ≤ strength, close s (.field name inner.reverse) pending = close s value frames
  | .afterOperand value' pending => ∀ s ≤ strength, close s value' pending = close s value frames
  | _ => False

variable {r : Reading} {strength : Nat} {value : Formula} {frames : List Frame}

theorem Holds.imp {strength' : Nat} {value' : Formula} {frames' : List Frame}
    (h : Holds strength value frames r) (hle : strength' ≤ strength)
    (heq : ∀ s ≤ strength', close s value frames = close s value' frames') :
    Holds strength' value' frames' r := by
  cases r with
  | afterField => exact fun s hs => (h s (Nat.le_trans hs hle)).trans (heq s hs)
  | afterOperand => exact fun s hs => (h s (Nat.le_trans hs hle)).trans (heq s hs)
  | operand => exact h
  | afterDot => exact h

theorem Holds.step_op (h : Holds strength value frames r) {op : Operator}
    (hop : op.strength ≤ strength) (hstands : Stands op.strength frames) (column : Nat) :
    r.step ⟨.op op, column⟩ = .ok (.operand (.left op value :: frames)) := by
  cases r with
  | afterField name inner pending =>
    have hclose := (h op.strength hop).trans (close_of_stands value hstands)
    simp [step, followOperand, hclose]
  | afterOperand value' pending =>
    have hclose := (h op.strength hop).trans (close_of_stands value hstands)
    simp [step, followOperand, hclose]
  | operand => exact h.elim
  | afterDot => exact h.elim

theorem Holds.step_rightParen (h : Holds strength value (.paren :: frames) r) (column : Nat) :
    r.step ⟨.rightParen, column⟩ = .ok (.afterOperand value frames) := by
  cases r with
  | afterField name inner pending =>
    have hclose := h 0 (Nat.zero_le _)
    simp [step, followOperand, hclose, close]
  | afterOperand value' pending =>
    have hclose := h 0 (Nat.zero_le _)
    simp [step, followOperand, hclose, close]
  | operand => exact h.elim
  | afterDot => exact h.elim

theorem Holds.finish (h : Holds strength value [] r) : r.finish = .ok value := by
  cases r with
  | afterField name inner pending =>
    simp [Reading.finish, finishOperand, h 0 (Nat.zero_le _), close]
  | afterOperand value' pending =>
    simp [Reading.finish, finishOperand, h 0 (Nat.zero_le _), close]
  | operand => exact h.elim
  | afterDot => exact h.elim

/-- After the first operand of an operation that is at least as tight, the operation stands
for its formula. -/
theorem Holds.of_left {op : Operator} {first : Formula}
    (h : Holds op.strength value (.left op first :: frames) r) :
    Holds op.strength (.binary op first value) frames r :=
  h.imp (Nat.le_refl _) fun _ hs => close_left hs first value frames

theorem reads_inner (name : String) (frames : List Frame) : ∀ inner read : List String,
    Reads (.afterField name read frames) (inner.flatMap fun next => [.dot, .word next])
      (.afterField name (inner.reverse ++ read) frames)
  | [], read => Reads.nil _
  | next :: inner, read => by
    have hrest := reads_inner name frames inner (next :: read)
    have hwords : Reads (.afterField name read frames) [.dot, .word next]
        (.afterField name (next :: read) frames) :=
      Reads.cons (fun _ => rfl) (Reads.one fun _ => rfl)
    rw [List.flatMap_cons, List.reverse_cons, List.append_assoc]
    exact hwords.append hrest

end Reading

open Reading

-- The induction is on the derivation. Products are read where neither a sign nor a product is
-- open on top, sums where nothing but a parenthesis is.
mutual

theorem Sum.reads {frames : List Frame} (h : Stands 1 frames) :
    ∀ e : Sum, ∃ r, Reads (.operand frames) e.words r ∧ Holds 1 e.formula frames r
  | .mk first rest => by
    obtain ⟨r, hfirst, hr⟩ := Product.reads (h.mono (by decide)) first
    obtain ⟨r', hrest, hr'⟩ := SumTail.reads h rest (hr.imp (by decide) fun _ _ => rfl)
    exact ⟨r', by rw [Sum.words]; exact hfirst.append hrest, hr'⟩

theorem SumTail.reads {frames : List Frame} (h : Stands 1 frames) :
    ∀ (t : SumTail) {r : Reading} {left : Formula}, Holds 1 left frames r →
      ∃ r', Reads r t.words r' ∧ Holds 1 (t.formula left) frames r'
  | .nil, r, _, hr => ⟨r, Reads.nil r, hr⟩
  | .cons op sign next rest, r, left, hr => by
    have hop := strength_of_sum sign
    have hleft : Stands 2 (.left op left :: frames) := by
      change op.strength < 2
      omega
    obtain ⟨r₁, hnext, hr₁⟩ := Product.reads hleft next
    have hsum : Holds 1 (.binary op left next.formula) frames r₁ :=
      hop ▸ (hr₁.imp (by omega) fun _ _ => rfl).of_left
    obtain ⟨r₂, hrest, hr₂⟩ := SumTail.reads h rest hsum
    refine ⟨r₂, ?_, hr₂⟩
    exact Reads.cons (hr.step_op (Nat.le_of_eq hop) (hop.symm ▸ h)) (hnext.append hrest)

theorem Product.reads {frames : List Frame} (h : Stands 2 frames) :
    ∀ p : Product, ∃ r, Reads (.operand frames) p.words r ∧ Holds 2 p.formula frames r
  | .mk first rest => by
    obtain ⟨r, hfirst, hr⟩ := Operand.reads frames first
    obtain ⟨r', hrest, hr'⟩ := ProductTail.reads h rest (hr 2)
    exact ⟨r', by rw [Product.words]; exact hfirst.append hrest, hr'⟩

theorem ProductTail.reads {frames : List Frame} (h : Stands 2 frames) :
    ∀ (t : ProductTail) {r : Reading} {left : Formula}, Holds 2 left frames r →
      ∃ r', Reads r t.words r' ∧ Holds 2 (t.formula left) frames r'
  | .nil, r, _, hr => ⟨r, Reads.nil r, hr⟩
  | .cons op sign next rest, r, left, hr => by
    have hop := strength_of_product sign
    obtain ⟨r₁, hnext, hr₁⟩ := Operand.reads (.left op left :: frames) next
    have hproduct : Holds 2 (.binary op left next.formula) frames r₁ :=
      hop ▸ (hr₁ op.strength).of_left
    obtain ⟨r₂, hrest, hr₂⟩ := ProductTail.reads h rest hproduct
    refine ⟨r₂, ?_, hr₂⟩
    exact Reads.cons (hr.step_op (Nat.le_of_eq hop) (hop.symm ▸ h)) (hnext.append hrest)

theorem Operand.reads (frames : List Frame) : ∀ u : Operand,
    ∃ r, Reads (.operand frames) u.words r ∧ ∀ s, Holds s u.formula frames r
  | .minus u => by
    obtain ⟨r, hu, hr⟩ := Operand.reads (.sign :: frames) u
    exact ⟨r, Reads.cons (fun _ => rfl) hu, fun s => (hr s).imp (Nat.le_refl s) fun _ _ => rfl⟩
  | .primary p => Primary.reads frames p

theorem Primary.reads (frames : List Frame) : ∀ p : Primary,
    ∃ r, Reads (.operand frames) p.words r ∧ ∀ s, Holds s p.formula frames r
  | .number value => ⟨_, Reads.one fun _ => rfl, fun _ _ _ => rfl⟩
  | .text value => ⟨_, Reads.one fun _ => rfl, fun _ _ _ => rfl⟩
  | .field name inner => by
    refine ⟨_, Reads.cons (fun _ => rfl) (reads_inner name frames inner []), fun _ _ _ => ?_⟩
    rw [List.append_nil, List.reverse_reverse]
    rfl
  | .paren e => by
    have hstands : Stands 1 (.paren :: frames) := trivial
    obtain ⟨r, he, hr⟩ := Sum.reads hstands e
    refine ⟨_, Reads.cons (fun _ => rfl) (he.append (Reads.one hr.step_rightParen)), ?_⟩
    exact fun _ _ _ => rfl

end

/-! ## 3. What is read is derived -/

/-- The words of what is open: finished derivations before the operators that wait for another
operand, signs and parentheses. -/
inductive Open : List Lexeme → List Frame → Prop
  | nil : Open [] []
  | paren {ws : List Lexeme} {frames : List Frame} (before : Open ws frames) :
    Open (ws ++ [.leftParen]) (.paren :: frames)
  | sign {ws : List Lexeme} {frames : List Frame} (before : Open ws frames) :
    Open (ws ++ [.op .minus]) (.sign :: frames)
  | sum {ws : List Lexeme} {frames : List Frame} {op : Operator} (before : Open ws frames)
    (e : Sum) (sign : op = .plus ∨ op = .minus) (stands : Stands 1 frames) :
    Open (ws ++ e.words ++ [.op op]) (.left op e.formula :: frames)
  | product {ws : List Lexeme} {frames : List Frame} {op : Operator} (before : Open ws frames)
    (p : Product) (sign : op = .times ∨ op = .over) (stands : Stands 2 frames) :
    Open (ws ++ p.words ++ [.op op]) (.left op p.formula :: frames)

/-- Closing has come to a product that is not part of a longer one. -/
def ClosedProduct (ws : List Lexeme) (closed : Formula × List Frame) : Prop :=
  ∃ ws' p, Open ws' closed.2 ∧ Stands 2 closed.2 ∧ ws = ws' ++ Product.words p ∧
    p.formula = closed.1

/-- Closing has come to a sum that is not part of a longer one. -/
def ClosedSum (ws : List Lexeme) (closed : Formula × List Frame) : Prop :=
  ∃ ws' e, Open ws' closed.2 ∧ Stands 1 closed.2 ∧ ws = ws' ++ Sum.words e ∧
    e.formula = closed.1

/-- An operand, closed as by a times or an over. -/
theorem Open.close_operand {ws : List Lexeme} {frames : List Frame} (h : Open ws frames) :
    ∀ u : Operand, ClosedProduct (ws ++ u.words) (close 2 u.formula frames) := by
  have halone : ∀ {ws : List Lexeme} {frames : List Frame}, Open ws frames → Stands 2 frames →
      ∀ u : Operand, ClosedProduct (ws ++ u.words) (close 2 u.formula frames) := by
    intro ws frames h hstands u
    rw [close_of_stands u.formula hstands]
    exact ⟨ws, .mk u .nil, h, hstands, by simp [Product.words, ProductTail.words], rfl⟩
  induction h with
  | nil => exact halone .nil trivial
  | paren before => exact halone before.paren trivial
  | sign before ih =>
    intro u
    rw [List.append_assoc]
    exact ih (.minus u)
  | @sum ws frames op before e sign stands =>
    have hop : op.strength < 2 := by
      rw [strength_of_sum sign]
      decide
    exact halone (before.sum e sign stands) hop
  | @product ws frames op before p sign stands =>
    intro u
    obtain ⟨first, rest⟩ := p
    rw [close_left (Nat.le_of_eq (strength_of_product sign).symm), close_of_stands _ stands]
    refine ⟨ws, .mk first (rest.snoc op sign u), before, stands, ?_, rest.formula_snoc sign u _⟩
    simp [Product.words, rest.words_snoc sign u]

/-- A product, closed as by a plus, a minus, or an end. -/
theorem Open.close_product {ws : List Lexeme} {frames : List Frame} (h : Open ws frames)
    (hstands : Stands 2 frames) (p : Product) {s : Nat} (hs : s ≤ 1) :
    ClosedSum (ws ++ p.words) (close s p.formula frames) := by
  have halone : ∀ {frames : List Frame}, Open ws frames → Stands 1 frames →
      ClosedSum (ws ++ p.words) (close s p.formula frames) := by
    intro frames h hone
    rw [close_of_stands p.formula hone.of_one]
    exact ⟨ws, .mk p .nil, h, hone, by simp [Sum.words, SumTail.words], rfl⟩
  cases h with
  | nil => exact halone .nil trivial
  | paren before => exact halone before.paren trivial
  | sign before => exact hstands.elim
  | @sum ws frames op before e sign stands =>
    obtain ⟨first, rest⟩ := e
    have hle : s ≤ op.strength := Nat.le_trans hs (Nat.le_of_eq (strength_of_sum sign).symm)
    rw [close_left hle, close_of_stands _ stands.of_one]
    refine ⟨ws, .mk first (rest.snoc op sign p), before, stands, ?_, rest.formula_snoc sign p _⟩
    simp [Sum.words, rest.words_snoc sign p]
  | @product ws frames op before q sign stands =>
    have hop : op.strength < 2 := hstands
    rw [strength_of_product sign] at hop
    exact absurd hop (by decide)

/-- To close up to a looser operator, one can close up to a tighter one before. -/
theorem close_close {s s' : Nat} (h : s ≤ s') (value : Formula) (frames : List Frame) :
    close s (close s' value frames).1 (close s' value frames).2 = close s value frames := by
  induction frames generalizing value with
  | nil => rfl
  | cons frame frames ih =>
    cases frame with
    | paren => rfl
    | sign => exact ih (.negate value)
    | left op first =>
      by_cases hop : s' ≤ op.strength
      · rw [close_left hop, close_left (Nat.le_trans h hop), ih]
      · rw [close, if_neg hop]

/-- An operand, closed as by a plus, a minus, or an end. -/
theorem Open.close_operand_sum {ws : List Lexeme} {frames : List Frame} (h : Open ws frames)
    (u : Operand) {s : Nat} (hs : s ≤ 1) :
    ClosedSum (ws ++ u.words) (close s u.formula frames) := by
  obtain ⟨ws', p, hopen, hstands, hwords, hformula⟩ := h.close_operand u
  have hclose := hopen.close_product hstands p hs
  rw [hformula, close_close (Nat.le_trans hs (by decide))] at hclose
  rw [hwords]
  exact hclose

/-- What the words so far are, by what the reader has come to. -/
def Reading.Spells (ws : List Lexeme) : Reading → Prop
  | .operand frames => Open ws frames
  | .afterField name inner frames =>
    ∃ ws', Open ws' frames ∧ ws = ws' ++ fieldWords name inner.reverse
  | .afterDot name inner frames =>
    ∃ ws', Open ws' frames ∧ ws = ws' ++ fieldWords name inner.reverse ++ [.dot]
  | .afterOperand value frames =>
    ∃ ws' u, Open ws' frames ∧ ws = ws' ++ Operand.words u ∧ u.formula = value

theorem fieldWords_concat (name : String) (inner : List String) (next : String) :
    fieldWords name (inner ++ [next]) = fieldWords name inner ++ [.dot, .word next] := by
  simp [fieldWords]

theorem spells_startOperand {ws : List Lexeme} {frames : List Frame} (h : Open ws frames)
    {token : Token} {r : Reading} (hr : startOperand frames token = .ok r) :
    r.Spells (ws ++ [token.lexeme]) := by
  unfold startOperand at hr
  split at hr
  · rename_i value hvalue
    cases hr
    exact ⟨ws, .primary (.number value), h, by rw [hvalue]; rfl, rfl⟩
  · rename_i value hvalue
    cases hr
    exact ⟨ws, .primary (.text value), h, by rw [hvalue]; rfl, rfl⟩
  · rename_i name hname
    cases hr
    exact ⟨ws, h, by rw [hname]; rfl⟩
  · rename_i hparen
    cases hr
    exact hparen ▸ h.paren
  · rename_i hminus
    cases hr
    exact hminus ▸ h.sign
  · cases hr

theorem spells_followOperand {ws : List Lexeme} {frames : List Frame} (h : Open ws frames)
    (u : Operand) {token : Token} {r : Reading}
    (hr : followOperand u.formula frames token = .ok r) :
    r.Spells (ws ++ u.words ++ [token.lexeme]) := by
  unfold followOperand at hr
  split at hr
  · rename_i op hop
    cases hr
    rw [hop]
    by_cases hsum : op = .plus ∨ op = .minus
    · have hstrength := strength_of_sum hsum
      obtain ⟨ws', e, hopen, hstands, hwords, hformula⟩ := h.close_operand_sum u (Nat.le_of_eq hstrength)
      rw [hwords]
      exact hformula ▸ hopen.sum e hsum hstands
    · have hproduct : op = .times ∨ op = .over := by
        cases op <;> simp at hsum ⊢
      have hstrength := strength_of_product hproduct
      obtain ⟨ws', p, hopen, hstands, hwords, hformula⟩ := h.close_operand u
      rw [hwords, hstrength]
      exact hformula ▸ hopen.product p hproduct hstands
  · obtain ⟨ws', e, hopen, -, hwords, hformula⟩ := h.close_operand_sum u (Nat.zero_le 1)
    split at hr
    · rename_i value rest hfound hclose
      cases hr
      rw [hclose] at hopen hformula
      cases hopen with
      | paren before =>
        refine ⟨_, .primary (.paren e), before, ?_, hformula⟩
        rw [hwords, hfound]
        simp [Operand.words, Primary.words]
    · split at hr <;> cases hr

/-- One more word. -/
theorem Reading.Spells.step {ws : List Lexeme} {token : Token} {r r' : Reading} (h : r.Spells ws)
    (hr : r.step token = .ok r') : r'.Spells (ws ++ [token.lexeme]) := by
  cases r with
  | operand frames => exact spells_startOperand h hr
  | afterField name inner frames =>
    obtain ⟨ws', hopen, rfl⟩ := h
    simp only [Reading.step] at hr
    split at hr
    · rename_i hdot
      cases hr
      exact ⟨ws', hopen, by rw [hdot]⟩
    · exact spells_followOperand hopen (.primary (.field name inner.reverse)) hr
  | afterDot name inner frames =>
    obtain ⟨ws', hopen, rfl⟩ := h
    simp only [Reading.step] at hr
    split at hr
    · rename_i next hnext
      cases hr
      refine ⟨ws', hopen, ?_⟩
      rw [hnext, List.reverse_cons, fieldWords_concat]
      simp
    · cases hr
  | afterOperand value frames =>
    obtain ⟨ws', u, hopen, rfl, rfl⟩ := h
    exact spells_followOperand hopen u hr

/-- Any number of words. -/
theorem Reading.Spells.run {r' : Reading} : ∀ {tokens : List Token} {ws : List Lexeme}
    {r : Reading}, r.Spells ws → tokens.foldlM Reading.step r = .ok r' →
      r'.Spells (ws ++ tokens.map Token.lexeme)
  | [], ws, r, h, hr => by
    cases hr
    simpa using h
  | token :: tokens, ws, r, h, hr => by
    rw [List.foldlM_cons] at hr
    cases hstep : r.step token with
    | error e =>
      rw [hstep] at hr
      cases hr
    | ok next =>
      rw [hstep] at hr
      have hrest := (h.step hstep).run hr
      rwa [List.append_assoc] at hrest

theorem exists_sum_of_finishOperand {ws : List Lexeme} {frames : List Frame} (h : Open ws frames)
    (u : Operand) {f : Formula} (hf : finishOperand u.formula frames = .ok f) :
    ∃ e : Sum, e.words = ws ++ u.words ∧ e.formula = f := by
  obtain ⟨ws', e, hopen, -, hwords, hformula⟩ := h.close_operand_sum u (Nat.zero_le 1)
  unfold finishOperand at hf
  split at hf
  · rename_i value hclose
    cases hf
    rw [hclose] at hopen hformula
    cases hopen
    exact ⟨e, hwords.symm, hformula⟩
  · cases hf

/-- Words that can end here are those of a derivation. -/
theorem Reading.Spells.finish {ws : List Lexeme} {r : Reading} {f : Formula} (h : r.Spells ws)
    (hf : r.finish = .ok f) : ∃ e : Sum, e.words = ws ∧ e.formula = f := by
  cases r with
  | operand frames => cases hf
  | afterField name inner frames =>
    obtain ⟨ws', hopen, rfl⟩ := h
    exact exists_sum_of_finishOperand hopen (.primary (.field name inner.reverse)) hf
  | afterDot name inner frames => cases hf
  | afterOperand value frames =>
    obtain ⟨ws', u, hopen, rfl, rfl⟩ := h
    exact exists_sum_of_finishOperand hopen u hf

/-! ## 4. Reading is deriving -/

/-- The words of a derivation are read as its formula. -/
theorem ofTokens_of_words {e : Sum} {tokens : List Token}
    (h : e.words = tokens.map Token.lexeme) (hne : tokens ≠ []) :
    ofTokens tokens = .ok e.formula := by
  have hstands : Stands 1 [] := trivial
  obtain ⟨r, hreads, hr⟩ := Sum.reads hstands e
  rw [ofTokens, if_neg (by simpa using hne), hreads tokens h.symm]
  exact hr.finish

/-- Words are read as a formula exactly if they have a derivation that stands for it, and then
they have no other. No words at all are read as a formula for everything. -/
theorem ofTokens_eq_ok_iff (tokens : List Token) (f : Formula) :
    ofTokens tokens = .ok f ↔
      tokens = [] ∧ f = .everything ∨
      tokens ≠ [] ∧ ∃ e : Sum, e.words = tokens.map Token.lexeme ∧ e.formula = f ∧
        ∀ e' : Sum, e'.words = tokens.map Token.lexeme → e' = e := by
  constructor
  · intro h
    by_cases hne : tokens = []
    · subst hne
      cases h
      exact .inl ⟨rfl, rfl⟩
    · rw [ofTokens, if_neg (by simpa using hne)] at h
      cases hrun : tokens.foldlM Reading.step (.operand []) with
      | error e =>
        rw [hrun] at h
        cases h
      | ok r =>
        rw [hrun] at h
        have hspells := Reading.Spells.run (r := .operand []) Open.nil hrun
        obtain ⟨e, hwords, hformula⟩ := hspells.finish h
        rw [List.nil_append] at hwords
        exact .inr ⟨hne, e, hwords, hformula,
          fun e' he' => Sum.eq_of_words_eq (he'.trans hwords.symm)⟩
  · rintro (⟨rfl, rfl⟩ | ⟨hne, e, hwords, rfl, -⟩)
    · rfl
    · exact ofTokens_of_words hwords hne

end ShowTree.Formula
