/-
ShowTree.Proofs.Expression.Grammar — the grammar of formulas.

A formula is written on two levels: a sum of products, and a product of operands with signs
before them. A derivation is a tree of its own (`Sum`), from which both the words that it
spells and the formula that these stand for are read off; on either level the operators group
to the left, and parentheses leave no trace. Words have one derivation at most
(`Sum.eq_of_words_eq`): what a part of a derivation can be followed by never looks like more
of that part (`Closes`), so where it ends is settled by the words.
-/
import ShowTree.Expression.Formula

namespace ShowTree.Formula

/-! ## 1. Derivations -/

mutual

/-- Products, with a plus or a minus between them. -/
inductive Sum where
  | mk (first : Product) (rest : SumTail)

/-- What comes after the first product of a sum. -/
inductive SumTail where
  | nil
  | cons (op : Operator) (sign : op = .plus ∨ op = .minus) (next : Product) (rest : SumTail)

/-- Operands, with a times or an over between them. -/
inductive Product where
  | mk (first : Operand) (rest : ProductTail)

/-- What comes after the first operand of a product. -/
inductive ProductTail where
  | nil
  | cons (op : Operator) (sign : op = .times ∨ op = .over) (next : Operand) (rest : ProductTail)

/-- Something with any number of minus signs before it. -/
inductive Operand where
  | minus (operand : Operand)
  | primary (p : Primary)

/-- A number, a text, a field, or a sum in parentheses. -/
inductive Primary where
  | number (value : Float)
  | text (value : String)
  | field (name : String) (inner : List String)
  | paren (inside : Sum)

end

/-- The words of a field: names with dots between them. -/
def fieldWords (name : String) (inner : List String) : List Lexeme :=
  .word name :: inner.flatMap fun next => [.dot, .word next]

mutual

/-- The words that a derivation spells. -/
def Sum.words : Sum → List Lexeme
  | .mk first rest => first.words ++ rest.words

def SumTail.words : SumTail → List Lexeme
  | .nil => []
  | .cons op _ next rest => .op op :: (next.words ++ rest.words)

def Product.words : Product → List Lexeme
  | .mk first rest => first.words ++ rest.words

def ProductTail.words : ProductTail → List Lexeme
  | .nil => []
  | .cons op _ next rest => .op op :: (next.words ++ rest.words)

def Operand.words : Operand → List Lexeme
  | .minus operand => .op .minus :: operand.words
  | .primary p => p.words

def Primary.words : Primary → List Lexeme
  | .number value => [.number value]
  | .text value => [.text value]
  | .field name inner => fieldWords name inner
  | .paren inside => .leftParen :: (inside.words ++ [.rightParen])

end

mutual

/-- The formula that a derivation stands for. -/
def Sum.formula : Sum → Formula
  | .mk first rest => rest.formula first.formula

/-- The formula of a sum of which `left` has been read. -/
def SumTail.formula : SumTail → Formula → Formula
  | .nil, left => left
  | .cons op _ next rest, left => rest.formula (.binary op left next.formula)

def Product.formula : Product → Formula
  | .mk first rest => rest.formula first.formula

/-- The formula of a product of which `left` has been read. -/
def ProductTail.formula : ProductTail → Formula → Formula
  | .nil, left => left
  | .cons op _ next rest, left => rest.formula (.binary op left next.formula)

def Operand.formula : Operand → Formula
  | .minus operand => .negate operand.formula
  | .primary p => p.formula

def Primary.formula : Primary → Formula
  | .number value => .number value
  | .text value => .text value
  | .field name inner => .field name inner
  | .paren inside => inside.formula

end

/-! ## 2. Longer derivations -/

/-- One product more. -/
def SumTail.snoc (op : Operator) (sign : op = .plus ∨ op = .minus) (last : Product) :
    SumTail → SumTail
  | .nil => .cons op sign last .nil
  | .cons op' sign' next rest => .cons op' sign' next (rest.snoc op sign last)

/-- One operand more. -/
def ProductTail.snoc (op : Operator) (sign : op = .times ∨ op = .over) (last : Operand) :
    ProductTail → ProductTail
  | .nil => .cons op sign last .nil
  | .cons op' sign' next rest => .cons op' sign' next (rest.snoc op sign last)

section Snoc

variable {op : Operator}

theorem SumTail.words_snoc (sign : op = .plus ∨ op = .minus) (last : Product) :
    ∀ t : SumTail, (t.snoc op sign last).words = t.words ++ .op op :: last.words
  | .nil => by simp [snoc, words]
  | .cons _ _ _ rest => by simp [snoc, words, words_snoc sign last rest]

theorem SumTail.formula_snoc (sign : op = .plus ∨ op = .minus) (last : Product) :
    ∀ (t : SumTail) (left : Formula),
      (t.snoc op sign last).formula left = .binary op (t.formula left) last.formula
  | .nil, _ => rfl
  | .cons _ _ _ rest, _ => formula_snoc sign last rest _

theorem ProductTail.words_snoc (sign : op = .times ∨ op = .over) (last : Operand) :
    ∀ t : ProductTail, (t.snoc op sign last).words = t.words ++ .op op :: last.words
  | .nil => by simp [snoc, words]
  | .cons _ _ _ rest => by simp [snoc, words, words_snoc sign last rest]

theorem ProductTail.formula_snoc (sign : op = .times ∨ op = .over) (last : Operand) :
    ∀ (t : ProductTail) (left : Formula),
      (t.snoc op sign last).formula left = .binary op (t.formula left) last.formula
  | .nil, _ => rfl
  | .cons _ _ _ rest, _ => formula_snoc sign last rest _

end Snoc

theorem strength_of_sum {op : Operator} (sign : op = .plus ∨ op = .minus) : op.strength = 1 := by
  rcases sign with rfl | rfl <;> rfl

theorem strength_of_product {op : Operator} (sign : op = .times ∨ op = .over) :
    op.strength = 2 := by
  rcases sign with rfl | rfl <;> rfl

/-! ## 3. One derivation at most -/

/-- These words do not go on with a field, nor with operators of this strength or more: after
sums they have strength one, after products strength two, and after operands there is none. -/
def Closes (strength : Nat) : List Lexeme → Prop
  | .dot :: _ => False
  | .op op :: _ => op.strength < strength
  | _ => True

theorem Closes.mono {a b : Nat} (hab : a ≤ b) : ∀ {ws : List Lexeme}, Closes a ws → Closes b ws
  | [], _ => trivial
  | w :: _, h => by
    cases w with
    | op op => exact Nat.lt_of_lt_of_le h hab
    | dot => exact h
    | _ => trivial

theorem closes_op {op : Operator} {strength : Nat} (h : op.strength < strength)
    (ws : List Lexeme) : Closes strength (.op op :: ws) :=
  h

theorem SumTail.closes_words {ws : List Lexeme} (h : Closes 1 ws) (t : SumTail) :
    Closes 2 (t.words ++ ws) := by
  cases t with
  | nil => exact h.mono (by decide)
  | cons op sign next rest => exact closes_op (by rw [strength_of_sum sign]; decide) _

theorem ProductTail.closes_words {ws : List Lexeme} (h : Closes 2 ws) (t : ProductTail) :
    Closes 3 (t.words ++ ws) := by
  cases t with
  | nil => exact h.mono (by decide)
  | cons op sign next rest => exact closes_op (by rw [strength_of_product sign]; decide) _

theorem eq_of_innerWords_append {ws vs : List Lexeme} (hw : Closes 3 ws) (hv : Closes 3 vs) :
    ∀ {inner inner' : List String}, inner.flatMap (fun next => [Lexeme.dot, .word next]) ++ ws =
      inner'.flatMap (fun next => [Lexeme.dot, .word next]) ++ vs → inner = inner' ∧ ws = vs
  | [], [], h => ⟨rfl, h⟩
  | [], _ :: _, h => by
    simp only [List.flatMap_nil, List.nil_append] at h
    rw [h] at hw
    exact hw.elim
  | _ :: _, [], h => by
    simp only [List.flatMap_nil, List.nil_append] at h
    rw [← h] at hv
    exact hv.elim
  | _ :: rest, _ :: rest', h => by
    simp only [List.flatMap_cons, List.cons_append, List.nil_append, List.cons.injEq, true_and,
      Lexeme.word.injEq] at h
    obtain ⟨hinner, hrest⟩ := eq_of_innerWords_append hw hv h.2
    exact ⟨by rw [h.1, hinner], hrest⟩

-- The induction is on the first derivation; what follows it is general, since each part is
-- followed by the parts after it.
mutual

theorem Sum.eq_of_words_append {ws vs : List Lexeme} (hw : Closes 1 ws) (hv : Closes 1 vs) :
    ∀ {e e' : Sum}, e.words ++ ws = e'.words ++ vs → e = e' ∧ ws = vs
  | .mk first rest, .mk first' rest', h => by
    simp only [Sum.words, List.append_assoc] at h
    obtain ⟨hfirst, hrest⟩ := Product.eq_of_words_append (rest.closes_words hw)
      (rest'.closes_words hv) h
    obtain ⟨hrest, hend⟩ := SumTail.eq_of_words_append hw hv hrest
    exact ⟨by rw [hfirst, hrest], hend⟩

theorem SumTail.eq_of_words_append {ws vs : List Lexeme} (hw : Closes 1 ws) (hv : Closes 1 vs) :
    ∀ {t t' : SumTail}, t.words ++ ws = t'.words ++ vs → t = t' ∧ ws = vs
  | .nil, .nil, h => ⟨rfl, h⟩
  | .nil, .cons op sign _ _, h => by
    have hop : op.strength < 1 := by
      simp only [SumTail.words, List.nil_append, List.cons_append] at h
      rwa [h] at hw
    rw [strength_of_sum sign] at hop
    exact absurd hop (by decide)
  | .cons op sign _ _, .nil, h => by
    have hop : op.strength < 1 := by
      simp only [SumTail.words, List.nil_append, List.cons_append] at h
      rwa [← h] at hv
    rw [strength_of_sum sign] at hop
    exact absurd hop (by decide)
  | .cons op _ next rest, .cons op' _ next' rest', h => by
    simp only [SumTail.words, List.cons_append, List.append_assoc, List.cons.injEq,
      Lexeme.op.injEq] at h
    obtain ⟨rfl, h⟩ := h
    obtain ⟨hnext, hrest⟩ := Product.eq_of_words_append (rest.closes_words hw)
      (rest'.closes_words hv) h
    obtain ⟨hrest, hend⟩ := SumTail.eq_of_words_append hw hv hrest
    exact ⟨by rw [hnext, hrest], hend⟩

theorem Product.eq_of_words_append {ws vs : List Lexeme} (hw : Closes 2 ws) (hv : Closes 2 vs) :
    ∀ {p p' : Product}, p.words ++ ws = p'.words ++ vs → p = p' ∧ ws = vs
  | .mk first rest, .mk first' rest', h => by
    simp only [Product.words, List.append_assoc] at h
    obtain ⟨hfirst, hrest⟩ := Operand.eq_of_words_append (rest.closes_words hw)
      (rest'.closes_words hv) h
    obtain ⟨hrest, hend⟩ := ProductTail.eq_of_words_append hw hv hrest
    exact ⟨by rw [hfirst, hrest], hend⟩

theorem ProductTail.eq_of_words_append {ws vs : List Lexeme} (hw : Closes 2 ws)
    (hv : Closes 2 vs) :
    ∀ {t t' : ProductTail}, t.words ++ ws = t'.words ++ vs → t = t' ∧ ws = vs
  | .nil, .nil, h => ⟨rfl, h⟩
  | .nil, .cons op sign _ _, h => by
    have hop : op.strength < 2 := by
      simp only [ProductTail.words, List.nil_append, List.cons_append] at h
      rwa [h] at hw
    rw [strength_of_product sign] at hop
    exact absurd hop (by decide)
  | .cons op sign _ _, .nil, h => by
    have hop : op.strength < 2 := by
      simp only [ProductTail.words, List.nil_append, List.cons_append] at h
      rwa [← h] at hv
    rw [strength_of_product sign] at hop
    exact absurd hop (by decide)
  | .cons op _ next rest, .cons op' _ next' rest', h => by
    simp only [ProductTail.words, List.cons_append, List.append_assoc, List.cons.injEq,
      Lexeme.op.injEq] at h
    obtain ⟨rfl, h⟩ := h
    obtain ⟨hnext, hrest⟩ := Operand.eq_of_words_append (rest.closes_words hw)
      (rest'.closes_words hv) h
    obtain ⟨hrest, hend⟩ := ProductTail.eq_of_words_append hw hv hrest
    exact ⟨by rw [hnext, hrest], hend⟩

theorem Operand.eq_of_words_append {ws vs : List Lexeme} (hw : Closes 3 ws) (hv : Closes 3 vs) :
    ∀ {u u' : Operand}, u.words ++ ws = u'.words ++ vs → u = u' ∧ ws = vs
  | .minus u, .minus u', h => by
    simp only [Operand.words, List.cons_append, List.cons.injEq, true_and] at h
    obtain ⟨hu, hend⟩ := Operand.eq_of_words_append hw hv h
    exact ⟨by rw [hu], hend⟩
  | .minus _, .primary p, h => by
    cases p <;> simp [Operand.words, Primary.words, fieldWords] at h
  | .primary p, .minus _, h => by
    cases p <;> simp [Operand.words, Primary.words, fieldWords] at h
  | .primary p, .primary p', h => by
    have hwords : p.words ++ ws = p'.words ++ vs := h
    obtain ⟨hp, hend⟩ := Primary.eq_of_words_append hw hv hwords
    exact ⟨by rw [hp], hend⟩

theorem Primary.eq_of_words_append {ws vs : List Lexeme} (hw : Closes 3 ws) (hv : Closes 3 vs) :
    ∀ {p p' : Primary}, p.words ++ ws = p'.words ++ vs → p = p' ∧ ws = vs
  | .number value, p', h => by
    cases p' <;> simp_all [Primary.words, fieldWords]
  | .text value, p', h => by
    cases p' <;> simp_all [Primary.words, fieldWords]
  | .field name inner, p', h => by
    cases p' with
    | field name' inner' =>
      simp only [Primary.words, fieldWords, List.cons_append, List.cons.injEq,
        Lexeme.word.injEq] at h
      obtain ⟨hinner, hend⟩ := eq_of_innerWords_append hw hv h.2
      exact ⟨by rw [h.1, hinner], hend⟩
    | _ => simp [Primary.words, fieldWords] at h
  | .paren e, p', h => by
    cases p' with
    | paren e' =>
      simp only [Primary.words, List.cons_append, List.append_assoc, List.cons.injEq,
        true_and] at h
      have hclosed : ∀ us, Closes 1 (.rightParen :: us) := fun _ => trivial
      obtain ⟨he, hend⟩ := Sum.eq_of_words_append (hclosed ws) (hclosed vs) h
      exact ⟨by rw [he], (List.cons.inj hend).2⟩
    | _ => simp [Primary.words, fieldWords] at h

end

/-- Words have one derivation at most. -/
theorem Sum.eq_of_words_eq {e e' : Sum} (h : e.words = e'.words) : e = e' := by
  have hclosed : Closes 1 [] := trivial
  exact (Sum.eq_of_words_append hclosed hclosed (by rw [h])).1

end ShowTree.Formula
