/-
ShowTree.Proofs.Json.Lexing — what is written is cut into the words it was written from.

A value that is legible, which has no garbled parts and only numbers that spell one, is
written from a list of words (`words`). Cutting what is written over several lines gives
these words again (`tokens?_pretty`). The text is followed piece by piece: some pieces leave
the reader between words, and some may leave it inside a word that the next mark closes
(`Separates`, `Continues`).
-/
import ShowTree.Json.Reader
import ShowTree.Json.Writer

namespace ShowTree.Json

open ShowTree.Text (Glyph)

/-! ## 1. Words -/

/-- Whether a literal is a number that can be read again. -/
def IsNumeral (literal : String) : Prop :=
  literal? literal.toList = some (.number literal) ∧ literal.toList ≠ [] ∧
    ∀ c ∈ literal.toList, isGap c = false ∧ c ≠ '"' ∧ punctuation? c = none

mutual
/-- Whether a value can be read when it has been written. -/
def Legible : Json → Prop
  | .number literal => IsNumeral literal
  | .array items => LegibleItems items
  | .object members => LegibleMembers members
  | .garbled => False
  | _ => True

def LegibleItems : List Json → Prop
  | [] => True
  | j :: rest => Legible j ∧ LegibleItems rest

def LegibleMembers : List (String × Json) → Prop
  | [] => True
  | (_, j) :: rest => Legible j ∧ LegibleMembers rest
end

mutual
/-- The words that a value is written from. -/
def words : Json → List Token
  | .text value => [.text (some value)]
  | .array items => .openArray :: itemWords items ++ [.closeArray]
  | .object members => .openObject :: memberWords members ++ [.closeObject]
  | j => [.word (atom j)]

/-- The words of items, with commas between them. -/
def itemWords : List Json → List Token
  | [] => []
  | [j] => words j
  | j :: rest => words j ++ .comma :: itemWords rest

/-- The words of members, with commas between them. -/
def memberWords : List (String × Json) → List Token
  | [] => []
  | [(k, j)] => .text (some k) :: .colon :: words j
  | (k, j) :: rest => .text (some k) :: .colon :: words j ++ .comma :: memberWords rest
end

/-! ## 2. Following a text -/

/-- The place that characters lead to. -/
def scan (s : Lexing) (cs : List Char) : Option Lexing :=
  (cs.map Glyph.char).foldlM Lexing.step s

theorem scan_append (s : Lexing) (a b : List Char) :
    scan s (a ++ b) = scan s a >>= fun s' => scan s' b := by
  simp [scan, List.foldlM_append]

theorem scan_cons (s : Lexing) (c : Char) (cs : List Char) :
    scan s (c :: cs) = s.step (.char c) >>= fun s' => scan s' cs := rfl

/-- The tokens so far are `ts`, and the reader is in no string. -/
structure Ready (s : Lexing) (ts : List Token) : Prop where
  mode : s.mode = .between ∨ ∃ read, s.mode = .word read
  tokens : s.closeWord = ts

theorem ready_between (ts : List Token) : Ready ⟨ts, .between⟩ ts :=
  ⟨.inl rfl, rfl⟩

/-- Characters that give these tokens and leave the reader between words. -/
def Separates (cs : List Char) (ws : List Token) : Prop :=
  ∀ s ts, Ready s ts → scan s cs = some ⟨ws.reverse ++ ts, .between⟩

/-- Characters that give these tokens from between two words, and leave the reader in no
string. -/
def Spells (cs : List Char) (ws : List Token) : Prop :=
  ∀ ts, ∃ s, scan ⟨ts, .between⟩ cs = some s ∧ Ready s (ws.reverse ++ ts)

/-- The same also after an open word. -/
def Continues (cs : List Char) (ws : List Token) : Prop :=
  ∀ s ts, Ready s ts → ∃ s', scan s cs = some s' ∧ Ready s' (ws.reverse ++ ts)

section Pieces

variable {a b : List Char} {wa wb : List Token}

theorem Separates.append (ha : Separates a wa) (hb : Separates b wb) :
    Separates (a ++ b) (wa ++ wb) := by
  intro s ts hs
  rw [scan_append, ha s ts hs, Option.bind_eq_bind, Option.bind_some,
    hb _ _ (ready_between _), List.reverse_append, List.append_assoc]

theorem Separates.then_spells (ha : Separates a wa) (hb : Spells b wb) :
    Continues (a ++ b) (wa ++ wb) := by
  intro s ts hs
  obtain ⟨s', hscan, hready⟩ := hb (wa.reverse ++ ts)
  refine ⟨s', ?_, ?_⟩
  · rw [scan_append, ha s ts hs, Option.bind_eq_bind, Option.bind_some, hscan]
  · rw [List.reverse_append, List.append_assoc]
    exact hready

theorem Continues.then_separates (ha : Continues a wa) (hb : Separates b wb) :
    Separates (a ++ b) (wa ++ wb) := by
  intro s ts hs
  obtain ⟨s', hscan, hready⟩ := ha s ts hs
  rw [scan_append, hscan, Option.bind_eq_bind, Option.bind_some, hb s' _ hready,
    List.reverse_append, List.append_assoc]

theorem Separates.then_continues (ha : Separates a wa) (hb : Continues b wb) :
    Continues (a ++ b) (wa ++ wb) :=
  ha.then_spells fun ts => hb _ ts (ready_between ts)

theorem Separates.continues (ha : Separates a wa) : Continues a wa :=
  fun s ts hs => ⟨_, ha s ts hs, ready_between _⟩

theorem Continues.spells (ha : Continues a wa) : Spells a wa :=
  fun ts => ha _ ts (ready_between ts)

end Pieces

/-- A character outside strings. -/
theorem step_outside {s : Lexing} {ts : List Token} (hs : Ready s ts) (c : Char) :
    s.step (.char c) = some (s.outside c) := by
  obtain ⟨tokens, mode⟩ := s
  rcases hs.mode with h | ⟨read, h⟩ <;> cases h <;> rfl

theorem separates_gap {c : Char} (h : isGap c = true) : Separates [c] [] := by
  intro s ts hs
  rw [scan_cons, step_outside hs, Option.bind_eq_bind, Option.bind_some, Lexing.outside, if_pos h,
    hs.tokens]
  rfl

theorem separates_mark {c : Char} {token : Token} (hgap : isGap c = false) (hquote : c ≠ '"')
    (h : punctuation? c = some token) : Separates [c] [token] := by
  intro s ts hs
  rw [scan_cons, step_outside hs, Option.bind_eq_bind, Option.bind_some, Lexing.outside,
    if_neg (by simp [hgap]), if_neg hquote, h, hs.tokens]
  rfl

theorem separates_nil_append {cs : List Char} (h : Separates cs []) :
    ∀ n : Nat, Separates (cs ++ List.replicate n ' ') []
  | 0 => by simpa using h
  | n + 1 => by
    have := (separates_nil_append h n).append (separates_gap (c := ' ') rfl)
    simpa [List.replicate_succ'] using this

theorem separates_newLine (depth : Nat) : Separates (newLine depth) [] := by
  have := separates_nil_append (separates_gap (c := '\n') rfl) (2 * depth)
  simpa [newLine] using this

/-- A word is read up to the mark that closes it. -/
theorem spells_word {cs : List Char} (hne : cs ≠ [])
    (h : ∀ c ∈ cs, isGap c = false ∧ c ≠ '"' ∧ punctuation? c = none) :
    Spells cs [.word cs] := by
  have hrun : ∀ (cs read : List Char) (ts : List Token),
      (∀ c ∈ cs, isGap c = false ∧ c ≠ '"' ∧ punctuation? c = none) →
      scan ⟨ts, .word read⟩ cs = some ⟨ts, .word (cs.reverse ++ read)⟩ := by
    intro cs
    induction cs with
    | nil => simp [scan]
    | cons c cs ih =>
      intro read ts h
      obtain ⟨hgap, hquote, hmark⟩ := h c (by simp)
      have hstep : (Lexing.mk ts (.word read)).step (.char c) = some ⟨ts, .word (c :: read)⟩ := by
        simp [Lexing.step, Lexing.outside, hgap, hquote, hmark]
      rw [scan_cons, hstep, Option.bind_eq_bind, Option.bind_some,
        ih (c :: read) ts fun d hd => h d (by simp [hd])]
      simp
  intro ts
  cases cs with
  | nil => exact absurd rfl hne
  | cons c cs =>
    obtain ⟨hgap, hquote, hmark⟩ := h c (by simp)
    have hstep : (Lexing.mk ts .between).step (.char c) = some ⟨ts, .word [c]⟩ := by
      simp [Lexing.step, Lexing.outside, hgap, hquote, hmark]
    refine ⟨⟨ts, .word (cs.reverse ++ [c])⟩, ?_, .inr ⟨_, rfl⟩, ?_⟩
    · rw [scan_cons, hstep, Option.bind_eq_bind, Option.bind_some,
        hrun cs [c] ts fun d hd => h d (by simp [hd])]
    · simp [Lexing.closeWord]

/-! ## 3. Strings -/

/-- What stands for a character in a string that has been written. -/
def pieceOf (c : Char) : Piece :=
  if c = '"' ∨ c = '\\' ∨ c = '\n' ∨ c = '\r' ∨ c = '\t' ∨ c = '\x08' ∨ c = '\x0c' then .char c
  else if c.toNat < 32 then .unit c.toNat
  else .char c

theorem hexDigit?_digitChar {n : Nat} (h : n < 16) : hexDigit? (Nat.digitChar n) = some n := by
  have : ∀ k : Fin 16, hexDigit? (Nat.digitChar k) = some k.1 := by decide
  exact this ⟨n, h⟩

/-- Reading the escape of a character gives the piece that stands for it. -/
theorem scan_escapeChar (c : Char) (read : List Piece) (ts : List Token) :
    scan ⟨ts, .string read⟩ (escapeChar c) = some ⟨ts, .string (pieceOf c :: read)⟩ := by
  unfold escapeChar pieceOf
  by_cases h₁ : c = '"'
  · subst h₁; rfl
  by_cases h₂ : c = '\\'
  · subst h₂; rfl
  by_cases h₃ : c = '\n'
  · subst h₃; rfl
  by_cases h₄ : c = '\r'
  · subst h₄; rfl
  by_cases h₅ : c = '\t'
  · subst h₅; rfl
  by_cases h₆ : c = '\x08'
  · subst h₆; rfl
  by_cases h₇ : c = '\x0c'
  · subst h₇; rfl
  simp only [h₁, h₂, h₃, h₄, h₅, h₆, h₇, or_self, if_false]
  by_cases h : c.toNat < 32
  · have hhigh := hexDigit?_digitChar (n := c.toNat / 16) (by omega)
    have hlow := hexDigit?_digitChar (n := c.toNat % 16) (by omega)
    have hvalue : 16 * (c.toNat / 16) + c.toNat % 16 = c.toNat := by omega
    have hzero : hexDigit? '0' = some 0 := rfl
    simp [h, scan, hexPair, Lexing.step, hzero, hhigh, hlow, hvalue]
  · simp [h, scan, Lexing.step, h₁, h₂]

theorem scan_escaped (ts : List Token) : ∀ (cs : List Char) (read : List Piece),
    scan ⟨ts, .string read⟩ (cs.flatMap escapeChar) =
      some ⟨ts, .string ((cs.map pieceOf).reverse ++ read)⟩
  | [], _ => rfl
  | c :: cs, read => by
    rw [List.flatMap_cons, scan_append, scan_escapeChar, Option.bind_eq_bind, Option.bind_some,
      scan_escaped ts cs]
    simp

/-- A code unit that is no half of a pair is a character of its own. -/
theorem assemble_unit {n : Nat} (hlead : isLead n = false) (htrail : isTrail n = false) :
    ∀ rest : List Piece,
      assemble (.unit n :: rest) = (assemble rest).map (Char.ofNat n :: ·)
  | [] => by simp [assemble, hlead, htrail]
  | .char _ :: _ => by simp [assemble, hlead, htrail]
  | .unit _ :: _ => by simp [assemble, hlead, htrail]
  | .stray :: _ => by simp [assemble, hlead, htrail]

/-- The pieces that stand for characters are these characters. -/
theorem assemble_pieces : ∀ cs : List Char, assemble (cs.map pieceOf) = some cs
  | [] => rfl
  | c :: cs => by
    have ih := assemble_pieces cs
    have hchar : ∀ d, pieceOf c = .char d → d = c := by
      intro d hd
      unfold pieceOf at hd
      split at hd
      · injection hd with hd; exact hd.symm
      · split at hd <;> cases hd
        rfl
    have hunit : ∀ n, pieceOf c = .unit n → n = c.toNat ∧ n < 32 := by
      intro n hn
      unfold pieceOf at hn
      split at hn
      · cases hn
      · split at hn
        · rename_i hlt
          injection hn with hn
          omega
        · cases hn
    cases hp : pieceOf c with
    | stray =>
      unfold pieceOf at hp
      split at hp
      · cases hp
      · split at hp <;> cases hp
    | char d =>
      rw [List.map_cons, hp, assemble, ih, hchar d hp]
      rfl
    | unit n =>
      obtain ⟨rfl, hlt⟩ := hunit n hp
      have hlead : isLead c.toNat = false := by simp [isLead]; omega
      have htrail : isTrail c.toNat = false := by simp [isTrail]; omega
      rw [List.map_cons, hp, assemble_unit hlead htrail, ih, Option.map_some, Char.ofNat_toNat]

theorem separates_quote (text : String) : Separates (quote text) [.text (some text)] := by
  intro s ts hs
  have hopen : s.outside '"' = ⟨ts, .string []⟩ := by
    simp [Lexing.outside, isGap, hs.tokens]
  have hclose : ∀ read : List Piece, (Lexing.mk ts (.string read)).step (.char '"') =
      some ⟨.text ((assemble read.reverse).map String.ofList) :: ts, .between⟩ := fun _ => rfl
  rw [quote, List.cons_append, scan_cons, step_outside hs, Option.bind_eq_bind, Option.bind_some,
    hopen, scan_append, scan_escaped, Option.bind_eq_bind, Option.bind_some, scan_cons, hclose]
  simp [scan, assemble_pieces, String.ofList_toList]

/-- A word can be checked letter by letter. -/
theorem spells_atom {j : Json} (hne : atom j ≠ [])
    (h : (atom j).all (fun c => !isGap c && c != '"' && (punctuation? c).isNone) = true) :
    Spells (atom j) [.word (atom j)] := by
  refine spells_word hne fun c hc => ?_
  have hchar := List.all_eq_true.1 h c hc
  simp only [Bool.and_eq_true, Bool.not_eq_true', bne_iff_ne, ne_eq, Option.isNone_iff_eq_none] at hchar
  exact ⟨hchar.1.1, hchar.1.2, hchar.2⟩

/-! ## 4. Values -/

mutual
/-- A value is written from its words, at any depth. -/
theorem spells_pretty (depth : Nat) : ∀ j : Json, Legible j → Spells (pretty depth j) (words j)
  | .null, _ => show Spells (atom .null) _ from spells_atom (by decide) (by decide)
  | .truth true, _ => show Spells (atom (.truth true)) _ from spells_atom (by decide) (by decide)
  | .truth false, _ => show Spells (atom (.truth false)) _ from spells_atom (by decide) (by decide)
  | .number literal, h => spells_word h.2.1 h.2.2
  | .text value, _ => (separates_quote value).continues.spells
  | .array [], _ => by
    have hopen := separates_mark (c := '[') rfl (by decide) rfl
    exact (hopen.append (separates_mark (c := ']') rfl (by decide) rfl)).continues.spells
  | .array (j :: rest), h => by
    have hopen := separates_mark (c := '[') rfl (by decide) rfl
    have hclose := separates_mark (c := ']') rfl (by decide) rfl
    have hitems := continues_prettyItems (depth + 1) (j :: rest) (by simp) h
    have := ((hopen.then_continues hitems).then_separates (separates_newLine depth)).append hclose
    simpa [pretty, words] using this.continues.spells
  | .object [], _ => by
    have hopen := separates_mark (c := '\x7b') rfl (by decide) rfl
    exact (hopen.append (separates_mark (c := '\x7d') rfl (by decide) rfl)).continues.spells
  | .object (m :: rest), h => by
    have hopen := separates_mark (c := '\x7b') rfl (by decide) rfl
    have hclose := separates_mark (c := '\x7d') rfl (by decide) rfl
    have hmembers := continues_prettyMembers (depth + 1) (m :: rest) (by simp) h
    have := ((hopen.then_continues hmembers).then_separates (separates_newLine depth)).append hclose
    simpa [pretty, words] using this.continues.spells
  | .garbled, h => h.elim

theorem continues_prettyItems (depth : Nat) : ∀ items : List Json, items ≠ [] →
    LegibleItems items → Continues (prettyItems depth items) (itemWords items)
  | [], hne, _ => absurd rfl hne
  | [j], _, h => by
    simpa [prettyItems, itemWords] using
      (separates_newLine depth).then_spells (spells_pretty depth j h.1)
  | j :: second :: rest, _, h => by
    have hcomma := separates_mark (c := ',') rfl (by decide) rfl
    have hfirst := (separates_newLine depth).then_spells (spells_pretty depth j h.1)
    have hrest := continues_prettyItems depth (second :: rest) (by simp) h.2
    simpa [prettyItems, itemWords] using (hfirst.then_separates hcomma).then_continues hrest

theorem continues_prettyMembers (depth : Nat) : ∀ members : List (String × Json), members ≠ [] →
    LegibleMembers members → Continues (prettyMembers depth members) (memberWords members)
  | [], hne, _ => absurd rfl hne
  | [(k, j)], _, h => by
    have hcolon :=
      (separates_mark (c := ':') rfl (by decide) rfl).append (separates_gap (c := ' ') rfl)
    have hkey := ((separates_newLine depth).append (separates_quote k)).append hcolon
    simpa [prettyMembers, memberWords] using hkey.then_spells (spells_pretty depth j h.1)
  | (k, j) :: second :: rest, _, h => by
    have hcomma := separates_mark (c := ',') rfl (by decide) rfl
    have hcolon :=
      (separates_mark (c := ':') rfl (by decide) rfl).append (separates_gap (c := ' ') rfl)
    have hkey := ((separates_newLine depth).append (separates_quote k)).append hcolon
    have hfirst := hkey.then_spells (spells_pretty depth j h.1)
    have hrest := continues_prettyMembers depth (second :: rest) (by simp) h.2
    simpa [prettyMembers, memberWords] using (hfirst.then_separates hcomma).then_continues hrest
end

/-- The text of a value is cut into the words that the value is written from. -/
theorem tokens?_pretty {j : Json} (h : Legible j) :
    tokens? ((pretty 0 j).map .char) = some (words j) := by
  obtain ⟨s, hscan, hready⟩ := spells_pretty 0 j h []
  rw [scan] at hscan
  have hfinish : s.finish? = some s.closeWord.reverse := by
    obtain ⟨tokens, mode⟩ := s
    rcases hready.mode with h | ⟨read, h⟩ <;> cases h <;> rfl
  rw [tokens?, hscan, Option.bind_eq_bind, Option.bind_some, hfinish, hready.tokens]
  simp

end ShowTree.Json
