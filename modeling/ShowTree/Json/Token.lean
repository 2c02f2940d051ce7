/-
ShowTree.Json.Token — the words of a JSON text.

A text is taken in glyph by glyph. A string ends at its quote; its escapes are decoded
once it is complete, since two of them together can stand for one character. Whatever is
neither blank, punctuation nor string runs on as one word; whether that word is a literal
or a number is settled when it is read. A stray byte is allowed inside strings only, and
makes the string unreadable.
-/
import ShowTree.Text.Glyph

namespace ShowTree.Json

open ShowTree.Text (Glyph)

/-- A word of a JSON text. The text of a string that is not Unicode is `none`. -/
inductive Token where
  | openArray
  | closeArray
  | openObject
  | closeObject
  | comma
  | colon
  | text (value : Option String)
  | word (spelling : List Char)
  deriving DecidableEq

/-- The punctuation mark that a character is. -/
def punctuation? (c : Char) : Option Token :=
  if c = '[' then some .openArray
  else if c = ']' then some .closeArray
  else if c = '\x7b' then some .openObject
  else if c = '\x7d' then some .closeObject
  else if c = ',' then some .comma
  else if c = ':' then some .colon
  else none

/-- The four characters that may stand between words. -/
def isGap (c : Char) : Bool :=
  c == ' ' || c == '\n' || c == '\r' || c == '\t'

/-! ## 1. Strings -/

/-- A piece of a string: a character, a code unit written in hexadecimal, or a stray byte. -/
inductive Piece where
  | char (c : Char)
  | unit (value : Nat)
  | stray
  deriving DecidableEq

/-- Whether a code unit is the first half of a pair. -/
def isLead (n : Nat) : Bool :=
  0xD800 ≤ n && n ≤ 0xDBFF

/-- Whether a code unit is the second half of a pair. -/
def isTrail (n : Nat) : Bool :=
  0xDC00 ≤ n && n ≤ 0xDFFF

/-- The characters of a string, unless a byte is stray or half of a pair is missing. -/
def assemble : List Piece → Option (List Char)
  | [] => some []
  | .char c :: rest => (assemble rest).map (c :: ·)
  | .unit n :: .unit m :: rest =>
    if isLead n then
      if isTrail m then
        (assemble rest).map (Char.ofNat (0x10000 + (n - 0xD800) * 0x400 + (m - 0xDC00)) :: ·)
      else none
    else if isTrail n then none
    else (assemble (.unit m :: rest)).map (Char.ofNat n :: ·)
  | .unit n :: rest =>
    if isLead n || isTrail n then none else (assemble rest).map (Char.ofNat n :: ·)
  | .stray :: _ => none

/-- The character that a one-letter escape stands for. -/
def shortEscape? (c : Char) : Option Char :=
  if c = '"' || c = '\\' || c = '/' then some c
  else if c = 'b' then some '\x08'
  else if c = 'f' then some '\x0c'
  else if c = 'n' then some '\n'
  else if c = 'r' then some '\r'
  else if c = 't' then some '\t'
  else none

/-- The value of a hexadecimal digit. -/
def hexDigit? (c : Char) : Option Nat :=
  if '0' ≤ c && c ≤ '9' then some (c.toNat - '0'.toNat)
  else if 'a' ≤ c && c ≤ 'f' then some (c.toNat - 'a'.toNat + 10)
  else if 'A' ≤ c && c ≤ 'F' then some (c.toNat - 'A'.toNat + 10)
  else none

/-! ## 2. The text, glyph by glyph -/

/-- Where in the text the reader stands. What has been read of a word or string is kept
backwards. -/
inductive Mode where
  | between
  | word (read : List Char)
  | string (read : List Piece)
  | escape (read : List Piece)
  | hex (read : List Piece) (left : Nat) (value : Nat)

/-- The tokens so far, backwards, and the place in the text. -/
structure Lexing where
  tokens : List Token
  mode : Mode

/-- The tokens with the open word closed. -/
def Lexing.closeWord (s : Lexing) : List Token :=
  match s.mode with
  | .word read => .word read.reverse :: s.tokens
  | _ => s.tokens

/-- A character outside strings. -/
def Lexing.outside (s : Lexing) (c : Char) : Lexing :=
  if isGap c then ⟨s.closeWord, .between⟩
  else if c = '"' then ⟨s.closeWord, .string []⟩
  else
    match punctuation? c with
    | some token => ⟨token :: s.closeWord, .between⟩
    | none =>
      match s.mode with
      | .word read => ⟨s.tokens, .word (c :: read)⟩
      | _ => ⟨s.tokens, .word [c]⟩

/-- One more glyph of the text, unless it cannot stand there. -/
def Lexing.step (s : Lexing) (g : Glyph) : Option Lexing :=
  match s.mode, g with
  | .string read, .stray _ => some ⟨s.tokens, .string (.stray :: read)⟩
  | _, .stray _ => none
  | .between, .char c => some (s.outside c)
  | .word _, .char c => some (s.outside c)
  | .string read, .char c =>
    if c = '"' then
      some ⟨.text ((assemble read.reverse).map String.ofList) :: s.tokens, .between⟩
    else if c = '\\' then some ⟨s.tokens, .escape read⟩
    else if c.toNat < 32 then none
    else some ⟨s.tokens, .string (.char c :: read)⟩
  | .escape read, .char c =>
    if c = 'u' then some ⟨s.tokens, .hex read 4 0⟩
    else (shortEscape? c).map fun c => ⟨s.tokens, .string (.char c :: read)⟩
  | .hex read left value, .char c =>
    (hexDigit? c).map fun digit =>
      if left = 1 then ⟨s.tokens, .string (.unit (16 * value + digit) :: read)⟩
      else ⟨s.tokens, .hex read (left - 1) (16 * value + digit)⟩

/-- The tokens of a text that ends here. A string must not be open. -/
def Lexing.finish? (s : Lexing) : Option (List Token) :=
  match s.mode with
  | .between | .word _ => some s.closeWord.reverse
  | _ => none

/-- The tokens of a text. -/
def tokens? (glyphs : List Glyph) : Option (List Token) := do
  let s ← glyphs.foldlM Lexing.step ⟨[], .between⟩
  s.finish?

end ShowTree.Json
