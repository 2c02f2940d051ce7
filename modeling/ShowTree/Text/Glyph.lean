/-
ShowTree.Text.Glyph — a file's bytes read as UTF-8, character by character.

Bytes that spell no character are kept as `stray`, one by one. A reader can so pass over
them where their meaning does not matter, and refuse them where it does.
-/

namespace ShowTree.Text

/-- A character, or a byte that belongs to none. -/
inductive Glyph where
  | char (c : Char)
  | stray (byte : UInt8)
  deriving DecidableEq

/-- The one character that the bytes spell. -/
def spelled? (bytes : List UInt8) : Option Char :=
  match String.fromUTF8? ⟨bytes.toArray⟩ with
  | some text =>
    match text.toList with
    | [c] => some c
    | _ => none
  | none => none

/-- The glyphs of bytes that may not be UTF-8. At each place the shortest run of one to
four bytes that spells a character is taken, and failing that a single byte. -/
def Glyph.ofList : List UInt8 → List Glyph
  | [] => []
  | b :: rest =>
    match (List.range 4).findSome? fun k => (spelled? (b :: rest.take k)).map (·, k) with
    | some (c, k) => .char c :: Glyph.ofList (rest.drop k)
    | none => .stray b :: Glyph.ofList rest
  termination_by bytes => bytes.length

/-- The glyphs of a file's content. -/
def Glyph.ofBytes (bytes : ByteArray) : List Glyph :=
  match String.fromUTF8? bytes with
  | some text => text.toList.map .char
  | none => Glyph.ofList bytes.toList

end ShowTree.Text
