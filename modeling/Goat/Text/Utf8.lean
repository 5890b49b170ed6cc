import Goat.Text.Basic

/-!
# Characters of a text

Reads the UTF-8 characters of a text. A byte that belongs to no well-formed
sequence stands alone and is no character.
-/

namespace Goat.Text

/-- The byte continues a multi-byte sequence. -/
def isContinuation (b : UInt8) : Bool := 0x80 ≤ b && b ≤ 0xbf

/-- The second byte of a three-byte sequence may follow the first: neither an
    overlong form nor a surrogate. -/
def startsThree (b0 b1 : UInt8) : Bool :=
  if b0 = 0xe0 then 0xa0 ≤ b1 && b1 ≤ 0xbf
  else if b0 = 0xed then 0x80 ≤ b1 && b1 ≤ 0x9f
  else 0xe1 ≤ b0 && b0 ≤ 0xef && isContinuation b1

/-- The second byte of a four-byte sequence may follow the first: neither an
    overlong form nor beyond the last code point. -/
def startsFour (b0 b1 : UInt8) : Bool :=
  if b0 = 0xf0 then 0x90 ≤ b1 && b1 ≤ 0xbf
  else if b0 = 0xf4 then 0x80 ≤ b1 && b1 ≤ 0x8f
  else 0xf1 ≤ b0 && b0 ≤ 0xf3 && isContinuation b1

/-- The payload bits of a continuation byte. -/
def payload (b : UInt8) : Nat := b.toNat - 0x80

/-- The first character of a text with its length in bytes; `none` in place of
    the character for a byte outside any well-formed sequence. -/
def decodeFirst : Text → Option Char × Nat
  | [] => (none, 1)
  | [b0] => if b0 < 0x80 then (some (Char.ofNat b0.toNat), 1) else (none, 1)
  | b0 :: b1 :: rest =>
    if b0 < 0x80 then (some (Char.ofNat b0.toNat), 1)
    else if 0xc2 ≤ b0 && b0 ≤ 0xdf && isContinuation b1 then
      (some (Char.ofNat ((b0.toNat - 0xc0) * 0x40 + payload b1)), 2)
    else
      match rest with
      | [] => (none, 1)
      | b2 :: rest =>
        if startsThree b0 b1 && isContinuation b2 then
          (some (Char.ofNat ((b0.toNat - 0xe0) * 0x1000 + payload b1 * 0x40 + payload b2)), 3)
        else
          match rest with
          | [] => (none, 1)
          | b3 :: _ =>
            if startsFour b0 b1 && isContinuation b2 && isContinuation b3 then
              (some (Char.ofNat ((b0.toNat - 0xf0) * 0x40000 + payload b1 * 0x1000
                + payload b2 * 0x40 + payload b3)), 4)
            else (none, 1)

/-- A character of a text, or a stray byte, with the bytes it takes. -/
structure Glyph where
  char : Option Char
  bytes : Text
  deriving DecidableEq, Repr

/-- The characters and stray bytes of a text, in order. -/
def glyphs (t : Text) : List Glyph :=
  match t with
  | [] => []
  | b :: rest =>
    let (char, size) := decodeFirst (b :: rest)
    ⟨char, b :: rest.take (size - 1)⟩ :: glyphs (rest.drop (size - 1))
  termination_by t.length
  decreasing_by simp only [List.length_drop, List.length_cons]; omega

/-- The text is well-formed UTF-8. -/
def isValid (t : Text) : Bool := (glyphs t).all fun u => u.char.isSome

/-- The number of characters, a stray byte counting as one. -/
def charCount (t : Text) : Nat := (glyphs t).length

/-- The character that stands for a byte outside any well-formed sequence. -/
def replacement : Char := Char.ofNat 0xfffd

/-- The characters of a text, with a replacement for every stray byte. -/
def toChars (t : Text) : List Char := (glyphs t).map fun u => u.char.getD replacement

/-- The text as a string, with a replacement for every stray byte. -/
def toStringLossy (t : Text) : String := String.ofList (toChars t)

/-- The text followed by blanks up to `width` characters. -/
def padRight (width : Nat) (t : Text) : Text := t ++ blanks (width - charCount t)

/-- The text preceded by blanks up to `width` characters. -/
def padLeft (width : Nat) (t : Text) : Text := blanks (width - charCount t) ++ t

end Goat.Text
