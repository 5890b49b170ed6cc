import Goat.Text.Utf8

/-!
# White space

The white space characters are the six of ASCII, the next-line and no-break
characters and the space separators with the line and paragraph separators.
-/

namespace Goat.Text

/-- The character is white space. -/
def isBlankChar (c : Char) : Bool :=
  let n := c.toNat
  (0x09 ≤ n && n ≤ 0x0d) || n == 0x20 || n == 0x85 || n == 0xa0 || n == 0x1680
    || (0x2000 ≤ n && n ≤ 0x200a) || n == 0x2028 || n == 0x2029 || n == 0x202f || n == 0x205f
    || n == 0x3000

/-- The glyph is a white space character. -/
def Glyph.isBlank (u : Glyph) : Bool := u.char.any isBlankChar

/-- The text has nothing but white space. -/
def isBlank (t : Text) : Bool := (glyphs t).all Glyph.isBlank

/-- The bytes of a row of glyphs. -/
def ofGlyphs (us : List Glyph) : Text := us.flatMap Glyph.bytes

/-- The text without the white space in front. -/
def trimLeft (t : Text) : Text := ofGlyphs ((glyphs t).dropWhile Glyph.isBlank)

/-- The text without the white space at the end. -/
def trimRight (t : Text) : Text :=
  ofGlyphs ((glyphs t).reverse.dropWhile Glyph.isBlank).reverse

/-- The text without the white space around it. -/
def trim (t : Text) : Text :=
  ofGlyphs ((((glyphs t).dropWhile Glyph.isBlank).reverse.dropWhile Glyph.isBlank).reverse)

/-- Splits glyphs into maximal rows without white space; `word` holds the row
    being read, in reverse. -/
def wordsFrom (word : List Glyph) : List Glyph → List Text
  | [] => if word.isEmpty then [] else [ofGlyphs word.reverse]
  | u :: rest =>
    if u.isBlank then
      if word.isEmpty then wordsFrom [] rest else ofGlyphs word.reverse :: wordsFrom [] rest
    else wordsFrom (u :: word) rest

/-- The words of a text: its maximal parts without white space. -/
def words (t : Text) : List Text := wordsFrom [] (glyphs t)

end Goat.Text
