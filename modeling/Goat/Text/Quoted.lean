import Goat.Text.Printable

/-!
# Quoted text

Texts between double quotes, as messages show them: quotes, backslashes and
everything unprintable are escaped, so the quoted form stands on one line.
-/

namespace Goat.Text

/-- The escape of a control character that has a letter of its own. -/
def controlEscape? (n : Nat) : Option Text :=
  if n = 0x07 then some "\\a"
  else if n = 0x08 then some "\\b"
  else if n = 0x0c then some "\\f"
  else if n = 0x0a then some "\\n"
  else if n = 0x0d then some "\\r"
  else if n = 0x09 then some "\\t"
  else if n = 0x0b then some "\\v"
  else none

/-- How one character, or stray byte, stands between quotes. -/
def Glyph.quoted (g : Glyph) : Text :=
  match g.char with
  | none => "\\x" ++ hexBytes g.bytes
  | some c =>
    let n := c.toNat
    if n = 0x22 then "\\\""
    else if n = 0x5c then "\\\\"
    else if isPrintable c then g.bytes
    else
      match controlEscape? n with
      | some escape => escape
      | none =>
        if n < 0x20 || n = 0x7f then "\\x" ++ hex 2 n
        else if n < 0x10000 then "\\u" ++ hex 4 n
        else "\\U" ++ hex 8 n

/-- The text between double quotes. -/
def quote (t : Text) : Text := 0x22 :: (glyphs t).flatMap Glyph.quoted ++ [0x22]

end Goat.Text
