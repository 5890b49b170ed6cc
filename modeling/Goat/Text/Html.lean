import Goat.Text.Basic

/-!
# Text in HTML

The characters that HTML gives a meaning are written as entities.
-/

namespace Goat.Text

/-- The byte as it stands in HTML text. -/
def htmlByte (b : UInt8) : Text :=
  if b = 0x26 then "&amp;"
  else if b = 0x3c then "&lt;"
  else if b = 0x3e then "&gt;"
  else if b = 0x22 then "&quot;"
  else [b]

/-- The text as it stands in HTML. -/
def html (t : Text) : Text := t.flatMap htmlByte

/-- An element with its content and no attributes. -/
def element (name content : Text) : Text := join ["<", name, ">", content, "</", name, ">"]

end Goat.Text
