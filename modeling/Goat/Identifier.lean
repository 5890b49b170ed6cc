import Goat.Text.Basic

/-!
# Identifiers and numerals

Names of variables and functions are made of ASCII letters, digits and
underscores; numerals of ASCII digits.
-/

namespace Goat

/-- The byte may start an identifier. -/
def isNameStart (b : UInt8) : Bool :=
  (0x41 ≤ b && b ≤ 0x5a) || (0x61 ≤ b && b ≤ 0x7a) || b == 0x5f

/-- The byte may continue an identifier. -/
def isNamePart (b : UInt8) : Bool := isNameStart b || Text.isDigit b

/-- The text is an identifier: a letter or underscore, then letters, digits and
    underscores. -/
def isIdentifier : Text → Bool
  | [] => false
  | b :: rest => isNameStart b && rest.all isNamePart

/-- The text is a numeral: one or more digits. -/
def isNumeral (t : Text) : Bool := !t.isEmpty && t.all Text.isDigit

end Goat
