import Goat.Text.Basic

/-!
# Decimal fractions

Numbers written with digits and at most one point.
-/

namespace Goat.Decimal

/-- The digits at the start of a text, and what follows them. -/
def takeDigits (t : Text) : Text × Text := t.span Text.isDigit

/-- The value of a row of digits, zero for none. -/
def digitsValue (t : Text) : Nat := (Text.readDigits 0 t).getD 0

/-- A number with digits before or after an optional point, as the value of all
    digits and the number of those after the point; and what follows it. -/
def read? (t : Text) : Option ((Nat × Nat) × Text) :=
  let (whole, rest) := takeDigits t
  let (fraction, rest) := match rest with
    | 0x2e :: rest => takeDigits rest
    | rest => ([], rest)
  if whole.isEmpty && fraction.isEmpty then none
  else some ((digitsValue (whole ++ fraction), fraction.length), rest)

end Goat.Decimal
