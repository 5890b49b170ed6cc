import Goat.Number.Binary64
import Goat.Text.Basic

/-!
# Sizes for reading

A number of bytes in the largest unit of which it has one, with one decimal place
below ten.
-/

namespace Goat.Size

/-- The names of the units, powers of 1000. -/
def unitNames : List Text := ["B", "kB", "MB", "GB", "TB", "PB", "EB"]

/-- The power of 1000 that a size is shown in: its logarithm in double precision,
    cut off. -/
def magnitude (n : Nat) : Nat :=
  (Float.log (Float.ofNat n) / Float.log 1000.0).floor.toUInt64.toNat

/-- A number in tenths, with its decimal place. -/
def tenthsText (tenths : Nat) : Text :=
  Text.join [Text.ofNat (tenths / 10), ".", Text.ofNat (tenths % 10)]

/-- The size as text. It is rounded to tenths first, half up, and then, from ten on,
    to the nearest number, half to even. -/
def toText (n : Nat) : Text :=
  if n < 10 then Text.join [Text.ofNat n, " B"]
  else
    let power := magnitude n
    let inUnit := (Binary64.ofNat n).div (Binary64.ofNat (Nat.pow 1000 power))
    let half := Binary64.ofFraction 1 2
    let tenths := ((inUnit.mul (Binary64.ofNat 10)).add half).floor
    let value := (Binary64.ofNat tenths).div (Binary64.ofNat 10)
    let shown :=
      if value.isBelow 10 then tenthsText (value.toFixed 1) else Text.ofNat (value.toFixed 0)
    Text.join [shown, " ", unitNames.getD power []]

/-- A size that may be out of range, taken modulo `2 ^ 64`. -/
def wordToText (n : Int) : Text := toText (n % 0x10000000000000000).toNat

end Goat.Size
