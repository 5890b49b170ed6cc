import Goat.Text.Basic

/-!
# Integers as users write them

An integer has an optional sign and digits in base 10, or after `0b`, `0o` or `0x` in
base 2, 8 or 16; after a plain `0` the base is 8. Underscores may stand between digits
and after the sign of the base.
-/

namespace Goat.Integer

/-- Why a text is no integer of 64 bits. -/
inductive Error where
  | malformed
  | outOfRange
  deriving DecidableEq, Repr

/-- The underscore. -/
def separator : UInt8 := 0x5f

/-- The base that a letter after a zero stands for. -/
def baseOf? (letter : UInt8) : Option Nat :=
  if letter = 0x62 || letter = 0x42 then some 2
  else if letter = 0x6f || letter = 0x4f then some 8
  else if letter = 0x78 || letter = 0x58 then some 16
  else none

/-- The base of a number and its digits. -/
def splitBase : Text → Nat × Text
  | 0x30 :: letter :: first :: rest =>
    match baseOf? letter with
    | some base => (base, first :: rest)
    | none => (8, letter :: first :: rest)
  | 0x30 :: rest => (8, rest)
  | t => (10, t)

/-- Every underscore stands between two digits; `wasDigit` tells whether a digit stands
    in front of the text. -/
def isSeparated (wasDigit : Bool) : Text → Bool
  | [] => wasDigit
  | b :: rest => if b = separator then wasDigit && isSeparated false rest else isSeparated true rest

/-- Reads digits, continuing from `acc`, as an unsigned word of 64 bits. -/
def readDigits (base acc : Nat) : Text → Except Error Nat
  | [] => .ok acc
  | b :: rest =>
    if b = separator then readDigits base acc rest
    else
      match (Text.hexValue? b).filter (· < base) with
      | none => .error .malformed
      | some d =>
        if acc * base + d < 0x10000000000000000 then readDigits base (acc * base + d) rest
        else .error .outOfRange

/-- Reads a number without a sign. A letter for the base counts as a digit where
    underscores are concerned. -/
def readUnsigned (t : Text) : Except Error Nat := do
  if t.isEmpty then .error .malformed
  let (base, digits) := splitBase t
  let n ← readDigits base 0 digits
  if isSeparated (t.head? == some 0x30) digits then .ok n else .error .malformed

/-- Reads a number below `limit` in size, or equal to it with a minus sign. -/
def readSigned (t : Text) (limit : Nat) : Except Error Int :=
  match t with
  | 0x2d :: rest => do
    let n ← readUnsigned rest
    if n ≤ limit then .ok (-(n : Int)) else .error .outOfRange
  | 0x2b :: rest => positive rest
  | t => positive t
where
  /-- Reads a number without a minus sign. -/
  positive (t : Text) : Except Error Int := do
    let n ← readUnsigned t
    if n < limit then .ok n else .error .outOfRange

/-- The integer of 64 bits that a text stands for. -/
def ofText (t : Text) : Except Error Int := readSigned t 0x8000000000000000

end Goat.Integer
