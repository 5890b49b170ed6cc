import Goat.Number.Binary64
import Goat.Number.Decimal

/-!
# Durations

Spans of time in nanoseconds. They are written as a sequence of decimal numbers,
each with a unit, such as `1h15m30.5s`.
-/

namespace Goat

/-- A span of time in nanoseconds. -/
abbrev Duration := Int

namespace Duration

/-- A second. -/
def second : Nat := 1000000000

/-- The nanoseconds of a unit. -/
def unit? (name : Text) : Option Nat :=
  if name = ("ns" : Text) then some 1
  else if name = ("us" : Text) || name = ("µs" : Text) || name = ("μs" : Text) then some 1000
  else if name = ("ms" : Text) then some 1000000
  else if name = ("s" : Text) then some second
  else if name = ("m" : Text) then some (60 * second)
  else if name = ("h" : Text) then some (3600 * second)
  else none

/-- The magnitude of the longest negative duration. -/
def bound : Nat := 0x8000000000000000

/-- The byte can be part of the name of a unit. -/
def isUnitByte (b : UInt8) : Bool := !(b == 0x2e || Text.isDigit b)

/-- The digits after the point that count: their value stays within bounds. -/
def fraction (value count : Nat) : Text → Nat × Nat
  | [] => (value, count)
  | b :: rest =>
    let next := value * 10 + (b.toNat - 0x30)
    if (bound - 1) / 10 < value || bound < next then (value, count)
    else fraction next (count + 1) rest

/-- The nanoseconds of a fraction of a unit, cut off. The quotient and the product
    are rounded to double precision. -/
def fractionOf (unit value count : Nat) : Nat :=
  if value = 0 then 0
  else
    ((Binary64.ofNat value).mul
      ((Binary64.ofNat unit).div (Binary64.ofNat (Nat.pow 10 count)))).floor

/-- Reads one number with its unit; yields its nanoseconds and what follows. -/
def readPart? (t : Text) : Option (Nat × Text) := do
  let (whole, rest) := Decimal.takeDigits t
  let (digits, rest) := match rest with
    | 0x2e :: rest => Decimal.takeDigits rest
    | rest => ([], rest)
  if whole.isEmpty && digits.isEmpty then none
  let value := Decimal.digitsValue whole
  let unit ← unit? (rest.takeWhile isUnitByte)
  if bound < value || bound / unit < value then none
  let (numerator, count) := fraction 0 0 digits
  let total := value * unit + fractionOf unit numerator count
  if bound < total then none
  return (total, rest.dropWhile isUnitByte)

/-- Reads numbers with units up to the end, at most `fuel` of them; adds them up. -/
def readParts? : (fuel : Nat) → (total : Nat) → Text → Option Nat
  | _, total, [] => some total
  | 0, _, _ => none
  | fuel + 1, total, t =>
    match readPart? t with
    | none => none
    | some (part, rest) =>
      if bound < total + part then none else readParts? fuel (total + part) rest

/-- The sign in front of a text, and what follows it. -/
def splitSign (t : Text) : Bool × Text :=
  match t with
  | 0x2d :: rest => (true, rest)
  | 0x2b :: rest => (false, rest)
  | t => (false, t)

/-- The duration that a text stands for. -/
def ofText? (t : Text) : Option Duration :=
  let (isNegative, t) := splitSign t
  if t = ("0" : Text) then some 0
  else if t.isEmpty then none
  else
    match readParts? t.length 0 t with
    | none => none
    | some total =>
      if isNegative then some (-(total : Int))
      else if total = bound then none
      else some total

/-- The duration of opposite direction. The longest negative one, which has no opposite
    in a word of 64 bits, is its own. -/
def opposite (d : Duration) : Duration := (-d).bmod 0x10000000000000000

/-- The digits after a point without zeros at the end, with the point; nothing for
    a fraction of zero. -/
def fractionText (places n : Nat) : Text :=
  let digits := Text.ofNat (Nat.pow 10 places + n) |>.drop 1
  match (digits.reverse.dropWhile (· == 0x30)).reverse with
  | [] => []
  | digits => 0x2e :: digits

/-- A number of nanoseconds in a unit of `10 ^ places` of them. -/
def inUnit (places n : Nat) (name : Text) : Text :=
  Text.join [Text.ofNat (n / Nat.pow 10 places), fractionText places (n % Nat.pow 10 places), name]

/-- A number of nanoseconds as text. -/
def magnitudeText (n : Nat) : Text :=
  if n = 0 then "0s"
  else if n < 1000 then inUnit 0 n "ns"
  else if n < 1000000 then inUnit 3 n "µs"
  else if n < second then inUnit 6 n "ms"
  else
    let minutes := n / (60 * second)
    Text.join
      [ if minutes < 60 then [] else Text.ofNat (minutes / 60) ++ "h",
        if minutes = 0 then [] else Text.ofNat (minutes % 60) ++ "m",
        inUnit 9 (n % (60 * second)) "s" ]

/-- The duration as text. -/
def toText (d : Duration) : Text :=
  if d < 0 then 0x2d :: magnitudeText d.natAbs else magnitudeText d.natAbs

end Duration

end Goat
