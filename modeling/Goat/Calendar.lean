import Goat.Duration
import Goat.Text.Basic

/-!
# Dates

Days of the Gregorian calendar and times of day, in Universal Time. An instant is
the number of nanoseconds since the start of 1970.
-/

namespace Goat

/-- An instant, in nanoseconds since the start of 1970. -/
abbrev Instant := Int

namespace Calendar

/-- A day of the Gregorian calendar. -/
structure Date where
  year : Int
  month : Nat
  day : Nat
  deriving DecidableEq, Repr

/-- The year is a leap year. -/
def isLeap (year : Int) : Bool := year % 4 = 0 && (year % 100 ≠ 0 || year % 400 = 0)

/-- The number of days of a month. -/
def daysInMonth (year : Int) (month : Nat) : Nat :=
  if month = 2 then if isLeap year then 29 else 28
  else if month = 4 || month = 6 || month = 9 || month = 11 then 30
  else 31

/-- The number of days from the start of 1970 to a date. Years are counted from
    March, so that a leap day is the last of its year. -/
def Date.toDays (d : Date) : Int :=
  let year := if d.month ≤ 2 then d.year - 1 else d.year
  let monthFromMarch := (d.month + 9) % 12
  let era := year / 400
  let yearOfEra := year % 400
  let dayOfYear : Int := (153 * monthFromMarch + 2) / 5 + d.day - 1
  era * 146097 + (yearOfEra * 365 + yearOfEra / 4 - yearOfEra / 100 + dayOfYear) - 719468

/-- The date of a number of days from the start of 1970. -/
def Date.ofDays (days : Int) : Date :=
  let shifted := days + 719468
  let era := shifted / 146097
  let dayOfEra := (shifted % 146097).toNat
  let yearOfEra :=
    (dayOfEra - dayOfEra / 1460 + dayOfEra / 36524 - dayOfEra / 146096) / 365
  let dayOfYear := dayOfEra - (365 * yearOfEra + yearOfEra / 4 - yearOfEra / 100)
  let monthFromMarch := (5 * dayOfYear + 2) / 153
  let day := dayOfYear - (153 * monthFromMarch + 2) / 5 + 1
  let month := if monthFromMarch < 10 then monthFromMarch + 3 else monthFromMarch - 9
  let year : Int := era * 400 + yearOfEra
  ⟨if month ≤ 2 then year + 1 else year, month, day⟩

/-- The seconds of a day. -/
def daySeconds : Nat := 86400

/-- The start of a day of so many seconds. -/
def instantOf (date : Date) (seconds : Nat) : Instant :=
  (date.toDays * daySeconds + seconds) * Duration.second

/-- The date of an instant, the seconds since its start and the nanoseconds. -/
def split (t : Instant) : Date × Nat × Nat :=
  let seconds := t / Duration.second
  (Date.ofDays (seconds / daySeconds), (seconds % daySeconds).toNat, (t % Duration.second).toNat)

/-- The instant so many days later. The seconds of an instant are a word of 64 bits, so
    that a day too far leads round to the other end of time. -/
def addDays (t : Instant) (days : Int) : Instant :=
  (t / Duration.second + days * daySeconds).bmod 0x10000000000000000 * Duration.second +
    t % Duration.second

/-- A number with zeros in front up to `width` digits. -/
def padded (width n : Nat) : Text :=
  let digits := Text.ofNat n
  List.replicate (width - digits.length) 0x30 ++ digits

/-- A year with at least four digits. -/
def yearText (year : Int) : Text :=
  if year < 0 then 0x2d :: padded 4 year.natAbs else padded 4 year.natAbs

/-- Hours and minutes of so many seconds. -/
def clockText (seconds : Nat) : Text :=
  Text.join [padded 2 (seconds / 3600), ":", padded 2 (seconds / 60 % 60)]

/-- The instant as a date and time to the nanosecond, without zeros at the end. -/
def instantText (t : Instant) : Text :=
  let (date, seconds, nanoseconds) := split t
  Text.join
    [ yearText date.year, "-", padded 2 date.month, "-", padded 2 date.day, "T",
      clockText seconds, ":", padded 2 (seconds % 60), Duration.fractionText 9 nanoseconds, "Z" ]

/-! ## Reading dates -/

/-- Reads exactly `width` digits. -/
def digits? (width : Nat) (t : Text) : Option (Nat × Text) :=
  let digits := t.take width
  if digits.length = width && digits.all Text.isDigit then
    some (Decimal.digitsValue digits, t.drop width)
  else none

/-- Reads one given byte. -/
def byte? (b : UInt8) : Text → Option Text
  | c :: rest => if c = b then some rest else none
  | [] => none

/-- Reads a date whose parts are divided by `separator`. -/
def date? (separator : UInt8) (t : Text) : Option (Date × Text) := do
  let (year, t) ← digits? 4 t
  let t ← byte? separator t
  let (month, t) ← digits? 2 t
  let t ← byte? separator t
  let (day, t) ← digits? 2 t
  if 1 ≤ month && month ≤ 12 && 1 ≤ day && day ≤ daysInMonth year month then
    return (⟨year, month, day⟩, t)
  else none

/-- Reads a time of day up to the end of the text, as its seconds. -/
def time? (t : Text) : Option Nat := do
  let (hours, t) ← digits? 2 t
  let t ← byte? 0x3a t
  let (minutes, t) ← digits? 2 t
  let t ← byte? 0x3a t
  let (seconds, t) ← digits? 2 t
  if t.isEmpty && hours < 24 && minutes < 60 && seconds < 60 then
    return hours * 3600 + minutes * 60 + seconds
  else none

/-- The instant of a date with an optional time. A time follows a blank or, with an
    optional mark of Universal Time at its end, the letter `T`. -/
def instant? (t : Text) : Option Instant :=
  match date? 0x2d t, date? 0x2f t with
  | some (date, []), _ => some (instantOf date 0)
  | none, some (date, []) => some (instantOf date 0)
  | some (date, 0x20 :: rest), _ => (time? rest).map (instantOf date)
  | some (date, 0x54 :: rest), _ =>
    let rest := if rest.getLast? = some 0x5a then rest.dropLast else rest
    (time? rest).map (instantOf date)
  | _, _ => none

end Calendar

end Goat
