import Goat.Calendar
import Goat.Text.Blank
import Goat.Text.Quoted

/-!
# Ages and dates

The instant before which records are removed, given as an age in days, as a
duration or as a date.
-/

namespace Goat.Cache

/-- Why a text gives no instant. -/
inductive AgeError where
  | empty
  | unreadable (text : Text)
  deriving DecidableEq, Repr

/-- What is wrong, without the cause. -/
def AgeError.summary : AgeError → Text
  | empty => "empty date"
  | unreadable text => Text.join ["cannot parse date ", Text.quote text]

/-- The message of an error. -/
def AgeError.message : AgeError → Text
  | empty => AgeError.empty.summary
  | unreadable text =>
    Text.join [(unreadable text).summary, ": Could not find format for ", Text.quote text]

/-- The number of days of an age such as `7d`. -/
def days? (t : Text) : Option Int :=
  if t.getLast? = some 0x64 then Text.toInt64? t.dropLast else none

/-- The instant that a text gives, seen from `now`. -/
def before (t : Text) (now : Instant) : Except AgeError Instant :=
  let t := Text.trim t
  if t.isEmpty then .error .empty
  else
    match days? t, Duration.ofText? t, Calendar.instant? t with
    | some days, _, _ => .ok (Calendar.addDays now (-days))
    | none, some age, _ => .ok (now + age.opposite)
    | none, none, some instant => .ok instant
    | none, none, none => .error (.unreadable t)

end Goat.Cache
