import Goat.Config.Yaml
import Goat.Duration
import Goat.Text.Lower

/-!
# Values of scalars

A plain scalar stands for nothing, a truth value, a number or a text, by its form.
Numbers can be written in four bases, with underscores, and with a fraction and an
exponent.
-/

namespace Goat.Yaml

/-- What a scalar stands for. -/
inductive Value where
  | null
  | bool (value : Bool)
  | int (value : Int)
  /-- A number with a fraction, cut off; `none` if it is too large for an integer. -/
  | float (truncated : Option Int)
  | text (value : Text)
  deriving DecidableEq, Repr

/-- The value of a digit up to base 16. -/
def digitValue? (base : Nat) (b : UInt8) : Option Nat :=
  (Text.hexValue? b).filter (· < base)

/-- The value of a non-empty row of digits. -/
def numeral? (base : Nat) (t : Text) : Option Nat :=
  if t.isEmpty then none
  else t.foldl (fun acc b => acc.bind fun n => (digitValue? base b).map (n * base + ·)) (some 0)

/-- The value of digits whose base is told by how they start. -/
def natural? : Text → Option Nat
  | 0x30 :: b :: rest =>
    let letter := Text.lower [b]
    if letter = ("x" : Text) then numeral? 16 rest
    else if letter = ("b" : Text) then numeral? 2 rest
    else if letter = ("o" : Text) then numeral? 8 rest
    else numeral? 8 (b :: rest)
  | t => numeral? 10 t

/-- A number with an optional sign. A number above the signed range that still fits 64
    bits has no sign. -/
def integer? (t : Text) : Option Int :=
  let (isNegative, digits) := Duration.splitSign t
  let hasSign := digits.length < t.length
  (natural? digits).bind fun n =>
    if isNegative then if n ≤ 0x8000000000000000 then some (-(n : Int)) else none
    else if n < 0x8000000000000000 || (!hasSign && n < 0x10000000000000000) then some n
    else none

/-- Reads an exponent up to the end of the text. -/
def exponent? : Text → Option Int
  | [] => some 0
  | b :: rest =>
    if b = 0x65 || b = 0x45 then
      let (isNegative, digits) := Duration.splitSign rest
      (numeral? 10 digits).map fun n => if isNegative then -(n : Int) else n
    else none

/-- The greatest exponent that is looked at. -/
def maxExponent : Int := 400

/-- The smallest 64-bit integer, which stands for all numbers below it. -/
def minInt64 : Int := -0x8000000000000000

/-- The integer that a number of double precision is cut off to. -/
def truncate (isNegative : Bool) (x : Binary64) : Option Int :=
  if x.isBelow 0x8000000000000000 then
    some (if isNegative then -(x.floor : Int) else x.floor)
  else if isNegative || x.floor = 0x8000000000000000 then some minInt64
  else none

/-- A number with a fraction or an exponent, cut off. -/
def float? (t : Text) : Option (Option Int) := do
  let (isNegative, t) := Duration.splitSign t
  let ((digits, places), rest) ← Decimal.read? t
  if t.head? == some 0x2e && places == 0 then none
  let exponent ← exponent? rest
  if maxExponent < exponent then none
  match exponent - places with
  | .ofNat n => some (truncate isNegative (Binary64.ofNat (digits * Nat.pow 10 n)))
  | .negSucc n => some (truncate isNegative (Binary64.ofFraction digits (Nat.pow 10 (n + 1))))

/-- The scalars with a meaning of their own. -/
def words : List (Value × List Text) :=
  [ (.null, ["", "~", "null", "Null", "NULL"]),
    (.bool true, ["true", "True", "TRUE"]),
    (.bool false, ["false", "False", "FALSE"]),
    (.float none, [".nan", ".NaN", ".NAN", ".inf", ".Inf", ".INF", "+.inf", "+.Inf", "+.INF"]),
    (.float (some minInt64), ["-.inf", "-.Inf", "-.INF"]) ]

/-- What a plain scalar stands for. -/
def Value.ofPlain (t : Text) : Value :=
  match words.find? fun entry => decide (t ∈ entry.2) with
  | some (value, _) => value
  | none =>
    let startsNumber := t.head?.any fun b => Text.isDigit b || b == 0x2b || b == 0x2d
    let digits := if startsNumber then t.filter (· != 0x5f) else t
    if startsNumber || t.head? == some 0x2e then
      match integer? digits, float? digits with
      | some n, _ => .int n
      | none, some truncated => .float truncated
      | none, none => .text t
    else .text t

/-- What a scalar stands for. -/
def Value.ofScalar (t : Text) (isQuoted : Bool) : Value := if isQuoted then .text t else .ofPlain t

/-- The texts that can stand for a truth value where one is wanted. -/
def wordBool? (t : Text) : Option Bool :=
  if t ∈ (["y", "Y", "yes", "on"] : List Text) then some true
  else if t ∈ (["n", "N", "no", "off"] : List Text) then some false
  else none

/-! ## Reading fields

A field is read over the value it has. Nothing written leaves it as it is; `none`
means that what is written does not fit. -/

namespace Node

/-- Reads a text. -/
def readText (old : Text) : Node → Option Text
  | scalar value isQuoted =>
    if Value.ofScalar value isQuoted = .null then some old else some value
  | _ => none

/-- Reads a truth value. -/
def readBool (old : Bool) : Node → Option Bool
  | scalar value isQuoted =>
    match Value.ofScalar value isQuoted with
    | .null => some old
    | .bool b => some b
    | .text t => wordBool? t
    | _ => none
  | _ => none

/-- Reads an integer of 64 bits. -/
def readInt (old : Int) : Node → Option Int
  | scalar value isQuoted =>
    match Value.ofScalar value isQuoted with
    | .null => some old
    | .int n => if n < 0x8000000000000000 then some n else none
    | .float truncated => truncated
    | _ => none
  | _ => none

/-- Reads a duration, which always has a unit. -/
def readDuration (old : Duration) : Node → Option Duration
  | scalar value isQuoted =>
    match Value.ofScalar value isQuoted with
    | .null => some old
    | .text t => Duration.ofText? t
    | _ => none
  | _ => none

/-- The text of a list item; an item that is nothing is left out. -/
def itemText? : Node → Option (Option Text)
  | scalar value isQuoted =>
    some (if Value.ofScalar value isQuoted = .null then none else some value)
  | _ => none

/-- Reads a list of texts. A single text is a list of one; nothing is an empty list. -/
def readTexts : Node → Option (List Text)
  | scalar value isQuoted =>
    some (if Value.ofScalar value isQuoted = .null then [] else [value])
  | list items => (items.mapM itemText?).map fun found => found.filterMap id
  | mapping _ => none

/-- The members of a mapping, without one of the same name twice; nothing is an empty
    mapping. -/
def readMembers : Node → Option (List (Text × Node))
  | scalar value isQuoted => if Value.ofScalar value isQuoted = .null then some [] else none
  | list _ => none
  | mapping members => if (members.map Prod.fst).Nodup then some members else none

end Node

/-- Reads a field over its value, if the mapping has a member of that name. -/
def readField {α : Type} (members : List (Text × Node)) (name : Text) (old : α)
    (read : Node → Option α) : Option α :=
  match members.lookup name with
  | none => some old
  | some node => read node

end Goat.Yaml
