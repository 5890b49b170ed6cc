import Goat.Number.Binary64
import Goat.Number.Decimal
import Goat.Text.Blank
import Goat.Text.Digit
import Goat.Text.Lower
import Goat.Text.Quoted

/-!
# Sizes

Numbers of bytes such as `512`, `50MB` or `1.5GiB`. Units with an `i` are powers of
1024, the others powers of 1000.
-/

namespace Goat.Size

/-- Why a text is no size. -/
inductive Error where
  | invalid (text : Text)
  | tooLarge (text : Text)
  deriving DecidableEq, Repr

/-- The message of an error. -/
def Error.message : Error → Text
  | invalid text =>
    Text.join ["invalid size ", Text.quote text,
      " (use a number with an optional B, KB, MB, GB or KiB, MiB, GiB suffix)"]
  | tooLarge text => Text.join ["size ", Text.quote text, " is too large"]

/-- The letters of the units above bytes, in order. -/
def unitLetters : Text := "kmgtpe"

/-- The bytes of a unit in lower case. -/
def unit? (name : Text) : Option Nat :=
  if name.isEmpty || name = ("b" : Text) then some 1
  else
    match name with
    | letter :: rest =>
      match unitLetters.idxOf? letter with
      | none => none
      | some place =>
        if rest.isEmpty || rest = ("b" : Text) then some (Nat.pow 1000 (place + 1))
        else if rest = ("i" : Text) || rest = ("ib" : Text) then some (Nat.pow 1024 (place + 1))
        else none
    | [] => none

/-- The glyph is a decimal digit of any script, a point or a comma. -/
def isNumberGlyph (g : Text.Glyph) : Bool :=
  g.char.any fun c => Text.isDigitChar c || c == '.' || c == ','

/-- The number of bytes of the number at the start of a text: as many as it has
    characters. -/
def numberLength (t : Text) : Nat := ((Text.glyphs t).takeWhile isNumberGlyph).length

/-- The number of bytes that a text without white space around it stands for. -/
def bytes? (t : Text) : Option Nat := do
  let number := (t.take (numberLength t)).filter (· != 0x2c)
  let ((value, places), rest) ← Decimal.read? number
  if !rest.isEmpty then none
  let unit ← unit? (Text.lower (Text.trim (t.drop (numberLength t))))
  let product := (Binary64.ofFraction value (Nat.pow 10 places)).mul (Binary64.ofNat unit)
  if product.isBelow 0x10000000000000000 then some product.floor else none

/-- The size that a text stands for. A blank text means no limit and is zero. -/
def ofText (t : Text) : Except Error Nat :=
  let t := Text.trim t
  if t.isEmpty then .ok 0
  else
    match bytes? t with
    | none => .error (.invalid t)
    | some n => if n < 0x8000000000000000 then .ok n else .error (.tooLarge t)

end Goat.Size
