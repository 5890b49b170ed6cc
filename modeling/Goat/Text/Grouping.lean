import Goat.Text.Utf8

/-!
# Grouped digits

Numbers whose digits stand in groups of three, with the separator that a locale
asks for.
-/

namespace Goat

/-- A language with an optional region. -/
structure Locale where
  language : Text
  region : Text := []
  deriving DecidableEq, Repr

namespace Locale

/-- The locale that stands in for anything that cannot be read. -/
def english : Locale := ⟨"en", []⟩

/-- An ASCII letter in lower case, any other byte as it is. -/
def lowerAscii (b : UInt8) : UInt8 := if 0x41 ≤ b && b ≤ 0x5a then b + 0x20 else b

/-- The byte is an ASCII letter in lower case. -/
def isLowerAscii (b : UInt8) : Bool := 0x61 ≤ b && b ≤ 0x7a

/-- The parts of a tag between hyphens and underscores, in lower case. -/
def parts (tag : Text) : List Text :=
  Text.splitOn 0x2d (tag.map fun b => if b = 0x5f then 0x2d else lowerAscii b)

/-- The text is a region: two letters or three digits. -/
def isRegion (part : Text) : Bool :=
  (part.length == 2 && part.all isLowerAscii) || (part.length == 3 && part.all Text.isDigit)

/-- The text is a script: four letters. -/
def isScript (part : Text) : Bool := part.length == 4 && part.all isLowerAscii

/-- The locale of a tag such as `de-AT`; English if it cannot be read. -/
def ofTag (tag : Text) : Locale :=
  match parts tag with
  | [language] => ⟨language, []⟩
  | [language, second] =>
    if isRegion second then ⟨language, second⟩
    else if isScript second then ⟨language, []⟩
    else english
  | [language, second, third] =>
    if isScript second && isRegion third then ⟨language, third⟩ else english
  | _ => english

/-- What stands between groups of digits: a comma unless the language, or the
    language in its region, has another custom. -/
def groupSeparator (l : Locale) : Text :=
  if l.language = "de" && l.region = "ch" then Text.ofChar (Char.ofNat 0x2019)
  else if l.language = "de" && l.region = "at" then Text.ofChar (Char.ofNat 0xa0)
  else if l.language ∈ (["de", "es", "it", "nl", "pt"] : List Text) then "."
  else if l.language ∈ (["fr", "sv", "pl"] : List Text) then Text.ofChar (Char.ofNat 0xa0)
  else ","

end Locale

namespace Text

/-- Digits in groups of three from the right, where `digits` are given from the
    right. -/
def groupFromRight (separator : Text) : Text → Text
  | a :: b :: c :: d :: rest => groupFromRight separator (d :: rest) ++ separator ++ [c, b, a]
  | digits => digits.reverse

/-- A number with its digits in groups of three. -/
def ofNatGrouped (separator : Text) (n : Nat) : Text :=
  groupFromRight separator (ofNat n).reverse

/-- An integer with its digits in groups of three. -/
def ofIntGrouped (separator : Text) : Int → Text
  | .ofNat n => ofNatGrouped separator n
  | .negSucc n => 0x2d :: ofNatGrouped separator (n + 1)

end Text

end Goat
