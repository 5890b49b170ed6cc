/-!
# Text

Source programs, diagnostics and program output are sequences of bytes. Every
length, column and cut is counted in bytes, so a text that is not well-formed
UTF-8 is carried along unchanged.
-/

namespace Goat

/-- A sequence of bytes, most often the UTF-8 form of some characters. -/
abbrev Text := List UInt8

namespace Text

-- A name for the instance, so that deciding `t ∈ texts` is the same term everywhere.
instance : LawfulBEq Text := inferInstance

/-- The UTF-8 bytes of a string. -/
def ofString (s : String) : Text := s.toList.flatMap String.utf8EncodeChar

instance : Coe String Text := ⟨ofString⟩

/-- The UTF-8 bytes of one character. -/
def ofChar (c : Char) : Text := String.utf8EncodeChar c

/-- The parts written one after the other. -/
def join (parts : List Text) : Text := parts.flatten

/-- The parts written one after the other with `separator` between them. -/
def intercalate (separator : Text) : List Text → Text
  | [] => []
  | [part] => part
  | part :: rest => part ++ separator ++ intercalate separator rest

theorem intercalate_cons_cons (separator x y : Text) (rest : List Text) :
    intercalate separator (x :: y :: rest) = x ++ separator ++ intercalate separator (y :: rest) :=
  rfl

theorem intercalate_append (separator : Text) {xs ys : List Text} (hxs : xs ≠ []) (hys : ys ≠ []) :
    intercalate separator (xs ++ ys) =
      intercalate separator xs ++ separator ++ intercalate separator ys := by
  induction xs with
  | nil => exact absurd rfl hxs
  | cons x xs ih =>
    cases xs with
    | nil =>
      obtain ⟨y, ys, rfl⟩ := List.exists_cons_of_ne_nil hys
      rfl
    | cons x' xs =>
      rw [intercalate_cons_cons, List.cons_append, List.cons_append, intercalate_cons_cons,
        ← List.cons_append, ih (List.cons_ne_nil x' xs)]
      simp only [List.append_assoc]

/-- `count` blanks. -/
def blanks (count : Nat) : Text := List.replicate count 0x20

/-- The line break that ends a line. -/
def newline : Text := [0x0a]

/-- The digit `d`, for `d < 10`. -/
def digit (d : Nat) : UInt8 := UInt8.ofNat (0x30 + d)

/-- A number in decimal, without leading zeros. -/
def ofNat (n : Nat) : Text :=
  if n < 10 then [digit n] else ofNat (n / 10) ++ [digit (n % 10)]

/-- An integer in decimal, with a `-` in front of a negative one. -/
def ofInt : Int → Text
  | .ofNat n => ofNat n
  | .negSucc n => 0x2d :: ofNat (n + 1)

/-- `true` or `false`. -/
def ofBool (b : Bool) : Text := if b then "true" else "false"

/-- The byte is a decimal digit. -/
def isDigit (b : UInt8) : Bool := 0x30 ≤ b && b ≤ 0x39

/-- The value of a row of decimal digits, continuing from `acc`; `none` at the
    first byte that is no digit. -/
def readDigits (acc : Nat) : Text → Option Nat
  | [] => some acc
  | b :: rest => if isDigit b then readDigits (acc * 10 + (b.toNat - 0x30)) rest else none

/-- The value of a non-empty row of decimal digits. -/
def toNat? : Text → Option Nat
  | [] => none
  | t => readDigits 0 t

/-- The value of a non-empty row of decimal digits with an optional sign. -/
def toInt? : Text → Option Int
  | 0x2d :: rest => (toNat? rest).map fun n => -(n : Int)
  | 0x2b :: rest => (toNat? rest).map Int.ofNat
  | t => (toNat? t).map Int.ofNat

/-- The largest value of a signed 64-bit integer. -/
def maxInt64 : Int := 9223372036854775807

/-- The value of a signed decimal number that fits 64 bits. -/
def toInt64? (t : Text) : Option Int :=
  (toInt? t).filter fun n => -maxInt64 - 1 ≤ n && n ≤ maxInt64

/-- The pieces of a text between the bytes equal to `separator`: one more piece
    than there are separators. -/
def splitOn (separator : UInt8) : Text → List Text
  | [] => [[]]
  | b :: rest =>
    if b = separator then [] :: splitOn separator rest
    else
      match splitOn separator rest with
      | piece :: pieces => (b :: piece) :: pieces
      | [] => [[b]]

/-- The lines of a text, without the line breaks between them. -/
def lines (t : Text) : List Text := splitOn 0x0a t

/-- The part before the first occurrence of `pattern` and the part after it. -/
def splitFirst? (pattern : Text) : Text → Option (Text × Text)
  | [] => if pattern.isEmpty then some ([], []) else none
  | b :: rest =>
    if pattern.isPrefixOf (b :: rest) then some ([], (b :: rest).drop pattern.length)
    else (splitFirst? pattern rest).map fun (before, after) => (b :: before, after)

/-- The text has `pattern` somewhere in it. -/
def contains (pattern t : Text) : Bool := (splitFirst? pattern t).isSome

/-- What follows `head` in a text that starts with it. -/
def dropHead? (head t : Text) : Option Text :=
  if head.isPrefixOf t then some (t.drop head.length) else none

/-- The text starts with `head`. -/
def startsWith (t head : Text) : Bool := head.isPrefixOf t

/-- The text ends with `tail`. -/
def endsWith (t tail : Text) : Bool := tail.isSuffixOf t

/-- Texts in the order of a dictionary over bytes. -/
def le (a b : Text) : Bool := decide (a ≤ b)

/-- The texts in dictionary order. -/
def sort (ts : List Text) : List Text := ts.mergeSort le

section Order

variable {a b c : Text}

theorem le_trans (h : le a b = true) (h' : le b c = true) : le a c = true :=
  decide_eq_true (List.le_trans (of_decide_eq_true h) (of_decide_eq_true h'))

theorem le_antisymm (h : le a b = true) (h' : le b a = true) : a = b :=
  List.le_antisymm (of_decide_eq_true h) (of_decide_eq_true h')

theorem le_total (a b : Text) : (le a b || le b a) = true := by
  rw [Bool.or_eq_true]
  exact (List.le_total a b).imp decide_eq_true decide_eq_true

theorem le_refl (a : Text) : le a a = true := by
  simpa using le_total a a

theorem pairwise_sort (ts : List Text) : (sort ts).Pairwise fun a b => le a b = true :=
  @List.pairwise_mergeSort Text le (fun _ _ _ => le_trans) le_total ts

theorem mem_sort {ts : List Text} {t : Text} : t ∈ sort ts ↔ t ∈ ts :=
  (List.mergeSort_perm ts le).mem_iff

end Order

/-- A hexadecimal digit in lower case, for `d < 16`. -/
def hexDigit (d : Nat) : UInt8 :=
  if d < 10 then UInt8.ofNat (0x30 + d) else UInt8.ofNat (0x61 + (d - 10))

/-- The lowest `width` hexadecimal digits of `n`. -/
def hex : (width : Nat) → (n : Nat) → Text
  | 0, _ => []
  | width + 1, n => hex width (n / 16) ++ [hexDigit (n % 16)]

/-- Every byte as two hexadecimal digits. -/
def hexBytes (t : Text) : Text := t.flatMap fun b => hex 2 b.toNat

/-- The value of a hexadecimal digit. -/
def hexValue? (b : UInt8) : Option Nat :=
  if isDigit b then some (b.toNat - 0x30)
  else if 0x61 ≤ b && b ≤ 0x66 then some (b.toNat - 0x61 + 10)
  else if 0x41 ≤ b && b ≤ 0x46 then some (b.toNat - 0x41 + 10)
  else none

/-- The bytes written as pairs of hexadecimal digits. -/
def ofHex? : Text → Option Text
  | [] => some []
  | high :: low :: rest => do
    let h ← hexValue? high
    let l ← hexValue? low
    let bytes ← ofHex? rest
    return UInt8.ofNat (h * 16 + l) :: bytes
  | [_] => none

end Text

end Goat
