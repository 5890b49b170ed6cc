/-!
# Double precision

Positive numbers with a mantissa of 53 bits, computed exactly: an operation yields
the exact result rounded to the nearest number, a tie to the even mantissa. The
exponent is not bounded.
-/

namespace Goat

/-- The number `mantissa * 2 ^ exponent`. -/
structure Binary64 where
  mantissa : Nat
  exponent : Int
  deriving DecidableEq, Repr

namespace Binary64

/-- The number of bits of a mantissa. -/
def precision : Nat := 53

/-- The quotient rounded to the nearest integer, a tie to the even one. -/
def roundDiv (num den : Nat) : Nat :=
  let quotient := num / den
  let twice := 2 * (num % den)
  if twice < den || (twice == den && quotient % 2 == 0) then quotient else quotient + 1

/-- The numerator and denominator of `num / den / 2 ^ shift`. -/
def scaled (num den : Nat) : (shift : Int) → Nat × Nat
  | .ofNat n => (num, den * Nat.pow 2 n)
  | .negSucc n => (num * Nat.pow 2 (n + 1), den)

/-- The number nearest to a fraction with a positive denominator. -/
def ofFraction (num den : Nat) : Binary64 :=
  if num = 0 then ⟨0, 0⟩
  else
    let shift : Int := (Nat.log2 num : Int) - Nat.log2 den - (precision - 1 : Nat)
    let (n, d) := scaled num den shift
    let shift := if n / d < Nat.pow 2 (precision - 1) then shift - 1 else shift
    let (n, d) := scaled num den shift
    ⟨roundDiv n d, shift⟩

/-- The number nearest to a natural number. -/
def ofNat (n : Nat) : Binary64 := ofFraction n 1

/-- The number as a fraction. -/
def toFraction (x : Binary64) : Nat × Nat :=
  match x.exponent with
  | .ofNat n => (x.mantissa * Nat.pow 2 n, 1)
  | .negSucc n => (x.mantissa, Nat.pow 2 (n + 1))

/-- The sum. -/
def add (x y : Binary64) : Binary64 :=
  let (a, b) := x.toFraction
  let (c, d) := y.toFraction
  ofFraction (a * d + c * b) (b * d)

/-- The product. -/
def mul (x y : Binary64) : Binary64 :=
  let (a, b) := x.toFraction
  let (c, d) := y.toFraction
  ofFraction (a * c) (b * d)

/-- The quotient by a positive number. -/
def div (x y : Binary64) : Binary64 :=
  let (a, b) := x.toFraction
  let (c, d) := y.toFraction
  ofFraction (a * d) (b * c)

/-- The number without its fraction. -/
def floor (x : Binary64) : Nat :=
  let (a, b) := x.toFraction
  a / b

/-- The number is smaller than a natural number. -/
def isBelow (x : Binary64) (n : Nat) : Bool :=
  let (a, b) := x.toFraction
  a < n * b

/-- The number times `10 ^ places`, rounded to an integer, a tie to the even one. -/
def toFixed (x : Binary64) (places : Nat) : Nat :=
  let (a, b) := x.toFraction
  roundDiv (a * Nat.pow 10 places) b

end Binary64

end Goat
