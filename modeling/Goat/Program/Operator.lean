import Goat.Text.Basic

/-!
# Operators

The binary operators of expressions and the symbols they are written with.
-/

namespace Goat

/-- A binary operator on bytes. -/
inductive Operator where
  | add | sub | mul | div | pow
  | eq | neq | lt | lte | gt | gte
  deriving DecidableEq, Repr

namespace Operator

/-- Every operator, arithmetic first. -/
def all : List Operator := [add, sub, mul, div, pow, eq, neq, lt, lte, gt, gte]

/-- The symbol of an operator. -/
def symbol : Operator → Text
  | add => "+"
  | sub => "-"
  | mul => "*"
  | div => "/"
  | pow => "^"
  | eq => "=="
  | neq => "!="
  | lt => "<"
  | lte => "<="
  | gt => ">"
  | gte => ">="

/-- The operator written with a symbol. -/
def ofSymbol? (s : Text) : Option Operator := all.find? fun op => op.symbol == s

/-- The place of an operator in `all`. -/
def number (op : Operator) : Nat := all.idxOf op

/-- The operator at a place of `all`. -/
def ofNumber? : Int → Option Operator
  | .ofNat n => all[n]?
  | .negSucc _ => none

end Operator

end Goat
