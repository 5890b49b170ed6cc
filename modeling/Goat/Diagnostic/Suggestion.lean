import Goat.Text.Lower

/-!
# Suggestions

The candidate closest to a misspelt name, by edit distance over bytes and
without regard to case.
-/

namespace Goat.Diagnostic

/-- Two neighbouring rows of the distance table. The entry in column `j` of the row of a
    front part of one text is its distance to the first `j` bytes of the other text. -/
structure Rows where
  /-- The row that is complete. -/
  above : Array Nat
  /-- The row that is being filled from the left, over what it held before. -/
  below : Array Nat

namespace Rows

/-- The row of the empty text, above one that is still to be filled. -/
def first (length : Nat) : Rows := ⟨Array.range (length + 1), Array.replicate (length + 1) 0⟩

/-- The entry below in column `j + 1`, by the entries around it: `x` is the letter of
    the row and `y` that of the column. -/
def entry (rows : Rows) (x y : UInt8) (j : Nat) : Nat :=
  min (min (rows.above.getD (j + 1) 0 + 1) (rows.below.getD j 0 + 1))
    (rows.above.getD j 0 + if x = y then 0 else 1)

/-- Fills the row below from column `j + 1` on; the texts are the letters of its row and
    of the columns. -/
def fillFrom (x : UInt8) (j : Nat) : Text → Rows → Rows
  | [], rows => rows
  | y :: rest, rows =>
    fillFrom x (j + 1) rest
      { rows with below := rows.below.setIfInBounds (j + 1) (rows.entry x y j) }

/-- Fills the row below, which is number `i`, and lets the rows change places. -/
def next (b : Text) (i : Nat) (x : UInt8) (rows : Rows) : Rows :=
  let filled := fillFrom x 0 b { rows with below := rows.below.setIfInBounds 0 i }
  ⟨filled.below, filled.above⟩

/-- Goes through the rows of a text, the first of which is number `i`. -/
def nextAll (b : Text) (i : Nat) : Text → Rows → Rows
  | [], rows => rows
  | x :: rest, rows => nextAll b (i + 1) rest (next b i x rows)

end Rows

/-- The least number of insertions, deletions and substitutions of single bytes
    that turn `a` into `b`. Only two rows of the distance table are kept. -/
def editDistance (a b : Text) : Nat :=
  if a.isEmpty then b.length
  else if b.isEmpty then a.length
  else (Rows.nextAll b 1 a (Rows.first b.length)).above.getD b.length 0

/-- The nearest of `best` and the candidates, the earliest of equally near ones. -/
def nearest (input : Text) (best : Text × Nat) : List Text → Text × Nat
  | [] => best
  | candidate :: rest =>
    let distance := editDistance input (Text.lower candidate)
    nearest input (if distance < best.2 then (candidate, distance) else best) rest

/-- How many edits a suggestion may be away, by the length of the input. -/
def editLimit (length : Nat) : Nat :=
  if length < 4 then 1 else if length ≤ 6 then 2 else 3

/-- The candidate closest to the input, the first in dictionary order of several,
    unless it is too far away or differs at most in case. -/
def closest? (input : Text) (candidates : List Text) : Option Text :=
  if input.isEmpty then none
  else
    match Text.sort candidates with
    | [] => none
    | first :: rest =>
      let lowered := Text.lower input
      let (found, distance) :=
        nearest lowered (first, editDistance lowered (Text.lower first)) rest
      if distance = 0 || editLimit input.length < distance || found.isEmpty then none
      else some found

end Goat.Diagnostic
