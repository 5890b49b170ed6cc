import Goat.Text.Basic

/-!
# Regions

Inclusive ranges of tape cells.
-/

namespace Goat

/-- The cells from `start` to `stop`, both included. -/
structure Region where
  start : Int
  stop : Int
  deriving DecidableEq, Repr

namespace Region

/-- The number of cells. -/
def length (r : Region) : Int := r.stop - r.start + 1

/-- The cell lies in the region. -/
def contains (r : Region) (cell : Int) : Bool := r.start ≤ cell && cell ≤ r.stop

/-- The regions share a cell, or would if neither were empty. -/
def overlaps (r s : Region) : Bool := r.start ≤ s.stop && s.start ≤ r.stop

/-- The region as traces show it. -/
def toText (r : Region) : Text :=
  Text.join ["[", Text.ofInt r.start, ",", Text.ofInt r.stop, "]"]

end Region

end Goat
