import Goat.Number.Word
import Goat.Tape.Command
import Goat.Tape.Region

/-!
# The layout of the tape

Which cells of the tape are in use while code is emitted, and where the data
pointer stands. Cells are given out in the leftmost gap that is large enough.
-/

namespace Goat

/-- The regions in use, by their start; the tracked data pointer; and one past
    the highest cell ever given out. -/
structure Layout where
  live : List Region := []
  pointer : Int := 0
  peak : Int := 0
  deriving DecidableEq, Repr

namespace Layout

/-- The first cell, from `next` on, of a gap of `length` cells between regions that are
    sorted by start. Sums of cells are taken as `sum` has them. -/
def gapFrom (sum : Int → Int) (length next : Int) : List Region → Int
  | [] => next
  | r :: rest =>
    if sum (r.start - next) ≥ length then next
    else gapFrom sum length (max next (sum (r.stop + 1))) rest

/-- Adds a region behind those that start no later. -/
def insert (region : Region) : List Region → List Region
  | [] => [region]
  | r :: rest => if region.start < r.start then region :: r :: rest else r :: insert region rest

/-- Places `length` cells in the first gap. Yields the new region and the regions with it. -/
def place (sum : Int → Int) (length : Int) (live : List Region) : Region × List Region :=
  let start := gapFrom sum length 0 live
  let region := ⟨start, sum (start + length - 1)⟩
  (region, insert region live)

/-- Reserves `length` consecutive cells, at least one, where sums of cells are as `sum`
    has them. -/
def allocateBy (sum : Int → Int) (layout : Layout) (length : Int) : Region × Layout :=
  let (region, live) := place sum (max length 1) layout.live
  (region, { layout with live, peak := max layout.peak (sum (region.stop + 1)) })

/-- Reserves cells that are numbered in words of 64 bits: sums of cells may wrap around. -/
def allocateWord (layout : Layout) (length : Int) : Region × Layout :=
  allocateBy wordOf layout length

/-- Reserves cells for code that is emitted. No code needs as many cells as a word can
    number, so sums are exact. -/
def allocate (layout : Layout) (length : Int) : Region × Layout := allocateBy id layout length

/-- Frees a region; tells whether it was in use. -/
def release (layout : Layout) (region : Region) : Bool × Layout :=
  if region ∈ layout.live then (true, { layout with live := layout.live.erase region })
  else (false, layout)

/-- The commands that bring the pointer from one cell to another. -/
def moves (source target : Int) : List Command :=
  if source < target then List.replicate (target - source).toNat .right
  else List.replicate (source - target).toNat .left

/-- Moves the pointer to a cell; yields the commands that do so. -/
def moveTo (layout : Layout) (cell : Int) : List Command × Layout :=
  (moves layout.pointer cell, { layout with pointer := cell })

/-- Records a movement of the pointer relative to where it is. -/
def shift (layout : Layout) (delta : Int) : Layout :=
  { layout with pointer := layout.pointer + delta }

/-- Records that the pointer is on a cell, after code that cannot be followed. -/
def assume (layout : Layout) (cell : Int) : Layout := { layout with pointer := cell }

end Layout

end Goat
