import Goat.Emitter.Cell

/-!
# Code for lists

A computed index is reached by moving a packet of four cells, which holds a
value, a countdown, a step count and a zero, along the list. Each step forward
swaps the packet with the element in front of it, so after `k` steps element `k`
stands right after the packet; walking back restores every element. The walks
start on the countdown cell and end on the step count of the packet at the start
of the list.
-/

namespace Goat.CellList

/-- Walks the packet forward until its countdown is zero. -/
def walkForward : List Command :=
  Command.ofText "[->+[->+<]<[->+<]<[->+<]>>>>[-<<<<+>>>>]<<]"

/-- Copies the element after the packet into the value of the packet. -/
def readElement : List Command := Command.ofText ">>>[-<<<<+>>>+>]<[->+<]<"

/-- Moves the value of the packet into the element after it. -/
def writeElement : List Command := Command.ofText ">>>[-]<<<<[->>>>+<<<<]>>"

/-- Walks the packet back as many steps as it went forward. -/
def walkBack : List Command := Command.ofText "[-<<<[->>>>+<<<<]>[-<+>]>[-<+>]>[-<+>]<]"

/-- A fresh list of zeros. -/
def new (name : Text) (length : Nat) : Emit CellList := do
  let region ← Emit.allocate (length + scratchCells)
  Emit.trace (Text.join ["alloc IntList<", Text.ofNat length, "> ", Text.quote name, " at ",
    region.toText])
  return ⟨name, region, length⟩

/-- Sets every element to zero. -/
def reset (l : CellList) : Emit Unit := l.elements.forM Cell.reset

/-- Sets every element to zero and gives the cells back. -/
def destroy (l : CellList) : Emit Unit := do
  l.reset
  Emit.release l.region
  Emit.trace (Text.join ["free IntList ", Text.quote l.name, " at ", l.region.toText])

/-- Copies a list of the same length, element by element. -/
def set (l source : CellList) : Emit Unit := do
  if l.region ≠ source.region then
    (List.range l.length).forM fun k => (l.element k).set (source.element k)

/-- A new temporary list with the same elements. -/
def clone (l : CellList) : Emit CellList := do
  let copy ← new [] l.length
  copy.set l
  return copy

/-- A new temporary with the element at a computed index, which is not checked. -/
def get (l : CellList) (index : Cell) : Emit Cell := do
  (l.scratch 1).set index
  Emit.moveTo (l.region.start + 1)
  Emit.build (·.emitEndingAt (walkForward ++ readElement ++ walkBack) (l.region.start + 2))
  let found ← Cell.temporary
  found.take (l.scratch 0)
  return found

/-- Stores a value at a computed index, which is not checked. -/
def put (l : CellList) (index value : Cell) : Emit Unit := do
  (l.scratch 0).set value
  (l.scratch 1).set index
  Emit.moveTo (l.region.start + 1)
  Emit.build (·.emitEndingAt (walkForward ++ writeElement ++ walkBack) (l.region.start + 2))

/-- Writes every element as a raw byte. -/
def print (l : CellList) : Emit Unit := l.elements.forM Cell.print

/-- Writes every element in decimal, without separators. -/
def printDecimal (l : CellList) : Emit Unit := l.elements.forM Cell.printDecimal

end Goat.CellList
