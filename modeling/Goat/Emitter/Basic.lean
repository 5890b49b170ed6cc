import Goat.Diagnostic.Failure
import Goat.Tape.Builder
import Goat.Text.Quoted

/-!
# Emitting code

The state of one compilation: the code written so far, the cells in use, the
declared variables and a trace of allocations and calls. Steps that cannot fail
are in `Emit`, those that may reject the program in `TryEmit`; a step that fails
keeps what was emitted before it.
-/

namespace Goat

/-- A byte on the tape. -/
structure Cell where
  /-- The declared name; empty for a temporary and for an element of a list. -/
  name : Text
  address : Int
  /-- The cell was allocated by itself and is not part of a list. -/
  owned : Bool
  deriving DecidableEq, Repr

/-- A list of bytes on the tape: scratch cells followed by the elements. -/
structure CellList where
  name : Text
  region : Region
  length : Nat
  deriving DecidableEq, Repr

/-- A value living on the tape. -/
inductive Variable where
  | int (cell : Cell)
  | list (cells : CellList)
  deriving DecidableEq, Repr

/-- The state of a compilation. -/
structure Emitter extends Builder where
  /-- The declared variables with their names, in order of declaration. -/
  declared : List (Text × Variable) := []
  /-- A line for every allocation, release, operator and call. -/
  trace : Array Text := #[]
  deriving DecidableEq, Repr

/-- A step of emission that cannot fail. -/
abbrev Emit := StateM Emitter

/-- A step of emission that may reject the program. -/
abbrev TryEmit := ExceptT Failure Emit

namespace Emit

/-- A step of the code builder. -/
def build (step : Builder → Builder) : Emit Unit :=
  modify fun e => { e with toBuilder := step e.toBuilder }

/-- Adds a line to the trace. -/
def trace (line : Text) : Emit Unit := modify fun e => { e with trace := e.trace.push line }

/-- Moves the pointer to a cell. -/
def moveTo (cell : Int) : Emit Unit := build (·.moveTo cell)

/-- Writes commands and follows their movement. -/
def commands (code : List Command) : Emit Unit := build (·.emit code)

/-- Reserves consecutive cells. -/
def allocate (length : Int) : Emit Region := do
  let (region, layout) := (← get).layout.allocate length
  modify fun e => { e with layout }
  return region

/-- Frees a region. -/
def release (region : Region) : Emit Unit :=
  modify fun e => { e with layout := (e.layout.release region).2 }

end Emit

/-- Rejects the program. -/
def reject {α : Type} (cause : Diagnostic.Cause) (span : Span) : TryEmit α :=
  throw (Failure.ofCause cause span)

/-- The region of a cell. -/
def Cell.region (c : Cell) : Region := ⟨c.address, c.address⟩

/-- The name of the data type of a cell. -/
def Cell.typeName : Text := "Int"

/-- The name of the data type of lists, without a length. -/
def CellList.baseName : Text := "IntList"

/-- The number of cells that a list keeps in front of its elements. -/
def CellList.scratchCells : Nat := 4

/-- The name of the data type of a list. -/
def CellList.typeName (l : CellList) : Text :=
  Text.join [baseName, "<", Text.ofNat l.length, ">"]

/-- A cell that belongs to another variable. -/
def Cell.view (address : Int) : Cell := ⟨[], address, false⟩

/-- The element at a constant index. -/
def CellList.element (l : CellList) (k : Nat) : Cell :=
  Cell.view (l.region.start + CellList.scratchCells + k)

/-- The elements in order. -/
def CellList.elements (l : CellList) : List Cell := (List.range l.length).map l.element

/-- A scratch cell. -/
def CellList.scratch (l : CellList) (k : Nat) : Cell := Cell.view (l.region.start + k)

namespace Variable

/-- The declared name. -/
def name : Variable → Text
  | int c => c.name
  | list l => l.name

/-- The name of the data type. -/
def typeName : Variable → Text
  | int _ => Cell.typeName
  | list l => l.typeName

/-- The cells of the variable. -/
def region : Variable → Region
  | int c => c.region
  | list l => l.region

end Variable

/-- The variable of a name. -/
def Emitter.find? (e : Emitter) (name : Text) : Option Variable :=
  (e.declared.find? fun entry => entry.1 == name).map Prod.snd

end Goat
