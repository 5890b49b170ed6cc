import Goat.Tape.Layout

/-!
# Code with a tracked pointer

Accumulates commands together with the layout of the tape, so that the tracked
pointer follows every command written.
-/

namespace Goat

/-- The commands written so far and the layout after them. -/
structure Builder where
  code : Array Command := #[]
  layout : Layout := {}
  deriving DecidableEq, Repr

namespace Builder

/-- Writes one command and follows its movement. -/
def push (b : Builder) (c : Command) : Builder :=
  let layout := match c with
    | .right => b.layout.shift 1
    | .left => b.layout.shift (-1)
    | _ => b.layout
  { code := b.code.push c, layout }

/-- Writes commands and follows their movement. The commands must not hold loops
    that move the pointer by an amount that depends on data. -/
def emit (b : Builder) (code : List Command) : Builder := code.foldl push b

/-- Writes commands without following them. -/
def append (b : Builder) (code : List Command) : Builder := { b with code := b.code ++ code }

/-- Writes commands whose movement cannot be followed and that end on a cell. -/
def emitEndingAt (b : Builder) (code : List Command) (cell : Int) : Builder :=
  { code := b.code ++ code, layout := b.layout.assume cell }

/-- Moves the pointer to a cell. -/
def moveTo (b : Builder) (cell : Int) : Builder :=
  let (code, layout) := b.layout.moveTo cell
  { code := b.code ++ code, layout }

/-- Changes a cell by `n`. Nothing is written, and the pointer stays, if `n` is 0. -/
def add (b : Builder) (cell n : Int) : Builder :=
  if n = 0 then b
  else if 0 < n then (b.moveTo cell).append (List.replicate n.toNat .increment)
  else (b.moveTo cell).append (List.replicate (-n).toNat .decrement)

/-- Sets a cell to zero. -/
def clear (b : Builder) (cell : Int) : Builder :=
  (b.moveTo cell).append [.loopStart, .decrement, .loopEnd]

/-- Starts a loop that runs while a cell is not zero. -/
def openLoop (b : Builder) (cell : Int) : Builder := (b.moveTo cell).append [.loopStart]

/-- Ends the loop on a cell; the pointer is brought back there first, so every
    round starts from the same cell. -/
def closeLoop (b : Builder) (cell : Int) : Builder := (b.moveTo cell).append [.loopEnd]

/-- A loop on a cell. -/
def loop (b : Builder) (cell : Int) (body : Builder → Builder) : Builder :=
  (body (b.openLoop cell)).closeLoop cell

end Builder

/-- A step of building code. -/
inductive BuildStep where
  | emit (code : Text)
  | emitEndingAt (code : Text) (cell : Int)
  | moveTo (cell : Int)
  | add (cell n : Int)
  | clear (cell : Int)
  /-- A loop whose body goes on after a failing step. -/
  | loop (cell : Int) (body : List BuildStep)
  /-- A loop that is left open, and fails, at the first failing step. -/
  | tryLoop (cell : Int) (body : List BuildStep)
  | fail
  deriving Repr

mutual

/-- Runs a step; tells whether it failed. -/
def BuildStep.run (b : Builder) : BuildStep → Builder × Bool
  | .emit code => (b.emit (Command.ofText code), false)
  | .emitEndingAt code cell => (b.emitEndingAt (Command.ofText code) cell, false)
  | .moveTo cell => (b.moveTo cell, false)
  | .add cell n => (b.add cell n, false)
  | .clear cell => (b.clear cell, false)
  | .loop cell body => ((BuildStep.runAll (b.openLoop cell) body).closeLoop cell, false)
  | .tryLoop cell body =>
    match BuildStep.tryAll (b.openLoop cell) body with
    | (b, true) => (b, true)
    | (b, false) => (b.closeLoop cell, false)
  | .fail => (b, true)

/-- Runs steps, going on after failing ones. -/
def BuildStep.runAll (b : Builder) : List BuildStep → Builder
  | [] => b
  | step :: rest => BuildStep.runAll (step.run b).1 rest

/-- Runs steps up to the first failing one; tells whether one failed. -/
def BuildStep.tryAll (b : Builder) : List BuildStep → Builder × Bool
  | [] => (b, false)
  | step :: rest =>
    match step.run b with
    | (b, true) => (b, true)
    | (b, false) => BuildStep.tryAll b rest

end

end Goat
