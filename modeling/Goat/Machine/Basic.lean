import Goat.Machine.Code
import Goat.Text.Lower
import Goat.Text.Quoted

/-!
# The tape machine

Executes loaded programs on a tape of bytes that grows to the right. A run can
be bounded in the number of cells and of instructions, and can be interrupted
from outside, which it notices at regular steps.
-/

namespace Goat.Machine

/-- What reading stores once the input is exhausted. -/
inductive EndOfInput where
  | zero
  | unchanged
  | max
  deriving DecidableEq, Repr

namespace EndOfInput

/-- The name of a mode. -/
def name : EndOfInput → Text
  | zero => "zero"
  | unchanged => "unchanged"
  | max => "max"

/-- The number of a mode. -/
def number : EndOfInput → Nat
  | zero => 0
  | unchanged => 1
  | max => 2

/-- The mode that a setting names, in any case. -/
def ofName? (name : Text) : Option EndOfInput :=
  let lowered := Text.lower name
  if lowered ∈ ([[], "zero", "0"] : List Text) then some zero
  else if lowered ∈ (["unchanged", "none"] : List Text) then some unchanged
  else if lowered ∈ (["max", "255", "-1"] : List Text) then some max
  else none

/-- The message for a setting that names no mode. -/
def unknownMessage (name : Text) : Text :=
  Text.join ["unknown eof mode ", Text.quote name, " (use zero, unchanged or max)"]

/-- What a cell holds after reading past the end of input. -/
def store : EndOfInput → UInt8 → UInt8
  | zero, _ => 0
  | unchanged, cell => cell
  | max, _ => 255

end EndOfInput

/-- The limits and settings of a machine. -/
structure Config where
  /-- The number of cells; `none` for a tape without end. -/
  tapeSize : Option Nat := none
  endOfInput : EndOfInput := .zero
  /-- The number of instructions a machine may execute; `none` for no limit. The limits that can
      be set fit a word; steps are counted exactly, as no run takes more of them than a word can
      hold. -/
  maxSteps : Option Nat := none
  deriving DecidableEq, Repr

/-- A limit given as a number, where zero and below mean none. -/
def limitOfInt (n : Int) : Option Nat := if 0 < n then some n.toNat else none

/-- Why a run was interrupted from outside. -/
inductive Interruption where
  | canceled
  | deadlineExceeded
  deriving DecidableEq, Repr

/-- Why a run failed. -/
inductive Fault where
  /-- The pointer moved left of the first cell. -/
  | underflow
  /-- The pointer moved past the end of a tape of `cells` cells. -/
  | overflow (cells : Nat)
  /-- More than `limit` instructions were needed. -/
  | stepLimit (limit : Nat)
  | interrupted (cause : Interruption)
  deriving DecidableEq, Repr

/-- The message of a fault. -/
def Fault.message : Fault → Text
  | underflow => "pointer moved left of cell 0"
  | overflow cells =>
    Text.join ["pointer moved past the end of the tape (", Text.ofNat cells, " cells)"]
  | stepLimit limit => Text.join ["step limit exceeded (", Text.ofNat limit, ")"]
  | interrupted .canceled => "context canceled"
  | interrupted .deadlineExceeded => "context deadline exceeded"

/-- How a run ended. -/
inductive Outcome where
  | finished
  | failed (fault : Fault)
  /-- The run needs more fuel than it was given; it would go on at place `next`. -/
  | outOfFuel (next : Nat)
  deriving DecidableEq, Repr

end Machine

/-- The state of a machine. It is kept from one run to the next. -/
structure Machine where
  config : Machine.Config
  tape : Array UInt8
  pointer : Nat := 0
  steps : Nat := 0
  /-- The input that was not read yet. -/
  input : List UInt8 := []
  output : Array UInt8 := #[]
  deriving DecidableEq, Repr

namespace Machine

/-- The number of cells that a tape without a smaller limit starts with. -/
def initialCells : Nat := 64

/-- A machine with an empty tape. -/
def start (config : Config) (input : List UInt8) : Machine :=
  let cells := match config.tapeSize with
    | some size => min size initialCells
    | none => initialCells
  { config, tape := Array.replicate cells 0, input }

/-- The current cell. -/
def current (m : Machine) : UInt8 := m.tape.getD m.pointer 0

/-- Changes the current cell. -/
def store (m : Machine) (value : UInt8) : Machine :=
  { m with tape := m.tape.setIfInBounds m.pointer value }

/-- The tape with enough cells for cell `p`: at least twice as many as before, but
    no more than the limit. -/
def growTo (m : Machine) (p : Nat) : Array UInt8 :=
  if p < m.tape.size then m.tape
  else
    let wanted := max (m.tape.size * 2) (p + 1)
    let size := match m.config.tapeSize with
      | some limit => min wanted limit
      | none => wanted
    m.tape ++ Array.replicate (size - m.tape.size) 0

/-- The cell that a move leads to; a move to a cell that the tape cannot have fails. -/
def destination (m : Machine) (distance : Int) : Except Fault Nat :=
  let p := (m.pointer : Int) + distance
  if p < 0 then .error .underflow
  else
    match m.config.tapeSize with
    | some limit => if limit ≤ p.toNat then .error (.overflow limit) else .ok p.toNat
    | none => .ok p.toNat

/-- Moves the pointer to cell `p`, growing the tape as needed. -/
def moveTo (m : Machine) (p : Nat) : Machine := { m with tape := m.growTo p, pointer := p }

/-- Reads a byte into the current cell. -/
def read (m : Machine) : Machine :=
  match m.input with
  | [] => m.store (m.config.endOfInput.store m.current)
  | b :: rest => { m with input := rest }.store b

/-- Executes an instruction at place `pc`. Yields the place of the next one, or the
    fault of an instruction that leaves the machine as it was. -/
@[inline]
def execute (m : Machine) (pc : Nat) : Instruction → Except Fault Nat × Machine
  | .add amount => (.ok (pc + 1), m.store (m.current + UInt8.ofInt amount))
  | .move distance =>
    match m.destination distance with
    | .error fault => (.error fault, m)
    | .ok p => (.ok (pc + 1), m.moveTo p)
  | .clear => (.ok (pc + 1), m.store 0)
  | .write => (.ok (pc + 1), { m with output := m.output.push m.current })
  | .read => (.ok (pc + 1), m.read)
  | .loopStart partner => (.ok (if m.current = 0 then partner + 1 else pc + 1), m)
  | .loopEnd partner => (.ok (if m.current = 0 then pc + 1 else partner + 1), m)

/-- The number of steps between two looks for an interruption. -/
def pollInterval : Nat := 16384

/-- Counts a step; fails if it is one too many or a pending interruption is seen. -/
def countStep (m : Machine) (pending : Option Interruption) : Except Fault Unit :=
  match m.config.maxSteps with
  | some limit => if limit < m.steps then .error (.stepLimit limit) else poll
  | none => poll
where
  /-- Looks for an interruption if it is time to. -/
  poll : Except Fault Unit :=
    match pending with
    | some cause => if m.steps % pollInterval = 0 then .error (.interrupted cause) else .ok ()
    | none => .ok ()

/-- Executes a program from place `pc` on, at most `fuel` instructions. -/
def runFrom (code : Code) (pending : Option Interruption) :
    (fuel pc : Nat) → Machine → Outcome × Machine
  | fuel, pc, m =>
    match code.instructions[pc]? with
    | none => (.finished, m)
    | some instruction =>
      match fuel with
      | 0 => (.outOfFuel pc, m)
      | fuel + 1 =>
        let m := { m with steps := m.steps + 1 }
        match m.countStep pending with
        | .error fault => (.failed fault, m)
        | .ok () =>
          match m.execute pc instruction with
          | (.error fault, m) => (.failed fault, m)
          | (.ok next, m) => runFrom code pending fuel next m

/-- Executes a program from its start, at most `fuel` instructions. -/
def run (m : Machine) (code : Code) (fuel : Nat) (pending : Option Interruption := none) :
    Outcome × Machine :=
  runFrom code pending fuel 0 m

/-- Executes a program that is interrupted after `patience` instructions, which it
    notices at the next look; at most `fuel` instructions follow. -/
def runInterrupted (m : Machine) (code : Code) (patience fuel : Nat) (cause : Interruption) :
    Outcome × Machine :=
  match m.run code patience with
  | (.outOfFuel next, m) => runFrom code (some cause) fuel next m
  | ended => ended

/-- More instructions than any run will take. -/
def ampleFuel : Nat := 0x4000000000000000

/-- Executes a program `times` times on the same tape, up to the first failure. -/
def runRepeated (m : Machine) (code : Code) (fuel : Nat) (pending : Option Interruption) :
    (times : Nat) → Outcome × Machine
  | 0 => (.finished, m)
  | times + 1 =>
    match m.run code fuel pending with
    | (.finished, m) => runRepeated m code fuel pending times
    | ended => ended

/-- The tape without the zero cells at its end. -/
def usedTape (m : Machine) : List UInt8 :=
  (m.tape.toList.reverse.dropWhile (· == 0)).reverse

end Machine

end Goat
