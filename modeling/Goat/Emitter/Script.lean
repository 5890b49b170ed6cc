import Goat.Emitter.Stmt
import Goat.Program.Parser

/-!
# Emission step by step

A script drives an emitter by hand. Its registers hold values on the tape, apart
from the declared variables. A value is destroyed at most once, however many
registers hold it.
-/

namespace Goat.Script

/-- Which value a register holds: one that was allocated, or an element of such a
    list. -/
inductive Identity where
  | allocated (serial : Nat)
  | element (serial k : Nat)
  deriving DecidableEq, Repr

/-- The content of a register. -/
structure Handle where
  value : Variable
  identity : Identity
  deriving DecidableEq, Repr

/-- What a script changes: the emitter, the registers, and which values are
    destroyed. -/
structure State where
  emitter : Emitter := {}
  registers : List (Text × Handle) := []
  nextSerial : Nat := 0
  destroyed : List Identity := []

/-- An operation of a cell with another one. -/
inductive Binary where
  | take
  | apply (op : Operator)
  deriving DecidableEq, Repr

/-- A step of a script. Registers are given by name. -/
inductive Step where
  | int (target : Text)
  | temporary (target : Text)
  | list (target : Text) (length : Nat)
  | element (target list : Text) (k : Nat)
  | get (target list index : Text)
  | put (list index value : Text)
  | clone (target source : Text)
  | set (target source : Text)
  | setConst (target : Text) (n : Int)
  | add (target : Text) (n : Int)
  | binary (op : Binary) (target source : Text)
  | lessThan (target a b : Text)
  | negate (target : Text)
  | ifEquals (target : Text) (k : Int) (body : List Step)
  | ifNonzero (target : Text) (body : List Step)
  | reset (target : Text)
  | destroy (target : Text)
  | print (target : Text)
  | printDecimal (target : Text)
  | input (target : Text)
  | inputDecimal (target : Text)
  | info (target : Text)
  | statement (source : Text)
  deriving Repr

namespace State

/-- The content of a register. -/
def handle? (s : State) (name : Text) : Option Handle :=
  (s.registers.find? fun entry => entry.1 == name).map Prod.snd

/-- The cell in a register. -/
def cell? (s : State) (name : Text) : Option Cell :=
  match s.handle? name with
  | some ⟨.int c, _⟩ => some c
  | _ => none

/-- The list in a register, with its identity. -/
def list? (s : State) (name : Text) : Option (CellList × Identity) :=
  match s.handle? name with
  | some ⟨.list l, identity⟩ => some (l, identity)
  | _ => none

/-- Runs an emission that cannot fail. -/
def emit (s : State) (step : Emit Unit) : State :=
  { s with emitter := (StateT.run step s.emitter).2 }

/-- Fills a register. -/
def bind (s : State) (name : Text) (handle : Handle) : State :=
  { s with registers := (name, handle) :: s.registers.filter fun entry => entry.1 != name }

/-- Fills a register with a value that is allocated by an emission. -/
def bindNew (s : State) (name : Text) (step : Emit Variable) : State :=
  let (v, emitter) := StateT.run step s.emitter
  { s with emitter, nextSerial := s.nextSerial + 1 }.bind name ⟨v, .allocated s.nextSerial⟩

/-- Runs an emission on the cell in a register. -/
def onCell (s : State) (name : Text) (step : Cell → Emit Unit) : State :=
  match s.cell? name with
  | some c => s.emit (step c)
  | none => s

/-- Runs an emission on the value in a register. -/
def onVariable (s : State) (name : Text) (cell : Cell → Emit Unit)
    (list : CellList → Emit Unit) : State :=
  match s.handle? name with
  | some ⟨.int c, _⟩ => s.emit (cell c)
  | some ⟨.list l, _⟩ => s.emit (list l)
  | none => s

/-- Fills a register with an element of a list. -/
def bindElement (s : State) (target list : Text) (k : Nat) : State :=
  match s.list? list with
  | some (l, .allocated serial) => s.bind target ⟨.int (l.element k), .element serial k⟩
  | _ => s

/-- Fills a register with a copy of a value. -/
def bindClone (s : State) (target source : Text) : State :=
  match s.handle? source with
  | some ⟨.int c, _⟩ => s.bindNew target do return .int (← c.clone)
  | some ⟨.list l, _⟩ => s.bindNew target do return .list (← l.clone)
  | none => s

/-- Copies the value of one register into that of another. -/
def copy (s : State) (target source : Text) : State :=
  match s.handle? target, s.handle? source with
  | some ⟨.int t, _⟩, some ⟨.int c, _⟩ => s.emit (t.set c)
  | some ⟨.list t, _⟩, some ⟨.list l, _⟩ => s.emit (t.set l)
  | _, _ => s

/-- Destroys the value in a register unless it is destroyed already. -/
def destroy (s : State) (name : Text) : State :=
  match s.handle? name with
  | none => s
  | some handle =>
    if handle.identity ∈ s.destroyed then s
    else
      let s := { s with destroyed := handle.identity :: s.destroyed }
      match handle.value with
      | .int c => s.emit c.destroy
      | .list l => s.emit l.destroy

/-- Parses and emits statements; what was emitted before a failure stays. -/
def statement (s : State) (source : Text) : Option Failure × State :=
  match Program.ofSource source with
  | .error f => (some f, s)
  | .ok program =>
    match s.emitter.run (emitProgram program) with
    | (.ok (), emitter) => (none, { s with emitter })
    | (.error f, emitter) => (some f, { s with emitter })

/-- Runs what follows a copy of a cell being tested: the loop on `flag`. -/
def onceWhile (s : State) (flag : Cell) (first : Emit Unit) (body : State → State) : State :=
  let s := s.emit do
    Emit.build (·.openLoop flag.address)
    first
  (body s).emit (Emit.build (·.closeLoop flag.address))

end State

/-- Runs an emission that yields a cell. -/
def State.emitCell (s : State) (step : Emit Cell) : Cell × State :=
  let (c, emitter) := StateT.run step s.emitter
  (c, { s with emitter })

mutual

/-- Runs a step; yields the failure of a statement. -/
def Step.run (s : State) : Step → Option Failure × State
  | .int target => (none, s.bindNew target do return .int (← Cell.new target))
  | .temporary target => (none, s.bindNew target do return .int (← Cell.temporary))
  | .list target length => (none, s.bindNew target do return .list (← CellList.new target length))
  | .element target cells k => (none, s.bindElement target cells k)
  | .get target cells index =>
    match s.list? cells, s.cell? index with
    | some (l, _), some i => (none, s.bindNew target do return .int (← l.get i))
    | _, _ => (none, s)
  | .put cells index value =>
    match s.list? cells, s.cell? index, s.cell? value with
    | some (l, _), some i, some v => (none, s.emit (l.put i v))
    | _, _, _ => (none, s)
  | .clone target source => (none, s.bindClone target source)
  | .set target source => (none, s.copy target source)
  | .setConst target n => (none, s.onCell target (·.setConst n))
  | .add target n => (none, s.onCell target (·.add n))
  | .binary op target source =>
    match s.cell? source with
    | some y => (none, s.onCell target fun c =>
        match op with
        | .take => c.take y
        | .apply op => c.apply op y)
    | none => (none, s)
  | .lessThan target a b =>
    match s.cell? a, s.cell? b with
    | some x, some y => (none, s.onCell target (·.lessThan x y))
    | _, _ => (none, s)
  | .negate target => (none, s.onCell target Cell.negate)
  | .ifEquals target k body =>
    match s.cell? target with
    | none => (none, s)
    | some c =>
      let (t, s) := s.emitCell c.clone
      let s := s.emit (t.add (-k))
      let (flag, s) := s.emitCell Cell.temporary
      let s := s.emit do
        flag.add 1
        t.loop do
          t.reset
          flag.add (-1)
      let s := s.onceWhile flag (flag.add (-1)) fun s => Step.runAll s body
      (none, s.emit do
        flag.destroy
        t.destroy)
  | .ifNonzero target body =>
    match s.cell? target with
    | none => (none, s)
    | some c =>
      let (t, s) := s.emitCell c.clone
      let s := s.onceWhile t t.reset fun s => Step.runAll s body
      (none, s.emit t.destroy)
  | .reset target => (none, s.onVariable target Cell.reset CellList.reset)
  | .destroy target => (none, s.destroy target)
  | .print target => (none, s.onVariable target Cell.print CellList.print)
  | .printDecimal target => (none, s.onVariable target Cell.printDecimal CellList.printDecimal)
  | .input target => (none, s.onCell target Cell.input)
  | .inputDecimal target => (none, s.onCell target Cell.inputDecimal)
  | .info _ => (none, s)
  | .statement source => s.statement source

/-- Runs steps in order, going on after a failing statement. -/
def Step.runAll (s : State) : List Step → State
  | [] => s
  | step :: rest => Step.runAll (step.run s).2 rest

end

end Goat.Script
