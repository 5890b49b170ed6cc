import Goat.Config.Environment
import Goat.Host.Basic
import Goat.Text.Line
import Goat.Watch.Schedule
import Goat.Workspace.Tree

/-!
# Workspaces

A host in memory. Its files, its outputs and its clock are a value, and all that
happens to it from outside is given beforehand.
-/

namespace Goat

/-- A change that someone else makes to a file. -/
structure Workspace.Change where
  path : Text
  content : Text
  deriving DecidableEq, Repr

/-- A host in memory. -/
structure Workspace where
  tree : Workspace.Tree := {}
  /-- The absolute path at which relative paths start. -/
  directory : Text := "/"
  home : Option Text := none
  environment : Environment.Lookup := fun _ => []
  clock : Instant := 0
  /-- How long every computation is said to take. -/
  elapsed : Text := "0s"
  input : Text := []
  output : Text := []
  errors : Text := []
  isCancelled : Bool := false
  /-- The changes that happen while files are watched. -/
  changes : List Workspace.Change := []

namespace Workspace

/-- A program on a host in memory. -/
abbrev Program := StateM Workspace

/-- The place of the working directory. -/
def place (w : Workspace) : Place :=
  (Path.parts (Path.clean w.directory)).filter fun part => !part.isEmpty

/-- What a path leads to. -/
def entry (w : Workspace) (path : Text) : Except FileError.Cause Entry :=
  w.tree.entry w.place path

/-- The content of a file. -/
def readFile (w : Workspace) (path : Text) : Except FileError Text :=
  match w.entry path with
  | .error cause => .error ⟨.openFile, path, cause⟩
  | .ok .directory => .error ⟨.readFile, path, .isDirectory⟩
  | .ok (.file content) => .ok content

/-- Replaces the tree, or fails and stays as it was. -/
def update (result : Except FileError Tree) : Program (Except FileError Unit) := do
  match result with
  | .error e => return .error e
  | .ok tree =>
    modify fun w => { w with tree }
    return .ok ()

/-- Changes the content of a file. -/
def modifyFile (path : Text) (change : Text → Text) : Program (Except FileError Unit) := do
  let w ← get
  update ((w.tree.modifyFile w.place path change).mapError fun cause => ⟨.openFile, path, cause⟩)

instance : Files Program where
  workingDirectory := return (← get).directory
  kind path := do
    return ((← get).entry path).map Entry.kind |>.mapError fun cause => ⟨.lookUp, path, cause⟩
  read path := return (← get).readFile path
  write path content := modifyFile path fun _ => content
  append path content := modifyFile path fun old => old ++ content
  makeDirectories path := do
    let w ← get
    update (w.tree.makeDirectories w.place path)

instance : Console Program where
  print t := modify fun w => { w with output := w.output ++ t }
  printError t := modify fun w => { w with errors := w.errors ++ t }

/-- What the clock moves on by whenever someone looks at it: a millisecond. -/
def clockTick : Duration := 1000000

/-- Looks at the clock. -/
def tick : Program Instant := do
  let w ← get
  set { w with clock := w.clock + clockTick }
  return w.clock

/-- The time that an instruction of the machine takes, in nanoseconds. -/
def instructionTime : Nat := 10

/-- Runs a machine as long as a timeout allows; zero stands for no timeout. -/
def runMachine (machine : Machine) (code : Machine.Code) (timeout : Duration) (isCancelled : Bool) :
    Machine.Outcome × Machine :=
  if isCancelled then machine.run code Machine.ampleFuel (some .canceled)
  else if 0 < timeout then
    machine.runInterrupted code (timeout.toNat / instructionTime) Machine.ampleFuel
      .deadlineExceeded
  else machine.run code Machine.ampleFuel

/-- The result of a run. One that did not come to an end counts as interrupted. -/
def resultOf : Machine.Outcome → Except Machine.Fault Unit
  | .finished => .ok ()
  | .failed fault => .error fault
  | .outOfFuel _ => .error (.interrupted .canceled)

/-- Executes a program on a new machine. -/
def execute (config : Machine.Config) (code : Machine.Code) (input : Option Text)
    (timeout : Duration) : Program (Except Machine.Fault Unit) := do
  let w ← get
  let machine := Machine.start config (input.getD w.input)
  let (outcome, machine) := runMachine machine code timeout w.isCancelled
  let left := if input.isSome then w.input else machine.input
  set { w with output := w.output ++ machine.output.toList, input := left }
  return resultOf outcome

/-- A watched file is noted in the schedule when it changes. -/
def noteChange (request : Watch.Request) (w : Workspace) (schedule : Watch.Schedule)
    (change : Change) : Watch.Schedule :=
  let path := Path.absolute w.directory change.path
  if Path.directory path ∈ request.directories && request.isWatched path then
    schedule.note path (w.clock + request.debounce)
  else schedule

/-- Makes a change and waits until it has settled. -/
def makeChange {σ : Type} (request : Watch.Request) (step : σ → Text → Program σ)
    (state : σ × Watch.Schedule) (change : Change) : Program (σ × Watch.Schedule) := do
  let _ ← Files.write (m := Program) change.path change.content
  let w ← get
  let schedule := noteChange request w state.2 change
  let clock := w.clock + request.debounce
  set { w with clock }
  let (paths, schedule) := (schedule.advance clock).receiveAll
  return (← paths.foldlM step state.1, schedule)

/-- Makes all changes. -/
def foldChanges {σ : Type} (request : Watch.Request) (init : σ) (step : σ → Text → Program σ) :
    Program σ := do
  let w ← get
  if w.isCancelled then return init
  return (← w.changes.foldlM (makeChange request step) (init, {})).1

instance : Host Program where
  variableValue name := return (← get).environment name
  home? := return (← get).home
  now := tick
  timed f := return (f (), (← get).elapsed)
  isCancelled := return (← get).isCancelled
  execute := execute
  foldLines _ init step := do
    forIn ((Text.streamLines (← get).input).map Text.Line.text) init fun line s => step s line
  foldChanges := foldChanges

end Workspace

end Goat
