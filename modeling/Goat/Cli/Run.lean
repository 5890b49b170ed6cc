import Goat.Cli.App

/-!
# Running

The commands that execute programs.
-/

namespace Goat.Cli

/-- The settings of a run. -/
structure RunSettings where
  /-- The input of the program; without one it reads the standard input. -/
  input : Option Text := none
  machine : Config.Machine

/-- Changes the settings of the machine. -/
def RunSettings.onMachine (change : Config.Machine → Config.Machine) (s : RunSettings) :
    RunSettings :=
  { s with machine := change s.machine }

/-- The flags of the commands that execute programs. -/
def runFlags : List (Flag RunSettings) :=
  [ ⟨"input", "Program input (default: stdin)",
      .text (fun s => s.input.getD []) fun input s => { s with input := some input }⟩,
    ⟨"eof", "End of input behaviour: zero, unchanged or max",
      .text (·.machine.endOfInput) fun endOfInput => .onMachine fun m => { m with endOfInput }⟩,
    ⟨"max-steps", "Abort after this many instructions (0 for no limit)",
      .int (·.machine.maxSteps) fun maxSteps => .onMachine fun m => { m with maxSteps }⟩,
    ⟨"tape-size", "Tape cells (0 for unbounded)",
      .int (·.machine.tapeSize) fun tapeSize => .onMachine fun m => { m with tapeSize }⟩ ]

section

variable {m : Type → Type} [Monad m] [Host m]

/-- Reads the settings of a run and the file to run. -/
def runSettings (command : Text) (args : List Text) :
    Command m (RunSettings × Machine.Config × Text) := do
  let defaults : RunSettings := { machine := (← get).config.machine }
  let (settings, files) ← parseFlags command runFlags defaults args
  let file ← oneFile command files
  let machine ← orFail .machineSetting
    (Config.Machine.toConfig settings.machine.tapeSize settings.machine.maxSteps
      settings.machine.endOfInput)
  return (settings, machine, file)

/-- Compiles and executes a program. -/
def run (args : List Text) : Command m Unit := do
  let (settings, machine, file) ← runSettings "run" args
  let (code, _) ← buildFile file true
  execute code settings.input machine

/-- The compiled program in a file. -/
def readProgram (path : Text) : Command m Text := do
  match ← Files.read path with
  | .error e => fail (if e.operation = .readFile then .programFile path e else .file e)
  | .ok data => orFail (.container path) (Container.decode data)

/-- Executes a compiled program. -/
def exec (args : List Text) : Command m Unit := do
  let (settings, machine, file) ← runSettings "exec" args
  execute (← readProgram file) settings.input machine

end

end Goat.Cli
