import Goat.Cli.App
import Goat.Watch.Basic

/-!
# Watching

The command that builds files again when they change.
-/

namespace Goat.Cli

/-- The flags of the command that watches files. -/
def watchFlags : List (Flag Config.Watch) :=
  [ ⟨"run", "Run the program after each build", .bool (·.run) fun run o => { o with run }⟩ ]

section

variable {m : Type → Type} [Monad m] [Host m]

/-- How changed files are built. -/
structure Rebuild where
  options : Container.Options
  machine : Machine.Config
  /-- Run a program after it was built. -/
  runs : Bool

/-- Builds a changed file. -/
def rebuild (r : Rebuild) (path : Text) : Command m Unit := do
  let (code, _) ← buildFile path true
  let output := Container.outputPath path r.options.format
  writeProgram output code r.options
  Console.printLine (Watch.infoLine (Text.join ["wrote ", output]))
  if r.runs then execute code (some []) r.machine

/-- What is said when a changed file could not be built. -/
def rebuildMessage (path : Text) : Stop → Text
  | .status _ | .crash => Text.join ["build of ", path, " failed"]
  | .error e => e.message

/-- Builds a changed file; yields what went wrong. -/
def onChange (r : Rebuild) (path : Text) : StateT App m (Except Text Unit) := do
  return (← (rebuild (m := m) r path).run).mapError (rebuildMessage path)

/-- Counts a change and handles it. -/
def countChange (r : Rebuild) (state : Nat × App) (path : Text) : m (Nat × App) := do
  let ((), app) ← (Watch.handleChange (some (onChange (m := m) r)) path).run state.2
  return (state.1 + 1, app)

/-- Builds files again whenever they change. -/
def watch (args : List Text) : Command m Unit := do
  let config := (← get).config
  let (settings, paths) ← parseFlags "watch" watchFlags config.watch args
  if paths.isEmpty then fail .nothingToWatch
  let format ← formatOf config.build.compress
  let machine ← orFail .machineSetting config.machineConfig
  let options : Container.Options :=
    { format, level := .ofName config.build.level, lineWidth := config.build.lineWidth }
  let watcher ← orFail .file (← Watch.Watcher.start paths settings.extensions)
  let r : Rebuild := { options, machine, runs := settings.run }
  let (builds, app) ← Host.foldChanges (m := m) (watcher.request settings.debounce) (0, ← get)
    (countChange r)
  set app
  Console.printLine (Watch.infoLine
    (Text.join ["stopped after ", Text.ofNat builds, " builds"]))

end

end Goat.Cli
