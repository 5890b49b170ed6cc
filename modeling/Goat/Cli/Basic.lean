import Goat.Cli.Build
import Goat.Cli.CacheCommand
import Goat.Cli.Describe
import Goat.Cli.Run
import Goat.Cli.Shell
import Goat.Cli.Watch

/-!
# The command line

Reads the options, loads the configuration and calls a command.
-/

namespace Goat.Cli

/-- The commands, as the usage lists them. -/
def commandLines : List Text :=
  [ "braingoat - compile goat programs for the eight-instruction tape machine",
    "",
    "Usage:",
    "  braingoat [options] <command> [arguments]",
    "",
    "Commands:",
    "  build [-o out] [--stats] [--compress none|gzip|zstd] <file.goat>",
    "                            Compile a program",
    "  check <file.goat>...      Report errors without writing output",
    "  run [--input text] <file.goat>",
    "                            Compile and execute a program",
    "  exec [--input text] <file.bf>",
    "                            Execute a compiled program (.bf, .bf.gz, .bf.zst)",
    "  watch [--run] <file|dir>  Rebuild when sources change",
    "  repl                      Start an interactive session",
    "  describe [--json|--markdown|--html] <topic>",
    "                            Show help for builtins, types and operators",
    "  cache list|clear          Inspect or empty the build cache",
    "  cache prune [--before DATE] [--max-size SIZE]",
    "                            Remove old cache entries",
    "" ]

/-- The options and some examples, as the usage lists them. -/
def optionLines : List Text :=
  [ "Options:",
    "  --config PATH    Path to config file (default: auto-detect)",
    "  --version        Show version",
    "  --help           Show this help",
    "",
    "Config Resolution:",
    "  1. --config flag",
    "  2. BRAINGOAT_CONFIG environment variable",
    "  3. ./braingoat.yaml",
    "  4. ~/.config/braingoat/braingoat.yaml",
    "  5. built-in defaults",
    "",
    "Examples:",
    "  braingoat build fib.goat              Write fib.bf",
    "  braingoat run --input 10 fib.goat     Prints 55",
    "  braingoat describe while              Help for the while builtin",
    "  braingoat cache prune --before 7d     Drop entries older than a week",
    "" ]

/-- How the program is used. -/
def usage : Text := Text.ofLines (commandLines ++ optionLines)

/-- The options in front of a command. -/
structure Options where
  config : Text := []
  showVersion : Bool := false
  showHelp : Bool := false
  deriving DecidableEq, Repr

/-- The flags in front of a command. -/
def flags : List (Flag Options) :=
  [ ⟨"config", "Path to config file", .text (·.config) fun config o => { o with config }⟩,
    ⟨"version", "Show version", .bool (·.showVersion) fun showVersion o => { o with showVersion }⟩,
    ⟨"help", "Show help", .bool (·.showHelp) fun showHelp o => { o with showHelp }⟩ ]

section

variable {m : Type → Type} [Monad m] [Host m]

/-- The command of a name. -/
def command? (name : Text) : Option (List Text → Command m Unit) :=
  let all : List (Text × (List Text → Command m Unit)) :=
    [("build", build), ("check", check), ("run", run), ("exec", exec), ("watch", watch),
      ("repl", fun _ => shell), ("cache", cache)]
  all.lookup name

/-- Tells which configuration is used, and what is doubtful in it. -/
def announce (loaded : Config.Loaded) : Command m Unit := do
  match loaded.path with
  | none => pure ()
  | some path => info ["[CONFIG] using ", path]
  loaded.config.warnings.forM fun warning =>
    Console.printErrorLine (Text.join ["[CONFIG] warning: ", warning])

/-- Loads the configuration and carries out a command. -/
def carryOut (configPath : Text) (command : Command m Unit) : m (Except Stop Unit) := do
  match ← Config.load configPath with
  | .error e => return .error (.error (.config e))
  | .ok loaded =>
    match ← App.start loaded.config with
    | .error e => return .error (.error e)
    | .ok app =>
      let work : Command m Unit := do
        announce loaded
        command
      return (← work.run.run app).1

/-- Calls the command that the arguments name. -/
def dispatch (configPath : Text) : List Text → m (Except Stop Unit)
  | [] => do
    Console.printError usage
    return .error (.status 2)
  | name :: args =>
    if name = ("describe" : Text) then describe args
    else
      match command? name with
      | none => return .error (.error (.unknownCommand name))
      | some command => carryOut configPath (command args)

/-- Carries out a command line. -/
def commandLine (args : List Text) : m (Except Stop Unit) := do
  match ← readFlags usage flags {} args with
  | .error e => return .error (.error e)
  | .ok (options, rest) =>
    if options.showHelp then
      Console.print usage
      return .ok ()
    else if options.showVersion then
      Console.printLine (Text.join ["braingoat version ", version])
      return .ok ()
    else dispatch options.config rest

end

end Goat.Cli
