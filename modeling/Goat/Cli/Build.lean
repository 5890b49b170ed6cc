import Goat.Cli.App
import Goat.Size.Printer

/-!
# Building and checking

The commands that compile files.
-/

namespace Goat.Cli

/-- The flags of the command that builds a program. -/
def buildFlags : List (Flag Config.Build) :=
  [ ⟨"o", "Output file (- for stdout)", .text (·.output) fun output o => { o with output }⟩,
    ⟨"compress", "Compression: none, gzip or zstd",
      .text (·.compress) fun compress o => { o with compress }⟩,
    ⟨"level", "Compression level: fastest, default or best",
      .text (·.level) fun level o => { o with level }⟩,
    ⟨"line-width", "Wrap plain output (0 for one line)",
      .int (·.lineWidth) fun lineWidth o => { o with lineWidth }⟩,
    ⟨"stats", "Print compile statistics", .bool (·.stats) fun stats o => { o with stats }⟩ ]

section

variable {m : Type → Type} [Monad m] [Host m]

/-- Prints the figures of a compilation and the size of the written file. -/
def printStatistics (statistics : Statistics) (path : Text) : Command m Unit := do
  let locale := Locale.ofTag (← get).config.logging.locale
  Console.print (statistics.format locale)
  match ← Files.kind path with
  | .ok (.file size) =>
    Console.printLine (Text.join ["output:       ", Size.toText size])
  | _ => return

/-- Compiles a program and writes it. -/
def build (args : List Text) : Command m Unit := do
  let (settings, files) ← parseFlags "build" buildFlags (← get).config.build args
  let source ← oneFile "build" files
  let format ← formatOf settings.compress
  let (code, statistics) ← buildFile source !settings.stats
  let options : Container.Options :=
    { format, level := .ofName settings.level, lineWidth := settings.lineWidth }
  if settings.output = ("-" : Text) then
    Console.print (Container.encode options code)
  else
    let path :=
      if settings.output.isEmpty then Container.outputPath source format else settings.output
    writeProgram path code options
    info ["wrote ", path]
    match statistics with
    | some statistics => if settings.stats then printStatistics statistics path
    | none => return

/-- Checks a file. Yields whether it compiles; a file that cannot be read ends the
    command. -/
def checkFile (path : Text) : Command m Bool := do
  try
    let _ ← buildFile path false
    Console.printLine (Text.join [path, ": ok"])
    return true
  catch
    | .status _ => return false
    | .crash => throw .crash
    | .error e =>
      Console.printErrorLine (Text.join ["Error reading ", path, ": ", e.message])
      throw (.status 2)

/-- Reports the errors in files without writing anything. -/
def check (args : List Text) : Command m Unit := do
  let ((), files) ← parseFlags "check" [] () args
  if files.isEmpty then
    Console.printErrorLine "Error: check requires at least one file"
    throw (.status 2)
  let results ← files.mapM checkFile
  if results.all id then return else throw (.status 1)

end

end Goat.Cli
