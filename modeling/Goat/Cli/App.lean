import Goat.Cache.Build
import Goat.Cache.Database
import Goat.Cli.Error
import Goat.Compilation.Log
import Goat.Text.Wrap

/-!
# What commands share

The settings of a command, its log and its cache.
-/

namespace Goat.Cli

/-- Where the lines of the log go. -/
inductive LogOutput where
  | standardError
  | standardOutput
  | file (path : Text)
  deriving DecidableEq, Repr

/-- The output that a setting names. -/
def LogOutput.ofSetting (setting : Text) : LogOutput :=
  if setting.isEmpty || setting = ("stderr" : Text) then .standardError
  else if setting = ("stdout" : Text) then .standardOutput
  else .file setting

/-- A cache and the file it is kept in, unless it is kept in memory. -/
structure OpenCache where
  cache : Cache
  file : Option Text

/-- What commands share. -/
structure App where
  config : Config
  log : LogOutput
  /-- The cache, once it was opened. -/
  cache : Option OpenCache := none

/-- A command on a host. What it changes is kept when it fails. -/
abbrev Command (m : Type → Type) := ExceptT Stop (StateT App m)

section

variable {m : Type → Type} [Monad m] [Host m]

/-- Ends a command with an error. -/
def fail {α : Type} (e : Error) : Command m α := throw (.error e)

/-- The value of a result; an error ends the command. -/
def orFail {ε α : Type} (wrap : ε → Error) : Except ε α → Command m α
  | .ok value => return value
  | .error e => fail (wrap e)

/-- Starts to log. A log file is created at once. -/
def App.start (config : Config) : m (Except Error App) := do
  let log := LogOutput.ofSetting config.logging.output
  match log with
  | .file path =>
    match ← Files.append path [] with
    | .error e => return .error (.logFile e)
    | .ok () => return .ok { config, log }
  | _ => return .ok { config, log }

/-- Adds a line to the log. -/
def logLine (line : Text) : Command m Unit := do
  match (← get).log with
  | .standardError => Console.printErrorLine line
  | .standardOutput => Console.printLine line
  | .file path => let _ ← Files.append path (line ++ Text.newline)

/-- The levels at which only problems are logged. -/
def terseLevels : List Text := ["warn", "error"]

/-- Logs what a command does, unless the settings ask for silence. -/
def info (parts : List Text) : Command m Unit := do
  let logging := (← get).config.logging
  if logging.quiet || logging.level ∈ terseLevels then return
  logLine (Text.join parts)

/-- Logs an error of the cache. -/
def logCacheError (e : Option Cache.Error) : Command m Unit := do
  match e with
  | none => return
  | some e => logLine (Text.join ["[CACHE] error: ", e.message])

/-- Reads flags, or reports why they cannot be read. -/
def readFlags {σ : Type} (usage : Text) (flags : List (Flag σ)) (defaults : σ) (args : List Text) :
    m (Except Error (σ × List Text)) := do
  match Flag.parse flags defaults args with
  | .ok result => return .ok result
  | .error e =>
    Console.printError (e.report usage)
    return .error (.flag e)

/-- Reads the flags of a command. -/
def parseFlags {σ : Type} (command : Text) (flags : List (Flag σ)) (defaults : σ)
    (args : List Text) : Command m (σ × List Text) := do
  let name := Text.join ["braingoat ", command]
  let result ← readFlags (m := m) (Flag.usage name flags defaults) flags defaults args
  orFail id result

/-- The only argument of a command. -/
def oneFile (command : Text) : List Text → Command m Text
  | [file] => return file
  | _ => fail (.notOneFile command)

/-- The store in a file, which is created if it is missing. -/
def readStore (path : Text) : Command m Cache.Store := do
  match ← Files.read path with
  | .ok content =>
    match Cache.Store.ofFile? content with
    | some store => return store
    | none => fail (.cacheOpen (.unreachable "file is not a database (26)"))
  | .error e =>
    if e.cause = .notFound then
      let _ ← Files.write path (Cache.Store.toText {})
      return {}
    else fail (.cacheOpen (.unreachable "unable to open database file (14)"))

/-- The file in which a cache is kept; `none` for one in memory. -/
def cacheFile? (source : Text) : Option Text :=
  if source.isEmpty || source = Config.memorySource then none else some source

/-- A command that was asked to stop opens no cache. -/
def refuseIfCancelled : Command m Unit := do
  if ← Host.isCancelled (m := m) then
    fail (.cacheOpen (.unreachable (Machine.Fault.interrupted .canceled).message))

/-- Opens the cache of a source. -/
def openSource (source : Text) : Command m OpenCache := do
  match cacheFile? source with
  | none =>
    refuseIfCancelled
    return ⟨{ version }, none⟩
  | some path =>
    orFail (fun e => .cacheOpen (.directory e)) (← Files.makeDirectories (Path.directory path))
    refuseIfCancelled
    return ⟨{ version, store := ← readStore path }, some path⟩

/-- Opens the cache that the settings ask for, the first time it is used. -/
def openCache : Command m OpenCache := do
  match (← get).cache with
  | some opened => return opened
  | none =>
    let settings := (← get).config.cache
    match Cache.Driver.ofName? settings.driver with
    | none => fail (.cacheOpen (.unknownDriver settings.driver))
    | some .sqlite =>
      let opened ← openSource settings.source
      modify fun app => { app with cache := some opened }
      return opened
    | some _ => fail (.cacheOpen (.unreachable "no such service"))

/-- Keeps a changed cache. -/
def saveCache (cache : Cache) : Command m Unit := do
  match (← get).cache with
  | none => return
  | some opened =>
    modify fun app => { app with cache := some { opened with cache } }
    match opened.file with
    | none => return
    | some path => let _ ← Files.write path cache.store.toText

/-- Reports why a source was not compiled. -/
def reportFailure (f : Failure) (path source : Text) : Command m Unit := do
  Console.printErrorLine (Text.join [path, ":"])
  Console.printErrorLine (f.renderSource source)

/-- The cache for a build, if one is wanted. -/
def cacheFor (useCache : Bool) : Command m (Option Cache) := do
  if useCache && (← get).config.cache.enabled then return some (← openCache).cache
  return none

/-- Logs the trace of a compiler if the settings ask for it. -/
def logTrace (trace : List Text) : Command m Unit := do
  if (← get).config.isDebug then
    trace.forM fun line => logLine (Log.labelled traceLabel line)

/-- Tells what came of building a file and keeps the cache. Figures are there unless
    the program was in the cache. A failure is reported and ends the command. -/
def concludeBuild (path source : Text) (build : Cache.Build) (elapsed : Text) :
    Command m (Text × Option Statistics) := do
  logCacheError build.readError
  logTrace build.trace
  match build.result with
  | .error f =>
    reportFailure f path source
    throw (.status 1)
  | .ok (code, none) =>
    info ["[CACHE] hit ", path]
    return (code, none)
  | .ok (code, some compilation) =>
    info ["compiled ", path, " in ", elapsed]
    match build.cache with
    | none => return (code, some compilation.statistics)
    | some cache =>
      logCacheError build.writeError
      saveCache cache
      return (code, some compilation.statistics)

/-- Compiles a file with a compiler, and with the cache if one is wanted. -/
def buildFileWith (compiler : Cache.Compiler) (path : Text) (useCache : Bool) :
    Command m (Text × Option Statistics) := do
  let source ← orFail .file (← Files.read path)
  let cache ← cacheFor useCache
  let now ← Host.now (m := m)
  let (build, elapsed) ← Host.timed (m := m) fun _ => Cache.build compiler cache now source
  match build with
  | some build => concludeBuild path source build elapsed
  | none => throw .crash

/-- Compiles a file, with the cache if one is wanted. -/
def buildFile (path : Text) (useCache : Bool) : Command m (Text × Option Statistics) :=
  buildFileWith compileTraced path useCache

/-- Writes a program to a file, in a directory that is made if it is missing. -/
def writeProgram (path code : Text) (options : Container.Options) : Command m Unit := do
  let directory := Path.directory path
  if directory ≠ Path.here then
    orFail (.outputDirectory directory) (← Files.makeDirectories directory)
  orFail .file (← Files.write path (Container.encode options code))

/-- The format that a user asks for. -/
def formatOf (request : Text) : Command m Container.Format :=
  match Container.Format.ofRequest? request with
  | some format => return format
  | none => fail (.format request)

/-- Executes a program. -/
def execute (code : Text) (input : Option Text) (config : Machine.Config) : Command m Unit := do
  let loaded ← orFail .load (Machine.Code.load code)
  let timeout := (← get).config.machine.timeout
  orFail .fault (← Host.execute (m := m) config loaded input timeout)

end

end Goat.Cli
