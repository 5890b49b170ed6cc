import Goat.Config.Environment
import Goat.Config.Reader
import Goat.Config.Validation
import Goat.Host.Basic
import Goat.Path

/-!
# Loading a configuration

A configuration comes from the file that the user names, from the file that the
environment names, from the working directory or from the home directory, in this
order. Without a file the default settings hold.
-/

namespace Goat.Config

/-- Who named the file of a configuration. -/
inductive Origin where
  | user
  | environment
  deriving DecidableEq, Repr

/-- The variable that names the file of a configuration. -/
def fileVariable : Text := "BRAINGOAT_CONFIG"

/-- What a file is called in messages. -/
def Origin.label : Origin → Text
  | user => "config file"
  | environment => Text.join [fileVariable, " file"]

/-- Why no configuration can be loaded. -/
inductive LoadError where
  | missing (origin : Origin) (path : Text)
  | unreadable (cause : FileError)
  | malformed
  | invalid (problems : List Problem)
  deriving DecidableEq, Repr

/-- What is wrong, without a cause that lies in the file. -/
def LoadError.summary : LoadError → Text
  | missing origin path => Text.join [origin.label, " not found: ", path]
  | unreadable _ => "failed to read config"
  | malformed => "failed to parse config"
  | invalid problems => problemsMessage problems

/-- The message of an error. -/
def LoadError.message : LoadError → Text
  | unreadable cause => Text.join ["failed to read config: ", cause.message]
  | e => e.summary

/-- The name of the file in the working directory. -/
def fileName : Text := "braingoat.yaml"

/-- A path in a configuration, seen from the directory of its file. -/
def resolve (baseDir path : Text) : Text :=
  if Path.isAbsolute path then path else Path.join [baseDir, path]

/-- The outputs of a log that are no files. -/
def consoleOutputs : List Text := ["", "stderr", "stdout"]

/-- The configuration with its paths seen from the directory of its file. -/
def located (c : Config) (baseDir : Text) : Config :=
  let output := if c.build.output.isEmpty then [] else resolve baseDir c.build.output
  let isFile := c.cache.driver = ("sqlite" : Text) && c.cache.source ∉ [[], memorySource]
  let source := if isFile then resolve baseDir c.cache.source else c.cache.source
  let log :=
    if c.logging.output ∈ consoleOutputs then c.logging.output else resolve baseDir c.logging.output
  { c with
    baseDir
    build := { c.build with output }
    cache := { c.cache with source }
    logging := { c.logging with output := log } }

/-- The configuration, if nothing is wrong with it. -/
def validated (c : Config) : Except LoadError Config :=
  if c.problems.isEmpty then .ok c else .error (.invalid c.problems)

/-- The configuration of a document in a directory. -/
def ofFile (baseDir document : Text) : Except LoadError Config :=
  match ofDocument? document with
  | none => .error .malformed
  | some c => (c.located baseDir).validated

section

variable {m : Type → Type} [Monad m] [Host m]

/-- The file that was named, if there is one. -/
def named? (explicit : Text) : m (Option (Origin × Text)) := do
  if !explicit.isEmpty then return some (.user, explicit)
  let path ← Host.variableValue fileVariable
  return if path.isEmpty then none else some (.environment, path)

/-- The files that are looked for when none was named. -/
def candidates : m (List Text) := do
  let inHome := (← Host.home?).map fun home => Path.join [home, ".config", "braingoat", fileName]
  return fileName :: inHome.toList

/-- The file of the configuration; `none` for the default settings. -/
def findFile (explicit : Text) : m (Except LoadError (Option Text)) := do
  match ← named? explicit with
  | some (origin, path) =>
    return if ← Files.exists path then .ok (some path) else .error (.missing origin path)
  | none => return .ok (← (← candidates).findM? Files.exists)

/-- The values of the variables that a text refers to. -/
def lookupFor (t : Text) : m Environment.Lookup := do
  let values ← (Environment.names t).mapM fun name => return (name, ← Host.variableValue name)
  return fun name => (values.lookup name).getD []

/-- A loaded configuration. -/
structure Loaded where
  config : Config
  /-- The absolute path of its file; `none` for the default settings. -/
  path : Option Text

/-- Loads the configuration of a file. -/
def loadFile (path : Text) : m (Except LoadError Loaded) := do
  let full := Path.absolute (← Files.workingDirectory) path
  match ← Files.read path with
  | .error e => return .error (.unreadable e)
  | .ok document =>
    let document := Environment.interpolate (← lookupFor document) document
    return (ofFile (Path.directory full) document).map fun config => ⟨config, some full⟩

/-- Loads the configuration that the user names, or the first one that is found. -/
def load (explicit : Text) : m (Except LoadError Loaded) := do
  match ← findFile explicit with
  | .error e => return .error e
  | .ok none => return (validated {}).map fun config => ⟨config, none⟩
  | .ok (some path) => loadFile path

end

end Goat.Config
