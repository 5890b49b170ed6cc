import Goat.Config.Basic
import Goat.Size.Reader

/-!
# Validation

What is wrong with a configuration, and what is doubtful in it.
-/

namespace Goat.Config

/-- What is wrong with a configuration. -/
inductive Problem where
  | compress (value : Text)
  | level (value : Text)
  | lineWidth (value : Int)
  | tapeSize (value : Int)
  | endOfInput (message : Text)
  | maxSteps (value : Int)
  | debounce (value : Duration)
  | extension (value : Text)
  | driver (value : Text)
  | cacheSource
  | maxSize (error : Size.Error)
  | logLevel (value : Text)
  deriving DecidableEq, Repr

/-- The message of a number that must not be negative. -/
def negativeMessage (name : Text) (value : Int) : Text :=
  Text.join ["invalid ", name, ": ", Text.ofInt value, " (must be 0 or more)"]

/-- The message of a name that is none of a few. -/
def choiceMessage (name value choices : Text) : Text :=
  Text.join ["invalid ", name, ": ", value, " (must be ", choices, ")"]

/-- The message of a problem. -/
def Problem.message : Problem → Text
  | compress value => choiceMessage "build.compress" value "none, gzip, or zstd"
  | level value => choiceMessage "build.level" value "fastest, default, or best"
  | lineWidth value => negativeMessage "build.line_width" value
  | tapeSize value => negativeMessage "machine.tape_size" value
  | endOfInput message => Text.join ["machine.eof: ", message]
  | maxSteps value => negativeMessage "machine.max_steps" value
  | debounce value => Text.join ["invalid watch.debounce: ", value.toText]
  | extension value => Text.join ["watch.extensions: ", Text.quote value, " must start with a dot"]
  | driver value => choiceMessage "cache.driver" value "sqlite, postgres, or mysql"
  | cacheSource => "cache.dsn is required when the cache is enabled"
  | maxSize error => Text.join ["cache.max_size: ", error.message]
  | logLevel value => choiceMessage "log level" value "debug, info, warn, or error"

/-- A problem if a condition holds. -/
def problemIf (condition : Bool) (problem : Problem) : List Problem :=
  if condition then [problem] else []

/-- The name is none of the choices. -/
def isOther (value : Text) (choices : List Text) : Bool := decide (value ∉ choices)

/-- The problem of a machine with an unknown mode at the end of input. -/
def endOfInputProblems (c : Config) : List Problem :=
  match c.machineConfig with
  | .ok _ => []
  | .error message => [.endOfInput message]

/-- The problem of a size that cannot be read. -/
def maxSizeProblems (c : Config) : List Problem :=
  match Size.ofText c.cache.maxSize with
  | .ok _ => []
  | .error error => [.maxSize error]

/-- All that is wrong with a configuration. -/
def problems (c : Config) : List Problem :=
  problemIf (isOther c.build.compress ["none", "gzip", "zstd"]) (.compress c.build.compress)
    ++ problemIf (isOther c.build.level ["fastest", "default", "best"]) (.level c.build.level)
    ++ problemIf (c.build.lineWidth < 0) (.lineWidth c.build.lineWidth)
    ++ problemIf (c.machine.tapeSize < 0) (.tapeSize c.machine.tapeSize)
    ++ c.endOfInputProblems
    ++ problemIf (c.machine.maxSteps < 0) (.maxSteps c.machine.maxSteps)
    ++ problemIf (c.watch.debounce < 0) (.debounce c.watch.debounce)
    ++ (c.watch.extensions.filter fun e => !Text.startsWith e ".").map .extension
    ++ problemIf (isOther c.cache.driver ["sqlite", "postgres", "mysql"]) (.driver c.cache.driver)
    ++ problemIf (c.cache.enabled && c.cache.source.isEmpty) .cacheSource
    ++ c.maxSizeProblems
    ++ problemIf (isOther c.logging.level ["debug", "info", "warn", "error"])
      (.logLevel c.logging.level)

/-- The message of a list of problems. -/
def problemsMessage (found : List Problem) : Text :=
  Text.join ["configuration errors:\n  - ",
    Text.intercalate "\n  - " (found.map Problem.message)]

/-- The cache is kept in the memory of the process. -/
def memorySource : Text := ":memory:"

/-- What is doubtful in a configuration. -/
def warnings (c : Config) : List Text :=
  let isUnlimited := c.machine.tapeSize = 0 && c.machine.maxSteps = 0 && c.machine.timeout = 0
  let ignoresWidth := c.build.compress ≠ ("none" : Text) && 0 < c.build.lineWidth
  let ignoresSize := !c.cache.enabled && !c.cache.maxSize.isEmpty
  let isLost :=
    c.cache.driver = ("sqlite" : Text) && c.cache.source = memorySource && c.cache.enabled
  let found : List (Bool × Text) :=
    [ (isUnlimited,
        "machine: no tape size, step or time limit - a runaway program will not stop"),
      (ignoresWidth, "build: line_width is ignored for compressed output"),
      (ignoresSize, "cache: max_size is set but the cache is disabled"),
      (isLost, "cache: an in-memory sqlite cache is lost when braingoat exits") ]
  (found.filter (·.1)).map (·.2)

end Goat.Config
