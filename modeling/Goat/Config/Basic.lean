import Goat.Config.Scalar
import Goat.Machine.Basic

/-!
# Configuration

The settings of the command line, by section.
-/

namespace Goat

namespace Config

/-- How compiled programs are written. -/
structure Build where
  /-- The file to write; empty for one named after the source. -/
  output : Text := []
  compress : Text := "none"
  level : Text := "default"
  /-- The number of instructions in a line; zero for a single line. -/
  lineWidth : Int := 80
  /-- Print figures after a build. -/
  stats : Bool := false
  deriving DecidableEq, Repr

/-- The limits of running programs. -/
structure Machine where
  /-- The number of cells; zero for no limit. -/
  tapeSize : Int := 30000
  endOfInput : Text := "zero"
  /-- The number of instructions; zero for no limit. -/
  maxSteps : Int := 0
  /-- The time a run may take; zero for no limit. -/
  timeout : Duration := 0
  deriving DecidableEq, Repr

/-- How files are watched. -/
structure Watch where
  /-- The quiet time before a file is compiled again. -/
  debounce : Duration := 200000000
  extensions : List Text := [".goat"]
  /-- Run a program after every build. -/
  run : Bool := false
  deriving DecidableEq, Repr

/-- Where compiled programs are kept. -/
structure Cache where
  enabled : Bool := false
  driver : Text := "sqlite"
  /-- Where the driver finds its data. -/
  source : Text := ".braingoat/cache.db"
  /-- The size beyond which old entries are removed; empty for no limit. -/
  maxSize : Text := []
  deriving DecidableEq, Repr

/-- What is logged, and where. -/
structure Logging where
  level : Text := "info"
  output : Text := "stderr"
  locale : Text := "en"
  quiet : Bool := false
  deriving DecidableEq, Repr

end Config

/-- The settings of the command line. -/
structure Config where
  /-- The directory of the file they were read from. -/
  baseDir : Text := []
  build : Config.Build := {}
  machine : Config.Machine := {}
  watch : Config.Watch := {}
  cache : Config.Cache := {}
  logging : Config.Logging := {}
  deriving DecidableEq, Repr

namespace Config

/-- A machine with these limits. The error is the name of an unknown mode. -/
def Machine.toConfig (tapeSize maxSteps : Int) (endOfInput : Text) :
    Except Text Goat.Machine.Config :=
  match Goat.Machine.EndOfInput.ofName? endOfInput with
  | none => .error (Goat.Machine.EndOfInput.unknownMessage endOfInput)
  | some mode =>
    .ok ⟨Goat.Machine.limitOfInt tapeSize, mode, Goat.Machine.limitOfInt maxSteps⟩

/-- The machine that the settings ask for. -/
def machineConfig (c : Config) : Except Text Goat.Machine.Config :=
  Machine.toConfig c.machine.tapeSize c.machine.maxSteps c.machine.endOfInput

/-- The work of the compiler is logged. -/
def isDebug (c : Config) : Bool := c.logging.level == ("debug" : Text)

end Config

end Goat
