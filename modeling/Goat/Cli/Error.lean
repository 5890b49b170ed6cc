import Goat.Cache.Age
import Goat.Cache.Basic
import Goat.Cache.Driver
import Goat.Cli.Flag
import Goat.Config.Load
import Goat.Container.Basic
import Goat.Help.Topic

/-!
# Errors of commands
-/

namespace Goat.Cli

/-- Why a cache cannot be opened. -/
inductive OpenError where
  | unknownDriver (name : Text)
  | directory (cause : FileError)
  /-- The database of the driver cannot be reached. -/
  | unreachable (cause : Text)
  deriving DecidableEq, Repr

/-- The message of an error. -/
def OpenError.message : OpenError → Text
  | unknownDriver name => Cache.Driver.unknownMessage name
  | directory cause => Text.join ["creating cache directory: ", cause.message]
  | unreachable cause => Text.join ["connecting to cache database: ", cause]

/-- Why a command failed. -/
inductive Error where
  | unknownCommand (name : Text)
  | flag (cause : Flag.Error)
  | config (cause : Config.LoadError)
  | logFile (cause : FileError)
  | notOneFile (command : Text)
  | nothingToWatch
  | format (request : Text)
  /-- The machine has a setting that does not exist. -/
  | machineSetting (message : Text)
  | file (cause : FileError)
  | outputDirectory (directory : Text) (cause : FileError)
  | programFile (path : Text) (cause : FileError)
  | container (path : Text) (cause : Container.Error)
  | load (cause : Machine.LoadError)
  | fault (cause : Machine.Fault)
  | topic (cause : Help.Topic.Missing)
  | cacheOpen (cause : OpenError)
  | cache (cause : Cache.Error)
  | noCacheCommand
  | unknownCacheCommand (name : Text)
  | age (cause : Cache.AgeError)
  | size (cause : Size.Error)

/-- The message of an error. -/
def Error.message : Error → Text
  | unknownCommand name =>
    Text.join ["unknown command ", Text.quote name, " (run braingoat --help)"]
  | flag cause => cause.message
  | config cause => Text.join ["loading config: ", cause.message]
  | logFile cause => Text.join ["opening log file: ", cause.message]
  | notOneFile command => Text.join [command, " expects exactly one file"]
  | nothingToWatch => "watch expects a file or directory"
  | format request => Container.Format.unknownRequestMessage request
  | machineSetting message => message
  | file cause => cause.message
  | outputDirectory directory cause => Text.join ["creating ", directory, ": ", cause.message]
  | programFile path cause => Text.join ["reading ", path, ": ", cause.message]
  | container path cause => Text.join ["reading ", path, ": ", cause.message]
  | load cause => cause.message
  | fault cause => Text.join ["runtime: ", cause.message]
  | topic cause => cause.message
  | cacheOpen cause => cause.message
  | cache cause => cause.message
  | noCacheCommand => "cache expects list, prune or clear"
  | unknownCacheCommand name =>
    Text.join ["unknown cache command ", Text.quote name, " (use list, prune or clear)"]
  | age cause => cause.message
  | size cause => cause.message

/-- How a command ends that does not succeed. -/
inductive Stop where
  /-- With a status, after everything was said. -/
  | status (code : Nat)
  | error (cause : Error)
  /-- On the spot. -/
  | crash

/-- The status of a program that ends so. -/
def Stop.code : Stop → Nat
  | status code => code
  | error _ => 1
  | crash => 2

end Goat.Cli
