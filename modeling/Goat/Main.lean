import Goat.Cli.Basic
import Goat.Host.System

/-!
# The program
-/

open Goat

/-- Carries out the command line, and says why if it fails. -/
def main (args : List String) : IO UInt32 := do
  match ← Cli.commandLine (m := IO) (args.map Text.ofString) with
  | .ok () => return 0
  | .error stop =>
    match stop with
    | .status _ | .crash => pure ()
    | .error e => Console.printErrorLine (Text.join ["error: ", e.message])
    return stop.code.toUInt32
