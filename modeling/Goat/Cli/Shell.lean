import Goat.Cli.App
import Goat.Repl.Basic

/-!
# The shell command

The command that starts an interactive session.
-/

namespace Goat.Cli

/-- The name of the file that keeps the history. -/
def historyName : Text := ".braingoat_history"

/-- The directory of the history of a user without a home. -/
def historyFallback : Text := "/tmp"

section

variable {m : Type → Type} [Monad m] [Host m]

/-- The history of earlier sessions; a file that cannot be read has none. -/
def readHistory (path : Text) : Command m History := do
  match ← Files.read path with
  | .ok content => return .ofText content
  | .error _ => return {}

/-- Takes a line and writes what the shell answers. -/
def enterLine (r : Repl) (line : Text) : m (ForInStep Repl) := do
  let (written, r) := r.step Machine.ampleFuel line
  Console.print written
  return if r.isDone then .done r else .yield r

/-- Takes lines until the user leaves. -/
def converse (r : Repl) : m Repl := do
  if ← Host.isCancelled then return r
  let r ← Host.foldLines Repl.prompt r enterLine
  if !r.isDone then Console.print Repl.goodbye
  return r

/-- Starts an interactive session. -/
def shell : Command m Unit := do
  let machine ← orFail .machineSetting (← get).config.machineConfig
  let home := (← Host.home? (m := m)).getD historyFallback
  let path := Path.join [home, historyName]
  let history ← readHistory path
  Console.print (Repl.banner version)
  let r ← converse (m := m) { session := { config := machine }, history }
  let _ ← Files.write path r.history.toText

end

end Goat.Cli
