import Goat.Calendar
import Goat.Host.Console
import Goat.Host.Files
import Goat.Machine.Basic

/-!
# Hosts

A host is what a command line program runs on: files, outputs, the environment, a
clock, the lines that a user enters, and the changes that others make to files.
Commands are written for any host.
-/

namespace Goat

/-- The directories whose files are watched, and for how long a file must not change
    before it is handled. -/
structure Watch.Request where
  directories : List Text
  debounce : Duration
  /-- The file is of interest. -/
  isWatched : Text → Bool

/-- What a command line program runs on. -/
class Host (m : Type → Type) extends Files m, Console m where
  /-- The value of a variable of the environment; an unset variable is empty. -/
  variableValue : Text → m Text
  /-- The directory of the user. -/
  home? : m (Option Text)
  /-- The current time. -/
  now : m Instant
  /-- Computes a value, and tells how long that took. -/
  timed : {α : Type} → (Unit → α) → m (α × Text)
  /-- The program was asked to stop. -/
  isCancelled : m Bool
  /-- Executes a program on a new machine. It reads the given input, or else the
      standard input, and writes to the standard output. A timeout above zero
      interrupts it. -/
  execute : Machine.Config → Machine.Code → (input : Option Text) → (timeout : Duration) →
    m (Except Machine.Fault Unit)
  /-- Takes the lines that the user enters, after a prompt each, up to the end of the
      input or until a step says that it is done. -/
  foldLines : {σ : Type} → (prompt : σ → Text) → σ → (σ → Text → m (ForInStep σ)) → m σ
  /-- Takes the watched files that change, once they are settled, until the program is
      asked to stop. -/
  foldChanges : {σ : Type} → Watch.Request → σ → (σ → Text → m σ) → m σ

end Goat
