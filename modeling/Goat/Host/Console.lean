import Goat.Text.Basic

/-!
# Consoles

Where a program writes its results and its messages.
-/

namespace Goat

/-- The two outputs of a program. -/
class Console (m : Type → Type) where
  /-- Writes to the standard output. -/
  print : Text → m Unit
  /-- Writes to the standard error output. -/
  printError : Text → m Unit

instance {m n : Type → Type} [MonadLift m n] [Console m] : Console n where
  print t := liftM (Console.print t : m Unit)
  printError t := liftM (Console.printError t : m Unit)

namespace Console

variable {m : Type → Type} [Console m]

/-- Writes a line to the standard output. -/
def printLine (t : Text) : m Unit := print (t ++ Text.newline)

/-- Writes a line to the standard error output. -/
def printErrorLine (t : Text) : m Unit := printError (t ++ Text.newline)

end Console

end Goat
