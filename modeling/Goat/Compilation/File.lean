import Goat.Compilation.Basic
import Goat.Host.Files

/-!
# Compiling files
-/

namespace Goat

/-- Why a file was not compiled. -/
inductive FileFailure where
  | unreadable (path : Text) (cause : FileError)
  | rejected (failure : Failure) (source : Text)

/-- What the user reads when a file was not compiled. -/
def FileFailure.message : FileFailure → Text
  | unreadable path cause => Text.join ["reading ", path, ": ", cause.message]
  | rejected failure source => failure.renderSource source

/-- Compiles a file. Failures call it by `name`, or by its path if that is empty. -/
def compileFile {m : Type → Type} [Monad m] [Files m] (path name : Text) :
    m (Except FileFailure Compilation) := do
  match ← Files.read path with
  | .error e => return .error (.unreadable path e)
  | .ok source =>
    let name := if name.isEmpty then path else name
    return (compile source).mapError fun f => .rejected (f.inFileIfNamed name) source

end Goat
