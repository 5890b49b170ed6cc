import Goat.Text.Basic

/-!
# Files

What can be done with the files of a host, and how it can fail.
-/

namespace Goat

/-- What was tried with a file. -/
inductive FileError.Operation where
  | openFile
  | readFile
  | writeFile
  | lookUp
  | makeDirectory
  deriving DecidableEq, Repr

/-- Why it failed. -/
inductive FileError.Cause where
  | notFound
  | notDirectory
  | isDirectory
  | alreadyExists
  /-- A cause with a description of its own. -/
  | other (description : Text)
  deriving DecidableEq, Repr

/-- A file could not be used. -/
structure FileError where
  operation : FileError.Operation
  path : Text
  cause : FileError.Cause
  deriving DecidableEq, Repr

namespace FileError

/-- The name of an operation. -/
def Operation.name : Operation → Text
  | openFile => "open"
  | readFile => "read"
  | writeFile => "write"
  | lookUp => "stat"
  | makeDirectory => "mkdir"

/-- The description of a cause. -/
def Cause.description : Cause → Text
  | notFound => "no such file or directory"
  | notDirectory => "not a directory"
  | isDirectory => "is a directory"
  | alreadyExists => "file exists"
  | other description => description

/-- The message of an error. -/
def message (e : FileError) : Text :=
  Text.join [e.operation.name, " ", e.path, ": ", e.cause.description]

end FileError

/-- What a path leads to. -/
inductive FileKind where
  | file (size : Nat)
  | directory
  deriving DecidableEq, Repr

/-- The files of a host. -/
class Files (m : Type → Type) where
  /-- The absolute path at which relative paths start. -/
  workingDirectory : m Text
  /-- What a path leads to. -/
  kind : Text → m (Except FileError FileKind)
  /-- The content of a file. -/
  read : Text → m (Except FileError Text)
  /-- Replaces the content of a file, which is created if it is missing. -/
  write : Text → Text → m (Except FileError Unit)
  /-- Adds to the end of a file, which is created if it is missing. -/
  append : Text → Text → m (Except FileError Unit)
  /-- Makes a directory and those above it, as far as they are missing. -/
  makeDirectories : Text → m (Except FileError Unit)

instance {m n : Type → Type} [MonadLift m n] [Files m] : Files n where
  workingDirectory := liftM (Files.workingDirectory : m Text)
  kind path := liftM (Files.kind path : m _)
  read path := liftM (Files.read path : m _)
  write path content := liftM (Files.write path content : m _)
  append path content := liftM (Files.append path content : m _)
  makeDirectories path := liftM (Files.makeDirectories path : m _)

/-- The path leads to something. -/
def Files.exists {m : Type → Type} [Monad m] [Files m] (path : Text) : m Bool := do
  return (← Files.kind path).isOk

end Goat
