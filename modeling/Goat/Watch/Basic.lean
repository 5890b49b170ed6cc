import Goat.Host.Basic
import Goat.Path
import Goat.Text.Lower

/-!
# Watching files

A watcher looks after some files, or all files of some directories, and hands those
with certain extensions to a handler when they change.
-/

namespace Goat.Watch

/-- What is watched. -/
structure Watcher where
  workingDirectory : Text
  /-- Only files with these extensions are of interest. -/
  extensions : List Text
  /-- The directories in which changes are seen. -/
  directories : List Text := []
  /-- The files of interest; if there are none, all files are. -/
  targets : List Text := []
  deriving DecidableEq, Repr

/-- The extensions that are watched if none are given. -/
def defaultExtensions : List Text := [".goat"]

/-- The quiet time before a file is handled if none is given: a tenth of a second. -/
def defaultDebounce : Duration := 100000000

/-- A quiet time that is given as a setting. -/
def debounceOf (setting : Duration) : Duration := if setting ≤ 0 then defaultDebounce else setting

/-- A line that tells what the watcher does. -/
def infoLine (t : Text) : Text := Text.join ["[WATCH] ", t]

/-- A line that tells what went wrong. -/
def errorLine (t : Text) : Text := Text.join ["[WATCH ERROR] ", t]

namespace Watcher

/-- A watcher of nothing. -/
def new (workingDirectory : Text) (extensions : List Text) : Watcher :=
  { workingDirectory
    extensions := if extensions.isEmpty then defaultExtensions else extensions }

/-- Adds a directory, or a file and its directory: an editor may replace a file when
    it saves it. -/
def add (w : Watcher) (path : Text) : FileKind → Watcher
  | .directory => { w with directories := w.directories ++ [path] }
  | .file _ =>
    { w with
      directories := w.directories ++ [Path.directory path]
      targets := w.targets ++ [path] }

/-- A change of the file is of interest. -/
def isWatched (w : Watcher) (path : Text) : Bool :=
  let path := Path.absolute w.workingDirectory path
  let extension := Text.lower (Path.extension path)
  (w.targets.isEmpty || decide (path ∈ w.targets))
    && w.extensions.any fun e => Text.lower e == extension

/-- The changes to be reported. -/
def request (w : Watcher) (debounce : Duration) : Request :=
  { directories := w.directories, debounce := debounceOf debounce, isWatched := w.isWatched }

section

variable {m : Type → Type} [Monad m] [Files m] [Console m]

/-- Adds a path and says so. -/
def addPath (w : Watcher) (path : Text) : m (Except FileError Watcher) := do
  let full := Path.absolute w.workingDirectory path
  match ← Files.kind full with
  | .error e => return .error e
  | .ok kind =>
    Console.printLine (infoLine (Text.join ["watching ", path]))
    return .ok (w.add full kind)

/-- Adds paths, up to the first that is missing. -/
def addPaths (w : Watcher) : List Text → m (Except FileError Watcher)
  | [] => return .ok w
  | path :: rest => do
    match ← w.addPath path with
    | .error e => return .error e
    | .ok w => w.addPaths rest

/-- Starts to watch some files and directories. -/
def start (paths extensions : List Text) : m (Except FileError Watcher) := do
  (new (← Files.workingDirectory) extensions).addPaths paths

end

end Watcher

/-- Handles a change of a file that still exists. An error of the handler is
    reported. -/
def handleChange {m : Type → Type} [Monad m] [Files m] [Console m]
    (onChange : Option (Text → m (Except Text Unit))) (path : Text) : m Unit := do
  if ← Files.exists path then
    Console.printLine (infoLine (Text.join ["changed: ", path]))
    match onChange with
    | none => return
    | some handle =>
      match ← handle path with
      | .ok () => return
      | .error message => Console.printErrorLine (errorLine message)

end Goat.Watch
