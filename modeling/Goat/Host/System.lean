import Std.Time.DateTime.Timestamp
import Goat.Host.Basic
import Goat.Path
import Goat.Text.Line
import Goat.Text.Utf8
import Goat.Watch.Schedule

/-!
# The operating system as a host

Files, outputs and the clock of the machine that the program runs on.
-/

namespace Goat.Host.System

/-- The text as a string. -/
def toString (t : Text) : String := Text.toStringLossy t

/-- The bytes of a text. -/
def toBytes (t : Text) : ByteArray := ⟨t.toArray⟩

/-- The text of some bytes. -/
def ofBytes (bytes : ByteArray) : Text := bytes.data.toList

/-- Why the system failed. -/
def causeOf : IO.Error → FileError.Cause
  | .noFileOrDirectory .. => .notFound
  | .alreadyExists .. => .alreadyExists
  | .inappropriateType _ code details =>
    if code = 20 then .notDirectory
    else if code = 21 then .isDirectory
    else .other (Text.ofString details)
  | e => .other (Text.ofString e.toString)

/-- The result of an action on a file. -/
def attempt {α : Type} (operation : FileError.Operation) (path : Text) (action : IO α) :
    IO (Except FileError α) := do
  if path.isEmpty then return .error ⟨operation, path, .notFound⟩
  try return .ok (← action)
  catch e => return .error ⟨operation, path, causeOf e⟩

/-- What a path leads to. -/
def kind (path : Text) : IO (Except FileError FileKind) :=
  attempt .lookUp path do
    let found ← ((← IO.currentDir) / toString path).metadata
    return if found.type == .dir then .directory else .file found.byteSize.toNat

/-- The content of a file. -/
def read (path : Text) : IO (Except FileError Text) := do
  match ← attempt .openFile path (IO.FS.readBinFile (toString path)) with
  | .ok bytes => return .ok (ofBytes bytes)
  | .error e =>
    return .error (if e.cause = .isDirectory then { e with operation := .readFile } else e)

/-- Writes to a file that is opened in a mode. -/
def writeWith (mode : IO.FS.Mode) (path content : Text) : IO (Except FileError Unit) :=
  attempt .openFile path do
    let handle ← IO.FS.Handle.mk (toString path) mode
    handle.write (toBytes content)

/-- Makes a directory unless it exists. -/
def ensureDirectory (path : Text) : IO (Except FileError Unit) := do
  match ← kind path with
  | .ok .directory => return .ok ()
  | .ok (.file _) => return .error ⟨.makeDirectory, path, .notDirectory⟩
  | .error _ =>
    match ← attempt .makeDirectory path (IO.FS.createDir (toString path)) with
    | .ok () => return .ok ()
    | .error e =>
      match ← kind path with
      | .ok .directory => return .ok ()
      | _ => return .error e

/-- Makes directories one after the other, up to the first that cannot be made. -/
def ensureDirectories : List Text → IO (Except FileError Unit)
  | [] => return .ok ()
  | path :: rest => do
    match ← ensureDirectory path with
    | .ok () => ensureDirectories rest
    | .error e => return .error e

/-- Makes a directory and those above it, as far as they are missing. -/
def makeDirectories (path : Text) : IO (Except FileError Unit) := do
  match ← kind path with
  | .ok .directory => return .ok ()
  | .ok (.file _) => return .error ⟨.makeDirectory, path, .notDirectory⟩
  | .error _ => ensureDirectories (Path.stages path)

/-- Writes to a stream at once. -/
def writeTo (stream : IO.FS.Stream) (t : Text) : IO Unit := do
  if t.isEmpty then return
  stream.write (toBytes t)
  stream.flush

instance : Files IO where
  workingDirectory := return Text.ofString (← IO.currentDir).toString
  kind := kind
  read := read
  write := writeWith .write
  append := writeWith .append
  makeDirectories := makeDirectories

instance : Console IO where
  print t := do writeTo (← IO.getStdout) t
  printError t := do writeTo (← IO.getStderr) t

/-- The value of a variable of the environment. -/
def variableValue (name : Text) : IO Text := do
  return ((← IO.getEnv (toString name)).map Text.ofString).getD []

/-- The current time. -/
def now : IO Instant := do
  return (← Std.Time.Timestamp.now).toNanosecondsSinceUnixEpoch.val

/-- A duration to the nearest microsecond. -/
def roundToMicroseconds (d : Duration) : Duration := (d + 500) / 1000 * 1000

/-- Computes a value, and tells how long that took. -/
def timed {α : Type} (f : Unit → α) : IO (α × Text) := do
  let start ← IO.monoNanosNow
  let value ← IO.lazyPure f
  let elapsed : Duration := (← IO.monoNanosNow) - start
  return (value, (roundToMicroseconds elapsed).toText)

/-- The next byte of the standard input. -/
def readByte? : IO (Option UInt8) := do
  return (← (← IO.getStdin).read 1).data[0]?

/-- A run in progress. -/
structure Run where
  code : Machine.Code
  /-- The program reads the standard input once its own input is used up. -/
  readsStandardInput : Bool
  /-- The time at which the run is interrupted. -/
  deadline : Option Nat

/-- The size from which on output is written before the run ends. -/
def outputCapacity : Nat := 4096

/-- Writes the output so far. -/
def flushOutput (m : Machine) : IO Machine := do
  writeTo (← IO.getStdout) m.output.toList
  return { m with output := #[] }

/-- Gets the machine ready for its next instruction: before it reads, its output is
    written and its input is fetched. -/
def prepare (r : Run) (pc : Nat) (m : Machine) : IO Machine := do
  match r.code.instructions[pc]? with
  | some .read =>
    let m ← flushOutput m
    if r.readsStandardInput && m.input.isEmpty then return { m with input := (← readByte?).toList }
    return m
  | _ => if outputCapacity ≤ m.output.size then flushOutput m else return m

/-- The interruption that the next instruction may notice. -/
def pending? (r : Run) (m : Machine) : IO (Option Machine.Interruption) := do
  match r.deadline with
  | none => return none
  | some deadline =>
    if (m.steps + 1) % Machine.pollInterval = 0 && deadline ≤ (← IO.monoNanosNow) then
      return some .deadlineExceeded
    return none

/-- Executes instructions one by one. -/
partial def runFrom (r : Run) (pc : Nat) (m : Machine) : IO (Except Machine.Fault Unit) := do
  let m ← prepare r pc m
  match Machine.runFrom r.code (← pending? r m) 1 pc m with
  | (.outOfFuel next, m) => runFrom r next m
  | (.finished, m) =>
    let _ ← flushOutput m
    return .ok ()
  | (.failed fault, m) =>
    let _ ← flushOutput m
    return .error fault

/-- Executes a program on a new machine. -/
def execute (config : Machine.Config) (code : Machine.Code) (input : Option Text)
    (timeout : Duration) : IO (Except Machine.Fault Unit) := do
  let deadline ←
    if 0 < timeout then pure (some ((← IO.monoNanosNow) + timeout.toNat)) else pure none
  let r : Run := { code, readsStandardInput := input.isNone, deadline }
  runFrom r 0 (Machine.start config (input.getD []))

/-- The next line of the standard input, after `before`. -/
partial def readLine? (before : Text) : IO (Option Text) := do
  match ← readByte? with
  | none => return if before.isEmpty then none else some before.reverse
  | some 0x0a => return some (Text.dropReturn before.reverse)
  | some b => readLine? (b :: before)

/-- Takes the lines that the user enters. Prompts are shown at a terminal. -/
partial def foldLines {σ : Type} (prompt : σ → Text) (state : σ)
    (step : σ → Text → IO (ForInStep σ)) : IO σ := do
  if ← (← IO.getStdin).isTty then writeTo (← IO.getStdout) (prompt state)
  match ← readLine? [] with
  | none => return state
  | some line =>
    match ← step state line with
    | .done state => return state
    | .yield state => foldLines prompt state step

/-- What tells that a file has changed. -/
abbrev Stamp := Int × UInt32 × UInt64

/-- A file of a directory with its stamp, unless it is gone by now. -/
def stamped? (directory : Text) (entry : IO.FS.DirEntry) : IO (Option (Text × Stamp)) := do
  let path := Path.join [directory, Text.ofString entry.fileName]
  try
    let found ← entry.path.metadata
    return some (path, found.modified.sec, found.modified.nsec, found.byteSize)
  catch _ => return none

/-- The files in a directory with their stamps. -/
def snapshot (directory : Text) : IO (List (Text × Stamp)) := do
  try
    let entries ← ((← IO.currentDir) / toString directory).readDir
    entries.toList.filterMapM (stamped? directory)
  catch _ => return []

/-- The files of all watched directories. -/
def snapshotAll (request : Watch.Request) : IO (List (Text × Stamp)) :=
  return (← request.directories.eraseDups.mapM snapshot).flatten

/-- The files that are new or have another stamp. -/
def changedFiles (before after : List (Text × Stamp)) : List Text :=
  (after.filter fun file => before.lookup file.1 != some file.2).map Prod.fst

/-- The time between two looks at the watched files, in milliseconds. -/
def pollMilliseconds : UInt32 := 20

/-- Watches files until the program is ended. -/
partial def watchFrom {σ : Type} (request : Watch.Request) (step : σ → Text → IO σ)
    (before : List (Text × Stamp)) (schedule : Watch.Schedule) (state : σ) : IO σ := do
  IO.sleep pollMilliseconds
  let after ← snapshotAll request
  let clock ← now
  let changed := (changedFiles before after).filter request.isWatched
  let noted := changed.foldl (fun s path => s.note path (clock + request.debounce)) schedule
  let (paths, schedule) := (noted.advance clock).receiveAll
  watchFrom request step after schedule (← paths.foldlM step state)

instance : Host IO where
  variableValue := variableValue
  home? := return (← IO.getEnv "HOME").filter (!·.isEmpty) |>.map Text.ofString
  now := now
  timed := timed
  isCancelled := return false
  execute := execute
  foldLines := foldLines
  foldChanges request init step := do
    watchFrom request step (← snapshotAll request) {} init

end Goat.Host.System
