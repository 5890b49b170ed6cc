import Goat.Host.Files
import Goat.Path

/-!
# Trees of files

Files and directories in memory, by the parts of their absolute paths.
-/

namespace Goat.Workspace

/-- What stands at a place of a tree. -/
inductive Entry where
  | file (content : Text)
  | directory
  deriving DecidableEq, Repr

/-- What an entry is. -/
def Entry.kind : Entry → FileKind
  | file content => .file content.length
  | directory => .directory

/-- A place in a tree: the parts of an absolute path. -/
abbrev Place := List Text

/-- The absolute path of a place. -/
def Place.toPath (place : Place) : Text := Path.slash :: Text.intercalate [Path.slash] place

/-- Files and directories by their places. The root needs no entry. -/
structure Tree where
  entries : List (Place × Entry) := []
  deriving DecidableEq, Repr

namespace Tree

open FileError (Cause)

/-- What stands at a place. -/
def find? (tree : Tree) (place : Place) : Option Entry :=
  if place.isEmpty then some .directory else tree.entries.lookup place

/-- Puts an entry at a place, instead of what stood there. -/
def set (tree : Tree) (place : Place) (entry : Entry) : Tree :=
  if (tree.find? place).isSome then
    ⟨tree.entries.map fun old => if old.1 = place then (place, entry) else old⟩
  else ⟨tree.entries ++ [(place, entry)]⟩

/-- The place one part further. -/
def follow (place : Place) (part : Text) : Place :=
  if part.isEmpty || part = Path.here then place
  else if part = Path.up then place.dropLast
  else place ++ [part]

/-- The place that some parts lead to. Every part but the last must lead to a
    directory. -/
def walk (tree : Tree) (place : Place) : List Text → Except Cause Place
  | [] => .ok place
  | part :: rest =>
    match tree.find? place with
    | none => .error .notFound
    | some (.file _) => .error .notDirectory
    | some .directory => tree.walk (follow place part) rest

/-- The place that a path leads to from a directory. -/
def locate (tree : Tree) (directory : Place) (path : Text) : Except Cause Place :=
  if path.isEmpty then .error .notFound
  else tree.walk (if Path.isAbsolute path then [] else directory) (Path.parts path)

/-- What a path leads to. -/
def entry (tree : Tree) (directory : Place) (path : Text) : Except Cause Entry := do
  match tree.find? (← tree.locate directory path) with
  | none => .error .notFound
  | some entry => .ok entry

/-- Changes the content of a file, which is created empty if it is missing. -/
def modifyFile (tree : Tree) (directory : Place) (path : Text) (change : Text → Text) :
    Except Cause Tree := do
  if path.getLast? = some Path.slash then .error .isDirectory
  let place ← tree.locate directory path
  match tree.find? place with
  | some .directory => .error .isDirectory
  | some (.file content) => .ok (tree.set place (.file (change content)))
  | none => .ok (tree.set place (.file (change [])))

/-- Makes one directory. -/
def makeDirectory (tree : Tree) (directory : Place) (path : Text) : Except Cause Tree := do
  let place ← tree.locate directory (Path.withoutTrailingSlashes path)
  match tree.find? place with
  | some _ => .error .alreadyExists
  | none => .ok (tree.set place .directory)

/-- Makes the directory of a path if it is missing and the one above it exists. -/
def ensureDirectory (tree : Tree) (directory : Place) (path : Text) : Except FileError Tree :=
  match tree.entry directory path with
  | .ok .directory => .ok tree
  | .ok (.file _) => .error ⟨.makeDirectory, path, .notDirectory⟩
  | .error _ => (tree.makeDirectory directory path).mapError fun cause =>
    ⟨.makeDirectory, path, cause⟩

/-- Makes the directory of a path and those above it, as far as they are missing. The
    whole path is looked at first. -/
def makeDirectories (tree : Tree) (directory : Place) (path : Text) : Except FileError Tree :=
  match tree.entry directory path with
  | .ok .directory => .ok tree
  | .ok (.file _) => .error ⟨.makeDirectory, path, .notDirectory⟩
  | .error _ =>
    (Path.stages path).foldlM (fun tree stage => tree.ensureDirectory directory stage) tree

end Tree

end Goat.Workspace
