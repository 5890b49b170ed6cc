import Goat.Text.Basic

/-!
# Paths of files

Paths are texts whose parts are divided by slashes. A path that starts with a slash
is absolute.
-/

namespace Goat.Path

/-- What divides the parts of a path. -/
def slash : UInt8 := 0x2f

/-- The part of the path after its last slash. -/
def base (path : Text) : Text := (path.reverse.takeWhile (· ≠ slash)).reverse

/-- The extension of a path: from the last dot of its last part on. -/
def extension (path : Text) : Text :=
  let name := (base path).reverse
  let tail := name.takeWhile (· ≠ 0x2e)
  if tail.length < name.length then 0x2e :: tail.reverse else []

/-- The path without its extension. -/
def withoutExtension (path : Text) : Text := path.take (path.length - (extension path).length)

/-- The path starts at the root. -/
def isAbsolute (path : Text) : Bool := path.head? == some slash

/-- The parts of a path between its slashes. -/
def parts (path : Text) : List Text := Text.splitOn slash path

/-- The part that stands for the directory it is in. -/
def here : Text := "."

/-- The part that leads one directory up. -/
def up : Text := ".."

/-- Follows a part from the parts before it, the last one first. Nothing is above the
    root. -/
def follow (isRooted : Bool) (before : List Text) (part : Text) : List Text :=
  if part.isEmpty || part = here then before
  else if part = up then
    match before with
    | [] => if isRooted then [] else [up]
    | last :: rest => if last = up then up :: before else rest
  else part :: before

/-- The shortest path that leads to the same place. -/
def clean (path : Text) : Text :=
  let isRooted := isAbsolute path
  let kept := ((parts path).foldl (follow isRooted) []).reverse
  let joined := Text.intercalate [slash] kept
  if isRooted then slash :: joined else if kept.isEmpty then here else joined

/-- The path that follows some paths one after the other, without detours. Empty paths
    in front are left out. -/
def join (paths : List Text) : Text :=
  match paths.dropWhile List.isEmpty with
  | [] => []
  | paths => clean (Text.intercalate [slash] paths)

/-- The directory of a path. -/
def directory (path : Text) : Text := clean (path.take (path.length - (base path).length))

/-- The path from the root, for a path that starts in a working directory. -/
def absolute (workingDirectory path : Text) : Text :=
  if isAbsolute path then clean path else join [workingDirectory, path]

/-- The paths that lead to a path, the shortest first: one for each part, with the
    slashes after it, and the path itself. -/
def stages : Text → List Text
  | [] => []
  | [b] => [[b]]
  | b :: c :: rest =>
    let longer := (stages (c :: rest)).map (b :: ·)
    if b = slash && c ≠ slash then [b] :: longer else longer

/-- The path without the slashes at its end. -/
def withoutTrailingSlashes (path : Text) : Text :=
  (path.reverse.dropWhile (· == slash)).reverse

end Goat.Path
