import Goat.Text.Blank

/-!
# Word wrapping

Words are set into lines one after the other: a word goes on the line being set
if the line stays within the width, and starts a new line if not. A word that is
too long for any line has a line of its own.
-/

namespace Goat.Text

/-- Sets words into lines. `line` is the line being set, with its indent. -/
def wrapFrom (indent : Text) (width : Int) (line : Text) : List Text → List Text
  | [] => if indent.length < line.length then [line] else []
  | word :: rest =>
    if indent.length < line.length then
      if width < line.length + 1 + word.length then
        line :: wrapFrom indent width (indent ++ word) rest
      else wrapFrom indent width (line ++ [0x20] ++ word) rest
    else wrapFrom indent width (line ++ word) rest

/-- The lines of a text whose words are set within `width` bytes, each after `indent`. -/
def wrap (indent : Text) (width : Int) (t : Text) : List Text :=
  wrapFrom indent width indent (words t)

/-- Every line followed by a line break. -/
def ofLines (lines : List Text) : Text := lines.flatMap (· ++ newline)

end Goat.Text
