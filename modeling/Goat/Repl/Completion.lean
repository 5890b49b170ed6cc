import Goat.Repl.Directive

/-!
# Completion

The last word of a line is completed to the names of data types, builtins and
directives that start with it.
-/

namespace Goat.Completion

/-- The words that can be completed. -/
def vocabulary : List Text := DataType.names ++ Builtin.names ++ Directive.names

/-- The line with its last word completed, in every way there is. A line that ends
    with a blank or a tab has no word to complete. -/
def completions (line : Text) : List Text :=
  if Text.isBlank line || Text.endsWith line " " || Text.endsWith line "\t" then []
  else
    let last := (Text.words line).getLastD []
    let front := line.take (line.length - last.length)
    (vocabulary.filter fun word => Text.startsWith word last).map (front ++ ·)

end Goat.Completion
