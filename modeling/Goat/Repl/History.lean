import Goat.Text.Line
import Goat.Text.Utf8
import Goat.Text.Wrap

/-!
# History

The entries of earlier sessions and of this one. It is kept in a file with a line
for every line of an entry.
-/

namespace Goat

/-- Entries, oldest first. -/
structure History where
  entries : List Text := []
  deriving DecidableEq, Repr

namespace History

/-- The number of entries that are kept. -/
def capacity : Nat := 1000

/-- The latest entries, as many as are kept. -/
def latest (entries : List Text) : List Text := entries.drop (entries.length - capacity)

/-- The history of a file. Reading ends at a line that is too long or no valid text. -/
def ofText (t : Text) : History :=
  ⟨latest (((Text.streamLines t).takeWhile fun line => line.isWhole && Text.isValid line.text).map
    Text.Line.text)⟩

/-- Adds an entry, unless it repeats the one before. -/
def add (h : History) (entry : Text) : History :=
  if h.entries.getLast? = some entry then h else ⟨latest (h.entries ++ [entry])⟩

/-- The history as it stands in a file. -/
def toText (h : History) : Text := Text.ofLines h.entries

end History

end Goat
