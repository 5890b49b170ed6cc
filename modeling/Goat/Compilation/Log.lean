import Goat.Text.Basic

/-!
# Logs

A log takes pieces of lines and whole lines, and may put labels in front of every
line. It collects its lines, writes a stream, or drops everything.
-/

namespace Goat.Log

/-- A value in a log. -/
inductive Value where
  | text (t : Text)
  | int (n : Int)
  | bool (b : Bool)
  | null
  deriving DecidableEq, Repr

/-- A value as logs show it. -/
def Value.show : Value → Text
  | .text t => t
  | .int n => Text.ofInt n
  | .bool b => Text.ofBool b
  | .null => "<nil>"

/-- Values separated by blanks. -/
def showAll (values : List Value) : Text := Text.intercalate " " (values.map Value.show)

/-- An entry continues the current line, or continues and ends it. -/
structure Entry where
  values : List Value
  endsLine : Bool
  deriving DecidableEq, Repr

/-- A label in front of every line; `midway` while a line is unfinished. -/
structure Label where
  text : Text
  midway : Bool := false
  deriving DecidableEq, Repr

/-- Passes an entry through a label, which stands once in front of each line. -/
def Label.pass (l : Label) (entry : Entry) : Label × Entry :=
  let labelled := if l.midway then entry else { entry with values := .text l.text :: entry.values }
  ({ l with midway := !entry.endsLine }, labelled)

/-- Where entries end up. -/
inductive Sink where
  /-- Keeps finished lines and the unfinished one. -/
  | buffer (lines : List Text) (unfinished : Text)
  /-- Keeps all that was written. -/
  | stream (written : Text)
  /-- Drops everything. -/
  | null
  deriving DecidableEq, Repr

namespace Sink

/-- Takes an entry. -/
def write (entry : Entry) : Sink → Sink
  | buffer lines unfinished =>
    let line := unfinished ++ showAll entry.values
    if entry.endsLine then buffer (lines ++ [line]) [] else buffer lines line
  | stream written =>
    let text := written ++ showAll entry.values
    stream (if entry.endsLine then text ++ Text.newline else text)
  | null => null

/-- Everything taken, as one text. -/
def text : Sink → Text
  | buffer lines unfinished => Text.join (lines.map fun line => line ++ Text.newline) ++ unfinished
  | stream written => written
  | null => []

/-- The finished lines of a buffer. -/
def lines : Sink → List Text
  | buffer lines _ => lines
  | _ => []

/-- Empties a buffer. -/
def reset : Sink → Sink
  | buffer _ _ => buffer [] []
  | other => other

end Sink

/-- Passes an entry through labels, the outermost first. -/
def passAll : List Label → Entry → List Label × Entry
  | [], entry => ([], entry)
  | l :: rest, entry =>
    let (l, entry) := l.pass entry
    let (rest, entry) := passAll rest entry
    (l :: rest, entry)

end Log

/-- A sink behind labels, the outermost first. -/
structure Log where
  labels : List Log.Label
  sink : Log.Sink
  deriving DecidableEq, Repr

namespace Log

/-- A log with labels, each put around the ones before it. -/
def new (sink : Sink) (labels : List Text) : Log :=
  ⟨labels.reverse.map fun text => { text }, sink⟩

/-- Takes an entry. -/
def write (log : Log) (entry : Entry) : Log :=
  let (labels, entry) := passAll log.labels entry
  ⟨labels, log.sink.write entry⟩

/-- A line that stands behind a label. -/
def labelled (label line : Text) : Text := Text.join [label, " ", line]

end Log

end Goat
