import Goat.Help.Format
import Goat.Repl.Session
import Goat.Text.Quoted

/-!
# Directives

Lines that start with a colon are no part of the program but directives to the
shell: they show something about the session or change it.
-/

namespace Goat

/-- What a directive asks for. -/
inductive Directive where
  | help
  | showVariables
  | code
  | source
  | statistics
  | input (text : Text)
  | describe (topic : Text)
  | reset
  | unknown (line : Text)
  deriving DecidableEq, Repr

namespace Directive

/-- The directive of a line: a name, and after a blank its argument. -/
def ofLine (line : Text) : Directive :=
  let (name, rest) := (Text.splitFirst? " " line).getD (line, [])
  let argument := Text.trim rest
  if name ∈ ([":help", ":h", ":?"] : List Text) then help
  else if name = (":vars" : Text) then showVariables
  else if name = (":code" : Text) then code
  else if name = (":source" : Text) then source
  else if name = (":stats" : Text) then statistics
  else if name = (":input" : Text) then input argument
  else if name ∈ ([":describe", ":d"] : List Text) then describe argument
  else if name ∈ ([":reset", ":clear"] : List Text) then reset
  else unknown line

/-- The names that can be completed. -/
def names : List Text :=
  [":help", ":vars", ":code", ":source", ":stats", ":input", ":describe", ":reset"]

/-- What `:help` shows. -/
def helpText : Text :=
  Text.ofLines
    [ "REPL Commands:",
      "  :help, :h, :?      Show this help",
      "  :vars              Show declared variables and their cells",
      "  :code              Show the emitted program",
      "  :source            Show the accepted statements",
      "  :stats             Show instruction and cell counts",
      "  :input TEXT        Feed TEXT to input and inputN",
      "  :describe TOPIC    Show help for a builtin, type or operator",
      "  :reset             Forget all statements",
      "  exit, quit         Exit the REPL" ]

/-- A variable, its type and its cells. -/
def variableLine (v : VariableInfo) : Text :=
  Text.join ["  ", v.name, ": ", v.type, " at ", v.region.toText]

/-- The variables of the accepted program. -/
def variablesText (s : Session) : Text :=
  match (s.last.map Compilation.declared).getD [] with
  | [] => "(no variables)\n"
  | found => Text.ofLines (found.map variableLine)

/-- What a directive shows, and the session after it. -/
def run (s : Session) : Directive → Text × Session
  | help => (helpText, s)
  | showVariables => (variablesText s, s)
  | code => ((s.last.map fun c => c.text ++ Text.newline).getD [], s)
  | source => (s.source ++ Text.newline, s)
  | statistics => ((s.last.map fun c => c.statistics.format (Locale.ofTag [])).getD [], s)
  | input text => (Text.join ["Input set to ", Text.quote text, "\n"], s.setInput text)
  | describe topic =>
    match Help.Topic.find topic with
    | .ok found => (found.toText Help.Topic.defaultWidth, s)
    | .error missing => (missing.message ++ Text.newline, s)
  | reset => ("Session cleared\n", s.reset)
  | unknown line =>
    (Text.join ["Unknown command: ", line, " (type :help for commands)\n"], s)

end Directive

end Goat
