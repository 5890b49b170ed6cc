import Goat.Repl.Directive
import Goat.Repl.History
import Goat.Repl.Pending

/-!
# The shell

The shell reads entries and directives line by line. It is a state that takes one
line at a time and says what to write.
-/

namespace Goat

/-- The shell between two lines. -/
structure Repl where
  session : Session := {}
  /-- The lines of an entry that is not complete yet; empty between entries. -/
  pending : Text := []
  history : History := {}
  /-- The user has left. -/
  isDone : Bool := false

namespace Repl

/-- What is written when the shell starts. -/
def banner (version : Text) : Text :=
  Text.ofLines
    [ "",
      "█▄▄ █▀█ ▄▀█ █ █▄░█ █▀▀ █▀█ ▄▀█ ▀█▀",
      "█▄█ █▀▄ █▀█ █ █░▀█ █▄█ █▄█ █▀█ ░█░",
      Text.join ["v ", version],
      "",
      "Type 'exit' or Ctrl+D to quit, ':help' for commands",
      "" ]

/-- What asks for the next line. -/
def prompt (r : Repl) : Text := if r.pending.isEmpty then "goat> " else "....> "

/-- What is written when the input ends. -/
def goodbye : Text := "\nGoodbye!\n"

/-- What is written for the result of an entry; a line is always completed. -/
def report (output : Text) : Text :=
  if output.isEmpty || Text.endsWith output Text.newline then output else output ++ Text.newline

/-- Evaluates an entry. -/
def evaluate (fuel : Nat) (s : Session) (entry : Text) : Text × Session :=
  match s.eval fuel entry with
  | (.ok output, s) => (report output, s)
  | (.error refusal, s) => (refusal.message ++ Text.newline, s)

/-- Takes a line of an entry. -/
def enter (fuel : Nat) (r : Repl) (line : Text) : Text × Repl :=
  let entry := if r.pending.isEmpty then line else Text.join [r.pending, Text.newline, line]
  if Entry.isOpen entry then ([], { r with pending := entry })
  else
    let (written, session) := evaluate fuel r.session entry
    (written, { r with session, pending := [], history := r.history.add entry })

/-- Takes a line; yields what to write. -/
def step (fuel : Nat) (r : Repl) (line : Text) : Text × Repl :=
  let trimmed := Text.trim line
  if !r.pending.isEmpty then enter fuel r line
  else if trimmed = ("exit" : Text) || trimmed = ("quit" : Text) then
    ("Goodbye!\n", { r with isDone := true })
  else if Text.startsWith trimmed ":" then
    let (written, session) := (Directive.ofLine trimmed).run r.session
    (written, { r with session })
  else if trimmed.isEmpty then ([], r)
  else enter fuel r line

/-- Takes lines up to the end of the input, or until the user leaves. -/
def run (fuel : Nat) (r : Repl) : List Text → Text × Repl
  | [] => (goodbye, r)
  | line :: rest =>
    let (written, r) := step fuel r line
    if r.isDone then (written, r)
    else
      let (more, r) := run fuel r rest
      (written ++ more, r)

/-- All that a shell writes for an input, and the shell at its end. A shell that is
    cancelled before it starts reads nothing. -/
def transcript (fuel : Nat) (r : Repl) (version input : Text) (cancelled : Bool) : Text × Repl :=
  if cancelled then (banner version, r)
  else
    let (written, r) := run fuel r ((Text.streamLines input).map Text.Line.text)
    (banner version ++ written, r)

end Repl

end Goat
