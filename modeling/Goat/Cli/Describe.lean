import Goat.Cli.Error
import Goat.Help.Format
import Goat.Host.Console
import Goat.Text.Wrap

/-!
# The help command

The command that describes builtins, types and operators.
-/

namespace Goat.Cli

/-- How help is shown. -/
inductive HelpFormat where
  | text
  | json
  | markdown
  | html
  deriving DecidableEq, Repr

/-- The format that an argument asks for. -/
def HelpFormat.ofArgument? (argument : Text) : Option HelpFormat :=
  if argument = ("--json" : Text) then some json
  else if argument ∈ (["--markdown", "--md"] : List Text) then some markdown
  else if argument = ("--html" : Text) then some html
  else none

/-- What the user asks for. -/
structure HelpRequest where
  format : HelpFormat := .text
  topic : Text := []
  deriving DecidableEq, Repr

/-- Takes an argument; the last topic and the last format count. -/
def HelpRequest.take (r : HelpRequest) (argument : Text) : HelpRequest :=
  match HelpFormat.ofArgument? argument with
  | some format => { r with format }
  | none => if Text.startsWith argument "-" then r else { r with topic := argument }

/-- A topic in a format. -/
def HelpFormat.show (topic : Help.Topic) : HelpFormat → Text
  | text => topic.toText Help.Topic.defaultWidth
  | json => topic.toJson ++ Text.newline
  | markdown => topic.toMarkdown
  | html => topic.toHtml

/-- How the help command is used. -/
def describeUsage : Text :=
  Text.ofLines
    [ "Usage: braingoat describe [--json|--markdown|--html] <topic>",
      "",
      "Topics:",
      "  builtins           List all builtin functions",
      "  types              List the data types",
      "  operators          List all operators",
      "  <builtin>          Help for a builtin (if, while, printN, ...)",
      "  <type>             Help for a type (Int, IntList)",
      "  <operator>         Help for an operator (+, <=, ...)" ]

/-- Describes a topic. -/
def describe {m : Type → Type} [Monad m] [Console m] (args : List Text) :
    m (Except Stop Unit) := do
  let request := args.foldl HelpRequest.take {}
  if request.topic.isEmpty then
    Console.printError describeUsage
    return .error (.status 2)
  match Help.Topic.find request.topic with
  | .error e => return .error (.error (.topic e))
  | .ok topic =>
    Console.print (request.format.show topic)
    return .ok ()

end Goat.Cli
