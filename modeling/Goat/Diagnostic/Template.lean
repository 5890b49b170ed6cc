import Goat.Text.Json
import Goat.Text.Printable

/-!
# Message templates

A message is written once as a template and filled from named values. A
placeholder is a dot and a name between double braces; a `-` next to the braces
drops the white space on that side. A template that cannot be read or filled
stands for itself.
-/

namespace Goat.Diagnostic

/-- A value that a placeholder can show. -/
inductive Datum where
  | text (t : Text)
  | int (n : Int)
  | bool (b : Bool)
  | null
  deriving DecidableEq, Repr

/-- Named values, at most one for a name. -/
abbrev Fields := List (Text × Datum)

/-- The value of a name. -/
def Fields.get? (fields : Fields) (name : Text) : Option Datum :=
  (fields.find? fun field => field.1 == name).map Prod.snd

/-- What a missing value looks like in a message. -/
def noValue : Text := "<no value>"

/-- A value as a message shows it. -/
def Datum.show : Datum → Text
  | .text t => t
  | .int n => Text.ofInt n
  | .bool b => Text.ofBool b
  | .null => noValue

/-- A value as JSON. -/
def Datum.json : Datum → Text
  | .text t => Text.json t
  | .int n => Text.ofInt n
  | .bool b => Text.ofBool b
  | .null => "null"

/-- All values, in the order of their names. -/
def Fields.show (fields : Fields) : Text :=
  let sorted := fields.mergeSort fun a b => Text.le a.1 b.1
  Text.join ["map[", Text.intercalate " " (sorted.map fun (name, value) =>
    Text.join [name, ":", if value = .null then "<nil>" else value.show]), "]"]

namespace Template

/-- What stands between double braces: a comment, all values, or the value
    found by following names. -/
inductive Action where
  | comment
  | all
  | path (names : List Text)
  deriving DecidableEq, Repr

/-- An action and the text up to the next one. -/
structure Part where
  trimBefore : Bool
  action : Action
  trimAfter : Bool
  following : Text

/-- The byte is white space around an action. -/
def isSpace (b : UInt8) : Bool := b == 0x20 || b == 0x09 || b == 0x0d || b == 0x0a

/-- Without the white space in front. -/
def trimFront (t : Text) : Text := t.dropWhile isSpace

/-- Without the white space at the end. -/
def trimBack (t : Text) : Text := (t.reverse.dropWhile isSpace).reverse

/-- The parts of a template between its opening braces. -/
def splitOpen : Text → List Text
  | [] => [[]]
  | 0x7b :: 0x7b :: rest => [] :: splitOpen rest
  | b :: rest =>
    match splitOpen rest with
    | part :: parts => (b :: part) :: parts
    | [] => [[b]]

/-- The character may stand in a field name. -/
def isFieldChar (c : Char) : Bool :=
  c.isAlphanum || c == '_' || (c.toNat ≥ 0x80 && Text.isPrintable c)

/-- The text is a field name. -/
def isFieldName (name : Text) : Bool :=
  !name.isEmpty && !(name.head?.any Text.isDigit)
    && (Text.glyphs name).all fun g => g.char.any isFieldChar

/-- Reads a dot, or names that each follow a dot. -/
def readPath? : Text → Option Action
  | [0x2e] => some .all
  | 0x2e :: rest =>
    let names := Text.splitOn 0x2e rest
    if names.all isFieldName then some (.path names) else none
  | _ => none

/-- Splits off a `-` at the end of an action, which follows white space. -/
def splitTrimMark (content : Text) : Text × Bool :=
  match content.reverse with
  | 0x2d :: b :: rest => if isSpace b then (rest.reverse, true) else (content, false)
  | _ => (content, false)

/-- Reads what follows opening braces. -/
def readPart? (part : Text) : Option Part := do
  let (trimBefore, body) := match part with
    | 0x2d :: b :: rest => if isSpace b then (true, rest) else (false, part)
    | _ => (false, part)
  match Text.dropHead? "/*" body with
  | some comment =>
    let (_, close) ← Text.splitFirst? "*/" comment
    let (mark, following) ← Text.splitFirst? "\x7d\x7d" close
    if mark.isEmpty then return ⟨trimBefore, .comment, false, following⟩
    let (rest, trimAfter) := splitTrimMark mark
    if trimAfter && rest.isEmpty then return ⟨trimBefore, .comment, true, following⟩
    none
  | none =>
    let (content, following) ← Text.splitFirst? "\x7d\x7d" body
    let (path, trimAfter) := splitTrimMark content
    let action ← readPath? (trimFront (trimBack path))
    return ⟨trimBefore, action, trimAfter, following⟩

/-- The text of an action; following a name into a plain value fails. -/
def Action.fill? (fields : Fields) : Action → Option Text
  | .comment => some []
  | .all => some fields.show
  | .path [] => none
  | .path [name] => some ((fields.get? name).elim noValue Datum.show)
  | .path (name :: _ :: _) => if (fields.get? name).isSome then none else some noValue

/-- Fills the parts of a template after its literal text `before`. -/
def fillParts? (fields : Fields) (before : Text) : List Part → Option Text
  | [] => some before
  | part :: rest => do
    let before := if part.trimBefore then trimBack before else before
    let shown ← part.action.fill? fields
    let following := if part.trimAfter then trimFront part.following else part.following
    let filled ← fillParts? fields following rest
    return before ++ shown ++ filled

/-- The template filled from the values, if it can be read and filled. -/
def fill? (template : Text) (fields : Fields) : Option Text :=
  match splitOpen template with
  | [] => some []
  | before :: parts => do fillParts? fields before (← parts.mapM readPart?)

end Template

/-- The template filled from the values. Without values, or if it cannot be
    filled, it stands for itself. -/
def renderTemplate (template : Text) : Option Fields → Text
  | none => template
  | some fields => (Template.fill? template fields).getD template

end Goat.Diagnostic
