import Goat.Diagnostic.Catalog
import Goat.Diagnostic.Suggestion
import Goat.Span

/-!
# Failures

A rejected source text yields one failure: a message with hints, the span it
refers to and the values it was made from. It can be shown on one line, below
the source line it points at, or as JSON.
-/

namespace Goat

open Diagnostic

/-- Why and where a source text was rejected. -/
structure Failure where
  kind : Kind
  code : Text
  message : Text
  hints : List Text := []
  span : Span := Span.none
  file : Text := []
  fields : Option Fields := none
  deriving DecidableEq, Repr

namespace Failure

/-- The failure that the catalog keeps under a code, with its message filled
    from the values. A code outside the catalog shows the value named `message`,
    or itself. -/
def ofCode (code : Text) (fields : Option Fields) : Failure :=
  match Entry.find? code with
  | some entry =>
    { kind := entry.kind
      code
      message := renderTemplate entry.template fields
      hints := (entry.hints.map (renderTemplate · fields)).filter fun hint => !hint.isEmpty
      fields }
  | none =>
    let message := match fields.bind (·.get? "message") with
      | some (.text t) => t
      | _ => code
    { kind := .compileError, code, message, fields }

/-- The same failure at another place. -/
def located (f : Failure) (span : Span) : Failure := { f with span }

/-- The failure of a cause at a place. -/
def ofCause (cause : Cause) (span : Span) : Failure := (ofCode cause.code cause.fields).located span

/-- The same failure in a named file. -/
def inFile (f : Failure) (file : Text) : Failure := { f with file }

/-- The failure with a further hint if some candidate is close to `input`. -/
def suggesting (f : Failure) (input : Text) (candidates : List Text) : Failure :=
  match closest? input candidates with
  | some candidate =>
    { f with hints := f.hints ++ [Text.join ["Did you mean \x60", candidate, "\x60?"]] }
  | none => f

/-- The kind and the message. -/
def headline (f : Failure) : Text := Text.join [f.kind.name, ": ", f.message]

/-- The failure on one line, after its file and position. -/
def toText (f : Failure) : Text :=
  let file := if f.file.isEmpty then [] else Text.join [f.file, ": "]
  let position := if f.span.isNone then [] else Text.join [f.span.toText, ": "]
  Text.join [file, position, f.headline]

/-- The width of the row of carets below a failing line of `length` bytes. -/
def caretWidth (s : Span) (length : Nat) : Nat :=
  let stop := if s.endLine = s.startLine then s.endCol else length
  (max (stop - s.startCol) 1).toNat

/-- The failure shown against its source: the line before the failing one, the
    failing line, carets below the span, then the message and the hints from the
    same column on. Without a line to show, only the message and the hints. -/
def render (f : Failure) (lines : List Text) : Text :=
  let failing := if f.span.isNone then none else lines[(f.span.startLine - 1).toNat]?
  match failing with
  | none => Text.intercalate Text.newline (f.headline :: f.hints)
  | some line =>
    let s := f.span
    let before := if s.startLine ≥ 2 then lines[(s.startLine - 2).toNat]? else none
    let indent := Text.blanks s.startCol.toNat
    let carets := List.replicate (caretWidth s line.length) 0x5e
    Text.intercalate Text.newline
      (before.toList ++ [line, Text.join [indent, carets, " ", s.toText]]
        ++ (f.headline :: f.hints).map (indent ++ ·))

/-- The failure shown against a source text. -/
def renderSource (f : Failure) (source : Text) : Text := f.render (Text.lines source)

/-- A span as a JSON object. -/
def spanJson (s : Span) : Text :=
  Text.jsonObject [("startLine", Text.ofInt s.startLine), ("startCol", Text.ofInt s.startCol),
    ("endLine", Text.ofInt s.endLine), ("endCol", Text.ofInt s.endCol)]

/-- The failure as a JSON object. Empty members are left out, values are sorted
    by name. -/
def json (f : Failure) : Text :=
  let member (name value : Text) : List (Text × Text) := [(name, value)]
  let optional (present : Bool) (name value : Text) : List (Text × Text) :=
    if present then [(name, value)] else []
  let fields := (f.fields.getD []).mergeSort fun a b => Text.le a.1 b.1
  Text.jsonObject
    (member "kind" (Text.json f.kind.name) ++ member "code" (Text.json f.code)
      ++ member "message" (Text.json f.message)
      ++ optional (!f.hints.isEmpty) "hints" (Text.jsonList (f.hints.map Text.json))
      ++ member "span" (spanJson f.span)
      ++ optional (!f.file.isEmpty) "file" (Text.json f.file)
      ++ optional (!fields.isEmpty) "data"
        (Text.jsonObject (fields.map fun (name, value) => (name, value.json))))

end Failure

end Goat
