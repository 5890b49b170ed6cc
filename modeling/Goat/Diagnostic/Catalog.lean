import Goat.Diagnostic.Cause

/-!
# The catalog of messages

For every code the kind of failure, the template of its message and the
templates of its hints.
-/

namespace Goat.Diagnostic

/-- What the catalog says about a code. -/
structure Entry where
  code : Text
  kind : Kind
  template : Text
  hints : List Text

/-- The catalog. -/
def catalog : List Entry := [
  ⟨"SYNTAX-0001", .syntaxError, "Expected \x7b\x7b.Expected\x7d\x7d",
    []⟩,
  ⟨"SYNTAX-0002", .syntaxError, "Expected \x7b\x7b.Expected\x7d\x7d, got \x7b\x7b.Got\x7d\x7d",
    []⟩,
  ⟨"SYNTAX-0003", .syntaxError,
    "expressions allow exactly two operands, got \x7b\x7b.Count\x7d\x7d items",
    ["Nest expressions in parentheses: ((a + b) + c)"]⟩,
  ⟨"SYNTAX-0004", .syntaxError, "Invalid operator \x7b\x7b.Operator\x7d\x7d",
    []⟩,
  ⟨"SYNTAX-0005", .syntaxError, "Unexpected token , expected \x7b\x7b.Expected\x7d\x7d",
    []⟩,
  ⟨"SYNTAX-0006", .syntaxError, "Invalid expression",
    []⟩,
  ⟨"SYNTAX-0007", .syntaxError, "Invalid expression at index",
    []⟩,
  ⟨"SYNTAX-0008", .syntaxError, "Unrecognized statement \"\x7b\x7b.Token\x7d\x7d\"",
    []⟩,
  ⟨"SYNTAX-0009", .syntaxError, "Invalid number \x7b\x7b.Literal\x7d\x7d",
    []⟩,
  ⟨"SYNTAX-0010", .syntaxError, "Unexpected \x7b\x7b.Token\x7d\x7d",
    []⟩,
  ⟨"COMPILE-0001", .compileError, "\x7b\x7b.Name\x7d\x7d is no valid variable name",
    ["Variable names start with a letter or _ followed by letters, digits or _"]⟩,
  ⟨"COMPILE-0002", .compileError, "\x7b\x7b.Type\x7d\x7d is no valid data type",
    []⟩,
  ⟨"COMPILE-0003", .compileError, "Redeclaration of variable \x7b\x7b.Name\x7d\x7d",
    []⟩,
  ⟨"COMPILE-0004", .compileError, "Variable \x7b\x7b.Name\x7d\x7d is not defined",
    []⟩,
  ⟨"COMPILE-0005", .compileError, "\x7b\x7b.Name\x7d\x7d is no valid function",
    []⟩,
  ⟨"COMPILE-0006", .compileError,
    "\x7b\x7b.Function\x7d\x7d expected \x7b\x7b.Expected\x7d\x7d \x7b\x7b.What\x7d\x7d, got " ++
      "\x7b\x7b.Got\x7d\x7d",
    []⟩,
  ⟨"COMPILE-0007", .compileError,
    "\x7b\x7b.Source\x7d\x7d cannot be assigned to \x7b\x7b.Target\x7d\x7d",
    []⟩,
  ⟨"COMPILE-0008", .compileError, "\x7b\x7b.Type\x7d\x7d expected a length type argument",
    ["\x7b\x7b.Type\x7d\x7d<3> \x7b\x7b.Name\x7d\x7d = [0, 0, 0]"]⟩,
  ⟨"COMPILE-0009", .compileError,
    "\x7b\x7b.Value\x7d\x7d is no valid length for \x7b\x7b.Type\x7d\x7d",
    ["Lengths range from 1 to 255"]⟩,
  ⟨"COMPILE-0010", .compileError,
    "A list of length \x7b\x7b.Got\x7d\x7d cannot be assigned to \x7b\x7b.Name\x7d\x7d " ++
      "with length \x7b\x7b.Length\x7d\x7d",
    []⟩,
  ⟨"COMPILE-0011", .compileError,
    "Cannot access \x7b\x7b.Name\x7d\x7d with length \x7b\x7b.Length\x7d\x7d at index " ++
      "\x7b\x7b.Index\x7d\x7d",
    []⟩,
  ⟨"COMPILE-0012", .compileError, "\x7b\x7b.Type\x7d\x7d \x7b\x7b.Name\x7d\x7d cannot be indexed",
    []⟩,
  ⟨"COMPILE-0013", .compileError,
    "\x7b\x7b.Function\x7d\x7d expected second block named else, got \x7b\x7b.Got\x7d\x7d",
    []⟩,
  ⟨"COMPILE-0014", .compileError,
    "\x7b\x7b.Function\x7d\x7d can only be used with a variable as parameter",
    []⟩,
  ⟨"COMPILE-0015", .compileError,
    "\x7b\x7b.Function\x7d\x7d expected \x7b\x7b.Expected\x7d\x7d as argument " ++
      "\x7b\x7b.Position\x7d\x7d, got \x7b\x7b.Got\x7d\x7d",
    []⟩,
  ⟨"COMPILE-0016", .compileError, "\x7b\x7b.Type\x7d\x7d takes no type argument",
    []⟩,
  ⟨"COMPILE-0017", .compileError,
    "\x7b\x7b.Function\x7d\x7d cannot read into \x7b\x7b.Type\x7d\x7d \x7b\x7b.Name\x7d\x7d",
    ["Read into a single element instead: \x7b\x7b.Function\x7d\x7d(\x7b\x7b.Name\x7d\x7d[0])"]⟩,
  ⟨"COMPILE-0018", .compileError, "Unsupported \x7b\x7b.What\x7d\x7d \x7b\x7b.Node\x7d\x7d",
    []⟩]

/-- The entry of a code. -/
def Entry.find? (code : Text) : Option Entry := catalog.find? fun entry => entry.code == code

end Goat.Diagnostic
