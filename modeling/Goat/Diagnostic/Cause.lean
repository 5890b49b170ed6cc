import Goat.Diagnostic.Template

/-!
# Causes of failure

Why a source text is rejected. Every cause has a code, under which the catalog
keeps its message, and the named values that the message shows.
-/

namespace Goat.Diagnostic

/-- A failure is found while reading the program or while emitting code. -/
inductive Kind where
  | syntaxError
  | compileError
  deriving DecidableEq, Repr

/-- The name of a kind as diagnostics show it. -/
def Kind.name : Kind → Text
  | .syntaxError => "SyntaxError"
  | .compileError => "CompileError"

/-- How many arguments or blocks a builtin takes. -/
inductive Count where
  | exactly (n : Nat)
  | range (least most : Nat)
  deriving DecidableEq, Repr

/-- A count as a message value. -/
def Count.datum : Count → Datum
  | .exactly n => .int n
  | .range least most => .text (Text.join [Text.ofNat least, " to ", Text.ofNat most])

/-- The reasons to reject a source text. -/
inductive Cause where
  /-- The text ends where `what` should follow. -/
  | expected (what : Text)
  /-- `got` stands where `what` should. -/
  | expectedInstead (what got : Text)
  /-- Parentheses hold more or less than two operands and an operator. -/
  | operandCount (count : Nat)
  /-- The middle of an expression is no operator. -/
  | invalidOperator (symbol : Text)
  /-- Nothing stands beside a comma. -/
  | missingItem (what : Text)
  /-- The token starts no expression. -/
  | invalidExpression
  /-- Something else than one expression stands between index brackets. -/
  | invalidIndex
  /-- The token starts no statement. -/
  | unrecognizedStatement (token : Text)
  /-- The numeral does not fit 64 bits. -/
  | invalidNumber (literal : Text)
  /-- The token cannot stand here. -/
  | unexpected (token : Text)
  /-- The declared name is no identifier. -/
  | invalidName (name : Text)
  /-- There is no such data type. -/
  | unknownType (type : Text)
  /-- The name is declared already. -/
  | redeclaration (name : Text)
  /-- The name is not declared. -/
  | undefinedVariable (name : Text)
  /-- There is no such builtin. -/
  | unknownFunction (name : Text)
  /-- The call has the wrong number of arguments or blocks. -/
  | wrongCount (function : Text) (expected : Count) (what : Text) (got : Nat)
  /-- The value does not fit the type of the target. -/
  | typeMismatch (source target : Text)
  /-- A list is declared without its length. -/
  | missingLength (type name : Text)
  /-- The length of a list is no numeral or out of range. -/
  | invalidLength (value type : Text)
  /-- Two lists differ in length. -/
  | lengthMismatch (name : Text) (length got : Nat)
  /-- A constant index is beyond the end of the list. -/
  | indexOutOfRange (name : Text) (length index : Nat)
  /-- The indexed variable is no list. -/
  | notIndexable (type name : Text)
  /-- The second block of a conditional has another label than `else`. -/
  | wrongBlockLabel (function got : Text)
  /-- The argument must be a variable. -/
  | variableRequired (function : Text)
  /-- The argument is a variable of the wrong type. -/
  | wrongArgument (function expected : Text) (position : Nat) (got : Text)
  /-- The type takes no argument. -/
  | argumentNotTaken (type : Text)
  /-- The builtin cannot read into a whole list. -/
  | notReadable (function type name : Text)
  deriving DecidableEq, Repr

namespace Cause

/-- The code under which the catalog keeps the message. -/
def code : Cause → Text
  | expected _ => "SYNTAX-0001"
  | expectedInstead .. => "SYNTAX-0002"
  | operandCount _ => "SYNTAX-0003"
  | invalidOperator _ => "SYNTAX-0004"
  | missingItem _ => "SYNTAX-0005"
  | invalidExpression => "SYNTAX-0006"
  | invalidIndex => "SYNTAX-0007"
  | unrecognizedStatement _ => "SYNTAX-0008"
  | invalidNumber _ => "SYNTAX-0009"
  | unexpected _ => "SYNTAX-0010"
  | invalidName _ => "COMPILE-0001"
  | unknownType _ => "COMPILE-0002"
  | redeclaration _ => "COMPILE-0003"
  | undefinedVariable _ => "COMPILE-0004"
  | unknownFunction _ => "COMPILE-0005"
  | wrongCount .. => "COMPILE-0006"
  | typeMismatch .. => "COMPILE-0007"
  | missingLength .. => "COMPILE-0008"
  | invalidLength .. => "COMPILE-0009"
  | lengthMismatch .. => "COMPILE-0010"
  | indexOutOfRange .. => "COMPILE-0011"
  | notIndexable .. => "COMPILE-0012"
  | wrongBlockLabel .. => "COMPILE-0013"
  | variableRequired _ => "COMPILE-0014"
  | wrongArgument .. => "COMPILE-0015"
  | argumentNotTaken _ => "COMPILE-0016"
  | notReadable .. => "COMPILE-0017"

/-- The values that the message shows. -/
def fields : Cause → Option Fields
  | expected what => some [("Expected", .text what)]
  | expectedInstead what got => some [("Expected", .text what), ("Got", .text got)]
  | operandCount count => some [("Count", .int count)]
  | invalidOperator symbol => some [("Operator", .text symbol)]
  | missingItem what => some [("Expected", .text what)]
  | invalidExpression => none
  | invalidIndex => none
  | unrecognizedStatement token => some [("Token", .text token)]
  | invalidNumber literal => some [("Literal", .text literal)]
  | unexpected token => some [("Token", .text token)]
  | invalidName name => some [("Name", .text name)]
  | unknownType type => some [("Type", .text type)]
  | redeclaration name => some [("Name", .text name)]
  | undefinedVariable name => some [("Name", .text name)]
  | unknownFunction name => some [("Name", .text name)]
  | wrongCount function wanted what got =>
    some [("Function", .text function), ("Expected", wanted.datum),
      ("What", .text (if wanted = .exactly 1 then what else Text.join [what, "s"])),
      ("Got", .int got)]
  | typeMismatch source target => some [("Source", .text source), ("Target", .text target)]
  | missingLength type name => some [("Type", .text type), ("Name", .text name)]
  | invalidLength value type => some [("Value", .text value), ("Type", .text type)]
  | lengthMismatch name length got =>
    some [("Name", .text name), ("Length", .int length), ("Got", .int got)]
  | indexOutOfRange name length index =>
    some [("Name", .text name), ("Length", .int length), ("Index", .int index)]
  | notIndexable type name => some [("Type", .text type), ("Name", .text name)]
  | wrongBlockLabel function got => some [("Function", .text function), ("Got", .text got)]
  | variableRequired function => some [("Function", .text function)]
  | wrongArgument function wanted position got =>
    some [("Function", .text function), ("Expected", .text wanted),
      ("Position", .int position), ("Got", .text got)]
  | argumentNotTaken type => some [("Type", .text type)]
  | notReadable function type name =>
    some [("Function", .text function), ("Type", .text type), ("Name", .text name)]

end Cause

end Goat.Diagnostic
