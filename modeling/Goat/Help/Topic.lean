import Goat.Builtin
import Goat.Diagnostic.Suggestion
import Goat.Program.Operator
import Goat.Text.Blank

/-!
# Help topics

What the language offers, by topic: the lists of builtins, data types and
operators, and each single one of them.
-/

namespace Goat.Help

/-- What a topic is about. -/
inductive Kind where
  | builtin
  | type
  | operator
  | builtinList
  | typeList
  | operatorList
  | other (name : Text)
  deriving DecidableEq, Repr

namespace Kind

/-- The kinds of the known topics. -/
def known : List Kind := [builtin, type, operator, builtinList, typeList, operatorList]

/-- The name of a kind. -/
def name : Kind → Text
  | builtin => "builtin"
  | type => "type"
  | operator => "operator"
  | builtinList => "builtin-list"
  | typeList => "type-list"
  | operatorList => "operator-list"
  | other name => name

/-- The kind of a name. -/
def ofName (name : Text) : Kind := (known.find? fun k => k.name == name).getD (other name)

end Kind

/-- A builtin in a list. -/
structure BuiltinEntry where
  name : Text
  signature : Text
  category : Text
  description : Text
  deriving DecidableEq, Repr

/-- A data type in a list. -/
structure TypeEntry where
  name : Text
  declaration : Text
  description : Text
  deriving DecidableEq, Repr

/-- An operator in a list. -/
structure OperatorEntry where
  symbol : Text
  category : Text
  description : Text
  deriving DecidableEq, Repr

/-- What help knows about a topic. -/
structure Topic where
  kind : Kind
  name : Text
  description : Text := []
  /-- How the thing is written in a program. -/
  usage : Text := []
  example_ : Text := []
  category : Text := []
  builtins : List BuiltinEntry := []
  operators : List OperatorEntry := []
  types : List TypeEntry := []
  deriving DecidableEq, Repr

/-- The group an operator belongs to. -/
def operatorCategory : Operator → Text
  | .add | .sub | .mul | .div | .pow => "arithmetic"
  | .eq | .neq | .lt | .lte | .gt | .gte => "comparison"

/-- What an operator computes. -/
def operatorDescription : Operator → Text
  | .add => "Addition modulo 256"
  | .sub => "Subtraction modulo 256"
  | .mul => "Multiplication modulo 256"
  | .div => "Integer division; dividing by 0 yields 0"
  | .pow => "Exponentiation modulo 256; x ^ 0 is 1"
  | .eq => "1 if both sides are equal, else 0"
  | .neq => "1 if the sides differ, else 0"
  | .lt => "1 if the left side is smaller, else 0"
  | .lte => "1 if the left side is smaller or equal, else 0"
  | .gt => "1 if the left side is larger, else 0"
  | .gte => "1 if the left side is larger or equal, else 0"

namespace Topic

/-- The topic of one builtin. -/
def ofBuiltin (b : Builtin) : Topic where
  kind := .builtin
  name := b.name
  description := b.info.description
  usage := b.signature
  example_ := b.info.example_
  category := b.info.category

/-- The topic of one data type. -/
def ofDataType (t : DataType) : Topic where
  kind := .type
  name := t.name
  description := t.info.description
  usage := t.info.declaration
  example_ := t.info.example_

/-- The topic of one operator. -/
def ofOperator (op : Operator) : Topic where
  kind := .operator
  name := op.symbol
  description := operatorDescription op
  usage := Text.join ["(a ", op.symbol, " b)"]
  category := operatorCategory op

/-- All builtins, by category. -/
def builtinList : Topic where
  kind := .builtinList
  name := "builtins"
  builtins :=
    (Builtin.all.map fun b => ⟨b.name, b.signature, b.info.category, b.info.description⟩).mergeSort
      fun a b => Text.le a.category b.category

/-- All data types. -/
def typeList : Topic where
  kind := .typeList
  name := "types"
  types := DataType.all.map fun t => ⟨t.name, t.info.declaration, t.info.description⟩

/-- All operators, arithmetic first. -/
def operatorList : Topic where
  kind := .operatorList
  name := "operators"
  operators :=
    Operator.all.map fun op => ⟨op.symbol, operatorCategory op, operatorDescription op⟩

/-- The topics of lists. -/
def lists : List Topic := [builtinList, operatorList, typeList]

/-- The names that are suggested and completed. -/
def names : List Text := lists.map name ++ Builtin.names ++ DataType.names

/-- The topic of a name. -/
def ofName? (name : Text) : Option Topic :=
  (lists.find? fun t => t.name == name)
    <|> (Builtin.ofName? name).map ofBuiltin
    <|> (DataType.ofName? name).map ofDataType
    <|> (Operator.ofSymbol? name).map ofOperator

/-- Why there is no help. -/
inductive Missing where
  | unnamed
  | unknown (name : Text) (suggestion : Option Text)
  deriving DecidableEq, Repr

/-- What the user reads when there is no help. -/
def Missing.message : Missing → Text
  | unnamed => "no topic specified (try: builtins, types, operators, while, IntList)"
  | unknown name (some suggestion) =>
    Text.join ["unknown topic: ", name, "\nDid you mean: ", suggestion, "?"]
  | unknown name none =>
    Text.join ["unknown topic: ", name, "\nTry: builtins, types, operators, while, IntList"]

/-- The topic that a request asks for; white space around its name does not count. -/
def find (request : Text) : Except Missing Topic :=
  let name := Text.trim request
  if name.isEmpty then .error .unnamed
  else
    match ofName? name with
    | some topic => .ok topic
    | none => .error (.unknown name (Diagnostic.closest? name names))

end Topic

end Goat.Help
