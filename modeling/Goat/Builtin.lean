import Goat.Diagnostic.Cause

/-!
# Builtins and data types

What a program can call and declare, with the descriptions that help shows.
-/

namespace Goat

/-- A function that a program can call. -/
inductive Builtin where
  | for_
  | if_
  | input
  | inputDecimal
  | print
  | printDecimal
  | while_
  deriving DecidableEq, Repr

/-- How a builtin is called and what it does. -/
structure Builtin.Info where
  name : Text
  parameters : List Text
  /-- The blocks after the call, as help shows them; empty for none. -/
  blocks : Text := []
  minBlocks : Nat := 0
  maxBlocks : Nat := 0
  description : Text
  category : Text
  example_ : Text

namespace Builtin

/-- Every builtin, by name. -/
def all : List Builtin := [for_, if_, input, inputDecimal, print, printDecimal, while_]

/-- How the builtin is called and what it does. -/
def info : Builtin → Info
  | for_ =>
    { name := "for"
      parameters := ["element", "list"]
      blocks := "\x7b ... \x7d"
      minBlocks := 1
      maxBlocks := 1
      description :=
        "Copies every element of an IntList into an Int variable in turn and runs the block."
      category := "control"
      example_ := "for(el, list) \x7b printN(el) \x7d" }
  | if_ =>
    { name := "if"
      parameters := ["condition"]
      blocks := "\x7b ... \x7d else \x7b ... \x7d"
      minBlocks := 1
      maxBlocks := 2
      description :=
        "Runs the first block when condition is non-zero, otherwise the optional else block."
      category := "control"
      example_ := "if((a == 1)) \x7b print(a) \x7d else \x7b printN(b) \x7d" }
  | input =>
    { name := "input"
      parameters := ["variable"]
      description := "Reads one raw byte into an Int or a list element."
      category := "io"
      example_ := "input(k[0])" }
  | inputDecimal =>
    { name := "inputN"
      parameters := ["variable"]
      description :=
        "Reads a decimal number into an Int or a list element, stopping at the first non-digit."
      category := "io"
      example_ := "inputN(n)" }
  | print =>
    { name := "print"
      parameters := ["value"]
      description := "Writes the value as a raw byte. An IntList writes every element."
      category := "io"
      example_ := "print(65)" }
  | printDecimal =>
    { name := "printN"
      parameters := ["value"]
      description :=
        "Writes the value in decimal. An IntList writes every element without separators."
      category := "io"
      example_ := "printN((6 * 7))" }
  | while_ =>
    { name := "while"
      parameters := ["condition"]
      blocks := "\x7b ... \x7d"
      minBlocks := 1
      maxBlocks := 1
      description :=
        "Repeats the block while condition is non-zero. The condition is evaluated again after " ++
          "every iteration."
      category := "control"
      example_ := "while((i < n)) \x7b i = (i + 1) \x7d" }

/-- The name a builtin is called by. -/
def name (b : Builtin) : Text := b.info.name

/-- The names of all builtins. -/
def names : List Text := all.map name

/-- The builtin of a name. -/
def ofName? (name : Text) : Option Builtin := all.find? fun b => b.name == name

/-- How a call looks, with its parameters and blocks. -/
def signature (b : Builtin) : Text :=
  let call := Text.join [b.name, "(", Text.intercalate ", " b.info.parameters, ")"]
  if b.info.blocks.isEmpty then call else Text.join [call, " ", b.info.blocks]

/-- The number of blocks that a call takes. -/
def blockCount (b : Builtin) : Diagnostic.Count :=
  if b.info.minBlocks = b.info.maxBlocks then .exactly b.info.maxBlocks
  else .range b.info.minBlocks b.info.maxBlocks

end Builtin

/-- A data type that a program can declare. -/
inductive DataType where
  | int
  | intList
  deriving DecidableEq, Repr

/-- How a data type is declared and what it holds. -/
structure DataType.Info where
  name : Text
  declaration : Text
  description : Text
  example_ : Text

namespace DataType

/-- Every data type, by name. -/
def all : List DataType := [int, intList]

/-- How the data type is declared and what it holds. -/
def info : DataType → Info
  | int =>
    { name := "Int"
      declaration := "Int name = expr"
      description := "A single byte cell. Arithmetic wraps modulo 256; comparisons yield 1 or 0."
      example_ := "Int a = (3 + 4)\nprintN(a)" }
  | intList =>
    { name := "IntList"
      declaration := "IntList<N> name = [e1, ..., eN]"
      description :=
        "A fixed-length list of N Int elements (1 to 255). Constant indexes are checked at " ++
          "compile time; computed indexes are not checked."
      example_ := "IntList<3> k = [1, 2, 3]\nk[(1 + 1)] = 42\nprintN(k[2])" }

/-- The name of the data type. -/
def name (t : DataType) : Text := t.info.name

/-- The names of all data types. -/
def names : List Text := all.map name

/-- The data type of a name. -/
def ofName? (name : Text) : Option DataType := all.find? fun t => t.name == name

end DataType

end Goat
