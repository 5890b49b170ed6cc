import Goat.Program.Basic

/-!
# Printed programs

The canonical form of a program: one statement a line, a block on the line of
its call, one blank around operators and after commas.
-/

namespace Goat

mutual

/-- The canonical form of an expression. -/
def Expr.print : Expr → Text
  | .number value _ => Text.ofNat value
  | .list items _ => Text.join ["[", Text.intercalate ", " (Expr.printAll items), "]"]
  | .var name _ => name
  | .element name index _ => Text.join [name, "[", index.print, "]"]
  | .binary op left right _ =>
    Text.join ["(", left.print, " ", op.symbol, " ", right.print, ")"]

/-- The canonical forms of a list of expressions. -/
def Expr.printAll : List Expr → List Text
  | [] => []
  | e :: rest => e.print :: Expr.printAll rest

end

/-- The canonical form of a declaration. -/
def Declaration.print (d : Declaration) : Text :=
  let argument := match d.argument with
    | some token => Text.join ["<", token.value, ">"]
    | none => []
  Text.join [d.typeName, argument, " ", d.name, " = ", d.value.print]

/-- The canonical form of an assignment. -/
def Assignment.print (a : Assignment) : Text :=
  let index := match a.index with
    | some e => Text.join ["[", e.print, "]"]
    | none => []
  Text.join [a.name, index, " = ", a.value.print]

mutual

/-- The canonical form of a statement. -/
def Stmt.print : Stmt → Text
  | .declaration d => d.print
  | .assignment a => a.print
  | .call name arguments blocks _ =>
    Text.join [name, "(", Text.intercalate ", " (Expr.printAll arguments), ")",
      Block.printAll blocks]

/-- The canonical forms of the blocks of a call, each after a blank. -/
def Block.printAll : List Block → Text
  | [] => []
  | .mk name body _ :: rest =>
    let label := if name = Block.defaultName then [] else Text.join [name, " "]
    Text.join [" ", label, "\x7b", Stmt.printAll body, " \x7d", Block.printAll rest]

/-- The canonical forms of the statements of a block, each after a blank. -/
def Stmt.printAll : List Stmt → Text
  | [] => []
  | s :: rest => Text.join [" ", s.print, Stmt.printAll rest]

end

/-- The canonical form of a program. -/
def Program.print (p : Program) : Text :=
  Text.intercalate Text.newline (p.statements.map Stmt.print)

end Goat
