import Goat.Program.Operator
import Goat.Token

/-!
# Programs

A program is a list of statements: declarations, assignments and calls of
builtins, which may carry blocks of further statements. Every part knows the
span of source it was read from.
-/

namespace Goat

/-- An expression: a number, a list, a variable, an element of a list variable
    or an operator between two operands. -/
inductive Expr where
  | number (value : Nat) (span : Span)
  | list (items : List Expr) (span : Span)
  | var (name : Text) (span : Span)
  | element (name : Text) (index : Expr) (span : Span)
  | binary (op : Operator) (left right : Expr) (span : Span)
  deriving Repr

/-- The span of an expression, from its first token to its last. -/
def Expr.span : Expr → Span
  | number _ span => span
  | list _ span => span
  | var _ span => span
  | element _ _ span => span
  | binary _ _ _ span => span

/-- `Int a = 3` or `IntList<3> k = [1, 2, 3]`. -/
structure Declaration where
  typeName : Text
  typeSpan : Span
  argument : Option Token
  name : Text
  nameSpan : Span
  value : Expr
  span : Span
  deriving Repr

/-- `a = 3` or `k[i] = 3`. -/
structure Assignment where
  name : Text
  nameSpan : Span
  index : Option Expr
  value : Expr
  span : Span
  deriving Repr

mutual

/-- A statement. The span of a call ends at its closing parenthesis. -/
inductive Stmt where
  | declaration (d : Declaration)
  | assignment (a : Assignment)
  | call (name : Text) (arguments : List Expr) (blocks : List Block) (span : Span)

/-- Statements between braces that follow a call, under a label. -/
inductive Block where
  | mk (name : Text) (body : List Stmt) (span : Span)

end

/-- The label of a block that is written without one. -/
def Block.defaultName : Text := "default"

/-- The label of a block. -/
def Block.name : Block → Text
  | mk name _ _ => name

/-- The statements of a block. -/
def Block.body : Block → List Stmt
  | mk _ body _ => body

/-- The span of a block, from its label or opening brace to its closing brace. -/
def Block.span : Block → Span
  | mk _ _ span => span

/-- The span of a statement. -/
def Stmt.span : Stmt → Span
  | declaration d => d.span
  | assignment a => a.span
  | call _ _ _ span => span

/-- A program: the statements of one source text. -/
structure Program where
  statements : List Stmt

/-- The span that covers all statements. -/
def Program.span (p : Program) : Span :=
  p.statements.foldl (fun span s => span.merge s.span) Span.none

/-- The first of the blocks that carries a label. -/
def Block.find? (blocks : List Block) (name : Text) : Option Block :=
  blocks.find? fun b => b.name == name

end Goat
