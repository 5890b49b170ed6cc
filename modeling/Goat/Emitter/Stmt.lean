import Goat.Emitter.Expr
import Goat.Identifier

/-!
# Code for statements

Declarations, assignments and calls of builtins. A declared name is in scope
from its initial value on and for the rest of the program, also outside the
block of its declaration.
-/

namespace Goat

open Diagnostic

/-- The greatest length of a list; an index is a single cell. -/
def maxListLength : Nat := 255

/-- The length that a type argument gives, if it is one. -/
def listLength? (argument : Text) : Option Nat := do
  let n ← Text.toInt64? argument
  if 1 ≤ n ∧ n ≤ maxListLength then some n.toNat else none

/-- Allocates the cells of a declaration. -/
def allocateDeclared (type : DataType) (d : Declaration) : TryEmit Variable :=
  match type, d.argument with
  | .int, none => do return .int (← Cell.new d.name)
  | .int, some argument => reject (.argumentNotTaken d.typeName) argument.span
  | .intList, none => reject (.missingLength d.typeName d.name) d.typeSpan
  | .intList, some argument =>
    match listLength? argument.value with
    | some n => do return .list (← CellList.new d.name n)
    | none => reject (.invalidLength argument.value d.typeName) argument.span

/-- Declares a variable and stores its initial value. -/
def emitDeclaration (d : Declaration) : TryEmit Unit := do
  if !isIdentifier d.name then
    reject (.invalidName d.name) d.nameSpan
  match DataType.ofName? d.typeName with
  | none =>
    throw ((Failure.ofCause (.unknownType d.typeName) d.typeSpan).suggesting d.typeName
      DataType.names)
  | some type =>
    if ((← get).find? d.name).isSome then
      reject (.redeclaration d.name) d.nameSpan
    let v ← allocateDeclared type d
    modify fun e => { e with declared := e.declared ++ [(d.name, v)] }
    emitExpr v d.value

/-- Stores a value in a variable or an element of a list. -/
def emitAssignment (a : Assignment) : TryEmit Unit := do
  let v ← lookup a.name a.nameSpan
  match a.index with
  | none => emitExpr v a.value
  | some index =>
    let list ← indexable v a.nameSpan
    match index with
    | .number n span =>
      let element ← list.elementAt n span
      emitExpr (.int element) a.value
    | index =>
      let position ← evaluate index
      let value ← evaluate a.value
      list.put position value
      value.destroy
      position.destroy

/-- The variable that an argument names; it may have no index. -/
def variableArgument (function : Text) : Expr → TryEmit Variable
  | .var name span => lookup name span
  | e => reject (.variableRequired function) e.span

/-- Writes a value by `cell`, or a whole list by `list`. -/
def emitOutput (cell : Cell → Emit Unit) (list : CellList → Emit Unit) : Expr → TryEmit Unit
  | .var name span => do
    match ← lookup name span with
    | .int c => cell c
    | .list l => list l
  | e => do
    let t ← evaluate e
    cell t
    t.destroy

/-- Reads by `read` into a variable or an element of a list. -/
def emitInput (function : Text) (read : Cell → Emit Unit) : Expr → TryEmit Unit
  | .var name span => do
    match ← lookup name span with
    | .int c => read c
    | .list l => reject (.notReadable function l.typeName l.name) span
  | .element name index span => do
    let v ← lookup name span
    let list ← indexable v span
    match index with
    | .number n indexSpan =>
      let element ← list.elementAt n indexSpan
      read element
    | index =>
      let position ← evaluate index
      let value ← Cell.temporary
      read value
      list.put position value
      value.destroy
      position.destroy
  | e => reject (.variableRequired function) e.span

/-- The variables that a loop over a list goes through: the element and the list. -/
def loopVariables (function : Text) (element list : Expr) : TryEmit (Cell × CellList) := do
  let e ← variableArgument function element
  let l ← variableArgument function list
  match e with
  | .list cells =>
    reject (.wrongArgument function Cell.typeName 1 cells.typeName) element.span
  | .int c =>
    match l with
    | .int _ => reject (.wrongArgument function CellList.baseName 2 Cell.typeName) list.span
    | .list cells => return (c, cells)

/-- The builtin that a call names, after checking the number of arguments and of
    blocks. -/
def checkCall (name : Text) (arguments blocks : Nat) (span : Span) : TryEmit Builtin :=
  match Builtin.ofName? name with
  | none => throw ((Failure.ofCause (.unknownFunction name) span).suggesting name Builtin.names)
  | some b => do
    let wanted := b.info.parameters.length
    if arguments ≠ wanted then
      reject (.wrongCount name (.exactly wanted) "argument" arguments) span
    if blocks < b.info.minBlocks ∨ b.info.maxBlocks < blocks then
      reject (.wrongCount name b.blockCount "block" blocks) span
    Emit.trace (Text.join ["call ", name, " at ", span.toText])
    return b

/-- Runs `body` if a condition is not zero. -/
def emitIf (condition : Expr) (body : TryEmit Unit) : TryEmit Unit := do
  let c ← evaluate condition
  c.tryLoop do
    body
    c.reset
  c.destroy

/-- Runs `body` if a condition is not zero, and `otherwise` if it is. -/
def emitIfElse (condition : Expr) (body otherwise : TryEmit Unit) : TryEmit Unit := do
  let c ← evaluate condition
  let other ← Cell.temporary
  other.add 1
  c.tryLoop do
    body
    c.reset
    other.reset
  other.tryLoop do
    otherwise
    other.reset
  other.destroy
  c.destroy

/-- Repeats `body` while a condition is not zero. -/
def emitWhile (condition : Expr) (body : TryEmit Unit) : TryEmit Unit := do
  let c ← evaluate condition
  c.tryLoop do
    body
    emitExpr (.int c) condition
  c.destroy

/-- Runs `body` for every element of a list, which is copied into a cell first. -/
def emitForEach (el : Cell) (cells : CellList) (body : TryEmit Unit) : TryEmit Unit := do
  let index ← Cell.temporary
  let limit ← Cell.temporary
  limit.setConst cells.length
  let more ← Cell.temporary
  more.lessThan index limit
  more.tryLoop do
    let value ← cells.get index
    el.take value
    value.destroy
    body
    index.add 1
    more.lessThan index limit
  more.destroy
  limit.destroy
  index.destroy

/-- The code of a block. -/
structure BlockCode where
  label : Text
  body : TryEmit Unit
  span : Span

/-- The code of a call, given that of its blocks. -/
def emitBuiltin (name : Text) : Builtin → List Expr → List BlockCode → TryEmit Unit
  | .print, [value], _ => emitOutput Cell.print CellList.print value
  | .printDecimal, [value], _ => emitOutput Cell.printDecimal CellList.printDecimal value
  | .input, [target], _ => emitInput name Cell.input target
  | .inputDecimal, [target], _ => emitInput name Cell.inputDecimal target
  | .if_, [condition], [block] => emitIf condition block.body
  | .if_, [condition], [block, otherwise] => do
    if otherwise.label ≠ "else" then
      reject (.wrongBlockLabel name otherwise.label) otherwise.span
    emitIfElse condition block.body otherwise.body
  | .while_, [condition], [block] => emitWhile condition block.body
  | .for_, [element, list], [block] => do
    let (el, cells) ← loopVariables name element list
    emitForEach el cells block.body
  | _, _, _ => return

mutual

/-- Emits a statement. -/
def emitStmt : Stmt → TryEmit Unit
  | .declaration d => emitDeclaration d
  | .assignment a => emitAssignment a
  | .call name arguments blocks span => do
    let b ← checkCall name arguments.length blocks.length span
    emitBuiltin name b arguments (emitBlocks blocks)

/-- Emits statements in order. -/
def emitStmts : List Stmt → TryEmit Unit
  | [] => return
  | s :: rest => do
    emitStmt s
    emitStmts rest

/-- The code of a block. -/
def emitBlock : Block → BlockCode
  | .mk label body span => ⟨label, emitStmts body, span⟩

/-- The code of blocks. -/
def emitBlocks : List Block → List BlockCode
  | [] => []
  | b :: rest => emitBlock b :: emitBlocks rest

end

/-- Emits a program. -/
def emitProgram (p : Program) : TryEmit Unit := emitStmts p.statements

/-- Runs an emission; yields the failure, if any, and the state reached. -/
def Emitter.run {α : Type} (e : Emitter) (step : TryEmit α) : Except Failure α × Emitter :=
  StateT.run (ExceptT.run step) e

end Goat
