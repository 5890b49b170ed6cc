import Goat.Builtin
import Goat.Emitter.CellList
import Goat.Program.Basic

/-!
# Code for expressions

Stores the value of an expression in a variable, after checking that it fits.
-/

namespace Goat

open Diagnostic

/-- The declared variable of a name. -/
def lookup (name : Text) (span : Span) : TryEmit Variable := do
  let e ← get
  match e.find? name with
  | some v => return v
  | none =>
    throw ((Failure.ofCause (.undefinedVariable name) span).suggesting name
      (e.declared.map Prod.fst))

/-- The list that a variable is; anything else cannot be indexed. -/
def indexable (v : Variable) (span : Span) : TryEmit CellList :=
  match v with
  | .list l => return l
  | .int c => reject (.notIndexable Cell.typeName c.name) span

/-- The element at a constant index, which must be below the length. -/
def CellList.elementAt (l : CellList) (index : Nat) (span : Span) : TryEmit Cell :=
  if index < l.length then return l.element index
  else reject (.indexOutOfRange l.name l.length index) span

/-- The cell that a variable is; a value of type `source` does not fit a list. -/
def expectInt (target : Variable) (source : Text) (span : Span) : TryEmit Cell :=
  match target with
  | .int c => return c
  | .list l => reject (.typeMismatch source l.typeName) span

/-- The list that a variable is; a value of type `source` does not fit a cell. -/
def expectList (target : Variable) (source : Text) (span : Span) : TryEmit CellList :=
  match target with
  | .list l => return l
  | .int _ => reject (.typeMismatch source Cell.typeName) span

/-- Copies a whole variable into another of the same type. -/
def copyVariable (target source : Variable) (span : Span) : TryEmit Unit :=
  match target, source with
  | .int t, .int s => t.set s
  | .list t, .list s =>
    if s.length = t.length then t.set s
    else reject (.lengthMismatch t.name t.length s.length) span
  | _, _ => reject (.typeMismatch source.typeName target.typeName) span

mutual

/-- Stores the value of an expression in a variable. -/
def emitExpr (target : Variable) : Expr → TryEmit Unit
  | .number value span => do
    let t ← expectInt target "Number" span
    t.setConst value
  | .list items span => do
    let t ← expectList target "List" span
    if items.length ≠ t.length then
      reject (.lengthMismatch t.name t.length items.length) span
    emitItems t 0 items
  | .var name span => do
    let source ← lookup name span
    copyVariable target source span
  | .element name index span => do
    let source ← lookup name span
    let list ← indexable source span
    let t ← expectInt target Cell.typeName span
    match index with
    | .number value indexSpan => do
      let element ← list.elementAt value indexSpan
      t.set element
    | index => do
      let position ← Cell.temporary
      emitExpr (.int position) index
      let value ← list.get position
      t.take value
      value.destroy
      position.destroy
  | .binary op left right span => do
    let t ← expectInt target Cell.typeName span
    let l ← Cell.temporary
    emitExpr (.int l) left
    let r ← Cell.temporary
    emitExpr (.int r) right
    Emit.trace (Text.join ["apply ", op.symbol])
    l.apply op r
    t.take l
    r.destroy
    l.destroy

/-- Stores the items of a list, one after the other, from element `k` on. -/
def emitItems (list : CellList) (k : Nat) : List Expr → TryEmit Unit
  | [] => return
  | item :: rest => do
    emitExpr (.int (list.element k)) item
    emitItems list (k + 1) rest

end

/-- A new temporary with the value of an expression. -/
def evaluate (e : Expr) : TryEmit Cell := do
  let t ← Cell.temporary
  emitExpr (.int t) e
  return t

end Goat
