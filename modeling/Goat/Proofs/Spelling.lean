import Goat.Identifier
import Goat.Program.Basic

/-!
# How programs are spelled

The values of the tokens that a program is written with, in order; which programs
can be written at all; and programs without the spans of what they were read from.
-/

namespace Goat

/-- Values between brackets. -/
def enclosed (opener : Text) (inside : List Text) (closer : Text) : List Text :=
  opener :: (inside ++ [closer])

mutual

/-- The values of the tokens of an expression. -/
def Expr.values : Expr → List Text
  | .number value _ => [Text.ofNat value]
  | .list items _ => enclosed "[" (Expr.itemValues items) "]"
  | .var name _ => [name]
  | .element name index _ => name :: enclosed "[" index.values "]"
  | .binary op left right _ => enclosed "(" (left.values ++ op.symbol :: right.values) ")"

/-- The values of the tokens of expressions with commas between them. -/
def Expr.itemValues : List Expr → List Text
  | [] => []
  | [e] => e.values
  | e :: rest => e.values ++ ("," : Text) :: Expr.itemValues rest

end

/-- The values of the tokens of a declaration. -/
def Declaration.values (d : Declaration) : List Text :=
  match d.argument with
  | some token => d.typeName :: "<" :: token.value :: ">" :: d.name :: "=" :: d.value.values
  | none => d.typeName :: d.name :: "=" :: d.value.values

/-- The values of the tokens of an assignment. -/
def Assignment.values (a : Assignment) : List Text :=
  match a.index with
  | some index => a.name :: (enclosed "[" index.values "]" ++ ("=" : Text) :: a.value.values)
  | none => a.name :: "=" :: a.value.values

/-- The label of a block as it is written. -/
def Block.labelValues (name : Text) : List Text := if name = Block.defaultName then [] else [name]

mutual

/-- The values of the tokens of a statement. -/
def Stmt.values : Stmt → List Text
  | .declaration d => d.values
  | .assignment a => a.values
  | .call name arguments blocks _ =>
    name :: (enclosed "(" (Expr.itemValues arguments) ")" ++ Block.allValues blocks)

/-- The values of the tokens of the blocks of a call. -/
def Block.allValues : List Block → List Text
  | [] => []
  | .mk name body _ :: rest =>
    Block.labelValues name ++ enclosed "\x7b" (Stmt.allValues body) "\x7d" ++
      Block.allValues rest

/-- The values of the tokens of statements. -/
def Stmt.allValues : List Stmt → List Text
  | [] => []
  | s :: rest => s.values ++ Stmt.allValues rest

end

mutual

/-- The expression can be written: its names are identifiers and its numbers fit
    64 bits. -/
def Expr.Spellable : Expr → Prop
  | .number value _ => value < 0x8000000000000000
  | .list items _ => Expr.AllSpellable items
  | .var name _ => isIdentifier name = true
  | .element name index _ => isIdentifier name = true ∧ index.Spellable
  | .binary _ left right _ => left.Spellable ∧ right.Spellable

/-- All the expressions can be written. -/
def Expr.AllSpellable : List Expr → Prop
  | [] => True
  | e :: rest => e.Spellable ∧ Expr.AllSpellable rest

end

mutual

/-- Whether an expression can be written is decided part by part. -/
def Expr.decidableSpellable : (e : Expr) → Decidable e.Spellable
  | .number value _ => inferInstanceAs (Decidable (value < 0x8000000000000000))
  | .list items _ => Expr.decidableAllSpellable items
  | .var name _ => inferInstanceAs (Decidable (isIdentifier name = true))
  | .element name index _ =>
    have := index.decidableSpellable
    inferInstanceAs (Decidable (isIdentifier name = true ∧ index.Spellable))
  | .binary _ left right _ =>
    have := left.decidableSpellable
    have := right.decidableSpellable
    inferInstanceAs (Decidable (left.Spellable ∧ right.Spellable))

@[inherit_doc Expr.decidableSpellable]
def Expr.decidableAllSpellable : (items : List Expr) → Decidable (Expr.AllSpellable items)
  | [] => .isTrue trivial
  | e :: rest =>
    have := e.decidableSpellable
    have := Expr.decidableAllSpellable rest
    inferInstanceAs (Decidable (e.Spellable ∧ Expr.AllSpellable rest))

end

instance (e : Expr) : Decidable e.Spellable := e.decidableSpellable

instance (items : List Expr) : Decidable (Expr.AllSpellable items) :=
  Expr.decidableAllSpellable items

/-- The declaration can be written: its names are identifiers and its type argument,
    if there is one, is a numeral. -/
def Declaration.Spellable (d : Declaration) : Prop :=
  isIdentifier d.typeName = true ∧ (∀ token ∈ d.argument, isNumeral token.value = true) ∧
    isIdentifier d.name = true ∧ d.value.Spellable

/-- The assignment can be written. -/
def Assignment.Spellable (a : Assignment) : Prop :=
  isIdentifier a.name = true ∧ (∀ index ∈ a.index, index.Spellable) ∧ a.value.Spellable

instance (d : Declaration) : Decidable d.Spellable :=
  inferInstanceAs (Decidable (isIdentifier d.typeName = true ∧
    (∀ token ∈ d.argument, isNumeral token.value = true) ∧ isIdentifier d.name = true ∧
    d.value.Spellable))

instance (a : Assignment) : Decidable a.Spellable :=
  inferInstanceAs (Decidable (isIdentifier a.name = true ∧ (∀ index ∈ a.index, index.Spellable) ∧
    a.value.Spellable))

mutual

/-- The statement can be written. -/
def Stmt.Spellable : Stmt → Prop
  | .declaration d => d.Spellable
  | .assignment a => a.Spellable
  | .call name arguments blocks _ =>
    isIdentifier name = true ∧ Expr.AllSpellable arguments ∧ Block.AllSpellable blocks

/-- All the blocks can be written. -/
def Block.AllSpellable : List Block → Prop
  | [] => True
  | .mk name body _ :: rest =>
    isIdentifier name = true ∧ Stmt.AllSpellable body ∧ Block.AllSpellable rest

/-- All the statements can be written. -/
def Stmt.AllSpellable : List Stmt → Prop
  | [] => True
  | s :: rest => s.Spellable ∧ Stmt.AllSpellable rest

end

mutual

/-- Whether a statement can be written is decided part by part. -/
def Stmt.decidableSpellable : (s : Stmt) → Decidable s.Spellable
  | .declaration d => inferInstanceAs (Decidable d.Spellable)
  | .assignment a => inferInstanceAs (Decidable a.Spellable)
  | .call name arguments blocks _ =>
    have := Block.decidableAllSpellable blocks
    inferInstanceAs (Decidable (isIdentifier name = true ∧ Expr.AllSpellable arguments ∧
      Block.AllSpellable blocks))

@[inherit_doc Stmt.decidableSpellable]
def Block.decidableAllSpellable : (blocks : List Block) → Decidable (Block.AllSpellable blocks)
  | [] => .isTrue trivial
  | .mk name body _ :: rest =>
    have := Stmt.decidableAllSpellable body
    have := Block.decidableAllSpellable rest
    inferInstanceAs (Decidable (isIdentifier name = true ∧ Stmt.AllSpellable body ∧
      Block.AllSpellable rest))

@[inherit_doc Stmt.decidableSpellable]
def Stmt.decidableAllSpellable : (stmts : List Stmt) → Decidable (Stmt.AllSpellable stmts)
  | [] => .isTrue trivial
  | s :: rest =>
    have := s.decidableSpellable
    have := Stmt.decidableAllSpellable rest
    inferInstanceAs (Decidable (s.Spellable ∧ Stmt.AllSpellable rest))

end

/-- The program can be written. -/
def Program.Spellable (p : Program) : Prop := Stmt.AllSpellable p.statements

instance (p : Program) : Decidable p.Spellable := Stmt.decidableAllSpellable p.statements

mutual

/-- The expression without its spans. -/
def Expr.withoutSpans : Expr → Expr
  | .number value _ => .number value Span.none
  | .list items _ => .list (Expr.allWithoutSpans items) Span.none
  | .var name _ => .var name Span.none
  | .element name index _ => .element name index.withoutSpans Span.none
  | .binary op left right _ => .binary op left.withoutSpans right.withoutSpans Span.none

/-- The expressions without their spans. -/
def Expr.allWithoutSpans : List Expr → List Expr
  | [] => []
  | e :: rest => e.withoutSpans :: Expr.allWithoutSpans rest

end

/-- The token without its span. -/
def Token.withoutSpan (t : Token) : Token := ⟨t.value, Span.none⟩

/-- The declaration without its spans. -/
def Declaration.withoutSpans (d : Declaration) : Declaration :=
  { typeName := d.typeName
    typeSpan := Span.none
    argument := d.argument.map Token.withoutSpan
    name := d.name
    nameSpan := Span.none
    value := d.value.withoutSpans
    span := Span.none }

/-- The assignment without its spans. -/
def Assignment.withoutSpans (a : Assignment) : Assignment :=
  { name := a.name
    nameSpan := Span.none
    index := a.index.map Expr.withoutSpans
    value := a.value.withoutSpans
    span := Span.none }

mutual

/-- The statement without its spans. -/
def Stmt.withoutSpans : Stmt → Stmt
  | .declaration d => .declaration d.withoutSpans
  | .assignment a => .assignment a.withoutSpans
  | .call name arguments blocks _ =>
    .call name (Expr.allWithoutSpans arguments) (Block.allWithoutSpans blocks) Span.none

/-- The blocks without their spans. -/
def Block.allWithoutSpans : List Block → List Block
  | [] => []
  | .mk name body _ :: rest =>
    .mk name (Stmt.allWithoutSpans body) Span.none :: Block.allWithoutSpans rest

/-- The statements without their spans. -/
def Stmt.allWithoutSpans : List Stmt → List Stmt
  | [] => []
  | s :: rest => s.withoutSpans :: Stmt.allWithoutSpans rest

end

/-- The program without its spans. -/
def Program.withoutSpans (p : Program) : Program := ⟨Stmt.allWithoutSpans p.statements⟩

end Goat
