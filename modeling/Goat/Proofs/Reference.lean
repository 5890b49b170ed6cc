import Goat.Emitter.Stmt
import Goat.Machine.Basic
import Mathlib.Algebra.Group.Nat.Defs

/-!
# What programs mean

A semantics of programs that knows nothing of tapes. Variables hold bytes or lists of
bytes and are zero until something is stored in them; declaring a variable stores its
initial value. A run takes fuel for the rounds of loops, so that a program that does not
end runs out of it, whatever the amount.
-/

namespace Goat

/-- A comparison as a byte: 1 if it holds and 0 otherwise. -/
def truth (p : Prop) [Decidable p] : UInt8 := if p then 1 else 0

/-- The value of an operator. Everything is modulo 256, a quotient is rounded down, and
    dividing by zero yields zero. -/
def Operator.eval : Operator → UInt8 → UInt8 → UInt8
  | .add, a, b => a + b
  | .sub, a, b => a - b
  | .mul, a, b => a * b
  | .div, a, b => if b = 0 then 0 else a / b
  | .pow, a, b => UInt8.ofNat (a.toNat ^ b.toNat)
  | .eq, a, b => truth (a = b)
  | .neq, a, b => truth (a ≠ b)
  | .lt, a, b => truth (a < b)
  | .lte, a, b => truth (a ≤ b)
  | .gt, a, b => truth (b < a)
  | .gte, a, b => truth (b ≤ a)

namespace Reference

open Machine (EndOfInput)

/-- What a variable holds. -/
inductive Value where
  | int (byte : UInt8)
  | list (bytes : List UInt8)
  deriving DecidableEq, Repr

/-- Why a run cannot go on. -/
inductive Stuck where
  /-- A computed index is not below the length of its list. -/
  | outOfRange
  /-- The program is not well-formed. -/
  | invalid
  deriving DecidableEq, Repr

/-- What the variables hold; `none` for a name that is no variable. -/
abbrev Store := Text → Option Value

namespace Store

/-- Changes a variable. -/
def set (σ : Store) (name : Text) (value : Value) : Store :=
  fun other => if other = name then some value else σ other

/-- The byte that a variable holds. -/
def byte (σ : Store) (name : Text) : Except Stuck UInt8 :=
  match σ name with
  | some (.int b) => .ok b
  | _ => .error .invalid

/-- The bytes that a variable holds. -/
def bytes (σ : Store) (name : Text) : Except Stuck (List UInt8) :=
  match σ name with
  | some (.list bs) => .ok bs
  | _ => .error .invalid

theorem set_self (σ : Store) (name : Text) (value : Value) : σ.set name value name = some value :=
  if_pos rfl

theorem set_set (σ : Store) (name : Text) (a b : Value) :
    (σ.set name a).set name b = σ.set name b := by
  funext other
  by_cases hother : other = name
  · simp [set, hother]
  · simp [set, hother]

theorem set_eq_self {σ : Store} {name : Text} {value : Value} (h : σ name = some value) :
    σ.set name value = σ := by
  funext other
  rw [set]
  split
  · rename_i heq
    rw [heq, h]
  · rfl

theorem bytes_set (σ : Store) (name : Text) (bytes : List UInt8) :
    (σ.set name (.list bytes)).bytes name = .ok bytes := by
  rw [Store.bytes, set_self]

end Store

/-- The element at an index. -/
def elementAt (bytes : List UInt8) (index : Nat) (otherwise : Stuck) : Except Stuck UInt8 :=
  match bytes[index]? with
  | some b => .ok b
  | none => .error otherwise

/-- The byte that an expression stands for. -/
def eval (σ : Store) : Expr → Except Stuck UInt8
  | .number value _ => .ok (UInt8.ofNat value)
  | .list _ _ => .error .invalid
  | .var name _ => σ.byte name
  | .element name index _ =>
    match index with
    | .number k _ => do
      let bytes ← σ.bytes name
      elementAt bytes k .invalid
    | index => do
      let bytes ← σ.bytes name
      let k ← eval σ index
      elementAt bytes k.toNat .outOfRange
  | .binary op left right _ => do
    let a ← eval σ left
    let b ← eval σ right
    return op.eval a b

/-- The place in a list that an index stands for. -/
def position (σ : Store) (bytes : List UInt8) : Expr → Except Stuck Nat
  | .number k _ => if k < bytes.length then .ok k else .error .invalid
  | index => do
    let k ← eval σ index
    if k.toNat < bytes.length then .ok k.toNat else .error .outOfRange

/-- Stores a byte in an element of a list. -/
def assignElement (σ : Store) (name : Text) (index : Expr) (b : UInt8) : Except Stuck Store := do
  let bytes ← σ.bytes name
  let k ← position σ bytes index
  return σ.set name (.list (bytes.set k b))

/-- Stores items in a list one after the other, from element `k` on. Every item is evaluated
    with the items before it in place. -/
def assignItems (name : Text) : (k : Nat) → List Expr → Store → Except Stuck Store
  | _, [], σ => .ok σ
  | k, item :: rest, σ => do
    let b ← eval σ item
    let bytes ← σ.bytes name
    assignItems name (k + 1) rest (σ.set name (.list (bytes.set k b)))

/-- Stores the value of an expression in a variable. -/
def assign (σ : Store) (name : Text) (value : Expr) : Except Stuck Store :=
  match σ name with
  | none => .error .invalid
  | some (.int _) => do
    let b ← eval σ value
    return σ.set name (.int b)
  | some (.list bytes) =>
    match value with
    | .list items _ =>
      if items.length = bytes.length then assignItems name 0 items σ else .error .invalid
    | .var source _ => do
      let others ← σ.bytes source
      if others.length = bytes.length then .ok (σ.set name (.list others)) else .error .invalid
    | _ => .error .invalid

/-- Where a run stands. -/
structure State where
  store : Store
  /-- The input that was not read yet. -/
  input : List UInt8
  output : List UInt8

/-- How a run ended. -/
inductive Outcome where
  | done (ρ : State)
  | stuck (reason : Stuck)
  /-- The run needs more fuel than it was given. -/
  | outOfFuel (ρ : State)

/-- Goes on from where a run ended well. -/
def Outcome.andThen : Outcome → (State → Outcome) → Outcome
  | .done ρ, next => next ρ
  | ended, _ => ended

theorem Outcome.andThen_done (o : Outcome) : o.andThen .done = o := by
  cases o <;> rfl

/-- Goes on with a value, if there is one. -/
def Outcome.withValue {α : Type} (value : Except Stuck α) (next : α → Outcome) : Outcome :=
  match value with
  | .ok a => next a
  | .error reason => .stuck reason

namespace State

/-- Changes what the variables hold. -/
def update (ρ : State) (store : Except Stuck Store) : Outcome :=
  .withValue store fun σ => .done { ρ with store := σ }

/-- Writes bytes. -/
def write (ρ : State) (text : List UInt8) : State := { ρ with output := ρ.output ++ text }

/-- Writes the value of an expression, or every element of a list variable. -/
def print (ρ : State) (form : UInt8 → List UInt8) : Expr → Outcome
  | .var name _ =>
    match ρ.store name with
    | none => .stuck .invalid
    | some (.int b) => .done (ρ.write (form b))
    | some (.list bytes) => .done (ρ.write (bytes.flatMap form))
  | e => .withValue (eval ρ.store e) fun b => .done (ρ.write (form b))

/-- Stores a byte that was read in a variable or an element of a list; `rest` is the input
    after it. -/
def receive (ρ : State) (b : UInt8) (rest : List UInt8) : Expr → Outcome
  | .var name _ =>
    .withValue (ρ.store.byte name) fun _ =>
      .done { ρ with store := ρ.store.set name (.int b), input := rest }
  | .element name index _ =>
    .withValue (assignElement ρ.store name index b) fun σ =>
      .done { ρ with store := σ, input := rest }
  | _ => .stuck .invalid

end State

/-- The next byte of the input and the input after it. A cell that is read into is zero. -/
def readByte (mode : EndOfInput) : List UInt8 → UInt8 × List UInt8
  | [] => (mode.store 0, [])
  | b :: rest => (b, rest)

/-- The number, modulo 256, whose digits come next, after those that made `acc`, and the
    input after the first byte that is no digit. -/
def readNumber (acc : UInt8) : List UInt8 → UInt8 × List UInt8
  | [] => (acc, [])
  | b :: rest => if Text.isDigit b then readNumber (acc * 10 + (b - 48)) rest else (acc, rest)

/-- Repeats `body` while a condition is not zero, for as many rounds as there is fuel. -/
def repeatWhile (condition : Store → Except Stuck UInt8) (body : State → Outcome) :
    (fuel : Nat) → State → Outcome
  | 0, ρ => .withValue (condition ρ.store) fun b => if b = 0 then .done ρ else .outOfFuel ρ
  | fuel + 1, ρ =>
    .withValue (condition ρ.store) fun b =>
      if b = 0 then .done ρ else (body ρ).andThen (repeatWhile condition body fuel)

section RepeatWhile

variable {condition : Store → Except Stuck UInt8} {body : State → Outcome} {ρ : State}

theorem repeatWhile_done (h : condition ρ.store = .ok 0) (fuel : Nat) :
    repeatWhile condition body fuel ρ = .done ρ := by
  cases fuel with
  | zero => rw [repeatWhile, h, Outcome.withValue, if_pos rfl]
  | succ fuel => rw [repeatWhile, h, Outcome.withValue, if_pos rfl]

theorem repeatWhile_stuck {reason : Stuck} (h : condition ρ.store = .error reason) (fuel : Nat) :
    repeatWhile condition body fuel ρ = .stuck reason := by
  cases fuel with
  | zero => rw [repeatWhile, h, Outcome.withValue]
  | succ fuel => rw [repeatWhile, h, Outcome.withValue]

theorem repeatWhile_zero {b : UInt8} (h : condition ρ.store = .ok b) (hb : b ≠ 0) :
    repeatWhile condition body 0 ρ = .outOfFuel ρ := by
  rw [repeatWhile, h, Outcome.withValue, if_neg hb]

theorem repeatWhile_succ {b : UInt8} (h : condition ρ.store = .ok b) (hb : b ≠ 0) (fuel : Nat) :
    repeatWhile condition body (fuel + 1) ρ =
      (body ρ).andThen (repeatWhile condition body fuel) := by
  rw [repeatWhile, h, Outcome.withValue, if_neg hb]

/-- The condition is looked at after every round, so a round may do so as well. -/
theorem repeatWhile_checked (o : Outcome) (fuel : Nat) :
    (o.andThen fun ρ => .withValue (condition ρ.store) fun _ => .done ρ).andThen
        (repeatWhile condition body fuel) =
      o.andThen (repeatWhile condition body fuel) := by
  cases o with
  | done ρ =>
    show (Outcome.withValue (condition ρ.store) fun _ => .done ρ).andThen _ =
      repeatWhile condition body fuel ρ
    cases hvalue : condition ρ.store with
    | error reason =>
      rw [repeatWhile_stuck hvalue]
      rfl
    | ok b => rfl
  | stuck reason => rfl
  | outOfFuel ρ => rfl

end RepeatWhile

/-- Runs `body` for elements of a list, each of which is copied into a variable first. -/
def forEach (element list : Text) (body : State → Outcome) : (indexes : List Nat) → State → Outcome
  | [], ρ => .done ρ
  | k :: rest, ρ =>
    let value := do
      let bytes ← ρ.store.bytes list
      elementAt bytes k .invalid
    .withValue value fun b =>
      (body { ρ with store := ρ.store.set element (.int b) }).andThen
        (forEach element list body rest)

/-- Runs a call of a builtin, given how its blocks run. -/
def call (mode : EndOfInput) (fuel : Nat) :
    Builtin → List Expr → List (State → Outcome) → State → Outcome
  | .print, [value], [], ρ => ρ.print (fun b => [b]) value
  | .printDecimal, [value], [], ρ => ρ.print (fun b => Text.ofNat b.toNat) value
  | .input, [target], [], ρ =>
    let (b, rest) := readByte mode ρ.input
    ρ.receive b rest target
  | .inputDecimal, [target], [], ρ =>
    let (b, rest) := readNumber 0 ρ.input
    ρ.receive b rest target
  | .if_, [condition], [body], ρ =>
    .withValue (eval ρ.store condition) fun b => if b = 0 then .done ρ else body ρ
  | .if_, [condition], [body, otherwise], ρ =>
    .withValue (eval ρ.store condition) fun b => if b = 0 then otherwise ρ else body ρ
  | .while_, [condition], [body], ρ => repeatWhile (fun σ => eval σ condition) body fuel ρ
  | .for_, [.var element _, .var list _], [body], ρ =>
    .withValue (ρ.store.bytes list) fun bytes =>
      forEach element list body (List.range bytes.length) ρ
  | _, _, _, _ => .stuck .invalid

mutual

/-- Runs a statement. -/
def exec (mode : EndOfInput) (fuel : Nat) : Stmt → State → Outcome
  | .declaration d, ρ => ρ.update (assign ρ.store d.name d.value)
  | .assignment a, ρ =>
    match a.index with
    | none => ρ.update (assign ρ.store a.name a.value)
    | some index =>
      .withValue (eval ρ.store a.value) fun b =>
        ρ.update (assignElement ρ.store a.name index b)
  | .call name arguments blocks _, ρ =>
    match Builtin.ofName? name with
    | some b => call mode fuel b arguments (execBlocks mode fuel blocks) ρ
    | none => .stuck .invalid

/-- Runs statements in order. -/
def execAll (mode : EndOfInput) (fuel : Nat) : List Stmt → State → Outcome
  | [], ρ => .done ρ
  | s :: rest, ρ => (exec mode fuel s ρ).andThen (execAll mode fuel rest)

/-- Runs a block. -/
def execBlock (mode : EndOfInput) (fuel : Nat) : Block → State → Outcome
  | .mk _ body _ => execAll mode fuel body

/-- How blocks run. -/
def execBlocks (mode : EndOfInput) (fuel : Nat) : List Block → List (State → Outcome)
  | [] => []
  | b :: rest => execBlock mode fuel b :: execBlocks mode fuel rest

end

end Reference

mutual

/-- The declarations in a statement, in order. -/
def Stmt.declarations : Stmt → List Declaration
  | .declaration d => [d]
  | .assignment _ => []
  | .call _ _ blocks _ => Block.allDeclarations blocks

/-- The declarations in statements, in order. -/
def Stmt.allDeclarations : List Stmt → List Declaration
  | [] => []
  | s :: rest => s.declarations ++ Stmt.allDeclarations rest

/-- The declarations in a block, in order. -/
def Block.declarations : Block → List Declaration
  | .mk _ body _ => Stmt.allDeclarations body

/-- The declarations in blocks, in order. -/
def Block.allDeclarations : List Block → List Declaration
  | [] => []
  | b :: rest => b.declarations ++ Block.allDeclarations rest

end

/-- The builtin repeats its block. -/
def Builtin.isLoop : Builtin → Bool
  | .while_ => true
  | .for_ => true
  | _ => false

mutual

/-- The declarations in a statement that stand in the block of a loop. -/
def Stmt.loopDeclarations : Stmt → List Declaration
  | .declaration _ => []
  | .assignment _ => []
  | .call name _ blocks _ =>
    if (Builtin.ofName? name).any Builtin.isLoop then Block.allDeclarations blocks
    else Block.allLoopDeclarations blocks

/-- The declarations in statements that stand in the block of a loop. -/
def Stmt.allLoopDeclarations : List Stmt → List Declaration
  | [] => []
  | s :: rest => s.loopDeclarations ++ Stmt.allLoopDeclarations rest

/-- The declarations in a block that stand in the block of a loop inside it. -/
def Block.loopDeclarations : Block → List Declaration
  | .mk _ body _ => Stmt.allLoopDeclarations body

/-- The declarations in blocks that stand in the block of a loop inside them. -/
def Block.allLoopDeclarations : List Block → List Declaration
  | [] => []
  | b :: rest => b.loopDeclarations ++ Block.allLoopDeclarations rest

end

/-- What a variable can hold: a byte, or bytes of a fixed number. -/
inductive Kind where
  | int
  | list (length : Nat)
  deriving DecidableEq, Repr

/-- What a variable holds before anything is stored in it. -/
def Kind.zero : Kind → Reference.Value
  | int => .int 0
  | list length => .list (List.replicate length 0)

/-- The kind of variable that a declaration with a type argument declares, if there is one.
    `length?` says which arguments are lengths. -/
def Declaration.kindBy? (length? : Text → Option Nat) (d : Declaration) : Option Kind :=
  match DataType.ofName? d.typeName, d.argument with
  | some .int, none => some .int
  | some .intList, some argument => (length? argument.value).map .list
  | _, _ => none

/-- The length that a numeral gives, if it is one. -/
def numeralLength? (argument : Text) : Option Nat :=
  (Text.toNat? argument).filter fun n => 1 ≤ n && n ≤ 255

/-- The kind of variable that a declaration declares, if its type is one: `Int`, or `IntList`
    with a numeral for its length. -/
def Declaration.kind? (d : Declaration) : Option Kind := d.kindBy? numeralLength?

namespace Reference

open Machine (EndOfInput)

/-- The variables of declarations, all zero. -/
def initialStore (declarations : List Declaration) : Store := fun name =>
  ((declarations.find? fun d => d.name == name).bind Declaration.kind?).map Kind.zero

/-- The state in which a program starts. -/
def start (p : Program) (input : List UInt8) : State :=
  ⟨initialStore (Stmt.allDeclarations p.statements), input, []⟩

/-- Runs a program. -/
def run (mode : EndOfInput) (p : Program) (input : List UInt8) (fuel : Nat) : Outcome :=
  execAll mode fuel p.statements (start p input)

end Reference

end Goat
