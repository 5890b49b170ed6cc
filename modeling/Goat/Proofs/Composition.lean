import Goat.Compilation.Basic
import Goat.Proofs.Effects
import Goat.Proofs.SpanErasure

/-!
# What emission is put together from

The operations on cells and lists are put together from a few primitive steps, and so are the
steps that emit a program and those that emit it without its spans: they go through the same
primitive steps, in pairs. This is shown once, along the definitions of the emitter. What holds
of the primitive steps and carries over to steps put together then holds of whole programs, as
that every command that reads comes right after commands that clear the cell it reads into.
-/

namespace Goat

open Diagnostic

/-- Every command that reads comes right after commands that clear its cell. -/
inductive ClearedReads : List Command → Prop
  | nil : ClearedReads []
  | other {c : Command} {rest : List Command} (hc : c ≠ .read) (h : ClearedReads rest) :
      ClearedReads (c :: rest)
  | read {rest : List Command} (h : ClearedReads rest) :
      ClearedReads (.loopStart :: .decrement :: .loopEnd :: .read :: rest)

namespace ClearedReads

variable {code code' : List Command}

theorem append (h : ClearedReads code) (h' : ClearedReads code') :
    ClearedReads (code ++ code') := by
  induction h with
  | nil => exact h'
  | other hc _ ih => exact .other hc ih
  | read _ ih => exact .read ih

theorem of_not_mem (h : .read ∉ code) : ClearedReads code := by
  induction code with
  | nil => exact .nil
  | cons c rest ih =>
    rw [List.mem_cons, not_or] at h
    exact .other (Ne.symm h.1) (ih h.2)

theorem replicate (n : Nat) {c : Command} (hc : c ≠ .read) : ClearedReads (List.replicate n c) :=
  of_not_mem fun h => hc (List.eq_of_mem_replicate h).symm

theorem moves (source target : Int) : ClearedReads (Layout.moves source target) := by
  rw [Layout.moves]
  split
  · exact replicate _ (by decide)
  · exact replicate _ (by decide)

theorem of_cons {c : Command} (h : ClearedReads (c :: code)) (hc : c ≠ .loopStart) :
    c ≠ .read ∧ ClearedReads code := by
  cases h with
  | other hread hrest => exact ⟨hread, hrest⟩
  | read => exact absurd rfl hc

/-- After a cell was cleared, the next command may read. -/
theorem of_clear {c : Command} (h : ClearedReads (.loopStart :: c :: .loopEnd :: code))
    (hc : c ≠ .loopStart) :
    ClearedReads code ∨ ∃ rest, code = .read :: rest ∧ ClearedReads rest := by
  cases h with
  | other _ hrest => exact .inl ((hrest.of_cons hc).2.of_cons (by simp)).2
  | read hrest => exact .inr ⟨_, rfl, hrest⟩

end ClearedReads

/-- A step of the builder adds to the code, and what it adds reads into cleared cells only. -/
def Builder.Adds (step : Builder → Builder) : Prop :=
  ∀ b, ∃ piece, ClearedReads piece ∧ (step b).code.toList = b.code.toList ++ piece

namespace Builder

theorem toList_code_emit (b : Builder) (code : List Command) :
    (b.emit code).code.toList = b.code.toList ++ code := by
  induction code generalizing b with
  | nil => simp [Builder.emit]
  | cons c rest ih =>
    have hstep : b.emit (c :: rest) = (b.push c).emit rest := rfl
    rw [hstep, ih]
    simp [Builder.push]

/-- A step that goes to a cell and writes commands there. -/
theorem Adds.of_append {step : Builder → Builder} (cell : Int) {code : List Command}
    (hcode : ClearedReads code) (h : ∀ b, step b = (b.moveTo cell).append code) : Adds step := by
  intro b
  refine ⟨Layout.moves b.layout.pointer cell ++ code, (ClearedReads.moves _ _).append hcode, ?_⟩
  simp [h, Builder.append, Builder.moveTo, Layout.moveTo]

theorem adds_add (cell n : Int) : Adds (·.add cell n) := by
  by_cases hzero : n = 0
  · exact fun b => ⟨[], .nil, by simp [Builder.add, hzero]⟩
  · by_cases hpos : 0 < n
    · have hcode : ClearedReads (List.replicate n.toNat .increment) := .replicate _ (by decide)
      exact .of_append cell hcode fun b => by
        simp only [Builder.add, hzero, hpos, if_true, if_false]
    · have hcode : ClearedReads (List.replicate (-n).toNat .decrement) := .replicate _ (by decide)
      exact .of_append cell hcode fun b => by
        simp only [Builder.add, hzero, hpos, if_false]

/-- The command that reads comes after those that clear the cell. -/
theorem adds_input (cell : Int) : Adds fun b => (b.clear cell).emit [.read] := by
  intro b
  refine ⟨Layout.moves b.layout.pointer cell ++ [.loopStart, .decrement, .loopEnd, .read],
    (ClearedReads.moves _ _).append (.read .nil), ?_⟩
  rw [toList_code_emit]
  simp [Builder.clear, Builder.append, Builder.moveTo, Layout.moveTo]

/-- A walk along a list reads no input. -/
theorem adds_walk {code : List Command} (hcode : .read ∉ code) (cell : Int) :
    Adds (·.emitEndingAt code cell) :=
  fun b => ⟨code, .of_not_mem hcode, by simp [Builder.emitEndingAt]⟩

end Builder

/-- The step is put together from primitive steps of emission. -/
class inductive Composed : {α : Type} → Emit α → Prop where
  | pure {α : Type} (a : α) : Composed (pure a : Emit α)
  | bind {α β : Type} {m : Emit α} {k : α → Emit β} (hm : Composed m)
      (hk : ∀ a, Composed (k a)) : Composed (m >>= k)
  | build {step : Builder → Builder} (h : Builder.Adds step) : Composed (Emit.build step)
  | trace (line : Text) : Composed (Emit.trace line)
  | allocate (length : Int) : Composed (Emit.allocate length)
  | release (region : Region) : Composed (Emit.release region)

namespace Composed

section Combinators

variable {α β : Type}

instance (a : α) : Composed (Pure.pure a : Emit α) := .pure a

instance (m : Emit α) (k : α → Emit β) [hm : Composed m] [hk : ∀ a, Composed (k a)] :
    Composed (m >>= k) := .bind hm hk

instance (p : Prop) [Decidable p] (m m' : Emit α) [hm : Composed m] [hm' : Composed m'] :
    Composed (if p then m else m') := by
  split
  · exact hm
  · exact hm'

instance (l : List β) (k : β → Emit PUnit) [hk : ∀ b, Composed (k b)] : Composed (l.forM k) := by
  induction l with
  | nil => exact .pure ()
  | cons b rest ih => exact .bind (hk b) fun _ => ih

instance (line : Text) : Composed (Emit.trace line) := .trace line

instance (length : Int) : Composed (Emit.allocate length) := .allocate length

instance (region : Region) : Composed (Emit.release region) := .release region

instance (cell : Int) : Composed (Emit.moveTo cell) :=
  .build (.of_append cell .nil fun b => by simp [Builder.append])

instance : Composed (Emit.commands [.write]) :=
  .build fun b => ⟨[.write], .other (by decide) .nil, b.toList_code_emit _⟩

end Combinators

section Cells

instance (name : Text) : Composed (Cell.new name) := by
  unfold Cell.new
  infer_instance

instance : Composed Cell.temporary := inferInstanceAs (Composed (Cell.new []))

instance (c : Cell) (n : Int) : Composed (c.add n) := .build (Builder.adds_add c.address n)

instance (c : Cell) : Composed c.reset :=
  .build (.of_append c.address (.of_not_mem (by decide)) fun _ => rfl)

instance (cell : Int) : Composed (Emit.build (·.openLoop cell)) :=
  .build (.of_append cell (.of_not_mem (by decide)) fun _ => rfl)

instance (cell : Int) : Composed (Emit.build (·.closeLoop cell)) :=
  .build (.of_append cell (.of_not_mem (by decide)) fun _ => rfl)

instance (c : Cell) (body : Emit Unit) [Composed body] : Composed (c.loop body) := by
  unfold Cell.loop
  infer_instance

instance (c : Cell) : Composed c.destroy := by
  unfold Cell.destroy
  infer_instance

instance (c : Cell) (n : Int) : Composed (c.setConst n) := by
  unfold Cell.setConst
  infer_instance

instance (c source : Cell) : Composed (c.drain source) := by
  unfold Cell.drain
  infer_instance

instance (c source : Cell) : Composed (c.take source) := by
  unfold Cell.take
  infer_instance

instance (c : Cell) : Composed c.clone := by
  unfold Cell.clone
  infer_instance

instance (c y : Cell) (body : Cell → Emit Unit) [∀ y, Composed (body y)] :
    Composed (c.withDistinct y body) := by
  unfold Cell.withDistinct
  infer_instance

instance (c y : Cell) (sign : Int) : Composed (c.accumulate y sign) := by
  unfold Cell.accumulate
  infer_instance

instance (c source : Cell) : Composed (c.set source) := by
  unfold Cell.set Cell.plus
  infer_instance

instance (c y : Cell) : Composed (c.times y) := by
  unfold Cell.times
  infer_instance

instance (y countdown t : Cell) : Composed (Cell.reload y countdown t) := by
  unfold Cell.reload
  infer_instance

-- The longer operations, as this one, are put together from more steps than an instance is
-- searched for by default.
set_option synthInstance.maxSize 4000 in
instance (c y : Cell) : Composed (c.dividedBy y) := by
  unfold Cell.dividedBy
  infer_instance

instance (c y : Cell) : Composed (c.difference y) := by
  unfold Cell.difference
  infer_instance

set_option synthInstance.maxSize 4000 in
instance (c a b : Cell) : Composed (c.lessThan a b) := by
  unfold Cell.lessThan
  infer_instance

instance (c : Cell) (op : Operator) (y : Cell) : Composed (c.apply op y) := by
  cases op <;>
    simp only [Cell.apply, Cell.plus, Cell.minus, Cell.power, Cell.equals, Cell.differs,
      Cell.negate] <;> infer_instance

instance (c : Cell) : Composed c.print := by
  unfold Cell.print
  infer_instance

instance (c : Cell) : Composed c.input := .build (Builder.adds_input c.address)

set_option synthInstance.maxSize 4000 in
instance (c : Cell) (k : Int) (body : Emit Unit) [Composed body] :
    Composed (c.ifEquals k body) := by
  unfold Cell.ifEquals
  infer_instance

instance (c : Cell) (body : Emit Unit) [Composed body] : Composed (c.ifNonzero body) := by
  unfold Cell.ifNonzero
  infer_instance

set_option synthInstance.maxSize 4000 in
instance (c : Cell) : Composed c.printDecimal := by
  unfold Cell.printDecimal Cell.printDigit
  infer_instance

instance (digit ten more : Cell) : Composed (Cell.readDigit digit ten more) := by
  unfold Cell.readDigit
  infer_instance

set_option synthInstance.maxSize 4000 in
instance (c : Cell) : Composed c.inputDecimal := by
  unfold Cell.inputDecimal Cell.plus
  infer_instance

instance (name : Text) (length : Nat) : Composed (CellList.new name length) := by
  unfold CellList.new
  infer_instance

instance (l source : CellList) : Composed (l.set source) := by
  unfold CellList.set
  infer_instance

instance (l : CellList) (index : Cell) : Composed (l.get index) := by
  have (cell : Int) :
      Composed (Emit.build (·.emitEndingAt
        (CellList.walkForward ++ CellList.readElement ++ CellList.walkBack) cell)) :=
    .build (Builder.adds_walk (by decide +kernel) cell)
  unfold CellList.get
  infer_instance

instance (l : CellList) (index value : Cell) : Composed (l.put index value) := by
  have (cell : Int) :
      Composed (Emit.build (·.emitEndingAt
        (CellList.walkForward ++ CellList.writeElement ++ CellList.walkBack) cell)) :=
    .build (Builder.adds_walk (by decide +kernel) cell)
  unfold CellList.put
  infer_instance

instance (l : CellList) : Composed l.print := by
  unfold CellList.print
  infer_instance

instance (l : CellList) : Composed l.printDecimal := by
  unfold CellList.printDecimal
  infer_instance

end Cells

end Composed

/-- The state without its trace. -/
def Emitter.untraced (e : Emitter) : Emitter := { e with trace := #[] }

theorem Emitter.untraced_eq_iff {e e' : Emitter} : e.untraced = e'.untraced ↔
    e.toBuilder = e'.toBuilder ∧ e.declared = e'.declared := by
  obtain ⟨builder, declared, trace⟩ := e
  obtain ⟨builder', declared', trace'⟩ := e'
  simp [untraced]

theorem Emitter.find?_eq_of_untraced {e e' : Emitter} (h : e.untraced = e'.untraced) :
    e.find? = e'.find? := by
  funext name
  rw [find?, find?, (untraced_eq_iff.1 h).2]

/-- The two steps are put together from the same primitive steps, up to the trace and to where
    they fail. -/
class inductive Alike : {α : Type} → TryEmit α → TryEmit α → Prop where
  | pure {α : Type} (a : α) : Alike (pure a : TryEmit α) (pure a)
  | lift {α : Type} {m : Emit α} (hm : Composed m) : Alike (liftM m : TryEmit α) (liftM m)
  | trace (line line' : Text) : Alike (Emit.trace line : TryEmit Unit) (Emit.trace line')
  | throw {α : Type} {f f' : Failure} (h : f.withoutSpan = f'.withoutSpan) :
      Alike (throw f : TryEmit α) (throw f')
  | declare (name : Text) (v : Variable) :
      Alike (modify fun e => { e with declared := e.declared ++ [(name, v)] } : TryEmit Unit)
        (modify fun e => { e with declared := e.declared ++ [(name, v)] })
  | bind {α β : Type} {m m' : TryEmit α} {k k' : α → TryEmit β} (hm : Alike m m')
      (hk : ∀ a, Alike (k a) (k' a)) : Alike (m >>= k) (m' >>= k')
  /-- What is looked at of the state is not the trace. -/
  | get_bind {β : Type} {k k' : Emitter → TryEmit β}
      (hk : ∀ e e', e.untraced = e'.untraced → Alike (k e) (k' e')) :
      Alike (get >>= k) (get >>= k')

section Combinators

variable {α β : Type}

instance (a : α) : Alike (pure a : TryEmit α) (pure a) := .pure a

instance (m : Emit α) [hm : Composed m] : Alike (liftM m : TryEmit α) (liftM m) := .lift hm

instance (m m' : TryEmit α) (k k' : α → TryEmit β) [hm : Alike m m']
    [hk : ∀ a, Alike (k a) (k' a)] : Alike (m >>= k) (m' >>= k') := .bind hm hk

instance (p : Prop) [Decidable p] (m m' n n' : TryEmit α) [hm : Alike m m'] [hn : Alike n n'] :
    Alike (if p then m else n) (if p then m' else n') := by
  split
  · exact hm
  · exact hn

instance (cause : Cause) (span span' : Span) :
    Alike (reject cause span : TryEmit α) (reject cause span') := .throw rfl

instance (cause : Cause) (span span' : Span) (input : Text) (candidates : List Text) :
    Alike (throw ((Failure.ofCause cause span).suggesting input candidates) : TryEmit α)
      (throw ((Failure.ofCause cause span').suggesting input candidates)) := by
  refine .throw ?_
  rw [Failure.suggesting, Failure.suggesting]
  cases closest? input candidates <;> rfl

instance (name : Text) (v : Variable) :
    Alike (modify fun e => { e with declared := e.declared ++ [(name, v)] } : TryEmit Unit)
      (modify fun e => { e with declared := e.declared ++ [(name, v)] }) := .declare name v

end Combinators

/-! ### Expressions -/

section Expressions

variable (span span' : Span)

instance (name : Text) : Alike (lookup name span) (lookup name span') := by
  unfold lookup
  refine .get_bind fun e e' he => ?_
  rw [Emitter.find?_eq_of_untraced he, (Emitter.untraced_eq_iff.1 he).2]
  cases e'.find? name <;> infer_instance

instance (v : Variable) : Alike (indexable v span) (indexable v span') := by
  cases v <;> unfold indexable <;> infer_instance

instance (l : CellList) (index : Nat) :
    Alike (l.elementAt index span) (l.elementAt index span') := by
  unfold CellList.elementAt
  infer_instance

instance (target : Variable) (source : Text) :
    Alike (expectInt target source span) (expectInt target source span') := by
  cases target <;> unfold expectInt <;> infer_instance

instance (target : Variable) (source : Text) :
    Alike (expectList target source span) (expectList target source span') := by
  cases target <;> unfold expectList <;> infer_instance

instance (target source : Variable) :
    Alike (copyVariable target source span) (copyVariable target source span') := by
  cases target <;> cases source <;> unfold copyVariable <;> infer_instance

end Expressions

theorem Expr.length_allWithoutSpans (items : List Expr) :
    (Expr.allWithoutSpans items).length = items.length := by
  rw [Expr.allWithoutSpans_eq_map, List.length_map]

theorem Expr.Computed.withoutSpans {x : Expr} (h : x.Computed) : x.withoutSpans.Computed := by
  cases x with
  | number k span => exact absurd rfl (h k span)
  | _ =>
    intro k span heq
    rw [Expr.withoutSpans] at heq
    cases heq

set_option synthInstance.maxSize 4000 in
mutual

theorem alike_emitExpr (target : Variable) : (x : Expr) →
    Alike (emitExpr target x) (emitExpr target x.withoutSpans)
  | .number value span => by
    rw [Expr.withoutSpans, emitExpr, emitExpr]
    infer_instance
  | .list items span => by
    have (t : CellList) := alike_emitItems t 0 items
    rw [Expr.withoutSpans, emitExpr, emitExpr, Expr.length_allWithoutSpans]
    infer_instance
  | .var name span => by
    rw [Expr.withoutSpans, emitExpr, emitExpr]
    infer_instance
  | .element name index span => by
    have (t : Cell) := alike_emitExpr (.int t) index
    rw [Expr.withoutSpans]
    rcases index.number_or_computed with ⟨value, indexSpan, rfl⟩ | hcomputed
    · rw [Expr.withoutSpans, emitExpr, emitExpr]
      infer_instance
    · rw [emitExpr_element_computed hcomputed, emitExpr_element_computed hcomputed.withoutSpans]
      infer_instance
  | .binary op left right span => by
    have (t : Cell) := alike_emitExpr (.int t) left
    have (t : Cell) := alike_emitExpr (.int t) right
    rw [Expr.withoutSpans, emitExpr, emitExpr]
    infer_instance

theorem alike_emitItems (l : CellList) (k : Nat) : (items : List Expr) →
    Alike (emitItems l k items) (emitItems l k (Expr.allWithoutSpans items))
  | [] => by
    rw [Expr.allWithoutSpans, emitItems]
    infer_instance
  | item :: rest => by
    have := alike_emitExpr (.int (l.element k)) item
    have := alike_emitItems l (k + 1) rest
    rw [Expr.allWithoutSpans, emitItems, emitItems]
    infer_instance

end

instance (target : Variable) (x : Expr) :
    Alike (emitExpr target x) (emitExpr target x.withoutSpans) := alike_emitExpr target x

instance (x : Expr) : Alike (evaluate x) (evaluate x.withoutSpans) := by
  unfold evaluate
  infer_instance

/-! ### Statements -/

section Statements

variable {function : Text}

instance (type : DataType) (d : Declaration) :
    Alike (allocateDeclared type d) (allocateDeclared type d.withoutSpans) := by
  unfold allocateDeclared Declaration.withoutSpans
  rcases d.argument with _ | argument
  · cases type <;> simp only [Option.map_none] <;> infer_instance
  · cases type with
    | int =>
      simp only [Option.map_some]
      infer_instance
    | intList =>
      simp only [Option.map_some, Token.value_withoutSpan]
      cases listLength? argument.value <;> infer_instance

instance (d : Declaration) : Alike (emitDeclaration d) (emitDeclaration d.withoutSpans) := by
  have hvalue (v : Variable) : Alike (emitExpr v d.value) (emitExpr v d.withoutSpans.value) :=
    alike_emitExpr v d.value
  have hname : d.withoutSpans.name = d.name := rfl
  have htype : d.withoutSpans.typeName = d.typeName := rfl
  rw [emitDeclaration, emitDeclaration, hname, htype]
  cases DataType.ofName? d.typeName with
  | none =>
    simp only
    infer_instance
  | some type =>
    have (span span' : Span) : Alike
        (do
          if ((← get).find? d.name).isSome then reject (.redeclaration d.name) span
          let v ← allocateDeclared type d
          modify fun e => { e with declared := e.declared ++ [(d.name, v)] }
          emitExpr v d.value)
        (do
          if ((← get).find? d.name).isSome then reject (.redeclaration d.name) span'
          let v ← allocateDeclared type d.withoutSpans
          modify fun e => { e with declared := e.declared ++ [(d.name, v)] }
          emitExpr v d.withoutSpans.value) := by
      refine .get_bind fun e e' he => ?_
      rw [Emitter.find?_eq_of_untraced he]
      infer_instance
    simp only
    infer_instance

instance (a : Assignment) : Alike (emitAssignment a) (emitAssignment a.withoutSpans) := by
  obtain ⟨name, nameSpan, index, value, span⟩ := a
  rcases index with _ | index
  · simp only [Assignment.withoutSpans, emitAssignment, Option.map_none]
    infer_instance
  · rcases index.number_or_computed with ⟨k, indexSpan, rfl⟩ | hcomputed
    · simp only [Assignment.withoutSpans, emitAssignment, Option.map_some, Expr.withoutSpans]
      infer_instance
    · simp only [Assignment.withoutSpans, Option.map_some, emitAssignment_computed _ _ hcomputed,
        emitAssignment_computed _ _ hcomputed.withoutSpans]
      infer_instance

instance (x : Expr) :
    Alike (variableArgument function x) (variableArgument function x.withoutSpans) := by
  cases x <;> unfold variableArgument <;> rw [Expr.withoutSpans] <;> infer_instance

instance (cell : Cell → Emit Unit) (list : CellList → Emit Unit) [∀ c, Composed (cell c)]
    [∀ l, Composed (list l)] (x : Expr) :
    Alike (emitOutput cell list x) (emitOutput cell list x.withoutSpans) := by
  have hevaluate : Alike (evaluate x) (evaluate x.withoutSpans) := inferInstance
  cases x with
  | var name span =>
    simp only [Expr.withoutSpans, emitOutput]
    refine .bind inferInstance fun v => ?_
    cases v <;> infer_instance
  | _ =>
    simp only [Expr.withoutSpans, emitOutput] at hevaluate ⊢
    infer_instance

instance (read : Cell → Emit Unit) [∀ c, Composed (read c)] (x : Expr) :
    Alike (emitInput function read x) (emitInput function read x.withoutSpans) := by
  cases x with
  | var name span =>
    simp only [Expr.withoutSpans, emitInput]
    refine .bind inferInstance fun v => ?_
    cases v <;> infer_instance
  | element name index span =>
    rcases index.number_or_computed with ⟨k, indexSpan, rfl⟩ | hcomputed
    · simp only [Expr.withoutSpans, emitInput]
      infer_instance
    · simp only [Expr.withoutSpans, emitInput_computed _ _ hcomputed,
        emitInput_computed _ _ hcomputed.withoutSpans]
      infer_instance
  | _ =>
    simp only [Expr.withoutSpans, emitInput]
    infer_instance

instance (element list : Expr) : Alike (loopVariables function element list)
    (loopVariables function element.withoutSpans list.withoutSpans) := by
  unfold loopVariables
  refine .bind inferInstance fun e => .bind inferInstance fun l => ?_
  cases e with
  | list cells => infer_instance
  | int c => cases l <;> infer_instance

instance (arguments blocks : Nat) (span span' : Span) :
    Alike (checkCall function arguments blocks span)
      (checkCall function arguments blocks span') := by
  have (line line' : Text) := Alike.trace line line'
  unfold checkCall
  cases Builtin.ofName? function <;> infer_instance

instance (c : Cell) (body body' : TryEmit Unit) [Alike body body'] :
    Alike (c.tryLoop body) (c.tryLoop body') := by
  unfold Cell.tryLoop
  infer_instance

section Blocks

variable (condition : Expr) (body body' otherwise otherwise' : TryEmit Unit) [Alike body body']
  [Alike otherwise otherwise']

instance : Alike (emitIf condition body) (emitIf condition.withoutSpans body') := by
  unfold emitIf
  infer_instance

set_option synthInstance.maxSize 4000 in
instance : Alike (emitIfElse condition body otherwise)
    (emitIfElse condition.withoutSpans body' otherwise') := by
  unfold emitIfElse
  infer_instance

instance : Alike (emitWhile condition body) (emitWhile condition.withoutSpans body') := by
  unfold emitWhile
  infer_instance

set_option synthInstance.maxSize 4000 in
instance (el : Cell) (cells : CellList) :
    Alike (emitForEach el cells body) (emitForEach el cells body') := by
  unfold emitForEach
  infer_instance

end Blocks

/-- The two blocks have the same label and do the same. -/
inductive BlockCode.Alike : BlockCode → BlockCode → Prop where
  | mk (label : Text) {body body' : TryEmit Unit} (h : Goat.Alike body body') (span span' : Span) :
      BlockCode.Alike ⟨label, body, span⟩ ⟨label, body', span'⟩

theorem alike_emitBuiltin (b : Builtin) (arguments : List Expr) {blocks blocks' : List BlockCode}
    (hblocks : List.Forall₂ BlockCode.Alike blocks blocks') :
    Alike (emitBuiltin function b arguments blocks)
      (emitBuiltin function b (Expr.allWithoutSpans arguments) blocks') := by
  -- One case for each number of arguments and blocks that some builtin asks for.
  rcases arguments with _ | ⟨x, _ | ⟨y, _ | ⟨z, more⟩⟩⟩ <;>
    rcases hblocks with _ | ⟨⟨label, hbody⟩, _ | ⟨⟨label', hbody'⟩, _ | _⟩⟩ <;>
    cases b <;> simp only [emitBuiltin, Expr.allWithoutSpans] <;> infer_instance

theorem Block.length_allWithoutSpans (blocks : List Block) :
    (Block.allWithoutSpans blocks).length = blocks.length := by
  induction blocks with
  | nil => rfl
  | cons b rest ih =>
    cases b
    rw [Block.allWithoutSpans, List.length_cons, List.length_cons, ih]

mutual

theorem alike_emitStmt : (s : Stmt) → Alike (emitStmt s) (emitStmt s.withoutSpans)
  | .declaration d => by
    rw [Stmt.withoutSpans, emitStmt, emitStmt]
    infer_instance
  | .assignment a => by
    rw [Stmt.withoutSpans, emitStmt, emitStmt]
    infer_instance
  | .call name arguments blocks span => by
    have hblocks := alike_emitBlocks blocks
    have (b : Builtin) : Alike (emitBuiltin name b arguments (emitBlocks blocks))
        (emitBuiltin name b (Expr.allWithoutSpans arguments)
          (emitBlocks (Block.allWithoutSpans blocks))) := alike_emitBuiltin b arguments hblocks
    rw [Stmt.withoutSpans, emitStmt, emitStmt, Expr.length_allWithoutSpans,
      Block.length_allWithoutSpans]
    infer_instance

theorem alike_emitStmts : (statements : List Stmt) →
    Alike (emitStmts statements) (emitStmts (Stmt.allWithoutSpans statements))
  | [] => by
    rw [Stmt.allWithoutSpans, emitStmts]
    infer_instance
  | s :: rest => by
    have := alike_emitStmt s
    have := alike_emitStmts rest
    rw [Stmt.allWithoutSpans, emitStmts, emitStmts]
    infer_instance

theorem alike_emitBlocks : (blocks : List Block) →
    List.Forall₂ BlockCode.Alike (emitBlocks blocks) (emitBlocks (Block.allWithoutSpans blocks))
  | [] => by
    rw [Block.allWithoutSpans, emitBlocks]
    exact .nil
  | .mk label body span :: rest => by
    rw [Block.allWithoutSpans, emitBlocks, emitBlocks, emitBlock, emitBlock]
    exact .cons (.mk label (alike_emitStmts body) span Span.none) (alike_emitBlocks rest)

end

end Statements

/-! ### What is added to the code -/

/-- What a step adds to the code reads into cleared cells only. -/
theorem Composed.exists_added {α : Type} {m : Emit α} (h : Composed m) (e : Emitter) :
    ∃ piece, ClearedReads piece ∧ (m.run e).2.code.toList = e.code.toList ++ piece := by
  induction h generalizing e with
  | pure | trace | allocate | release => exact ⟨[], .nil, (List.append_nil _).symm⟩
  | build h => exact h e.toBuilder
  | @bind _ _ m k _ _ ihm ihk =>
    obtain ⟨piece, hpiece, hcode⟩ := ihm e
    obtain ⟨piece', hpiece', hcode'⟩ := ihk (m.run e).1 (m.run e).2
    refine ⟨piece ++ piece', hpiece.append hpiece', ?_⟩
    change ((k (m.run e).1).run (m.run e).2).2.code.toList = _
    rw [hcode', hcode, List.append_assoc]

theorem Alike.exists_added {α : Type} {m m' : TryEmit α} (h : Alike m m') (e : Emitter) :
    ∃ piece, ClearedReads piece ∧ (e.run m).2.code.toList = e.code.toList ++ piece := by
  induction h generalizing e with
  | pure | trace | throw | declare => exact ⟨[], .nil, (List.append_nil _).symm⟩
  | lift hm => exact hm.exists_added e
  | get_bind _ ih => exact ih e e rfl e
  | @bind _ _ m _ _ _ _ _ ihm ihk =>
    obtain ⟨piece, hpiece, hcode⟩ := ihm e
    rcases hrun : e.run m with ⟨failure | a, e₁⟩ <;> rw [hrun] at hcode
    · rw [Emitter.run_bind_of_error hrun]
      exact ⟨piece, hpiece, hcode⟩
    · obtain ⟨piece', hpiece', hcode'⟩ := ihk a e₁
      refine ⟨piece ++ piece', hpiece.append hpiece', ?_⟩
      rw [Emitter.run_bind hrun, hcode', hcode, List.append_assoc]

/-- The code of a program reads into cleared cells only. -/
theorem clearedReads_emitProgram {p : Program} {result : Except Failure Unit} {e : Emitter}
    (h : Emitter.run {} (emitProgram p) = (result, e)) : ClearedReads e.code.toList := by
  obtain ⟨piece, hpiece, hcode⟩ := (alike_emitStmts p.statements).exists_added {}
  have hrun : Emitter.run {} (emitStmts p.statements) = (result, e) := h
  rw [hrun] at hcode
  rw [hcode]
  simpa using hpiece

end Goat
