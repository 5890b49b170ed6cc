import Goat.Compilation.Basic
import Goat.Proofs.Effects
import Goat.Proofs.SyntaxErrors

/-!
# Diagnostics point into the source

The emitter rejects a program at the span of one of its parts, so its failures point into the
source as those of reading do. Every failure of a compilation can therefore be shown below the
line of its source that it points at.
-/

namespace Goat

open Diagnostic

/-- A failure of the step is one of emission that points at tokens of the source. -/
class RejectsWithin (source : Text) {α : Type} (m : TryEmit α) : Prop where
  of_error : ∀ {e e' : Emitter} {f : Failure}, e.run m = (.error f, e') →
    f.kind = .compileError ∧ f.span.Within source

section Combinators

variable {source : Text} {α β : Type}

instance (a : α) : RejectsWithin source (pure a : TryEmit α) where
  of_error h := by cases h

instance : RejectsWithin source (get : TryEmit Emitter) where
  of_error h := by cases h

instance (step : Emitter → Emitter) : RejectsWithin source (modify step : TryEmit Unit) where
  of_error h := by cases h

instance (m : Emit α) : RejectsWithin source (liftM m : TryEmit α) where
  of_error h := by cases h

theorem RejectsWithin.bind {m : TryEmit α} {k : α → TryEmit β} (hm : RejectsWithin source m)
    (hk : ∀ a, RejectsWithin source (k a)) : RejectsWithin source (m >>= k) where
  of_error {e e' f} h := by
    rcases hrun : e.run m with ⟨failure | a, e₁⟩
    · rw [Emitter.run_bind_of_error hrun] at h
      cases h
      exact hm.of_error hrun
    · rw [Emitter.run_bind hrun] at h
      exact (hk a).of_error h

instance (m : TryEmit α) (k : α → TryEmit β) [hm : RejectsWithin source m]
    [hk : ∀ a, RejectsWithin source (k a)] : RejectsWithin source (m >>= k) := .bind hm hk

instance (p : Prop) [Decidable p] (m m' : TryEmit α) [hm : RejectsWithin source m]
    [hm' : RejectsWithin source m'] : RejectsWithin source (if p then m else m') := by
  split
  · exact hm
  · exact hm'

variable {span : Span}

theorem rejectsWithin_reject {cause : Cause} (hkind : cause.kind = .compileError)
    (hspan : span.Within source) : RejectsWithin source (reject cause span : TryEmit α) where
  of_error h := by
    cases h
    exact ⟨(Failure.kind_ofCause cause span).trans hkind, hspan⟩

/-- A hint more changes neither the kind nor the place of a failure. -/
theorem rejectsWithin_suggesting {cause : Cause} (hkind : cause.kind = .compileError)
    (hspan : span.Within source) (input : Text) (candidates : List Text) :
    RejectsWithin source
      (throw ((Failure.ofCause cause span).suggesting input candidates) : TryEmit α) where
  of_error h := by
    cases h
    rw [Failure.suggesting]
    split <;> exact ⟨(Failure.kind_ofCause cause span).trans hkind, hspan⟩

end Combinators

section Expressions

variable {source : Text} {span : Span} (h : span.Within source)

include h

theorem rejectsWithin_lookup (name : Text) : RejectsWithin source (lookup name span) := by
  unfold lookup
  refine .bind inferInstance fun e => ?_
  cases e.find? name with
  | some v => infer_instance
  | none => exact rejectsWithin_suggesting rfl h _ _

theorem rejectsWithin_indexable (v : Variable) : RejectsWithin source (indexable v span) := by
  cases v with
  | int c => exact rejectsWithin_reject rfl h
  | list l =>
    unfold indexable
    infer_instance

theorem rejectsWithin_elementAt (l : CellList) (index : Nat) :
    RejectsWithin source (l.elementAt index span) := by
  unfold CellList.elementAt
  split
  · infer_instance
  · exact rejectsWithin_reject rfl h

theorem rejectsWithin_expectInt (target : Variable) (type : Text) :
    RejectsWithin source (expectInt target type span) := by
  cases target with
  | int c =>
    unfold expectInt
    infer_instance
  | list l => exact rejectsWithin_reject rfl h

theorem rejectsWithin_expectList (target : Variable) (type : Text) :
    RejectsWithin source (expectList target type span) := by
  cases target with
  | int c => exact rejectsWithin_reject rfl h
  | list l =>
    unfold expectList
    infer_instance

theorem rejectsWithin_copyVariable (target value : Variable) :
    RejectsWithin source (copyVariable target value span) := by
  unfold copyVariable
  split
  · infer_instance
  · split
    · infer_instance
    · exact rejectsWithin_reject rfl h
  · exact rejectsWithin_reject rfl h

end Expressions

variable {source : Text}

set_option synthInstance.maxSize 4000 in
mutual

theorem rejectsWithin_emitExpr (target : Variable) : (x : Expr) → x.Within source →
    RejectsWithin source (emitExpr target x)
  | .number value span, h => by
    have := rejectsWithin_expectInt h target "Number"
    rw [emitExpr]
    infer_instance
  | .list items span, h => by
    have := rejectsWithin_expectList h.1 target "List"
    have (t : CellList) := rejectsWithin_emitItems t 0 items h.2
    have (t : CellList) : RejectsWithin source
        (reject (.lengthMismatch t.name t.length items.length) span : TryEmit PUnit) :=
      rejectsWithin_reject rfl h.1
    rw [emitExpr]
    infer_instance
  | .var name span, h => by
    have := rejectsWithin_lookup h name
    have := rejectsWithin_copyVariable h target
    rw [emitExpr]
    infer_instance
  | .element name index span, h => by
    have := rejectsWithin_lookup h.1 name
    have := rejectsWithin_indexable h.1
    have := rejectsWithin_expectInt h.1 target Cell.typeName
    have (t : Cell) := rejectsWithin_emitExpr (.int t) index h.2
    rcases index.number_or_computed with ⟨value, indexSpan, rfl⟩ | hcomputed
    · have (l : CellList) := rejectsWithin_elementAt h.2 l value
      rw [emitExpr]
      infer_instance
    · rw [emitExpr_element_computed hcomputed]
      infer_instance
  | .binary op left right span, h => by
    have := rejectsWithin_expectInt h.1 target Cell.typeName
    have (t : Cell) := rejectsWithin_emitExpr (.int t) left h.2.1
    have (t : Cell) := rejectsWithin_emitExpr (.int t) right h.2.2
    rw [emitExpr]
    infer_instance

theorem rejectsWithin_emitItems (l : CellList) (k : Nat) : (items : List Expr) →
    Expr.AllWithin source items → RejectsWithin source (emitItems l k items)
  | [], _ => by
    rw [emitItems]
    infer_instance
  | item :: rest, h => by
    have := rejectsWithin_emitExpr (.int (l.element k)) item h.1
    have := rejectsWithin_emitItems l (k + 1) rest h.2
    rw [emitItems]
    infer_instance

end

theorem rejectsWithin_evaluate {x : Expr} (h : x.Within source) :
    RejectsWithin source (evaluate x) := by
  have (t : Cell) := rejectsWithin_emitExpr (.int t) x h
  unfold evaluate
  infer_instance

section Statements

variable {function : Text}

theorem rejectsWithin_allocateDeclared (type : DataType) {d : Declaration} (h : d.Within source) :
    RejectsWithin source (allocateDeclared type d) := by
  unfold allocateDeclared
  split
  · infer_instance
  · rename_i argument hargument
    exact rejectsWithin_reject rfl (h.argument argument hargument)
  · exact rejectsWithin_reject rfl h.typeSpan
  · rename_i argument hargument
    split
    · infer_instance
    · exact rejectsWithin_reject rfl (h.argument argument hargument)

theorem rejectsWithin_emitDeclaration {d : Declaration} (h : d.Within source) :
    RejectsWithin source (emitDeclaration d) := by
  have : RejectsWithin source (reject (.invalidName d.name) d.nameSpan : TryEmit PUnit) :=
    rejectsWithin_reject rfl h.nameSpan
  have : RejectsWithin source (reject (.redeclaration d.name) d.nameSpan : TryEmit PUnit) :=
    rejectsWithin_reject rfl h.nameSpan
  have : RejectsWithin source (throw ((Failure.ofCause (.unknownType d.typeName)
      d.typeSpan).suggesting d.typeName DataType.names) : TryEmit Unit) :=
    rejectsWithin_suggesting rfl h.typeSpan _ _
  have (type : DataType) := rejectsWithin_allocateDeclared type h
  have (v : Variable) := rejectsWithin_emitExpr v d.value h.value
  unfold emitDeclaration
  cases DataType.ofName? d.typeName <;> infer_instance

theorem rejectsWithin_emitAssignment {a : Assignment} (h : a.Within source) :
    RejectsWithin source (emitAssignment a) := by
  obtain ⟨name, nameSpan, index, value, span⟩ := a
  have := rejectsWithin_lookup h.nameSpan name
  have := rejectsWithin_indexable h.nameSpan
  have (v : Variable) : RejectsWithin source (emitExpr v value) :=
    rejectsWithin_emitExpr v value h.value
  have : RejectsWithin source (evaluate value) := rejectsWithin_evaluate h.value
  rcases index with _ | index
  · unfold emitAssignment
    infer_instance
  · have hindex : index.Within source := h.index index rfl
    rcases index.number_or_computed with ⟨k, indexSpan, rfl⟩ | hcomputed
    · have (l : CellList) := rejectsWithin_elementAt hindex l k
      unfold emitAssignment
      infer_instance
    · have := rejectsWithin_evaluate hindex
      rw [emitAssignment_computed nameSpan span hcomputed]
      infer_instance

theorem rejectsWithin_variableArgument {x : Expr} (h : x.Within source) :
    RejectsWithin source (variableArgument function x) := by
  cases x with
  | var name span => exact rejectsWithin_lookup h name
  | _ => exact rejectsWithin_reject rfl h.span

theorem rejectsWithin_emitOutput (cell : Cell → Emit Unit) (list : CellList → Emit Unit) {x : Expr}
    (h : x.Within source) : RejectsWithin source (emitOutput cell list x) := by
  have := rejectsWithin_evaluate h
  cases x with
  | var name span =>
    unfold emitOutput
    refine .bind (rejectsWithin_lookup h name) fun v => ?_
    cases v <;> infer_instance
  | _ =>
    unfold emitOutput
    infer_instance

theorem rejectsWithin_emitInput (read : Cell → Emit Unit) {x : Expr} (h : x.Within source) :
    RejectsWithin source (emitInput function read x) := by
  cases x with
  | var name span =>
    unfold emitInput
    refine .bind (rejectsWithin_lookup h name) fun v => ?_
    cases v with
    | int c => infer_instance
    | list l => exact rejectsWithin_reject rfl h
  | element name index span =>
    have := rejectsWithin_lookup h.1 name
    have := rejectsWithin_indexable h.1
    rcases index.number_or_computed with ⟨k, indexSpan, rfl⟩ | hcomputed
    · have (l : CellList) := rejectsWithin_elementAt h.2 l k
      unfold emitInput
      infer_instance
    · have := rejectsWithin_evaluate h.2
      rw [emitInput_computed function span hcomputed]
      infer_instance
  | _ => exact rejectsWithin_reject rfl h.span

theorem rejectsWithin_loopVariables {element list : Expr} (helement : element.Within source)
    (hlist : list.Within source) : RejectsWithin source (loopVariables function element list) := by
  unfold loopVariables
  refine .bind (rejectsWithin_variableArgument helement) fun e => ?_
  refine .bind (rejectsWithin_variableArgument hlist) fun l => ?_
  cases e with
  | list cells => exact rejectsWithin_reject rfl helement.span
  | int c =>
    cases l with
    | int _ => exact rejectsWithin_reject rfl hlist.span
    | list cells => infer_instance

theorem rejectsWithin_checkCall (arguments blocks : Nat) {span : Span} (h : span.Within source) :
    RejectsWithin source (checkCall function arguments blocks span) := by
  unfold checkCall
  split
  · exact rejectsWithin_suggesting rfl h _ _
  · rename_i b _
    have (count : Count) (what : Text) (got : Nat) : RejectsWithin source
        (reject (.wrongCount function count what got) span : TryEmit PUnit) :=
      rejectsWithin_reject rfl h
    infer_instance

instance (c : Cell) (body : TryEmit Unit) [RejectsWithin source body] :
    RejectsWithin source (c.tryLoop body) := by
  unfold Cell.tryLoop
  infer_instance

section Blocks

variable {condition : Expr} (hcondition : condition.Within source) (body : TryEmit Unit)
  [RejectsWithin source body]

include hcondition

theorem rejectsWithin_emitIf : RejectsWithin source (emitIf condition body) := by
  have := rejectsWithin_evaluate hcondition
  unfold emitIf
  infer_instance

theorem rejectsWithin_emitIfElse (otherwise : TryEmit Unit) [RejectsWithin source otherwise] :
    RejectsWithin source (emitIfElse condition body otherwise) := by
  have := rejectsWithin_evaluate hcondition
  unfold emitIfElse
  infer_instance

theorem rejectsWithin_emitWhile : RejectsWithin source (emitWhile condition body) := by
  have := rejectsWithin_evaluate hcondition
  have (c : Cell) := rejectsWithin_emitExpr (.int c) condition hcondition
  unfold emitWhile
  infer_instance

end Blocks

set_option synthInstance.maxSize 4000 in
instance (el : Cell) (cells : CellList) (body : TryEmit Unit) [RejectsWithin source body] :
    RejectsWithin source (emitForEach el cells body) := by
  unfold emitForEach
  infer_instance

/-- What the code of a block rejects, and its span, are within the source. -/
structure BlockCode.Within (source : Text) (block : BlockCode) : Prop where
  body : RejectsWithin source block.body
  span : block.span.Within source

theorem rejectsWithin_emitBuiltin (b : Builtin) {arguments : List Expr} {blocks : List BlockCode}
    (harguments : Expr.AllWithin source arguments)
    (hblocks : ∀ block ∈ blocks, block.Within source) :
    RejectsWithin source (emitBuiltin function b arguments blocks) := by
  unfold emitBuiltin
  split
  · exact rejectsWithin_emitOutput _ _ harguments.1
  · exact rejectsWithin_emitOutput _ _ harguments.1
  · exact rejectsWithin_emitInput _ harguments.1
  · exact rejectsWithin_emitInput _ harguments.1
  · rename_i block
    have := (hblocks block (by simp)).body
    exact rejectsWithin_emitIf harguments.1 block.body
  · rename_i block other
    have := (hblocks block (by simp)).body
    have hother := hblocks other (by simp)
    have := hother.body
    have := rejectsWithin_emitIfElse harguments.1 block.body other.body
    have : RejectsWithin source
        (reject (.wrongBlockLabel function other.label) other.span : TryEmit PUnit) :=
      rejectsWithin_reject rfl hother.span
    infer_instance
  · rename_i block
    have := (hblocks block (by simp)).body
    exact rejectsWithin_emitWhile harguments.1 block.body
  · rename_i element list block
    have := (hblocks block (by simp)).body
    have : RejectsWithin source (loopVariables function element list) :=
      rejectsWithin_loopVariables harguments.1 harguments.2.1
    infer_instance
  · infer_instance

mutual

theorem rejectsWithin_emitStmt : (s : Stmt) → s.Within source → RejectsWithin source (emitStmt s)
  | .declaration d, h => by
    rw [emitStmt]
    exact rejectsWithin_emitDeclaration h
  | .assignment a, h => by
    rw [emitStmt]
    exact rejectsWithin_emitAssignment h
  | .call name arguments blocks span, h => by
    have : RejectsWithin source (checkCall name arguments.length blocks.length span) :=
      rejectsWithin_checkCall _ _ h.2.2
    have (b : Builtin) : RejectsWithin source (emitBuiltin name b arguments (emitBlocks blocks)) :=
      rejectsWithin_emitBuiltin b h.1 (within_emitBlocks blocks h.2.1)
    rw [emitStmt]
    infer_instance

theorem rejectsWithin_emitStmts : (statements : List Stmt) → Stmt.AllWithin source statements →
    RejectsWithin source (emitStmts statements)
  | [], _ => by
    rw [emitStmts]
    infer_instance
  | s :: rest, h => by
    have := rejectsWithin_emitStmt s h.1
    have := rejectsWithin_emitStmts rest h.2
    rw [emitStmts]
    infer_instance

theorem within_emitBlocks : (blocks : List Block) → Block.AllWithin source blocks →
    ∀ block ∈ emitBlocks blocks, block.Within source
  | [], _, block, hblock => by
    rw [emitBlocks] at hblock
    cases hblock
  | .mk label body span :: rest, h, block, hblock => by
    rw [emitBlocks, emitBlock, List.mem_cons] at hblock
    rcases hblock with rfl | hblock
    · exact ⟨rejectsWithin_emitStmts body h.1, h.2.1⟩
    · exact within_emitBlocks rest h.2.2 block hblock

end

end Statements

/-! ### Compilations -/

/-- What a failure for a source text looks like. -/
structure Failure.IsShownIn (source : Text) (f : Failure) : Prop where
  /-- It starts where a token starts that stands in the source there. -/
  first : ∃ t ∈ Token.ofSource source, t.StandsIn (Text.lines source) ∧
    f.span.startLine = t.span.startLine ∧ f.span.startCol = t.span.startCol
  /-- It ends where a token ends that stands in the source there. -/
  last : ∃ t ∈ Token.ofSource source, t.StandsIn (Text.lines source) ∧
    f.span.endLine = t.span.endLine ∧ f.span.endCol = t.span.endCol
  /-- Its lines and columns are there. -/
  pointsInto : f.span.PointsInto (Text.lines source)
  /-- It is shown with the line above, if there is one, the line that it points at, and carets
      below the span; what follows starts in the same column. -/
  render : ∃ line, (Text.lines source)[(f.span.startLine - 1).toNat]? = some line ∧
    f.renderSource source = Text.intercalate Text.newline
      (((Text.lines source).take (f.span.startLine - 1).toNat).getLast?.toList ++
        [line, Text.join [Text.blanks f.span.startCol.toNat,
          List.replicate (f.span.width line.length) 0x5e, " ", f.span.toText]] ++
        (f.headline :: f.hints).map (Text.blanks f.span.startCol.toNat ++ ·))

theorem Failure.isShownIn_of_within {f : Failure} (h : f.span.Within source) :
    f.IsShownIn source := by
  obtain ⟨first, hfirst, hstart⟩ := h.first
  obtain ⟨last, hlast, hend⟩ := h.last
  obtain ⟨line, hline⟩ := h.pointsInto.exists_line
  exact {
    first := ⟨first, hfirst, Token.standsIn_of_mem_ofSource hfirst, hstart⟩
    last := ⟨last, hlast, Token.standsIn_of_mem_ofSource hlast, hend⟩
    pointsInto := h.pointsInto
    render := ⟨line, hline, Failure.render_of_pointsInto h.pointsInto hline⟩ }

/-- Every diagnostic points into the source. The failure of a source text that does not compile
    is one of syntax if no program can be read from it and one of emission otherwise, reaches
    from a token to a token, and is shown below the line that it points at. -/
theorem Failure.points_into_source {f : Failure} (h : compile source = .error f) :
    f.IsShownIn source ∧ (Program.ofSource source = .error f ∧ f.kind = .syntaxError ∨
      ∃ p e, Program.ofSource source = .ok p ∧ Emitter.run {} (emitProgram p) = (.error f, e) ∧
        f.kind = .compileError) := by
  have hparses := Program.parses_ofSource source
  rw [compile, compileTraced] at h
  cases hread : Program.ofSource source with
  | error f' =>
    simp only [hread] at h
    cases h
    rw [hread] at hparses
    exact ⟨Failure.isShownIn_of_within hparses.2, .inl ⟨rfl, hparses.1⟩⟩
  | ok p =>
    rw [hread] at hparses
    rcases hrun : Emitter.run {} (emitProgram p) with ⟨f' | _, e⟩
    · simp only [hread, hrun] at h
      cases h
      obtain ⟨hkind, hspan⟩ := (rejectsWithin_emitStmts p.statements hparses).of_error hrun
      exact ⟨Failure.isShownIn_of_within hspan, .inr ⟨p, e, rfl, hrun, hkind⟩⟩
    · simp only [hread, hrun] at h
      cases h

/-- A list that is too long for its variable and ends on the line below. -/
def Program.overlongSource : Text := "Int a = 1\nIntList<2> k = [a,\n  2, 3]\nprint(a)"

theorem Failure.points_into_source_overlong :
    ∃ f, compile Program.overlongSource = .error f ∧ f.span = ⟨2, 15, 3, 7⟩ ∧
      f.IsShownIn Program.overlongSource ∧
      (Program.ofSource Program.overlongSource = .error f ∧ f.kind = .syntaxError ∨
        ∃ p e, Program.ofSource Program.overlongSource = .ok p ∧
          Emitter.run {} (emitProgram p) = (.error f, e) ∧ f.kind = .compileError) := by
  have hspan : (match compile Program.overlongSource with
      | .error f => decide (f.span = ⟨2, 15, 3, 7⟩)
      | .ok _ => false) = true := by decide +kernel
  cases hcompile : compile Program.overlongSource with
  | ok c =>
    rw [hcompile] at hspan
    cases hspan
  | error f =>
    rw [hcompile] at hspan
    exact ⟨f, rfl, of_decide_eq_true hspan, Failure.points_into_source hcompile⟩

end Goat
