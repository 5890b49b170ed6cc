import Goat.Proofs.Effects

/-!
# What is accepted

A statement is accepted exactly if it is well-formed, whatever the regions in use. The
variables in scope after it are those that well-formedness says.
-/

namespace Goat

open Plain (Settings Contents)
open Reference (Store)

/-- The kind of variable that a declaration is given cells for, if there is one. -/
def Declaration.allocatedKind? (d : Declaration) : Option Kind := d.kindBy? listLength?

/-- The step rejects the program if there is no scope after it; otherwise it declares variables
    that lead to this scope and gives its temporaries back. -/
def Accepts (D : Declared) (live : List Region) (m : TryEmit Unit) : Option Scope → Prop
  | none => TryRejects D live m
  | some Γ => ∃ new live', TryBuilds D live m new live' ∧ Grown D live new live' ∧
      Declared.scope (D ++ new) = Γ

theorem TryLeaves.accepts {D : Declared} {live : List Region} {m : TryEmit Unit}
    (h : TryLeaves D live m () live) (hD : Arranged D live) : Accepts D live m (some D.scope) :=
  ⟨[], live, h.builds, .refl hD, by rw [List.append_nil]⟩

/-- What an emission that succeeds declares and keeps in use. -/
theorem Accepts.grown {m : TryEmit Unit} {Γ : Option Scope} {e e' : Emitter}
    (h : Accepts e.declared e.layout.live m Γ) (he : e.layout.Sound)
    (hrun : e.run m = (.ok (), e')) :
    Γ = some (Declared.scope e'.declared) ∧ Extends e e' ∧
      ∃ new, e'.declared = e.declared ++ new ∧
        Grown e.declared e.layout.live new e'.layout.live := by
  cases Γ with
  | none =>
    obtain ⟨f, e₁, hrejects⟩ := h e he rfl rfl
    cases hrun.symm.trans hrejects
  | some Γ =>
    obtain ⟨new, live', hbuilds, hgrown, rfl⟩ := h
    obtain ⟨e₁, hrun', hbuilt⟩ := hbuilds e he rfl rfl
    obtain rfl : e₁ = e' := congrArg Prod.snd (hrun'.symm.trans hrun)
    obtain ⟨hgrows, rfl, hdeclared⟩ := hbuilt
    rw [hdeclared]
    exact ⟨rfl, hgrows, new, rfl, hgrown⟩

/-- So does one that succeeds from the start on. -/
theorem Accepts.built {m : TryEmit Unit} {Γ : Option Scope} (h : Accepts [] [] m Γ) {e : Emitter}
    (hrun : Emitter.run {} m = (.ok (), e)) :
    Γ = some (Declared.scope e.declared) ∧ Extends {} e ∧
      Grown [] [] e.declared e.layout.live := by
  obtain ⟨hscope, hgrows, new, hdeclared, hgrown⟩ := Accepts.grown h Layout.sound_empty hrun
  obtain rfl : e.declared = new := hdeclared
  exact ⟨hscope, hgrows, hgrown⟩

theorem Declared.scope_eq_none {D : Declared} {name : Text} :
    D.scope name = none ↔ D.find? name = none := Option.map_eq_none_iff

theorem Declared.scope_of_find {D : Declared} {name : Text} {v : Variable}
    (h : D.find? name = some v) : D.scope name = some v.kind := by
  rw [Declared.scope, h]
  rfl

section Declaration

variable {D : Declared} {live : List Region} {d : Declaration} {type : DataType} {e : Emitter}

theorem run_emitDeclaration (hid : isIdentifier d.name = true)
    (htype : DataType.ofName? d.typeName = some type) (hfind : e.find? d.name = none) :
    e.run (emitDeclaration d) = e.run (do
      let v ← allocateDeclared type d
      modify fun e => { e with declared := e.declared ++ [(d.name, v)] }
      emitExpr v d.value) := by
  unfold emitDeclaration
  rw [hid]
  simp only [htype]
  show e.run (if (e.find? d.name).isSome then _ else _) = _
  rw [hfind]
  rfl

theorem rejects_redeclaration (hid : isIdentifier d.name = true)
    (htype : DataType.ofName? d.typeName = some type) {v : Variable}
    (hfind : e.find? d.name = some v) : Rejects e (emitDeclaration d) := by
  unfold emitDeclaration
  rw [hid]
  simp only [htype]
  show Rejects e (if (e.find? d.name).isSome then _ else _)
  rw [hfind]
  exact (rejects_reject e _ _).bind _

theorem rejects_invalidName (hid : isIdentifier d.name = false) :
    Rejects e (emitDeclaration d) := by
  unfold emitDeclaration
  rw [hid]
  exact (rejects_reject e _ _).bind _

theorem rejects_unknownType (hid : isIdentifier d.name = true)
    (htype : DataType.ofName? d.typeName = none) : Rejects e (emitDeclaration d) := by
  unfold emitDeclaration
  rw [hid]
  simp only [htype]
  exact ⟨_, _, rfl⟩

/-- Cells for a declaration can be found. -/
theorem exists_allocated (settings : Settings) (hlive : Packed live)
    (htype : DataType.ofName? d.typeName = some type) {kind : Kind}
    (hkind : d.allocatedKind? = some kind) :
    ∃ v live', v.kind = kind ∧ v.Placed live' ∧ Fresh live v.region live' ∧
      ∀ s, TryTakes settings D live (allocateDeclared type d) v live' s s := by
  rw [Declaration.allocatedKind?, Declaration.kindBy?, htype] at hkind
  unfold allocateDeclared
  cases type with
  | int =>
    cases hargument : d.argument with
    | none =>
      simp only [hargument, Option.some.injEq] at hkind
      obtain ⟨c, live', hc, -, hnew⟩ := Cell.exists_taken_new settings hlive d.name
      exact ⟨.int c, live', hkind, hc.fresh.mem, hc.fresh,
        fun s => .bind (hnew s).lift (.pure _ s)⟩
    | some argument => simp [hargument] at hkind
  | intList =>
    cases hargument : d.argument with
    | none => simp [hargument] at hkind
    | some argument =>
      simp only [hargument, Option.map_eq_some_iff] at hkind
      obtain ⟨n, hn, hkind⟩ := hkind
      have hbounds : 0 < n ∧ n < 256 := by
        simp only [listLength?, bind, Option.bind_eq_some_iff] at hn
        obtain ⟨k, -, hk⟩ := hn
        rw [Option.ite_none_right_eq_some, Option.some.injEq, maxListLength] at hk
        omega
      obtain ⟨l, live', hfresh, hplaced, -, hlength, hnew⟩ :=
        CellList.exists_placed_new settings hlive d.name hbounds.1 hbounds.2
      refine ⟨.list l, live', ?_, hplaced, hfresh, fun s => ?_⟩
      · rw [Variable.kind, hlength, hkind]
      · simp only [hn]
        exact .bind (hnew s).lift (.pure _ s)

/-- Without a kind of variable there are no cells. -/
theorem tryRejects_allocate (htype : DataType.ofName? d.typeName = some type)
    (hkind : d.allocatedKind? = none) : TryRejects D live (allocateDeclared type d) := by
  rw [Declaration.allocatedKind?, Declaration.kindBy?, htype] at hkind
  unfold allocateDeclared
  cases type with
  | int =>
    cases hargument : d.argument with
    | none => simp [hargument] at hkind
    | some argument => exact tryRejects_reject _ _
  | intList =>
    cases hargument : d.argument with
    | none => exact tryRejects_reject _ _
    | some argument =>
      simp only [hargument, Option.map_eq_none_iff] at hkind
      simp only [hkind]
      exact tryRejects_reject _ _

/-- A variable can be entered into the table, in fresh cells. -/
theorem exists_entered (settings : Settings) (hD : Arranged D live)
    (htype : DataType.ofName? d.typeName = some type) (hname : D.find? d.name = none) {kind : Kind}
    (hkind : d.allocatedKind? = some kind) :
    ∃ v live', v.kind = kind ∧ Grown D live [(d.name, v)] live' ∧
      ∀ e : Emitter, e.layout.Sound → e.layout.live = live → e.declared = D →
        ∃ e', (∀ k : Variable → TryEmit Unit, e.run (do
            let v ← allocateDeclared type d
            modify fun e => { e with declared := e.declared ++ [(d.name, v)] }
            k v) = e'.run (k v)) ∧
          Built e e' (D ++ [(d.name, v)]) live' ∧ ∀ s, Transforms settings e e' s s := by
  obtain ⟨v, live', hv, hplaced, hfresh, hnew⟩ := exists_allocated settings hD.packed htype hkind
  refine ⟨v, live', hv, .declare hD hname hfresh hplaced, fun e he hlive hdeclared => ?_⟩
  obtain ⟨e₁, hrun, hstep, -⟩ := hnew blank e he hlive hdeclared
  refine ⟨{ e₁ with declared := e₁.declared ++ [(d.name, v)] }, fun k => ?_,
    ⟨⟨hstep.grows.code, hstep.grows.peak, hstep.grows.sound⟩, hstep.live, ?_⟩, fun s => ?_⟩
  · rw [Emitter.run_bind hrun]
    rfl
  · show e₁.declared ++ [(d.name, v)] = _
    rw [hstep.declared, hdeclared]
  · obtain ⟨e₁', hrun', -, ht⟩ := hnew s e he hlive hdeclared
    obtain rfl : e₁' = e₁ := congrArg Prod.snd (hrun'.symm.trans hrun)
    exact ht

theorem exists_type {kind : Kind} (hkind : d.allocatedKind? = some kind) :
    ∃ type, DataType.ofName? d.typeName = some type := by
  cases htype : DataType.ofName? d.typeName with
  | none => simp [Declaration.allocatedKind?, Declaration.kindBy?, htype] at hkind
  | some type => exact ⟨type, rfl⟩

/-- A declaration places its variable in fresh cells; its code is that of the initial value. -/
theorem exists_declared (settings : Settings) (hD : Arranged D live)
    (hid : isIdentifier d.name = true) (hname : D.find? d.name = none) {kind : Kind}
    (hkind : d.allocatedKind? = some kind) :
    ∃ v live', v.kind = kind ∧ Grown D live [(d.name, v)] live' ∧
      ∀ e : Emitter, e.layout.Sound → e.layout.live = live → e.declared = D →
        ∃ e', e.run (emitDeclaration d) = e'.run (emitExpr v d.value) ∧
          Built e e' (D ++ [(d.name, v)]) live' ∧ ∀ s, Transforms settings e e' s s := by
  obtain ⟨type, htype⟩ := exists_type hkind
  obtain ⟨v, live', hv, hgrown, hrun⟩ := exists_entered settings hD htype hname hkind
  refine ⟨v, live', hv, hgrown, fun e he hlive hdeclared => ?_⟩
  have hfind : e.find? d.name = none := by
    rw [← hname, ← hdeclared]
    rfl
  obtain ⟨e', hentered, hrest⟩ := hrun e he hlive hdeclared
  refine ⟨e', ?_, hrest⟩
  rw [run_emitDeclaration hid htype hfind, hentered]

theorem Declared.scope_declare {name : Text} (hname : D.find? name = none) (v : Variable) :
    Declared.scope (D ++ [(name, v)]) = D.scope.declare name v.kind := by
  funext other
  rw [Declared.scope, Declared.find_append, Scope.declare]
  by_cases hother : other = name
  · subst hother
    rw [hname, if_pos rfl]
    simp [Declared.find?]
  · rw [if_neg hother, Declared.scope]
    have hnew : Declared.find? [(name, v)] other = none := by
      simp [Declared.find?, Ne.symm hother]
    rw [hnew, Option.or_none]

theorem Variable.Placed.usable {v : Variable} (h : v.Placed live) : v.Usable live := by
  cases v with
  | int c => exact ⟨c.region, h, Int.le_refl _, Int.le_refl _⟩
  | list l => exact h

/-- The initial value decides whether a fresh variable can be declared. -/
theorem accepts_fresh (hD : Arranged D live) (hid : isIdentifier d.name = true)
    (hname : D.find? d.name = none) {kind : Kind} (hkind : d.allocatedKind? = some kind) :
    Accepts D live (emitDeclaration d)
      (if d.value.fits (D.scope.declare d.name kind) kind = true then
        some (D.scope.declare d.name kind) else none) := by
  obtain ⟨v, live', rfl, hgrown, hrun⟩ := exists_declared {} hD hid hname hkind
  have hmem : (d.name, v) ∈ D ++ [(d.name, v)] := by simp
  have hscope := Declared.scope_declare hname v
  split
  · rename_i hfits
    rw [← hscope] at hfits
    have hvalue : Assigns {} _ live' d.name v d.value :=
      assigns hgrown.arranged (hgrown.arranged.find_of_mem hmem) hfits
    refine ⟨[(d.name, v)], live', fun e he hlive hdeclared => ?_, hgrown, hscope⟩
    obtain ⟨e₁, hrun₁, hstep₁, -⟩ := hrun e he hlive hdeclared
    obtain ⟨e₂, hrun₂, hstep₂⟩ :=
      hvalue.leaves e₁ hstep₁.grows.sound hstep₁.live hstep₁.declared
    exact ⟨e₂, hrun₁.trans hrun₂, hstep₁.grows.trans hstep₂.grows, hstep₂.live,
      hstep₂.declared.trans hstep₁.declared⟩
  · rename_i hfits
    rw [Bool.not_eq_true, ← hscope] at hfits
    have husable := (hgrown.arranged.placed _ _ hmem).usable
    intro e he hlive hdeclared
    obtain ⟨e₁, hrun₁, hstep₁, -⟩ := hrun e he hlive hdeclared
    obtain ⟨f, e', hreject⟩ := tryRejects_emitExpr d.value hgrown.arranged husable hfits e₁
      hstep₁.grows.sound hstep₁.live hstep₁.declared
    exact ⟨f, e', hrun₁.trans hreject⟩

theorem accepts_declaration (hD : Arranged D live) (d : Declaration) :
    Accepts D live (emitDeclaration d)
      ((Stmt.declaration d).scope? Declaration.allocatedKind? D.scope) := by
  have hfind (e : Emitter) (hdeclared : e.declared = D) : e.find? d.name = D.find? d.name := by
    rw [← hdeclared]
    rfl
  -- what is rejected before cells are given out has no scope either
  have hnone (hreject : TryRejects D live (emitDeclaration d))
      (hbad : ¬(isIdentifier d.name = true ∧ D.scope d.name = none)) :
      Accepts D live (emitDeclaration d)
        ((Stmt.declaration d).scope? Declaration.allocatedKind? D.scope) := by
    rw [Stmt.scope?]
    split
    · rwa [if_neg fun h => hbad ⟨h.1, h.2.1⟩]
    · exact hreject
  by_cases hid : isIdentifier d.name = true
  · cases htype : DataType.ofName? d.typeName with
    | none =>
      have hkind : d.allocatedKind? = none := by
        simp [Declaration.allocatedKind?, Declaration.kindBy?, htype]
      rw [Stmt.scope?, hkind]
      exact fun e _ _ _ => rejects_unknownType hid htype
    | some type =>
      cases hname : D.find? d.name with
      | some v =>
        refine hnone (fun e _ _ hdeclared => ?_) fun h => ?_
        · exact rejects_redeclaration hid htype ((hfind e hdeclared).trans hname)
        · rw [Declared.scope_of_find hname] at h
          cases h.2
      | none =>
        rw [Stmt.scope?]
        cases hkind : d.allocatedKind? with
        | none =>
          intro e he hlive hdeclared
          obtain ⟨f, e', hrun⟩ := (tryRejects_allocate htype hkind).bind _ e he hlive hdeclared
          have hunknown := (hfind e hdeclared).trans hname
          exact ⟨f, e', (run_emitDeclaration hid htype hunknown).trans hrun⟩
        | some kind =>
          have hfresh := accepts_fresh hD hid hname hkind
          simpa only [hid, Declared.scope_eq_none.2 hname, true_and] using hfresh
  · refine hnone (fun e _ _ _ => rejects_invalidName ?_) fun h => hid h.1
    simpa using hid

end Declaration

section Assignment

variable {D : Declared} {live : List Region} {name : Text} (nameSpan span : Span)

theorem accepts_whole (hD : Arranged D live) {v : Variable} (hv : D.find? name = some v)
    (value : Expr) :
    Accepts D live (emitAssignment ⟨name, nameSpan, none, value, span⟩)
      (if value.fits D.scope v.kind = true then some D.scope else none) := by
  have hlookup : TryLeaves D live (lookup name nameSpan) v live := tryLeaves_lookup hv nameSpan
  split
  · rename_i hfits
    have hvalue : Assigns {} D live name v value := assigns hD hv hfits
    exact (TryLeaves.bind hlookup hvalue.leaves).accepts hD
  · rename_i hfits
    have husable := (hD.placed _ _ (Declared.mem_of_find hv)).usable
    exact .after hlookup (tryRejects_emitExpr value hD husable (by simpa using hfits))

theorem accepts_element (hD : Arranged D live) {l : CellList} (hl : D.find? name = some (.list l))
    (index value : Expr) :
    Accepts D live (emitAssignment ⟨name, nameSpan, some index, value, span⟩)
      (if index.fitsIndex D.scope l.length = true ∧ value.fits D.scope .int = true then
        some D.scope else none) := by
  have hlookup : TryLeaves D live (lookup name nameSpan) (.list l) live :=
    tryLeaves_lookup hl nameSpan
  have hplaced := hD.placed_list hl
  rcases index.number_or_computed with ⟨k, kspan, rfl⟩ | hcomputed
  · by_cases hk : k < l.length
    · have helement : TryLeaves D live (l.elementAt k kspan) (l.element k) live := by
        rw [CellList.elementAt, if_pos hk]
        exact .pure _
      by_cases hfits : value.fits D.scope .int = true
      · rw [if_pos ⟨by simpa [Expr.fitsIndex] using hk, hfits⟩]
        have hperforms : Performs {} (fun _ => none) D live _ _ :=
          performs_element_constant nameSpan kspan span hD hl hk hfits
        exact hperforms.leaves.accepts hD
      · rw [if_neg fun h => hfits h.2]
        have hreject := tryRejects_emitExpr value (v := .int (l.element k)) hD
          (hplaced.owned_element hk) (Bool.eq_false_iff.2 hfits)
        exact .after hlookup (.after (.pure l) (.after helement hreject))
    · rw [if_neg fun h => hk (by simpa [Expr.fitsIndex] using h.1)]
      exact .after hlookup (.after (.pure l) ((tryRejects_elementAt kspan hk).bind _))
  · rw [Expr.fitsIndex_computed hcomputed]
    by_cases hindex : index.fits D.scope .int = true
    · by_cases hfits : value.fits D.scope .int = true
      · rw [if_pos ⟨hindex, hfits⟩]
        have hperforms : Performs {} (fun _ => none) D live _ _ :=
          performs_element_computed nameSpan span hD hl hcomputed hindex hfits
        exact hperforms.leaves.accepts hD
      · rw [if_neg fun h => hfits h.2, emitAssignment_computed nameSpan span hcomputed]
        obtain ⟨place, live₁, hplace⟩ := exists_evaluated {} hD hindex
        have hreject := tryRejects_evaluate (hD.taken hplace.taken) (by simpa using hfits)
        exact .after hlookup (.after (.pure l) (.after hplace.leaves (hreject.bind _)))
    · rw [if_neg fun h => hindex h.1, emitAssignment_computed nameSpan span hcomputed]
      have hreject := tryRejects_evaluate hD (by simpa using hindex)
      exact .after hlookup (.after (.pure l) (hreject.bind _))

theorem accepts_assignment (hD : Arranged D live) (a : Assignment) :
    Accepts D live (emitAssignment a)
      ((Stmt.assignment a).scope? Declaration.allocatedKind? D.scope) := by
  obtain ⟨name, nameSpan, index, value, span⟩ := a
  rw [Stmt.scope?]
  cases hfind : D.find? name with
  | none =>
    simp only [Declared.scope_eq_none.2 hfind]
    exact (tryRejects_lookup hfind nameSpan).bind _
  | some v =>
    simp only [Declared.scope_of_find hfind]
    cases index with
    | none => exact accepts_whole nameSpan span hD hfind value
    | some index =>
      cases v with
      | list l => exact accepts_element nameSpan span hD hfind index value
      | int c =>
        have hindexable : TryRejects D live (indexable (.int c) nameSpan) :=
          tryRejects_reject _ nameSpan
        exact .after (tryLeaves_lookup hfind nameSpan) (hindexable.bind _)

end Assignment

section Calls

variable {settings : Settings} {D : Declared} {live : List Region} {name : Text}
  {arguments blocks : Nat} {b : Builtin} {span : Span}

/-- The builtin takes so many arguments and blocks. -/
def Builtin.Takes (b : Builtin) (arguments blocks : Nat) : Prop :=
  arguments = b.info.parameters.length ∧ b.info.minBlocks ≤ blocks ∧ blocks ≤ b.info.maxBlocks

theorem tryTakes_checkCall (hname : Builtin.ofName? name = some b) (h : b.Takes arguments blocks)
    (span : Span) (s : Contents) :
    TryTakes settings D live (checkCall name arguments blocks span) b live s s := by
  have hcheck : checkCall name arguments blocks span = (do
      Emit.trace (Text.join ["call ", name, " at ", span.toText])
      return b) := by
    simp only [checkCall, hname]
    rw [if_neg (not_not.2 h.1), if_neg (by have := h.2; omega)]
  rw [hcheck]
  exact .bind (Takes.trace _ s).lift (.pure b s)

theorem tryRejects_checkCall (h : ∀ b, Builtin.ofName? name = some b → ¬b.Takes arguments blocks) :
    TryRejects D live (checkCall name arguments blocks span) := by
  cases hname : Builtin.ofName? name with
  | none =>
    simp only [checkCall, hname]
    exact fun e _ _ _ => ⟨_, _, rfl⟩
  | some b =>
    simp only [checkCall, hname]
    by_cases hcount : arguments = b.info.parameters.length
    · rw [if_neg (not_not.2 hcount), if_pos]
      · exact (tryRejects_reject _ span).bind _
      · by_contra hblocks
        exact h b hname ⟨hcount, by omega⟩
    · rw [if_pos hcount]
      exact (tryRejects_reject _ span).bind _

end Calls

end Goat
