import Goat.Proofs.WellFormed

/-!
# Hoisting declarations out of loops

A declaration in the block of a loop can be replaced by an assignment, with the variable
declared as zero at the start of the program. What the program means stays the same, and it
stays well-formed.
-/

namespace Goat

open Machine (EndOfInput)
open Reference (State Outcome exec execAll execBlocks)

/-- The assignment of the initial value. -/
def Declaration.assignment (d : Declaration) : Assignment :=
  ⟨d.name, d.nameSpan, none, d.value, d.span⟩

mutual

/-- The statement with assignments for its declarations. -/
def Stmt.flatten : Stmt → Stmt
  | .declaration d => .assignment d.assignment
  | .assignment a => .assignment a
  | .call name arguments blocks span => .call name arguments (Block.flattenAll blocks) span

/-- The statements with assignments for their declarations. -/
def Stmt.flattenAll : List Stmt → List Stmt
  | [] => []
  | s :: rest => s.flatten :: Stmt.flattenAll rest

/-- The blocks with assignments for their declarations. -/
def Block.flattenAll : List Block → List Block
  | [] => []
  | .mk label body span :: rest => .mk label (Stmt.flattenAll body) span :: Block.flattenAll rest

end

mutual

/-- The statement with assignments for the declarations in its loops. -/
def Stmt.hoist : Stmt → Stmt
  | .declaration d => .declaration d
  | .assignment a => .assignment a
  | .call name arguments blocks span =>
    if (Builtin.ofName? name).any Builtin.isLoop then
      .call name arguments (Block.flattenAll blocks) span
    else .call name arguments (Block.hoistAll blocks) span

/-- The statements with assignments for the declarations in their loops. -/
def Stmt.hoistAll : List Stmt → List Stmt
  | [] => []
  | s :: rest => s.hoist :: Stmt.hoistAll rest

/-- The blocks with assignments for the declarations in their loops. -/
def Block.hoistAll : List Block → List Block
  | [] => []
  | .mk label body span :: rest => .mk label (Stmt.hoistAll body) span :: Block.hoistAll rest

end

/-- A zero of a kind, written as an expression. -/
def Kind.zeroExpr (span : Span) : Kind → Expr
  | .int => .number 0 span
  | .list n => .list (List.replicate n (.number 0 span)) span

/-- The declaration with zero for its initial value. -/
def Declaration.toZero (d : Declaration) : Declaration :=
  match d.kind? with
  | some kind => { d with value := kind.zeroExpr d.span }
  | none => d

/-- The declarations of variables as zero. -/
def Stmt.zeros (ds : List Declaration) : List Stmt := ds.map fun d => .declaration d.toZero

/-- The program with the variables of its loops declared at its start. -/
def Program.hoisted (p : Program) : Program :=
  ⟨Stmt.zeros (Stmt.allLoopDeclarations p.statements) ++ Stmt.hoistAll p.statements⟩

/-! ### What programs mean stays the same -/

section Meaning

variable {mode : EndOfInput} {fuel : Nat}

mutual

theorem Stmt.exec_flatten : (s : Stmt) → exec mode fuel s.flatten = exec mode fuel s
  | .declaration d => rfl
  | .assignment a => rfl
  | .call name arguments blocks span => by
    funext ρ
    rw [Stmt.flatten, exec, exec, Block.execBlocks_flattenAll blocks]

theorem Stmt.execAll_flattenAll : (body : List Stmt) →
    execAll mode fuel (Stmt.flattenAll body) = execAll mode fuel body
  | [] => rfl
  | s :: rest => by
    funext ρ
    rw [Stmt.flattenAll, execAll, execAll, Stmt.exec_flatten s, Stmt.execAll_flattenAll rest]

theorem Block.execBlocks_flattenAll : (blocks : List Block) →
    execBlocks mode fuel (Block.flattenAll blocks) = execBlocks mode fuel blocks
  | [] => rfl
  | .mk label body span :: rest => by
    rw [Block.flattenAll, execBlocks, execBlocks, Block.execBlocks_flattenAll rest]
    exact congrArg (· :: _) (Stmt.execAll_flattenAll body)

end

mutual

theorem Stmt.exec_hoist : (s : Stmt) → exec mode fuel s.hoist = exec mode fuel s
  | .declaration d => rfl
  | .assignment a => rfl
  | .call name arguments blocks span => by
    funext ρ
    rw [Stmt.hoist]
    split
    · rw [exec, exec, Block.execBlocks_flattenAll blocks]
    · rw [exec, exec, Block.execBlocks_hoistAll blocks]

theorem Stmt.execAll_hoistAll : (body : List Stmt) →
    execAll mode fuel (Stmt.hoistAll body) = execAll mode fuel body
  | [] => rfl
  | s :: rest => by
    funext ρ
    rw [Stmt.hoistAll, execAll, execAll, Stmt.exec_hoist s, Stmt.execAll_hoistAll rest]

theorem Block.execBlocks_hoistAll : (blocks : List Block) →
    execBlocks mode fuel (Block.hoistAll blocks) = execBlocks mode fuel blocks
  | [] => rfl
  | .mk label body span :: rest => by
    rw [Block.hoistAll, execBlocks, execBlocks, Block.execBlocks_hoistAll rest]
    exact congrArg (· :: _) (Stmt.execAll_hoistAll body)

end

end Meaning

/-! ### Scopes -/

namespace Scope

/-- The scope with the variables of another one in front. -/
def join (Γ₀ Γ : Scope) : Scope := fun name => (Γ₀ name).or (Γ name)

/-- The scopes agree on the variables that they share. -/
def Consistent (Γ₀ Γ : Scope) : Prop :=
  ∀ name kind, Γ name = some kind → Γ₀ name = none ∨ Γ₀ name = some kind

/-- A way to extend the scopes of which `P` holds. -/
structure Extension (T : Scope → Scope) (P : Scope → Prop) : Prop where
  within : ∀ {Γ}, P Γ → Γ.Within (T Γ)
  down : ∀ {Γ Γ'}, Γ.Within Γ' → P Γ' → P Γ

theorem extension_const (Δ : Scope) : Extension (fun _ => Δ) fun Γ => Γ.Within Δ where
  within h := h
  down h h' := h.trans h'

theorem extension_join (Γ₀ : Scope) : Extension (join Γ₀) (Consistent Γ₀) where
  within h name kind hname := by
    rcases h name kind hname with hnone | hsome
    · rw [join, hnone, Option.none_or, hname]
    · rw [join, hsome, Option.some_or]
  down h h' name kind hname := h' name kind (h name kind hname)

end Scope

theorem Expr.fitsIndex_mono {Γ Δ : Scope} (h : Γ.Within Δ) {n : Nat} {index : Expr}
    (hfits : index.fitsIndex Γ n = true) : index.fitsIndex Δ n = true := by
  rcases index.number_or_computed with ⟨k, span, rfl⟩ | hcomputed
  · exact hfits
  · rw [Expr.fitsIndex_computed hcomputed] at hfits ⊢
    exact Expr.fits_mono h index hfits

theorem Expr.printable_mono {Γ Δ : Scope} (h : Γ.Within Δ) {x : Expr}
    (hprintable : x.printable Γ = true) : x.printable Δ = true := by
  cases x with
  | var name span =>
    obtain ⟨kind, hkind⟩ := Option.isSome_iff_exists.1 hprintable
    exact Option.isSome_iff_exists.2 ⟨kind, h name kind hkind⟩
  | _ => exact Expr.fits_mono h _ hprintable

theorem Expr.readable_mono {Γ Δ : Scope} (h : Γ.Within Δ) {x : Expr}
    (hreadable : x.readable Γ = true) : x.readable Δ = true := by
  cases x with
  | var name span =>
    simp only [Expr.readable, decide_eq_true_iff] at hreadable ⊢
    exact h name _ hreadable
  | element name index span =>
    simp only [Expr.readable] at hreadable ⊢
    split at hreadable
    · rename_i n hlist
      rw [h name _ hlist]
      exact Expr.fitsIndex_mono h hreadable
    · cases hreadable
  | _ => cases hreadable

/-- The second block is well-formed in the extended scopes. -/
structure BlockScope.Extends (T : Scope → Scope) (P : Scope → Prop) (block block' : BlockScope) :
    Prop where
  label : block'.label = block.label
  grows : ∀ {Γ Γ'}, block.scope? Γ = some Γ' → Γ.Within Γ'
  extends_ : ∀ {Γ Γ'}, block.scope? Γ = some Γ' → P Γ' → block'.scope? (T Γ) = some (T Γ')

/-- A call is well-formed in an extended scope if its blocks are. -/
theorem callScope?_extends {T : Scope → Scope} {P : Scope → Prop} (hT : Scope.Extension T P)
    {Γ Γ' : Scope} {b : Builtin} {arguments : List Expr} {scopes scopes' : List BlockScope}
    (hblocks : List.Forall₂ (BlockScope.Extends T P) scopes scopes')
    (h : callScope? Γ b arguments scopes = some Γ') (hP : P Γ') :
    callScope? (T Γ) b arguments scopes' = some (T Γ') := by
  unfold callScope? at h
  split at h
  case h_1 =>
    obtain ⟨hfits, ⟨⟩⟩ := Option.ite_none_right_eq_some.1 h
    cases hblocks
    rw [callScope?, if_pos (Expr.printable_mono (hT.within hP) hfits)]
  case h_2 =>
    obtain ⟨hfits, ⟨⟩⟩ := Option.ite_none_right_eq_some.1 h
    cases hblocks
    rw [callScope?, if_pos (Expr.printable_mono (hT.within hP) hfits)]
  case h_3 =>
    obtain ⟨hfits, ⟨⟩⟩ := Option.ite_none_right_eq_some.1 h
    cases hblocks
    rw [callScope?, if_pos (Expr.readable_mono (hT.within hP) hfits)]
  case h_4 =>
    obtain ⟨hfits, ⟨⟩⟩ := Option.ite_none_right_eq_some.1 h
    cases hblocks
    rw [callScope?, if_pos (Expr.readable_mono (hT.within hP) hfits)]
  case h_5 =>
    obtain ⟨hfits, h⟩ := Option.ite_none_right_eq_some.1 h
    rcases hblocks with _ | ⟨hblock, _ | _⟩
    have hΓ := hT.within (hT.down (hblock.grows h) hP)
    rw [callScope?, if_pos (Expr.fits_mono hΓ _ hfits), hblock.extends_ h hP]
  case h_6 =>
    obtain ⟨⟨hlabel, hfits⟩, h⟩ := Option.ite_none_right_eq_some.1 h
    obtain ⟨Γ₁, h₁, h₂⟩ := Option.bind_eq_some_iff.1 h
    rcases hblocks with _ | ⟨hblock, _ | ⟨hother, _ | _⟩⟩
    have hP₁ := hT.down (hother.grows h₂) hP
    have hΓ := hT.within (hT.down (hblock.grows h₁) hP₁)
    rw [callScope?, if_pos ⟨hother.label.trans hlabel, Expr.fits_mono hΓ _ hfits⟩,
      hblock.extends_ h₁ hP₁, Option.bind_some, hother.extends_ h₂ hP]
  case h_7 =>
    obtain ⟨hfits, h⟩ := Option.ite_none_right_eq_some.1 h
    rcases hblocks with _ | ⟨hblock, _ | _⟩
    have hΓ := hT.within (hT.down (hblock.grows h) hP)
    rw [callScope?, if_pos (Expr.fits_mono hΓ _ hfits), hblock.extends_ h hP]
  case h_8 =>
    split at h
    · rename_i hel hlist
      rcases hblocks with _ | ⟨hblock, _ | _⟩
      have hΓ := hT.within (hT.down (hblock.grows h) hP)
      rw [callScope?, hΓ _ _ hel, hΓ _ _ hlist]
      exact hblock.extends_ h hP
    · cases h
  case h_9 => cases h

section Statements

variable {kindOf? : Declaration → Option Kind}

theorem Block.grows_of_scope (block : Block) {Γ Γ' : Scope}
    (h : (block.scope kindOf?).scope? Γ = some Γ') : Γ.Within Γ' := by
  obtain ⟨label, body, span⟩ := block
  exact (Stmt.declares_all body h).within

mutual

/-- With assignments for its declarations, a statement is well-formed in every scope that has
    its variables. -/
theorem Stmt.scope?_flatten {Δ : Scope} : (s : Stmt) → {Γ Γ' : Scope} →
    s.scope? kindOf? Γ = some Γ' → Γ'.Within Δ → s.flatten.scope? kindOf? Δ = some Δ
  | .declaration d, Γ, Γ', h, hΔ => by
    rw [Stmt.scope?] at h
    split at h
    · rename_i kind hkind
      obtain ⟨hcond, ⟨⟩⟩ := Option.ite_none_right_eq_some.1 h
      have hname : Δ d.name = some kind := hΔ d.name kind (if_pos rfl)
      rw [Stmt.flatten, Declaration.assignment, Stmt.scope?, hname]
      exact if_pos (Expr.fits_mono hΔ _ hcond.2.2)
    · cases h
  | .assignment a, Γ, Γ', h, hΔ => by
    rw [Stmt.scope?] at h
    rw [Stmt.flatten, Stmt.scope?]
    split at h
    · rename_i kind hname hindex
      obtain ⟨hfits, ⟨⟩⟩ := Option.ite_none_right_eq_some.1 h
      rw [hΔ _ _ hname, hindex]
      exact if_pos (Expr.fits_mono hΔ _ hfits)
    · rename_i n index hname hindex
      obtain ⟨hfits, ⟨⟩⟩ := Option.ite_none_right_eq_some.1 h
      rw [hΔ _ _ hname, hindex]
      exact if_pos ⟨Expr.fitsIndex_mono hΔ hfits.1, Expr.fits_mono hΔ _ hfits.2⟩
    · cases h
  | .call name arguments blocks span, Γ, Γ', h, hΔ => by
    rw [Stmt.scope?] at h
    obtain ⟨b, hname, h⟩ := Option.bind_eq_some_iff.1 h
    rw [Stmt.flatten, Stmt.scope?, hname, Option.bind_some]
    exact callScope?_extends (Scope.extension_const Δ) (Block.extends_flattenAll blocks) h hΔ

theorem Stmt.scopeAll?_flattenAll {Δ : Scope} : (body : List Stmt) → {Γ Γ' : Scope} →
    Stmt.scopeAll? kindOf? body Γ = some Γ' → Γ'.Within Δ →
    Stmt.scopeAll? kindOf? (Stmt.flattenAll body) Δ = some Δ
  | [], _, _, _, _ => rfl
  | s :: rest, Γ, Γ', h, hΔ => by
    rw [Stmt.scopeAll?] at h
    obtain ⟨Γ₁, h₁, h₂⟩ := Option.bind_eq_some_iff.1 h
    have hΔ₁ := (Stmt.declares_all rest h₂).within.trans hΔ
    rw [Stmt.flattenAll, Stmt.scopeAll?, Stmt.scope?_flatten s h₁ hΔ₁, Option.bind_some]
    exact Stmt.scopeAll?_flattenAll rest h₂ hΔ

theorem Block.extends_flattenAll {Δ : Scope} : (blocks : List Block) →
    List.Forall₂ (BlockScope.Extends (fun _ => Δ) fun Γ => Γ.Within Δ)
      (Block.scopes kindOf? blocks) (Block.scopes kindOf? (Block.flattenAll blocks))
  | [] => .nil
  | .mk label body span :: rest =>
    .cons ⟨rfl, Block.grows_of_scope (.mk label body span),
      fun h hΔ => Stmt.scopeAll?_flattenAll body h hΔ⟩ (Block.extends_flattenAll rest)

end

mutual

theorem Stmt.declarations_flatten : (s : Stmt) → s.flatten.declarations = []
  | .declaration _ => rfl
  | .assignment _ => rfl
  | .call _ _ blocks _ => Block.allDeclarations_flattenAll blocks

theorem Stmt.allDeclarations_flattenAll : (body : List Stmt) →
    Stmt.allDeclarations (Stmt.flattenAll body) = []
  | [] => rfl
  | s :: rest => by
    rw [Stmt.flattenAll, Stmt.allDeclarations, Stmt.declarations_flatten s,
      Stmt.allDeclarations_flattenAll rest, List.append_nil]

theorem Block.allDeclarations_flattenAll : (blocks : List Block) →
    Block.allDeclarations (Block.flattenAll blocks) = []
  | [] => rfl
  | .mk label body span :: rest => by
    rw [Block.flattenAll, Block.allDeclarations, Block.declarations,
      Stmt.allDeclarations_flattenAll body, Block.allDeclarations_flattenAll rest, List.append_nil]

end

/-- What two lists are split into can be put together in another order. -/
theorem perm_append_append {α : Type} {a b a₁ a₂ b₁ b₂ : List α} (ha : a.Perm (a₁ ++ a₂))
    (hb : b.Perm (b₁ ++ b₂)) : (a ++ b).Perm ((a₁ ++ b₁) ++ (a₂ ++ b₂)) := by
  refine (ha.append hb).trans ?_
  rw [List.append_assoc, List.append_assoc]
  refine List.Perm.append_left a₁ ?_
  rw [← List.append_assoc, ← List.append_assoc]
  exact List.perm_append_comm.append_right b₂

mutual

/-- Every declaration is in a loop or stays where it is. -/
theorem Stmt.perm_hoist : (s : Stmt) →
    s.declarations.Perm (s.loopDeclarations ++ s.hoist.declarations)
  | .declaration d => .refl _
  | .assignment a => .refl _
  | .call name arguments blocks span => by
    rw [Stmt.declarations, Stmt.loopDeclarations, Stmt.hoist]
    split
    · rw [Stmt.declarations, Block.allDeclarations_flattenAll, List.append_nil]
    · exact Block.perm_hoistAll blocks

theorem Stmt.perm_hoistAll : (body : List Stmt) →
    (Stmt.allDeclarations body).Perm
      (Stmt.allLoopDeclarations body ++ Stmt.allDeclarations (Stmt.hoistAll body))
  | [] => .refl _
  | s :: rest => by
    rw [Stmt.hoistAll, Stmt.allDeclarations, Stmt.allDeclarations, Stmt.allLoopDeclarations]
    exact perm_append_append (Stmt.perm_hoist s) (Stmt.perm_hoistAll rest)

theorem Block.perm_hoistAll : (blocks : List Block) →
    (Block.allDeclarations blocks).Perm
      (Block.allLoopDeclarations blocks ++ Block.allDeclarations (Block.hoistAll blocks))
  | [] => .refl _
  | .mk label body span :: rest => by
    rw [Block.hoistAll, Block.allDeclarations, Block.allDeclarations, Block.allLoopDeclarations,
      Block.declarations, Block.declarations, Block.loopDeclarations]
    exact perm_append_append (Stmt.perm_hoistAll body) (Block.perm_hoistAll rest)

end

/-- Variables of the first scope that are declared in a loop are there already. -/
theorem Scope.join_congr {Γ₀ Γ Γ' : Scope} (h : Γ.Within Γ') (hΓ' : Γ₀.Consistent Γ')
    (hjoin : Γ'.Within (Γ₀.join Γ)) : Γ₀.join Γ = Γ₀.join Γ' := by
  funext name
  cases hname : Γ' name with
  | some kind => rw [hjoin name kind hname, (extension_join Γ₀).within hΓ' name kind hname]
  | none =>
    have hnone : Γ name = none := by
      by_contra hsome
      obtain ⟨kind, hkind⟩ := Option.ne_none_iff_exists'.1 hsome
      rw [h name kind hkind] at hname
      cases hname
    rw [join, join, hnone, hname]

theorem Scope.join_declare {Γ₀ : Scope} {name : Text} (h : Γ₀ name = none) (Γ : Scope)
    (kind : Kind) : Γ₀.join (Γ.declare name kind) = (Γ₀.join Γ).declare name kind := by
  funext other
  rw [join, declare, declare]
  by_cases hother : other = name
  · rw [if_pos hother, if_pos hother, hother, h, Option.none_or]
  · rw [if_neg hother, if_neg hother, join]

mutual

/-- With its variables in loops declared before, a statement stays well-formed. -/
theorem Stmt.scope?_hoist {Γ₀ : Scope} : (s : Stmt) → {Γ Γ' : Scope} →
    s.scope? kindOf? Γ = some Γ' → (∀ d ∈ s.loopDeclarations, Γ₀ d.name = kindOf? d) →
    (∀ d ∈ s.hoist.declarations, Γ₀ d.name = none) → Γ₀.Consistent Γ' →
    s.hoist.scope? kindOf? (Γ₀.join Γ) = some (Γ₀.join Γ')
  | .declaration d, Γ, Γ', h, _, hrest, hΓ' => by
    rw [Stmt.scope?] at h
    have hnew : Γ₀ d.name = none := hrest d List.mem_cons_self
    split at h
    · rename_i kind hkind
      obtain ⟨⟨hid, hname, hfits⟩, ⟨⟩⟩ := Option.ite_none_right_eq_some.1 h
      have hwithin := (Scope.extension_join Γ₀).within hΓ'
      rw [Scope.join_declare hnew] at hwithin ⊢
      rw [Stmt.hoist, Stmt.scope?, hkind]
      refine if_pos ⟨hid, ?_, Expr.fits_mono hwithin _ hfits⟩
      rw [Scope.join, hnew, hname, Option.or_none]
    · cases h
  | .assignment a, Γ, Γ', h, _, _, hΓ' => by
    rw [Stmt.hoist]
    have hsame : Γ' = Γ := by
      have hdeclares := Stmt.declares _ h
      cases hdeclares
      rfl
    rw [hsame] at hΓ' h ⊢
    exact Stmt.scope?_flatten (.assignment a) h ((Scope.extension_join Γ₀).within hΓ')
  | .call name arguments blocks span, Γ, Γ', h, hloop, hrest, hΓ' => by
    have hdeclares := Stmt.declares _ h
    rw [Stmt.declarations] at hdeclares
    rw [Stmt.loopDeclarations] at hloop
    rw [Stmt.hoist] at hrest ⊢
    split at hloop
    · rename_i hname
      rw [if_pos hname]
      have hwithin : Γ'.Within (Γ₀.join Γ) := by
        intro other kind hother
        rcases hdeclares.mem_of_lookup hother with hbefore | ⟨d, hd, rfl, hkind⟩
        · exact (Scope.extension_join Γ₀).within
            ((Scope.extension_join Γ₀).down hdeclares.within hΓ') other kind hbefore
        · rw [Scope.join, hloop d hd, hkind, Option.some_or]
      have hflat := Stmt.scope?_flatten _ h hwithin
      rw [← Scope.join_congr hdeclares.within hΓ' hwithin]
      exact hflat
    · rename_i hname
      rw [if_neg hname] at hrest ⊢
      rw [Stmt.scope?] at h ⊢
      obtain ⟨b, hb, h⟩ := Option.bind_eq_some_iff.1 h
      rw [hb, Option.bind_some]
      exact callScope?_extends (Scope.extension_join Γ₀)
        (Block.extends_hoistAll blocks hloop hrest) h hΓ'

theorem Stmt.scopeAll?_hoistAll {Γ₀ : Scope} : (body : List Stmt) → {Γ Γ' : Scope} →
    Stmt.scopeAll? kindOf? body Γ = some Γ' →
    (∀ d ∈ Stmt.allLoopDeclarations body, Γ₀ d.name = kindOf? d) →
    (∀ d ∈ Stmt.allDeclarations (Stmt.hoistAll body), Γ₀ d.name = none) → Γ₀.Consistent Γ' →
    Stmt.scopeAll? kindOf? (Stmt.hoistAll body) (Γ₀.join Γ) = some (Γ₀.join Γ')
  | [], _, _, h, _, _, _ => by
    cases h
    rfl
  | s :: rest, Γ, Γ', h, hloop, hrest, hΓ' => by
    rw [Stmt.scopeAll?] at h
    obtain ⟨Γ₁, h₁, h₂⟩ := Option.bind_eq_some_iff.1 h
    rw [Stmt.allLoopDeclarations, List.forall_mem_append] at hloop
    rw [Stmt.hoistAll, Stmt.allDeclarations, List.forall_mem_append] at hrest
    have hΓ₁ := (Scope.extension_join Γ₀).down (Stmt.declares_all rest h₂).within hΓ'
    rw [Stmt.hoistAll, Stmt.scopeAll?, Stmt.scope?_hoist s h₁ hloop.1 hrest.1 hΓ₁,
      Option.bind_some]
    exact Stmt.scopeAll?_hoistAll rest h₂ hloop.2 hrest.2 hΓ'

theorem Block.extends_hoistAll {Γ₀ : Scope} : (blocks : List Block) →
    (∀ d ∈ Block.allLoopDeclarations blocks, Γ₀ d.name = kindOf? d) →
    (∀ d ∈ Block.allDeclarations (Block.hoistAll blocks), Γ₀ d.name = none) →
    List.Forall₂ (BlockScope.Extends (Scope.join Γ₀) (Scope.Consistent Γ₀))
      (Block.scopes kindOf? blocks) (Block.scopes kindOf? (Block.hoistAll blocks))
  | [], _, _ => .nil
  | .mk label body span :: rest, hloop, hrest => by
    rw [Block.allLoopDeclarations, Block.loopDeclarations, List.forall_mem_append] at hloop
    rw [Block.hoistAll, Block.allDeclarations, Block.declarations, List.forall_mem_append] at hrest
    refine .cons ⟨rfl, Block.grows_of_scope (.mk label body span), fun h hΓ' => ?_⟩
      (Block.extends_hoistAll rest hloop.2 hrest.2)
    exact Stmt.scopeAll?_hoistAll body h hloop.1 hrest.1 hΓ'

end

mutual

theorem Stmt.loopDeclarations_hoist : (s : Stmt) → s.hoist.loopDeclarations = []
  | .declaration _ => rfl
  | .assignment _ => rfl
  | .call name arguments blocks span => by
    rw [Stmt.hoist]
    split
    · rename_i hname
      rw [Stmt.loopDeclarations, if_pos hname, Block.allDeclarations_flattenAll]
    · rename_i hname
      rw [Stmt.loopDeclarations, if_neg hname, Block.allLoopDeclarations_hoistAll blocks]

theorem Stmt.allLoopDeclarations_hoistAll : (body : List Stmt) →
    Stmt.allLoopDeclarations (Stmt.hoistAll body) = []
  | [] => rfl
  | s :: rest => by
    rw [Stmt.hoistAll, Stmt.allLoopDeclarations, Stmt.loopDeclarations_hoist s,
      Stmt.allLoopDeclarations_hoistAll rest, List.append_nil]

theorem Block.allLoopDeclarations_hoistAll : (blocks : List Block) →
    Block.allLoopDeclarations (Block.hoistAll blocks) = []
  | [] => rfl
  | .mk label body span :: rest => by
    rw [Block.hoistAll, Block.allLoopDeclarations, Block.loopDeclarations,
      Stmt.allLoopDeclarations_hoistAll body, Block.allLoopDeclarations_hoistAll rest,
      List.append_nil]

end

end Statements

/-! ### The declarations in front -/

section Zeros

theorem Declaration.toZero_name (d : Declaration) : d.toZero.name = d.name := by
  unfold Declaration.toZero
  split <;> rfl

theorem Declaration.kindBy?_toZero (length? : Text → Option Nat) (d : Declaration) :
    d.toZero.kindBy? length? = d.kindBy? length? := by
  unfold Declaration.toZero
  split <;> rfl

theorem Declaration.toZero_value {d : Declaration} {kind : Kind} (h : d.kind? = some kind) :
    d.toZero.value = kind.zeroExpr d.span := by
  simp only [Declaration.toZero, h]

theorem Kind.fits_zeroExpr (kind : Kind) (span : Span) (Γ : Scope) :
    (kind.zeroExpr span).fits Γ kind = true := by
  cases kind with
  | int => rfl
  | list n =>
    have hall (m : Nat) : Expr.allFit Γ (List.replicate m (.number 0 span)) = true := by
      induction m with
      | zero => rfl
      | succ m ih =>
        rw [List.replicate_succ, Expr.allFit, ih]
        rfl
    rw [Kind.zeroExpr, Expr.fits, hall, List.length_replicate, decide_eq_true rfl, Bool.and_self]

theorem Stmt.allDeclarations_zeros (ds : List Declaration) :
    Stmt.allDeclarations (Stmt.zeros ds) = ds.map Declaration.toZero := by
  induction ds with
  | nil => rfl
  | cons d ds ih =>
    show d.toZero :: Stmt.allDeclarations (Stmt.zeros ds) = _
    rw [ih, List.map_cons]

/-- Variables with different names can be declared. -/
theorem Stmt.exists_scope_zeros (ds : List Declaration) {Γ : Scope}
    (hkinds : ∀ d ∈ ds, ∃ kind, d.kind? = some kind) (hids : ∀ d ∈ ds, isIdentifier d.name = true)
    (hnames : (ds.map Declaration.name).Nodup) (hnew : ∀ d ∈ ds, Γ d.name = none) :
    ∃ Γ', Stmt.scopeAll? Declaration.kind? (Stmt.zeros ds) Γ = some Γ' := by
  induction ds generalizing Γ with
  | nil => exact ⟨Γ, rfl⟩
  | cons d ds ih =>
    obtain ⟨kind, hkind⟩ := hkinds d List.mem_cons_self
    rw [List.map_cons, List.nodup_cons] at hnames
    have hfirst : (Stmt.declaration d.toZero).scope? Declaration.kind? Γ =
        some (Γ.declare d.name kind) := by
      rw [Stmt.scope?, Declaration.kind?, Declaration.kindBy?_toZero, ← Declaration.kind?, hkind,
        Declaration.toZero_name, Declaration.toZero_value hkind]
      exact if_pos ⟨hids d List.mem_cons_self, hnew d List.mem_cons_self, kind.fits_zeroExpr _ _⟩
    have hnew' : ∀ d' ∈ ds, Γ.declare d.name kind d'.name = none := by
      intro d' hd'
      have hne : d'.name ≠ d.name := by
        intro heq
        exact hnames.1 (heq ▸ List.mem_map_of_mem hd')
      rw [Scope.declare, if_neg hne]
      exact hnew d' (List.mem_cons_of_mem _ hd')
    obtain ⟨Γ', hΓ'⟩ := ih (fun d' hd' => hkinds d' (List.mem_cons_of_mem _ hd'))
      (fun d' hd' => hids d' (List.mem_cons_of_mem _ hd')) hnames.2 hnew'
    refine ⟨Γ', ?_⟩
    show ((Stmt.declaration d.toZero).scope? Declaration.kind? Γ).bind
      (Stmt.scopeAll? Declaration.kind? (Stmt.zeros ds)) = _
    rw [hfirst, Option.bind_some, hΓ']

variable {mode : EndOfInput} {fuel : Nat}

theorem Reference.assignItems_zero {σ : Reference.Store} {name : Text} {n : Nat} (span : Span)
    (h : σ name = some (.list (List.replicate n 0))) (m k : Nat) :
    Reference.assignItems name k (List.replicate m (.number 0 span)) σ = .ok σ := by
  induction m generalizing k with
  | zero => rfl
  | succ m ih =>
    have hbytes : σ.bytes name = .ok (List.replicate n 0) := by rw [Reference.Store.bytes, h]
    rw [List.replicate_succ, Reference.assignItems, hbytes]
    show Reference.assignItems name (k + 1) _
      (σ.set name (.list ((List.replicate n 0).set k 0))) = _
    rw [List.set_replicate_self, Reference.Store.set_eq_self h]
    exact ih (k + 1)

/-- Storing zero in a variable that is zero changes nothing. -/
theorem Reference.assign_zero {σ : Reference.Store} {name : Text} {kind : Kind} (span : Span)
    (h : σ name = some kind.zero) : Reference.assign σ name (kind.zeroExpr span) = .ok σ := by
  cases kind with
  | int =>
    rw [Reference.assign, h]
    exact congrArg Except.ok (Reference.Store.set_eq_self h)
  | list n =>
    have hlength : (List.replicate n (Expr.number 0 span)).length =
        (List.replicate n (0 : UInt8)).length := by
      rw [List.length_replicate, List.length_replicate]
    rw [Reference.assign, h]
    show (if _ then _ else _) = _
    rw [if_pos hlength]
    exact Reference.assignItems_zero span h n 0

theorem Stmt.execAll_append (a b : List Stmt) (ρ : State) :
    execAll mode fuel (a ++ b) ρ = (execAll mode fuel a ρ).andThen (execAll mode fuel b) := by
  induction a generalizing ρ with
  | nil => rfl
  | cons s rest ih =>
    rw [List.cons_append, execAll, execAll]
    cases exec mode fuel s ρ with
    | done ρ' => exact ih ρ'
    | stuck reason => rfl
    | outOfFuel ρ' => rfl

theorem Stmt.execAll_zeros {ρ : State} (ds : List Declaration)
    (h : ∀ d ∈ ds, ∃ kind, d.kind? = some kind ∧ ρ.store d.name = some kind.zero) :
    execAll mode fuel (Stmt.zeros ds) ρ = .done ρ := by
  induction ds with
  | nil => rfl
  | cons d ds ih =>
    obtain ⟨kind, hkind, hzero⟩ := h d List.mem_cons_self
    have hfirst : exec mode fuel (.declaration d.toZero) ρ = .done ρ := by
      rw [exec, Declaration.toZero_name, Declaration.toZero_value hkind,
        Reference.assign_zero d.span hzero]
      rfl
    show (exec mode fuel (.declaration d.toZero) ρ).andThen (execAll mode fuel (Stmt.zeros ds)) = _
    rw [hfirst]
    exact ih fun d' hd' => h d' (List.mem_cons_of_mem _ hd')

end Zeros

/-! ### Hoisted programs -/

theorem Scope.Declares.identifier_of_mem {kindOf? : Declaration → Option Kind} {Γ Γ' : Scope}
    {ds : List Declaration} (h : Scope.Declares kindOf? Γ ds Γ') {d : Declaration} (hd : d ∈ ds) :
    isIdentifier d.name = true := by
  induction h with
  | nil => cases hd
  | cons hid _ _ _ ih =>
    rcases List.mem_cons.1 hd with rfl | hd
    · exact hid
    · exact ih hd

/-- No name is declared twice. -/
theorem Scope.Declares.nodup {kindOf? : Declaration → Option Kind} {Γ Γ' : Scope}
    {ds : List Declaration} (h : Scope.Declares kindOf? Γ ds Γ') :
    (ds.map Declaration.name).Nodup ∧ ∀ d ∈ ds, Γ d.name = none := by
  induction h with
  | nil => exact ⟨.nil, fun d hd => by cases hd⟩
  | @cons Γ Γ' d ds kind _ hname _ _ ih =>
    have hnew (d' : Declaration) (hd' : d' ∈ ds) : d'.name ≠ d.name ∧ Γ d'.name = none := by
      have hnone := ih.2 d' hd'
      rw [declare] at hnone
      split at hnone
      · cases hnone
      · rename_i hne
        exact ⟨hne, hnone⟩
    refine ⟨List.nodup_cons.2 ⟨fun hmem => ?_, ih.1⟩, fun d' hd' => ?_⟩
    · obtain ⟨d', hd', heq⟩ := List.mem_map.1 hmem
      exact (hnew d' hd').1 heq
    · rcases List.mem_cons.1 hd' with rfl | hd'
      · exact hname
      · exact (hnew d' hd').2

theorem Stmt.scopeAll?_append {kindOf? : Declaration → Option Kind} (a b : List Stmt) (Γ : Scope) :
    Stmt.scopeAll? kindOf? (a ++ b) Γ =
      (Stmt.scopeAll? kindOf? a Γ).bind (Stmt.scopeAll? kindOf? b) := by
  induction a generalizing Γ with
  | nil => rfl
  | cons s rest ih =>
    rw [List.cons_append, Stmt.scopeAll?, Stmt.scopeAll?]
    cases s.scope? kindOf? Γ with
    | none => rfl
    | some Γ₁ => exact ih Γ₁

theorem Stmt.allDeclarations_append (a b : List Stmt) :
    Stmt.allDeclarations (a ++ b) = Stmt.allDeclarations a ++ Stmt.allDeclarations b := by
  induction a with
  | nil => rfl
  | cons s rest ih =>
    rw [List.cons_append, Stmt.allDeclarations, Stmt.allDeclarations, ih, List.append_assoc]

theorem Program.allDeclarations_hoisted (p : Program) :
    Stmt.allDeclarations p.hoisted.statements =
      (Stmt.allLoopDeclarations p.statements).map Declaration.toZero ++
        Stmt.allDeclarations (Stmt.hoistAll p.statements) := by
  rw [Program.hoisted, Stmt.allDeclarations_append, Stmt.allDeclarations_zeros]

/-- Hoisting leaves no declarations in loops. -/
theorem Program.allLoopDeclarations_hoisted (p : Program) :
    Stmt.allLoopDeclarations p.hoisted.statements = [] := by
  have happend (ds : List Declaration) (body : List Stmt) :
      Stmt.allLoopDeclarations (Stmt.zeros ds ++ body) = Stmt.allLoopDeclarations body := by
    induction ds with
    | nil => rfl
    | cons d ds ih => exact ih
  rw [Program.hoisted, happend, Stmt.allLoopDeclarations_hoistAll]

section Hoisted

variable {p : Program} {Γ : Scope}

/-- Every declaration of a hoisted program has the type of one that was there before. -/
theorem Program.exists_declared_of_hoisted {d : Declaration}
    (hd : d ∈ Stmt.allDeclarations p.hoisted.statements) :
    ∃ d' ∈ Stmt.allDeclarations p.statements, d'.name = d.name ∧
      ∀ length?, d'.kindBy? length? = d.kindBy? length? := by
  have hperm := Stmt.perm_hoistAll p.statements
  rw [Program.allDeclarations_hoisted] at hd
  rcases List.mem_append.1 hd with hzero | hrest
  · obtain ⟨d', hd', rfl⟩ := List.mem_map.1 hzero
    exact ⟨d', hperm.mem_iff.2 (List.mem_append_left _ hd'), d'.toZero_name.symm,
      fun length? => (d'.kindBy?_toZero length?).symm⟩
  · exact ⟨d, hperm.mem_iff.2 (List.mem_append_right _ hrest), rfl, fun _ => rfl⟩

/-- The scope after the declarations in front has the variables of the loops. -/
theorem Program.exists_scope_zeros (h : p.scope? = some Γ) :
    ∃ Γ₀, Stmt.scopeAll? Declaration.kind? (Stmt.zeros (Stmt.allLoopDeclarations p.statements))
        Scope.empty = some Γ₀ ∧
      (∀ d ∈ Stmt.allLoopDeclarations p.statements, Γ₀ d.name = d.kind?) ∧
      (∀ d ∈ Stmt.allDeclarations (Stmt.hoistAll p.statements), Γ₀ d.name = none) ∧
      Γ₀.Within Γ := by
  have hdeclares := Stmt.declares_all p.statements h
  have hperm := Stmt.perm_hoistAll p.statements
  have hloop (d : Declaration) (hd : d ∈ Stmt.allLoopDeclarations p.statements) :
      d ∈ Stmt.allDeclarations p.statements := hperm.mem_iff.2 (List.mem_append_left _ hd)
  have hnames := (hperm.map Declaration.name).nodup_iff.1 hdeclares.nodup.1
  rw [List.map_append, List.nodup_append] at hnames
  obtain ⟨Γ₀, hΓ₀⟩ := Stmt.exists_scope_zeros (Γ := Scope.empty)
    (Stmt.allLoopDeclarations p.statements)
    (fun d hd => (hdeclares.lookup_of_mem (hloop d hd)).imp fun _ hkind => hkind.1)
    (fun d hd => hdeclares.identifier_of_mem (hloop d hd)) hnames.1 (fun _ _ => rfl)
  have hzeros := Stmt.declares_all _ hΓ₀
  rw [Stmt.allDeclarations_zeros] at hzeros
  -- what is declared in front is declared in a loop
  have hsource {name : Text} {kind : Kind} (hname : Γ₀ name = some kind) :
      ∃ d ∈ Stmt.allLoopDeclarations p.statements, d.name = name ∧ d.kind? = some kind := by
    rcases hzeros.mem_of_lookup hname with hempty | ⟨d', hd', hname, hkind⟩
    · cases hempty
    · obtain ⟨d, hd, rfl⟩ := List.mem_map.1 hd'
      rw [Declaration.kind?, Declaration.kindBy?_toZero] at hkind
      exact ⟨d, hd, by rwa [Declaration.toZero_name] at hname, hkind⟩
  refine ⟨Γ₀, hΓ₀, fun d hd => ?_, fun d hd => ?_, fun name kind hname => ?_⟩
  · obtain ⟨kind, hkind, hlookup⟩ := hzeros.lookup_of_mem (List.mem_map_of_mem hd)
    rw [Declaration.toZero_name] at hlookup
    rw [hlookup, ← hkind, Declaration.kind?, Declaration.kindBy?_toZero, Declaration.kind?]
  · by_contra hsome
    obtain ⟨kind, hkind⟩ := Option.ne_none_iff_exists'.1 hsome
    obtain ⟨d', hd', hname, -⟩ := hsource hkind
    exact hnames.2.2 d'.name (List.mem_map_of_mem hd') d.name (List.mem_map_of_mem hd) hname
  · obtain ⟨d, hd, rfl, hkind⟩ := hsource hname
    obtain ⟨kind', hkind', hlookup⟩ := hdeclares.lookup_of_mem (hloop d hd)
    rw [hlookup, ← hkind', hkind]

/-- Hoisting keeps a program well-formed, with the same variables. -/
theorem Program.scope?_hoisted (h : p.scope? = some Γ) : p.hoisted.scope? = some Γ := by
  obtain ⟨Γ₀, hΓ₀, hloop, hrest, hwithin⟩ := Program.exists_scope_zeros h
  have hconsistent : Γ₀.Consistent Γ := by
    intro name kind hname
    cases hfirst : Γ₀ name with
    | none => exact .inl rfl
    | some kind' => exact .inr ((hwithin name kind' hfirst).symm.trans hname)
  have hempty : Γ₀.join Scope.empty = Γ₀ := by
    funext name
    exact Option.or_none
  have hjoin : Γ₀.join Γ = Γ := by
    funext name
    rw [Scope.join]
    cases hfirst : Γ₀ name with
    | none => rw [Option.none_or]
    | some kind => rw [Option.some_or, hwithin name kind hfirst]
  have hhoist := Stmt.scopeAll?_hoistAll p.statements h hloop hrest hconsistent
  rw [hempty, hjoin] at hhoist
  rw [Program.scope?, Program.hoisted, Stmt.scopeAll?_append, hΓ₀, Option.bind_some, hhoist]

theorem Reference.initialStore_eq {ds : List Declaration}
    (h : Scope.Declares Declaration.kind? Scope.empty ds Γ) :
    Reference.initialStore ds = fun name => (Γ name).map Kind.zero := by
  funext name
  rw [Reference.initialStore, h.lookup_eq_find]

/-- Hoisting does not change what a program does. -/
theorem Program.run_hoisted (h : p.scope? = some Γ) (mode : EndOfInput) (input : List UInt8)
    (fuel : Nat) : Reference.run mode p.hoisted input fuel = Reference.run mode p input fuel := by
  have hdeclares := Stmt.declares_all p.statements h
  have hstart : Reference.start p.hoisted input = Reference.start p input := by
    rw [Reference.start, Reference.start, Reference.initialStore_eq hdeclares,
      Reference.initialStore_eq (Stmt.declares_all _ (Program.scope?_hoisted h))]
  have hzero (d : Declaration) (hd : d ∈ Stmt.allLoopDeclarations p.statements) :
      ∃ kind, d.kind? = some kind ∧ (Reference.start p input).store d.name = some kind.zero := by
    have hmem := (Stmt.perm_hoistAll p.statements).mem_iff.2 (List.mem_append_left _ hd)
    obtain ⟨kind, hkind, hlookup⟩ := hdeclares.lookup_of_mem hmem
    refine ⟨kind, hkind, ?_⟩
    rw [Reference.start, Reference.initialStore_eq hdeclares]
    show (Γ d.name).map Kind.zero = _
    rw [hlookup, Option.map_some]
  rw [Reference.run, Reference.run, hstart, Program.hoisted, Stmt.execAll_append,
    Stmt.execAll_zeros _ hzero, Stmt.execAll_hoistAll]
  rfl

end Hoisted

end Goat
