import Goat.Proofs.Scope
import Mathlib.Data.List.Forall2
import Mathlib.Tactic.ByContra

/-!
# What a program declares

The scope after well-formed statements is the scope before them with the declarations in
them, one after the other, whatever blocks they stand in. Every declared name is new.
-/

namespace Goat

/-- The declarations lead from the first scope to the second one: each name is new, and
    `kindOf?` says what is declared. -/
inductive Scope.Declares (kindOf? : Declaration → Option Kind) :
    Scope → List Declaration → Scope → Prop where
  | nil {Γ} : Declares kindOf? Γ [] Γ
  | cons {Γ Γ' d ds kind} (hid : isIdentifier d.name = true) (hname : Γ d.name = none)
      (hkind : kindOf? d = some kind) (h : Declares kindOf? (Γ.declare d.name kind) ds Γ') :
      Declares kindOf? Γ (d :: ds) Γ'

/-- The scope in which nothing is declared. -/
def Scope.empty : Scope := fun _ => none

namespace Scope.Declares

variable {kindOf? : Declaration → Option Kind} {Γ Γ' Γ'' : Scope} {ds ds' : List Declaration}

theorem append (h : Declares kindOf? Γ ds Γ') (h' : Declares kindOf? Γ' ds' Γ'') :
    Declares kindOf? Γ (ds ++ ds') Γ'' := by
  induction h with
  | nil => exact h'
  | cons hid hname hkind _ ih => exact .cons hid hname hkind (ih h')

theorem within (h : Declares kindOf? Γ ds Γ') : Γ.Within Γ' := by
  induction h with
  | nil => exact .refl _
  | cons _ hname _ _ ih => exact (within_declare hname _).trans ih

/-- Every declaration has its kind in the scope at the end. -/
theorem lookup_of_mem (h : Declares kindOf? Γ ds Γ') {d : Declaration} (hd : d ∈ ds) :
    ∃ kind, kindOf? d = some kind ∧ Γ' d.name = some kind := by
  induction h with
  | nil => cases hd
  | @cons Γ Γ' d' ds kind _ hname hkind h ih =>
    rcases List.mem_cons.1 hd with rfl | hd
    · refine ⟨kind, hkind, h.within _ _ ?_⟩
      rw [declare, if_pos rfl]
    · exact ih hd

/-- A variable at the end was there before or is declared. -/
theorem mem_of_lookup (h : Declares kindOf? Γ ds Γ') {name : Text} {kind : Kind}
    (hname : Γ' name = some kind) :
    Γ name = some kind ∨ ∃ d ∈ ds, d.name = name ∧ kindOf? d = some kind := by
  induction h with
  | nil => exact .inl hname
  | @cons Γ Γ' d ds kind' _ _ hkind _ ih =>
    rcases ih hname with hdeclare | ⟨d', hd', hname', hkind'⟩
    · rw [declare] at hdeclare
      split at hdeclare
      · rename_i heq
        cases hdeclare
        exact .inr ⟨d, List.mem_cons_self, heq.symm, hkind⟩
      · exact .inl hdeclare
    · exact .inr ⟨d', List.mem_cons_of_mem _ hd', hname', hkind'⟩

/-- From the empty scope on, the scope at the end is given by the first declaration of a name. -/
theorem lookup_eq_find (h : Declares kindOf? Scope.empty ds Γ') (name : Text) :
    Γ' name = (ds.find? fun d => d.name == name).bind kindOf? := by
  cases hfind : ds.find? fun d => d.name == name with
  | some d =>
    obtain ⟨kind, hkind, hlookup⟩ := h.lookup_of_mem (List.mem_of_find?_eq_some hfind)
    have hname : d.name = name := by simpa using List.find?_some hfind
    rw [← hname, hlookup, Option.bind_some, hkind]
  | none =>
    by_contra hsome
    obtain ⟨kind, hkind⟩ := Option.ne_none_iff_exists'.1 hsome
    rcases h.mem_of_lookup hkind with hempty | ⟨d, hd, hname, -⟩
    · cases hempty
    · have := List.find?_eq_none.1 hfind d hd
      simp [hname] at this

end Scope.Declares

section

variable {kindOf? : Declaration → Option Kind}

/-- A block changes the scope by the declarations. -/
def BlockScope.Declares (kindOf? : Declaration → Option Kind) (ds : List Declaration)
    (block : BlockScope) : Prop :=
  ∀ {Γ Γ'}, block.scope? Γ = some Γ' → Scope.Declares kindOf? Γ ds Γ'

/-- A call hands the scope through its blocks, one after the other. -/
theorem foldlM_of_callScope {Γ Γ' : Scope} {b : Builtin} {arguments : List Expr}
    {scopes : List BlockScope} (h : callScope? Γ b arguments scopes = some Γ') :
    scopes.foldlM (fun Γ block => block.scope? Γ) Γ = some Γ' := by
  unfold callScope? at h
  split at h
  case h_9 => cases h
  all_goals
    split at h
    · simpa using h
    · cases h

theorem declares_of_foldlM {blocks : List Block} {scopes : List BlockScope}
    (hblocks : List.Forall₂ (fun block => BlockScope.Declares kindOf? block.declarations)
      blocks scopes) {Γ Γ' : Scope}
    (h : scopes.foldlM (fun Γ block => block.scope? Γ) Γ = some Γ') :
    Scope.Declares kindOf? Γ (Block.allDeclarations blocks) Γ' := by
  induction hblocks generalizing Γ with
  | nil =>
    cases h
    exact .nil
  | cons hblock _ ih =>
    rw [List.foldlM_cons] at h
    obtain ⟨Γ₁, h₁, h⟩ := Option.bind_eq_some_iff.1 h
    exact (hblock h₁).append (ih h)

mutual

/-- A well-formed statement changes the scope by the declarations in it. -/
theorem Stmt.declares : (s : Stmt) → {Γ Γ' : Scope} → s.scope? kindOf? Γ = some Γ' →
    Scope.Declares kindOf? Γ s.declarations Γ'
  | .declaration d, Γ, Γ', h => by
    rw [Stmt.scope?] at h
    split at h
    · rename_i kind hkind
      split at h
      · rename_i hcond
        cases h
        exact .cons hcond.1 hcond.2.1 hkind .nil
      · cases h
    · cases h
  | .assignment a, Γ, Γ', h => by
    rw [Stmt.scope?] at h
    split at h
    · split at h
      · cases h
        exact .nil
      · cases h
    · split at h
      · cases h
        exact .nil
      · cases h
    · cases h
  | .call name arguments blocks span, Γ, Γ', h => by
    rw [Stmt.scope?] at h
    obtain ⟨b, -, h⟩ := Option.bind_eq_some_iff.1 h
    rw [Stmt.declarations]
    exact declares_of_foldlM (Block.declares_scopes blocks) (foldlM_of_callScope h)

/-- Well-formed statements change the scope by the declarations in them. -/
theorem Stmt.declares_all : (body : List Stmt) → {Γ Γ' : Scope} →
    Stmt.scopeAll? kindOf? body Γ = some Γ' →
    Scope.Declares kindOf? Γ (Stmt.allDeclarations body) Γ'
  | [], Γ, Γ', h => by
    cases h
    exact .nil
  | s :: rest, Γ, Γ', h => by
    rw [Stmt.scopeAll?] at h
    obtain ⟨Γ₁, h₁, h⟩ := Option.bind_eq_some_iff.1 h
    exact (Stmt.declares s h₁).append (Stmt.declares_all rest h)

theorem Block.declares_scopes : (blocks : List Block) →
    List.Forall₂ (fun block => BlockScope.Declares kindOf? block.declarations) blocks
      (Block.scopes kindOf? blocks)
  | [] => .nil
  | .mk _ body _ :: rest => .cons (Stmt.declares_all body) (Block.declares_scopes rest)

end

end

end Goat
