import Goat.Proofs.Reference
import Mathlib.Data.List.Forall2

/-!
# Fuel

More fuel changes nothing about a run that has ended, so what a program does is the same for
every amount of fuel that is enough.
-/

namespace Goat.Reference

open Machine (EndOfInput)

/-- The second outcome is the first one, unless that one needs more fuel. -/
def Outcome.Settles (o o' : Outcome) : Prop := (∃ ρ, o = .outOfFuel ρ) ∨ o' = o

namespace Outcome.Settles

variable {o o' : Outcome} {next next' : State → Outcome}

theorem refl (o : Outcome) : o.Settles o := .inr rfl

theorem andThen (h : o.Settles o') (hnext : ∀ ρ, (next ρ).Settles (next' ρ)) :
    (o.andThen next).Settles (o'.andThen next') := by
  rcases h with ⟨ρ, rfl⟩ | rfl
  · exact .inl ⟨ρ, rfl⟩
  · cases o' with
    | done ρ => exact hnext ρ
    | stuck reason => exact .refl _
    | outOfFuel ρ => exact .refl _

theorem withValue {α : Type} (value : Except Stuck α) {next next' : α → Outcome}
    (hnext : ∀ a, (next a).Settles (next' a)) :
    (Outcome.withValue value next).Settles (.withValue value next') := by
  cases value with
  | ok a => exact hnext a
  | error reason => exact .refl _

theorem ite {p : Prop} [Decidable p] {o₁ o₁' : Outcome} (h : o.Settles o') (h₁ : o₁.Settles o₁') :
    (if p then o else o₁).Settles (if p then o' else o₁') := by
  split
  · exact h
  · exact h₁

end Outcome.Settles

theorem repeatWhile_settles {condition : Store → Except Stuck UInt8} {body body' : State → Outcome}
    (h : ∀ ρ, (body ρ).Settles (body' ρ)) {n n' : Nat} (hn : n ≤ n') (ρ : State) :
    (repeatWhile condition body n ρ).Settles (repeatWhile condition body' n' ρ) := by
  induction n generalizing n' ρ with
  | zero =>
    cases hvalue : condition ρ.store with
    | error reason =>
      rw [repeatWhile_stuck hvalue, repeatWhile_stuck hvalue]
      exact .refl _
    | ok b =>
      by_cases hb : b = 0
      · subst hb
        rw [repeatWhile_done hvalue, repeatWhile_done hvalue]
        exact .refl _
      · exact .inl ⟨ρ, repeatWhile_zero hvalue hb⟩
  | succ n ih =>
    obtain ⟨k, rfl⟩ := Nat.exists_eq_add_of_le' hn
    rw [← Nat.add_assoc, repeatWhile, repeatWhile]
    exact .withValue _ fun b => .ite (.refl _) ((h ρ).andThen fun ρ' => ih (by omega) ρ')

theorem forEach_settles {element list : Text} {body body' : State → Outcome}
    (h : ∀ ρ, (body ρ).Settles (body' ρ)) (indexes : List Nat) (ρ : State) :
    (forEach element list body indexes ρ).Settles (forEach element list body' indexes ρ) := by
  induction indexes generalizing ρ with
  | nil => exact .refl _
  | cons k rest ih => exact .withValue _ fun b => (h _).andThen ih

section Calls

variable {mode : EndOfInput} {fuel fuel' : Nat}

theorem call_settles {runs runs' : List (State → Outcome)} (hfuel : fuel ≤ fuel')
    (h : List.Forall₂ (fun run run' => ∀ ρ, (run ρ).Settles (run' ρ)) runs runs') (b : Builtin)
    (arguments : List Expr) (ρ : State) :
    (call mode fuel b arguments runs ρ).Settles (call mode fuel' b arguments runs' ρ) := by
  cases b with
  | while_ =>
    rcases arguments with _ | ⟨condition, _ | _⟩
    case cons.nil =>
      rcases h with _ | ⟨hbody, _ | _⟩
      case cons.nil => exact repeatWhile_settles hbody hfuel ρ
      all_goals exact .refl _
    all_goals exact .refl _
  | for_ =>
    rcases arguments with _ | ⟨element, rest⟩
    · exact .refl _
    cases element with
    | var element espan =>
      rcases rest with _ | ⟨list, rest⟩
      · exact .refl _
      cases list with
      | var list lspan =>
        rcases rest with _ | _
        · rcases h with _ | ⟨hbody, _ | _⟩
          case cons.nil => exact .withValue _ fun bytes => forEach_settles hbody _ ρ
          all_goals exact .refl _
        · exact .refl _
      | _ => exact .refl _
    | _ => exact .refl _
  | if_ =>
    rcases arguments with _ | ⟨condition, _ | _⟩
    case cons.nil =>
      rcases h with _ | ⟨hbody, _ | ⟨hother, _ | _⟩⟩
      case cons.nil => exact .withValue _ fun b => .ite (.refl _) (hbody ρ)
      case cons.cons.nil => exact .withValue _ fun b => .ite (hother ρ) (hbody ρ)
      all_goals exact .refl _
    all_goals exact .refl _
  | _ =>
    rcases arguments with _ | ⟨value, _ | _⟩ <;> rcases h with _ | _ <;> exact .refl _

mutual

theorem exec_settles (hfuel : fuel ≤ fuel') : (s : Stmt) → (ρ : State) →
    (exec mode fuel s ρ).Settles (exec mode fuel' s ρ)
  | .declaration d, ρ => .refl _
  | .assignment a, ρ => by
    rw [exec, exec]
    exact .refl _
  | .call name arguments blocks span, ρ => by
    rw [exec, exec]
    split
    · exact call_settles hfuel (execBlocks_settles hfuel blocks) _ _ ρ
    · exact .refl _

theorem execAll_settles (hfuel : fuel ≤ fuel') : (body : List Stmt) → (ρ : State) →
    (execAll mode fuel body ρ).Settles (execAll mode fuel' body ρ)
  | [], _ => .refl _
  | s :: rest, ρ => (exec_settles hfuel s ρ).andThen (execAll_settles hfuel rest)

theorem execBlocks_settles (hfuel : fuel ≤ fuel') : (blocks : List Block) →
    List.Forall₂ (fun run run' => ∀ ρ, (run ρ).Settles (run' ρ)) (execBlocks mode fuel blocks)
      (execBlocks mode fuel' blocks)
  | [] => .nil
  | .mk _ body _ :: rest => .cons (execAll_settles hfuel body) (execBlocks_settles hfuel rest)

end

/-- A program that ends is stuck for no amount of fuel. -/
theorem run_ne_stuck {p : Program} {input : List UInt8} {n : Nat} {ρ : State}
    (h : run mode p input n = .done ρ) (fuel : Nat) (reason : Stuck) :
    run mode p input fuel ≠ .stuck reason := by
  intro hstuck
  rcases Nat.le_total fuel n with hle | hle
  · rcases execAll_settles hle p.statements (start p input) with ⟨ρ', hfuel⟩ | hsame
    · cases hstuck.symm.trans hfuel
    · cases h.symm.trans (hsame.trans hstuck)
  · rcases execAll_settles hle p.statements (start p input) with ⟨ρ', hfuel⟩ | hsame
    · cases h.symm.trans hfuel
    · cases hstuck.symm.trans (hsame.trans h)

end Calls

end Goat.Reference
