import Goat.Proofs.Operations
import Mathlib.Algebra.Group.Int.Defs

/-!
# Calculating and comparing on a machine

Arithmetic on a machine is exact modulo 256, and comparisons are those of the numbers that the
cells hold. The operands may be any cells in use, the target among them.
-/

namespace Goat

variable {e : Emitter} {m : Machine} {c y a b : Cell}

namespace Machine

/-- A step that leaves a truth value in a cell decides what it is the truth of. -/
theorem Awaits.decides {step : Emit Unit} {p q : Prop} [Decidable p] [Decidable q]
    (h : m.Awaits e) (hc : Owned e.layout.live c.address)
    (htakes : Takes m.settings e.layout.live step () e.layout.live m.contents
      (m.contents.set c.address (truth p))) (hpq : p ↔ q) :
    m.Computes e step c (if q then 1 else 0) := by
  refine h.computes hc htakes ?_
  by_cases hq : q
  · rw [if_pos hq, truth, if_pos (hpq.2 hq)]
    rfl
  · rw [if_neg hq, truth, if_neg (mt hpq.1 hq)]
    rfl

end Machine

namespace Cell

/-- Sums, differences, products and powers are exact modulo 256, also of a cell with itself. A
    cell can be set to another one, and copied to a new one. -/
theorem machine_calculates (hm : m.Awaits e) (hc : Owned e.layout.live c.address)
    (hy : Owned e.layout.live y.address) :
    m.Computes e (c.plus y) c (m.number c + m.number y) ∧
    m.Computes e (c.minus y) c (m.number c - m.number y) ∧
    m.Computes e (c.times y) c (m.number c * m.number y) ∧
    m.Computes e (c.power y) c (m.number c ^ m.number y) ∧
    m.Computes e (c.set y) c (m.number y) ∧
    ∃ copy live', copy.Taken e.layout.live live' ∧
      m.Performs e c.clone copy live' fun m' =>
        m.SetsCell m' copy.address (m.cell c.address) := by
  have hready := hm.ready
  refine ⟨hm.computes hc (takes_plus hready hc hy) ?_, hm.computes hc (takes_minus hready hc hy) ?_,
    hm.computes hc (takes_times hready hc hy) ?_, hm.computes hc (takes_power hready hc hy) ?_,
    hm.computes hc (takes_set hready hc hy) (m.ofInt_number y), ?_⟩
  · simp [UInt8.ofInt_add]
  · simp [Int.sub_eq_add_neg, UInt8.ofInt_add, UInt8.ofInt_neg, UInt8.sub_eq_add_neg]
  · simp [UInt8.ofInt_mul]
  · rw [← Int.natCast_pow, ofInt_natCast]
    rfl
  · obtain ⟨copy, live', hcopy, hclone⟩ := exists_taken_clone m.settings hready.packed hc
    refine ⟨copy, live', hcopy, hm.performs (hclone _ hready) ?_ fun _ => .of_contents⟩
    exact (hcopy.ready hready).set hcopy.self _

/-- Differences wrap, and zero to the power of itself is one. -/
theorem machine_calculates_wrapping :
    (∃ e' m', ((view 4).minus (view 5)).run sampleEmission = ((), e') ∧
      sampleMachine.Executes sampleEmission e' m' ∧ m'.cell 4 = 246) ∧
    ∃ e' m', ((view 0).power (view 0)).run sampleEmission = ((), e') ∧
      sampleMachine.Executes sampleEmission e' m' ∧ m'.cell 0 = 1 := by
  have howned (x : Int) (hx : 0 ≤ x) (hx' : x < 8) :
      Owned sampleEmission.layout.live (view x).address := owned_sampleEmission hx hx'
  obtain ⟨-, hminus, -⟩ := machine_calculates sampleMachine_awaits
    (howned 4 (by decide) (by decide)) (howned 5 (by decide) (by decide))
  obtain ⟨-, -, -, hpower, -⟩ := machine_calculates sampleMachine_awaits
    (howned 0 (by decide) (by decide)) (howned 0 (by decide) (by decide))
  exact ⟨hminus.exists_executes (by decide +kernel) rfl,
    hpower.exists_executes (by decide +kernel) rfl⟩

/-- A comparison stores 1 if it holds of the numbers in the cells, and 0 otherwise. -/
theorem machine_compares (hm : m.Awaits e) (hc : Owned e.layout.live c.address)
    (hy : Owned e.layout.live y.address) (ha : Owned e.layout.live a.address)
    (hb : Owned e.layout.live b.address) :
    m.Computes e (c.apply .eq y) c (if m.number c = m.number y then 1 else 0) ∧
    m.Computes e (c.apply .neq y) c (if m.number c ≠ m.number y then 1 else 0) ∧
    m.Computes e (c.apply .lt y) c (if m.number c < m.number y then 1 else 0) ∧
    m.Computes e (c.apply .lte y) c (if m.number c ≤ m.number y then 1 else 0) ∧
    m.Computes e (c.apply .gt y) c (if m.number c > m.number y then 1 else 0) ∧
    m.Computes e (c.apply .gte y) c (if m.number c ≥ m.number y then 1 else 0) ∧
    m.Computes e (c.lessThan a b) c (if m.number a < m.number b then 1 else 0) := by
  have happly (op : Operator) : Takes m.settings e.layout.live (c.apply op y) () e.layout.live
      m.contents (m.contents.set c.address (op.eval (m.cell c.address) (m.cell y.address))) :=
    takes_apply hm.ready hc hy op
  exact ⟨hm.decides hc (happly .eq) UInt8.toNat_inj.symm,
    hm.decides hc (happly .neq) (not_congr UInt8.toNat_inj.symm),
    hm.decides hc (happly .lt) UInt8.lt_iff_toNat_lt,
    hm.decides hc (happly .lte) UInt8.le_iff_toNat_le,
    hm.decides hc (happly .gt) UInt8.lt_iff_toNat_lt,
    hm.decides hc (happly .gte) UInt8.le_iff_toNat_le,
    hm.decides hc (takes_lessThan hm.ready hc ha hb) UInt8.lt_iff_toNat_lt⟩

/-- The target may be an operand, and an operand both. -/
theorem machine_compares_shared :
    (∃ e' m', ((view 7).lessThan (view 6) (view 7)).run sampleEmission = ((), e') ∧
      sampleMachine.Executes sampleEmission e' m' ∧ m'.cell 7 = 1) ∧
    ∃ e' m', ((view 7).apply .gt (view 7)).run sampleEmission = ((), e') ∧
      sampleMachine.Executes sampleEmission e' m' ∧ m'.cell 7 = 0 := by
  have h₆ : Owned sampleEmission.layout.live (view 6).address :=
    owned_sampleEmission (by decide) (by decide)
  have h₇ : Owned sampleEmission.layout.live (view 7).address :=
    owned_sampleEmission (by decide) (by decide)
  obtain ⟨-, -, -, -, hgreater, -, hless⟩ := machine_compares sampleMachine_awaits h₇ h₇ h₆ h₇
  exact ⟨hless.exists_executes (by decide +kernel) rfl,
    hgreater.exists_executes (by decide +kernel) rfl⟩

end Cell

end Goat
