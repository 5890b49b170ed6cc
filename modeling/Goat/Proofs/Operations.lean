import Goat.Proofs.Execution

/-!
# Operations on a machine

What a machine does with the code of an operation, wherever it is emitted: the machine starts on
the tracked pointer, with any values in the cells in use and zeros in all others. The operation
changes the cell it is for, and nothing else; its temporaries are zero and given back.
-/

namespace Goat

open Plain (Contents)

variable {e : Emitter} {m : Machine}

/-- An emission with a list of two elements and two cells in use. -/
def sampleEmission : Emitter :=
  { layout := { live := [⟨0, 5⟩, ⟨6, 6⟩, ⟨7, 7⟩], pointer := 7, peak := 8 } }

/-- A machine in step with it: the elements are 10 and 20, the cells 2 and 9. -/
def sampleMachine : Machine :=
  { config := { tapeSize := some 16 }, tape := #[0, 0, 0, 0, 10, 20, 2, 9], pointer := 7 }

theorem sampleEmission_sound : sampleEmission.layout.Sound where
  packed := ⟨by decide, by decide, by decide⟩
  stop_lt_peak := by decide
  pointer_nonneg := by decide
  pointer_lt_peak := by decide

theorem sampleMachine_inStep : sampleMachine.InStep sampleEmission where
  pointer := rfl
  inside := by decide
  size_le := by decide
  unlimited := rfl

theorem owned_sampleEmission {x : Int} (hx : 0 ≤ x) (hx' : x < 8) :
    Owned sampleEmission.layout.live x := by
  simp only [Owned, sampleEmission, List.mem_cons, List.not_mem_nil, or_false, exists_eq_or_imp,
    exists_eq_left]
  omega

theorem sampleMachine_free (x : Int) (hx : ¬ Owned sampleEmission.layout.live x) :
    sampleMachine.cell x = 0 := by
  by_cases hneg : x < 0
  · exact sampleMachine.cell_of_neg hneg
  · have hlarge : 8 ≤ x := by
      by_contra hsmall
      exact hx (owned_sampleEmission (by omega) (by omega))
    obtain ⟨i, rfl⟩ := Int.eq_ofNat_of_zero_le (by omega : 0 ≤ x)
    rw [Machine.cell_natCast, Array.getD_eq_getD_getElem?, Array.getElem?_eq_none]
    · rfl
    · show 8 ≤ i
      omega

theorem sampleMachine_awaits : sampleMachine.Awaits sampleEmission :=
  ⟨sampleEmission_sound, sampleMachine_inStep, sampleMachine_free⟩

namespace Cell

variable {c y : Cell}

/-- A machine divides as the bytes divide, rounding down; dividing by zero yields zero. The
    divisor may be the cell itself. -/
theorem machine_divides (he : e.layout.Sound) (hc : Owned e.layout.live c.address)
    (hy : Owned e.layout.live y.address) (hm : m.InStep e)
    (hfree : ∀ x, ¬ Owned e.layout.live x → m.cell x = 0) :
    ∃ e', (c.dividedBy y).run e = ((), e') ∧ e'.layout.live = e.layout.live ∧
      (m.HasRoom e' → ∃ m', m.Executes e e' m' ∧ (m'.pointer : Int) = e'.layout.pointer ∧
        (m'.cell c.address).toNat =
          (if m.cell y.address = 0 then 0
            else (m.cell c.address).toNat / (m.cell y.address).toNat) ∧
        (∀ x, x ≠ c.address → m'.cell x = m.cell x) ∧
        (∀ x, ¬ Owned e'.layout.live x → m'.cell x = 0) ∧
        m'.input = m.input ∧ m'.output = m.output) := by
  have hready : Ready e.layout.live m.contents := ⟨he.packed, hfree⟩
  have hnonneg : 0 ≤ c.address := he.packed.owned_nonneg hc
  obtain ⟨e', hrun, hemitted, hexecutes⟩ :=
    hm.executes_set he hnonneg (takes_dividedBy hready hc hy)
  refine ⟨e', hrun, hemitted.live, fun hroom => ?_⟩
  obtain ⟨m', hexecuted, hinStep, hsets⟩ := hexecutes hroom
  refine ⟨m', hexecuted, hinStep.pointer, ?_, hsets.others, ?_, hsets.input, hsets.output⟩
  · rw [hsets.cell, UInt8.toNat_div]
    by_cases hzero : m.cell y.address = 0
    · simp [hzero]
    · simp [hzero]
  · intro x hx
    rw [hemitted.live] at hx
    have hne : x ≠ c.address := fun heq => hx (heq ▸ hc)
    rw [hsets.others x hne, hfree x hx]

/-- An element of a list is divided by a cell. -/
theorem machine_divides_element :
    ∃ e' m', ((view 5).dividedBy (view 7)).run sampleEmission = ((), e') ∧
      sampleMachine.Executes sampleEmission e' m' ∧ m'.cell 5 = 2 ∧ m'.cell 7 = 9 := by
  obtain ⟨e', hrun, -, hexecutes⟩ := machine_divides sampleEmission_sound
    (owned_sampleEmission (x := (view 5).address) (by decide) (by decide))
    (owned_sampleEmission (x := (view 7).address) (by decide) (by decide))
    sampleMachine_inStep sampleMachine_free
  have hpeak : (((view 5).dividedBy (view 7)).run sampleEmission).2.layout.peak ≤ 16 := by
    decide +kernel
  rw [hrun] at hpeak
  obtain ⟨m', hexecuted, -, hquotient, hothers, -⟩ := hexecutes fun size hsize => by
    cases hsize
    exact hpeak
  refine ⟨e', m', hrun, hexecuted, ?_, hothers 7 (by decide)⟩
  exact UInt8.toNat_inj.1 hquotient

end Cell

namespace CellList

variable {l : CellList} {index value : Cell}

/-- A machine reads and stores at a computed index, which is any byte: the cell that the index
    leads to may lie past the elements of the list, and may be the index or the value itself. -/
theorem machine_indexes (he : e.layout.Sound) (hl : l.Placed e.layout.live)
    (hi : Owned e.layout.live index.address) (hv : Owned e.layout.live value.address)
    (hne : index.address ≠ (l.scratch 0).address) (hm : m.InStep e)
    (hfree : ∀ x, ¬ Owned e.layout.live x → m.cell x = 0)
    (hquiet : ∀ k < 4, m.cell (l.scratch k).address = 0) {target : Int}
    (htarget : target = l.region.start + 4 + (m.cell index.address).toNat)
    (hreach : ∀ size ∈ m.config.tapeSize, target < size) :
    (∃ found e', (l.get index).run e = (found, e') ∧ found.Taken e.layout.live e'.layout.live ∧
      (m.HasRoom e' → ∃ m', m.Executes e e' m' ∧ (m'.pointer : Int) = e'.layout.pointer ∧
        m.SetsCell m' found.address (m.cell target) ∧
        ∀ k < 4, m'.cell (l.scratch k).address = 0)) ∧
    ∃ e', (l.put index value).run e = ((), e') ∧ e'.layout.live = e.layout.live ∧
      (m.HasRoom e' → ∃ m', m.Executes e e' m' ∧ (m'.pointer : Int) = e'.layout.pointer ∧
        m.SetsCell m' target (m.cell value.address) ∧
        ∀ k < 4, m'.cell (l.scratch k).address = 0) := by
  have hready : Ready e.layout.live m.contents := ⟨he.packed, hfree⟩
  have hstart : 0 ≤ l.region.start := he.packed.start_nonneg _ hl.mem
  have haddress : (l.element (m.cell index.address).toNat).address = target := by
    rw [element_address, htarget]
  have hspans : l.Spans m.settings e.layout.live (m.cell index.address).toNat := by
    intro _
    rw [haddress]
    exact ⟨by omega, hreach⟩
  constructor
  · obtain ⟨found, live', hfound, hget⟩ :=
      exists_taken_get_spanning m.settings he.packed hl hi
    have htakes := hget m.contents hready hquiet hspans
    simp only [Machine.contents_cells, haddress] at htakes
    have hnonneg : 0 ≤ found.address := hfound.fresh.packed.owned_nonneg hfound.self
    obtain ⟨e', hrun, hemitted, hexecutes⟩ := hm.executes_set he hnonneg htakes
    rw [← hemitted.live] at hfound
    refine ⟨found, e', hrun, hfound, fun hroom => ?_⟩
    obtain ⟨m', hexecuted, hinStep, hsets⟩ := hexecutes hroom
    refine ⟨m', hexecuted, hinStep.pointer, hsets, fun k hk => ?_⟩
    rw [hsets.others _ (hfound.ne (hl.owned_scratch hk)), hquiet k hk]
  · have htakes := takes_put_spanning hready hl hquiet hi hv (by simpa using hne) hspans
    simp only [Machine.contents_cells, haddress] at htakes
    obtain ⟨e', hrun, hemitted, hexecutes⟩ := hm.executes_set he (by omega) htakes
    refine ⟨e', hrun, hemitted.live, fun hroom => ?_⟩
    obtain ⟨m', hexecuted, hinStep, hsets⟩ := hexecutes hroom
    refine ⟨m', hexecuted, hinStep.pointer, hsets, fun k hk => ?_⟩
    have hbefore : (l.scratch k).address ≠ target := by
      rw [scratch_address]
      omega
    rw [hsets.others _ hbefore, hquiet k hk]

/-- The list of the sample. -/
def sampleList : CellList := ⟨"k", ⟨0, 5⟩, 2⟩

/-- The index 2 is past the elements and leads to the cell that holds it. -/
theorem machine_indexes_itself :
    (∃ found e' m', (sampleList.get (.view 6)).run sampleEmission = (found, e') ∧
      sampleMachine.Executes sampleEmission e' m' ∧ sampleMachine.SetsCell m' found.address 2) ∧
    ∃ e' m', (sampleList.put (.view 6) (.view 7)).run sampleEmission = ((), e') ∧
      sampleMachine.Executes sampleEmission e' m' ∧ sampleMachine.SetsCell m' 6 9 := by
  have hplaced : sampleList.Placed sampleEmission.layout.live :=
    ⟨by decide, by decide, by decide, by decide⟩
  have hi : Owned sampleEmission.layout.live (Cell.view 6).address :=
    owned_sampleEmission (by decide) (by decide)
  have hv : Owned sampleEmission.layout.live (Cell.view 7).address :=
    owned_sampleEmission (by decide) (by decide)
  have htarget : 6 = sampleList.region.start + 4 +
      (sampleMachine.cell (Cell.view 6).address).toNat := by decide
  obtain ⟨⟨found, e₁, hget, -, hread⟩, e₂, hput, -, hstored⟩ :=
    machine_indexes sampleEmission_sound hplaced hi hv (by decide) sampleMachine_inStep
      sampleMachine_free (by decide) htarget (by decide)
  have hpeak : ((sampleList.get (.view 6)).run sampleEmission).2.layout.peak ≤ 16 := by
    decide +kernel
  have hpeak' : ((sampleList.put (.view 6) (.view 7)).run sampleEmission).2.layout.peak ≤ 16 := by
    decide +kernel
  rw [hget] at hpeak
  rw [hput] at hpeak'
  obtain ⟨m₁, hexecuted₁, -, hsets₁, -⟩ := hread fun size hsize => by
    cases hsize
    exact hpeak
  obtain ⟨m₂, hexecuted₂, -, hsets₂, -⟩ := hstored fun size hsize => by
    cases hsize
    exact hpeak'
  exact ⟨⟨found, e₁, m₁, hget, hexecuted₁, hsets₁⟩, e₂, m₂, hput, hexecuted₂, hsets₂⟩

end CellList

end Goat
