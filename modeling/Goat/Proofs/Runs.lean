import Goat.Machine.Basic

/-!
# Runs, one instruction after the other

A run is taken apart into its instructions once, by `runFrom_induction`: it is past the end of
the code, out of fuel, stopped before an instruction, failed by it, or goes on after it. What
holds of every run follows from there: a run only adds to the output, and more fuel only makes
it longer.
-/

namespace Goat.Machine

/-- The machine with one more step counted. -/
def counted (m : Machine) : Machine := { m with steps := m.steps + 1 }

@[simp] theorem counted_steps (m : Machine) : m.counted.steps = m.steps + 1 := rfl

@[simp] theorem counted_config (m : Machine) : m.counted.config = m.config := rfl

@[simp] theorem counted_output (m : Machine) : m.counted.output = m.output := rfl

section Instructions

variable {code : Code} {pending : Option Interruption} {fuel pc : Nat} {m m' : Machine}
  {i : Instruction} {fault : Fault}

theorem runFrom_instruction (hi : code.instructions[pc]? = some i) :
    runFrom code pending (fuel + 1) pc m =
      match m.counted.countStep pending with
      | .error fault => (.failed fault, m.counted)
      | .ok () =>
        match m.counted.execute pc i with
        | (.error fault, m) => (.failed fault, m)
        | (.ok next, m) => runFrom code pending fuel next m := by
  rw [runFrom, hi]
  rfl

theorem runFrom_past_end (hi : code.instructions[pc]? = none) :
    runFrom code pending fuel pc m = (.finished, m) := by
  rw [runFrom, hi]

theorem runFrom_without_fuel (hi : code.instructions[pc]? = some i) :
    runFrom code pending 0 pc m = (.outOfFuel pc, m) := by
  rw [runFrom, hi]

theorem runFrom_stopped (hi : code.instructions[pc]? = some i)
    (hcount : m.counted.countStep pending = .error fault) :
    runFrom code pending (fuel + 1) pc m = (.failed fault, m.counted) := by
  rw [runFrom_instruction hi, hcount]

theorem runFrom_failed (hi : code.instructions[pc]? = some i)
    (hcount : m.counted.countStep pending = .ok ())
    (he : m.counted.execute pc i = (.error fault, m')) :
    runFrom code pending (fuel + 1) pc m = (.failed fault, m') := by
  rw [runFrom_instruction hi, hcount, he]

theorem runFrom_next {next : Nat} (hi : code.instructions[pc]? = some i)
    (hcount : m.counted.countStep pending = .ok ())
    (he : m.counted.execute pc i = (.ok next, m')) :
    runFrom code pending (fuel + 1) pc m = runFrom code pending fuel next m' := by
  rw [runFrom_instruction hi, hcount, he]

/-- What holds of the ways a run can end, and of a run if it holds of what comes after its
    first instruction, holds of every run. -/
theorem runFrom_induction {motive : (fuel pc : Nat) → Machine → Outcome × Machine → Prop}
    (past_end : ∀ fuel pc m, code.instructions[pc]? = none → motive fuel pc m (.finished, m))
    (without_fuel : ∀ pc m i, code.instructions[pc]? = some i →
      motive 0 pc m (.outOfFuel pc, m))
    (stopped : ∀ fuel pc m i fault, code.instructions[pc]? = some i →
      m.counted.countStep pending = .error fault →
      motive (fuel + 1) pc m (.failed fault, m.counted))
    (failed : ∀ fuel pc m i fault m', code.instructions[pc]? = some i →
      m.counted.countStep pending = .ok () → m.counted.execute pc i = (.error fault, m') →
      motive (fuel + 1) pc m (.failed fault, m'))
    (next : ∀ fuel pc m i pc' m', code.instructions[pc]? = some i →
      m.counted.countStep pending = .ok () → m.counted.execute pc i = (.ok pc', m') →
      motive fuel pc' m' (runFrom code pending fuel pc' m') →
      motive (fuel + 1) pc m (runFrom code pending fuel pc' m'))
    (fuel pc : Nat) (m : Machine) : motive fuel pc m (runFrom code pending fuel pc m) := by
  induction fuel generalizing pc m with
  | zero =>
    cases hi : code.instructions[pc]? with
    | none =>
      rw [runFrom_past_end hi]
      exact past_end 0 pc m hi
    | some i =>
      rw [runFrom_without_fuel hi]
      exact without_fuel pc m i hi
  | succ fuel ih =>
    cases hi : code.instructions[pc]? with
    | none =>
      rw [runFrom_past_end hi]
      exact past_end (fuel + 1) pc m hi
    | some i =>
      cases hcount : m.counted.countStep pending with
      | error fault =>
        rw [runFrom_stopped hi hcount]
        exact stopped fuel pc m i fault hi hcount
      | ok _ =>
        rcases he : m.counted.execute pc i with ⟨fault | pc', m'⟩
        · rw [runFrom_failed hi hcount he]
          exact failed fuel pc m i fault m' hi hcount he
        · rw [runFrom_next hi hcount he]
          exact next fuel pc m i pc' m' hi hcount he (ih pc' m')

end Instructions

section Execution

variable {m m' : Machine} {pc : Nat} {i : Instruction} {result : Except Fault Nat}

theorem countStep_of_unlimited (h : m.config.maxSteps = none) : m.countStep none = .ok () := by
  unfold countStep
  rw [h]
  rfl

/-- The machine without a limit on its steps. -/
def unlimited (m : Machine) : Machine := { m with config := { m.config with maxSteps := none } }

theorem execute_unlimited (m : Machine) (pc : Nat) (i : Instruction) :
    m.unlimited.execute pc i = ((m.execute pc i).1, (m.execute pc i).2.unlimited) := by
  cases i with
  | move distance =>
    have hdestination : m.unlimited.destination distance = m.destination distance := rfl
    rw [execute, execute, hdestination]
    cases m.destination distance <;> rfl
  | read =>
    have hread : m.unlimited.read = m.read.unlimited := by
      have hinput : m.unlimited.input = m.input := rfl
      rw [read, read, hinput]
      cases m.input <;> rfl
    rw [execute, execute, hread]
  | _ => rfl

theorem execute_config (m : Machine) (pc : Nat) (i : Instruction) :
    (m.execute pc i).2.config = m.config := by
  cases i with
  | move distance =>
    simp only [execute]
    cases m.destination distance <;> rfl
  | read =>
    simp only [execute, read]
    cases m.input <;> rfl
  | _ => rfl

theorem config_of_execute (he : m.execute pc i = (result, m')) : m'.config = m.config := by
  have := execute_config m pc i
  rwa [he] at this

theorem steps_of_execute (he : m.execute pc i = (result, m')) : m'.steps = m.steps := by
  cases i with
  | move distance =>
    rw [execute] at he
    cases hd : m.destination distance <;> rw [hd] at he <;> cases he <;> rfl
  | read =>
    rw [execute, read] at he
    cases hinput : m.input <;> rw [hinput] at he <;> cases he <;> rfl
  | _ =>
    cases he
    rfl

/-- An instruction only adds to the output. -/
theorem output_grows_execute (he : m.execute pc i = (result, m')) :
    m.output.toList <+: m'.output.toList := by
  cases i with
  | move distance =>
    rw [execute] at he
    cases hd : m.destination distance <;> rw [hd] at he <;> cases he <;> exact List.prefix_rfl
  | write =>
    cases he
    simp
  | read =>
    rw [execute, read] at he
    cases hinput : m.input <;> rw [hinput] at he <;> cases he <;> exact List.prefix_rfl
  | _ =>
    cases he
    exact List.prefix_rfl

/-- A move that does not fail stays on the tape. -/
theorem lt_of_destination {distance : Int} {p : Nat} (h : m.destination distance = .ok p) :
    ∀ size ∈ m.config.tapeSize, p < size := by
  intro size hsize
  have hlimit : m.config.tapeSize = some size := hsize
  unfold destination at h
  by_cases hneg : (m.pointer : Int) + distance < 0
  · rw [if_pos hneg] at h
    cases h
  · rw [if_neg hneg, hlimit] at h
    replace h : (if size ≤ ((m.pointer : Int) + distance).toNat then _ else _) = _ := h
    by_cases hle : size ≤ ((m.pointer : Int) + distance).toNat
    · rw [if_pos hle] at h
      cases h
    · rw [if_neg hle] at h
      cases h
      omega

/-- Only a move fails. It leaves the machine as it was and, where it leads off the end of the
    tape, names the number of its cells. -/
theorem fault_of_execute {fault : Fault} (he : m.execute pc i = (.error fault, m')) :
    m' = m ∧ (fault = .underflow ∨ ∃ cells ∈ m.config.tapeSize, fault = .overflow cells) := by
  cases i with
  | move distance =>
    rw [execute] at he
    cases hd : m.destination distance with
    | ok p =>
      rw [hd] at he
      cases he
    | error fault' =>
      rw [hd] at he
      cases he
      refine ⟨rfl, ?_⟩
      rw [destination] at hd
      split at hd
      · cases hd
        exact .inl rfl
      · split at hd
        · rename_i limit hlimit
          split at hd
          · cases hd
            exact .inr ⟨limit, hlimit, rfl⟩
          · cases hd
        · cases hd
  | _ => cases he

end Execution

section Fuel

variable {code : Code} {pending : Option Interruption} {fuel pc : Nat} {m m' : Machine}

/-- A run only adds to the output. -/
theorem output_grows_runFrom (code : Code) (pending : Option Interruption) (fuel pc : Nat)
    (m : Machine) : m.output.toList <+: (runFrom code pending fuel pc m).2.output.toList := by
  refine runFrom_induction
    (motive := fun _ _ m result => m.output.toList <+: result.2.output.toList)
    ?_ ?_ ?_ ?_ ?_ fuel pc m
  · intro fuel pc m _
    exact List.prefix_rfl
  · intro pc m i _
    exact List.prefix_rfl
  · intro fuel pc m i fault _ _
    exact List.prefix_rfl
  · intro fuel pc m i fault m' _ _ he
    simpa using output_grows_execute he
  · intro fuel pc m i pc' m' _ _ he ih
    have hgrows : m.output.toList <+: m'.output.toList := by simpa using output_grows_execute he
    exact hgrows.trans ih

/-- A run goes on with the fuel that is added. -/
theorem runFrom_add (code : Code) (pending : Option Interruption) (fuel extra pc : Nat)
    (m : Machine) : runFrom code pending (fuel + extra) pc m =
      match runFrom code pending fuel pc m with
      | (.outOfFuel next, m) => runFrom code pending extra next m
      | ended => ended := by
  refine runFrom_induction (motive := fun fuel pc m result =>
    runFrom code pending (fuel + extra) pc m =
      match result with
      | (.outOfFuel next, m) => runFrom code pending extra next m
      | ended => ended) ?_ ?_ ?_ ?_ ?_ fuel pc m
  · intro fuel pc m hi
    exact runFrom_past_end hi
  · intro pc m i _
    rw [Nat.zero_add]
  · intro fuel pc m i fault hi hcount
    rw [Nat.succ_add]
    exact runFrom_stopped hi hcount
  · intro fuel pc m i fault m' hi hcount he
    rw [Nat.succ_add]
    exact runFrom_failed hi hcount he
  · intro fuel pc m i pc' m' hi hcount he ih
    rw [Nat.succ_add, runFrom_next hi hcount he]
    exact ih

/-- A run that is over is the same with more fuel. -/
theorem runFrom_add_of_ended (extra : Nat)
    (h : ∀ next, (runFrom code pending fuel pc m).1 ≠ .outOfFuel next) :
    runFrom code pending (fuel + extra) pc m = runFrom code pending fuel pc m := by
  rw [runFrom_add]
  rcases hrun : runFrom code pending fuel pc m with ⟨outcome, m'⟩
  rw [hrun] at h
  cases outcome with
  | outOfFuel next => exact absurd rfl (h next)
  | _ => rfl

/-- Runs that finish do so in the same state. -/
theorem run_eq_of_finished {m m₁ m₂ : Machine} {code : Code} {fuel fuel' : Nat}
    (h₁ : m.run code fuel = (.finished, m₁)) (h₂ : m.run code fuel' = (.finished, m₂)) :
    m₁ = m₂ := by
  have hmore {fuel : Nat} {m' : Machine} (h : m.run code fuel = (.finished, m')) (extra : Nat) :
      m.run code (fuel + extra) = (.finished, m') := by
    rw [run] at h ⊢
    rw [runFrom_add_of_ended extra (by rw [h]; exact nofun), h]
  have h₁' := hmore h₁ fuel'
  rw [Nat.add_comm, hmore h₂ fuel] at h₁'
  exact (congrArg Prod.snd h₁').symm

/-- More fuel only adds to the output. -/
theorem output_mono_runFrom (code : Code) (pending : Option Interruption) {fuel fuel' : Nat}
    (h : fuel ≤ fuel') (pc : Nat) (m : Machine) :
    (runFrom code pending fuel pc m).2.output.toList <+:
      (runFrom code pending fuel' pc m).2.output.toList := by
  obtain ⟨extra, rfl⟩ := Nat.exists_eq_add_of_le h
  rw [runFrom_add]
  rcases runFrom code pending fuel pc m with ⟨outcome, m'⟩
  cases outcome with
  | outOfFuel next => exact output_grows_runFrom code pending extra next m'
  | _ => exact List.prefix_rfl

/-- A machine without a limit on its steps uses up its fuel one instruction after the other. -/
theorem steps_of_outOfFuel (code : Code) (fuel pc : Nat) (m : Machine)
    (hmax : m.config.maxSteps = none) :
    ∀ next, (runFrom code none fuel pc m).1 = .outOfFuel next →
      (runFrom code none fuel pc m).2.steps = m.steps + fuel := by
  refine runFrom_induction (motive := fun fuel _ m result => m.config.maxSteps = none →
    ∀ next, result.1 = .outOfFuel next → result.2.steps = m.steps + fuel)
    ?_ ?_ ?_ ?_ ?_ fuel pc m hmax
  · intro fuel pc m _ _ next h
    cases h
  · intro pc m i _ _ next _
    rfl
  · intro fuel pc m i fault _ _ _ next h
    cases h
  · intro fuel pc m i fault m' _ _ _ _ next h
    cases h
  · intro fuel pc m i pc' m' _ _ he ih hmax next h
    have hsteps : m'.steps = m.steps + 1 := by simpa using steps_of_execute he
    have hconfig : m'.config = m.config := by simpa using config_of_execute he
    rw [ih (by rw [hconfig, hmax]) next h]
    omega

/-- Without a limit on its steps and an interruption, only a move off the tape fails a run. -/
theorem fault_of_runFrom (code : Code) (fuel pc : Nat) (m : Machine)
    (hmax : m.config.maxSteps = none) :
    ∀ fault, (runFrom code none fuel pc m).1 = .failed fault →
      fault = .underflow ∨ ∃ cells ∈ m.config.tapeSize, fault = .overflow cells := by
  refine runFrom_induction (motive := fun _ _ m result => m.config.maxSteps = none →
    ∀ fault, result.1 = .failed fault →
      fault = .underflow ∨ ∃ cells ∈ m.config.tapeSize, fault = .overflow cells)
    ?_ ?_ ?_ ?_ ?_ fuel pc m hmax
  · intro fuel pc m _ _ fault h
    cases h
  · intro pc m i _ _ fault h
    cases h
  · intro fuel pc m i fault _ hcount hmax
    rw [countStep_of_unlimited (by rw [counted_config, hmax])] at hcount
    cases hcount
  · intro fuel pc m i fault m' _ _ he _ fault' h
    cases h
    exact (fault_of_execute he).2
  · intro fuel pc m i pc' m' _ _ he ih hmax fault h
    have hconfig : m'.config = m.config := by simpa using config_of_execute he
    rw [hconfig] at ih
    exact ih hmax fault h

end Fuel

end Goat.Machine
