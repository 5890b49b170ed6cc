import Goat.Proofs.TapeSize
import Mathlib.Data.List.DropRight

/-!
# What limits do to a run

A limit on the steps and a limit on the cells of a tape cut a run short and do nothing else.
The run under a limit of steps is compared with the run that has just that much fuel, and the
run on a short tape with the one on a tape without end; `limits_cut_runs_short` puts the two
together.
-/

namespace Goat.Machine

section StepLimit

variable {code : Code} {pc : Nat} {m : Machine}

/-- What a limit on the steps makes of a run with just that much fuel: it is the same run if
    that is over, and otherwise counts one step more and fails. -/
inductive Cut (limit : Nat) : Outcome × Machine → Outcome × Machine → Prop
  | atLimit (next : Nat) {m m' : Machine} (h : m'.unlimited = m.counted) :
      Cut limit (.outOfFuel next, m) (.failed (.stepLimit limit), m')
  | before {outcome : Outcome} {m m' : Machine} (ho : ∀ next, outcome ≠ .outOfFuel next)
      (h : m'.unlimited = m) : Cut limit (outcome, m) (outcome, m')

theorem countStep_of_limit {limit : Nat} (h : m.config.maxSteps = some limit) :
    m.countStep none = if limit < m.steps then .error (.stepLimit limit) else .ok () := by
  unfold countStep
  rw [h]
  rfl

theorem cut_runFrom {limit k fuel : Nat} (hmax : m.config.maxSteps = some limit)
    (hsteps : m.steps + k = limit) (hfuel : k < fuel) :
    Cut limit (runFrom code none k pc m.unlimited) (runFrom code none fuel pc m) := by
  obtain ⟨extra, rfl⟩ : ∃ n, fuel = k + n + 1 := ⟨fuel - k - 1, by omega⟩
  clear hfuel
  induction k generalizing pc m with
  | zero =>
    cases hi : code.instructions[pc]? with
    | none =>
      rw [runFrom_past_end hi, runFrom_past_end hi]
      exact .before (by simp) rfl
    | some i =>
      have hcount : m.counted.countStep none = .error (.stepLimit limit) := by
        rw [countStep_of_limit (by rw [counted_config, hmax]), counted_steps, if_pos (by omega)]
      rw [runFrom_without_fuel hi, runFrom_stopped hi hcount]
      exact .atLimit pc rfl
  | succ k ih =>
    rw [Nat.add_right_comm k 1 extra]
    cases hi : code.instructions[pc]? with
    | none =>
      rw [runFrom_past_end hi, runFrom_past_end hi]
      exact .before (by simp) rfl
    | some i =>
      have hcount : m.counted.countStep none = .ok () := by
        rw [countStep_of_limit (by rw [counted_config, hmax]), counted_steps, if_neg (by omega)]
      have hcount' : m.unlimited.counted.countStep none = .ok () := countStep_of_unlimited rfl
      have hunlimited := execute_unlimited m.counted pc i
      rcases he : m.counted.execute pc i with ⟨fault | next, m₁⟩
      · have he' : m.unlimited.counted.execute pc i = (.error fault, m₁.unlimited) := by
          rwa [he] at hunlimited
        rw [runFrom_failed hi hcount' he', runFrom_failed hi hcount he]
        exact .before (by simp) rfl
      · have he' : m.unlimited.counted.execute pc i = (.ok next, m₁.unlimited) := by
          rwa [he] at hunlimited
        have hconfig : m₁.config = m.config := by simpa using config_of_execute he
        have hsteps₁ : m₁.steps = m.steps + 1 := by simpa using steps_of_execute he
        rw [runFrom_next hi hcount' he', runFrom_next hi hcount he]
        exact ih (by rw [hconfig, hmax]) (by omega)

end StepLimit

section TapeSize

variable {code : Code} {pending : Option Interruption} {pc fuel : Nat} {m m' : Machine}

/-- What is written on a short tape is written on a tape without end, too. -/
theorem output_runFrom_of_alike (h : Alike m m') :
    (runFrom code pending fuel pc m).2.output.toList <+:
      (runFrom code pending fuel pc m').2.output.toList := by
  revert m'
  refine runFrom_induction (motive := fun fuel pc m result => ∀ {m'}, Alike m m' →
    result.2.output.toList <+: (runFrom code pending fuel pc m').2.output.toList)
    ?_ ?_ ?_ ?_ ?_ fuel pc m
  · intro fuel pc m hi m' h
    rw [runFrom_past_end hi, h.output]
  · intro pc m i hi m' h
    rw [runFrom_without_fuel hi, h.output]
  · intro fuel pc m i fault hi hcount m' h
    rw [runFrom_stopped hi (h.counted.countStep.trans hcount), h.counted.output]
  · intro fuel pc m i fault m₁ hi hcount he m' h
    -- Both machines have written the same up to here, whatever the longer tape allows next.
    obtain ⟨rfl, -⟩ := fault_of_execute he
    have hgrows := output_grows_runFrom code pending (fuel + 1) pc m'
    rwa [h.output] at hgrows
  · intro fuel pc m i next m₁ hi hcount he ih m' h
    rcases h.counted.execute pc i with ⟨cells, hover⟩ | ⟨hsame, halike⟩
    · rw [he] at hover
      cases hover
    · rcases he' : m'.counted.execute pc i with ⟨result, m₁'⟩
      rw [he, he'] at hsame halike
      obtain rfl : result = .ok next := hsame
      rw [runFrom_next hi (h.counted.countStep.trans hcount) he']
      exact ih halike

end TapeSize

section UsedTape

/-- Zeros at the end of a tape are not in use. -/
theorem rdropWhile_append_zeros (cells : List UInt8) (n : Nat) :
    (cells ++ List.replicate n 0).rdropWhile (· == 0) = cells.rdropWhile (· == 0) := by
  induction n with
  | zero => simp
  | succ n ih =>
    rw [List.replicate_succ', ← List.append_assoc, List.rdropWhile_concat_pos _ _ _ rfl, ih]

/-- A tape with the cells of a shorter one is the shorter one, followed by zeros. -/
theorem toList_eq_append_zeros {short long : Array UInt8} (hsize : short.size ≤ long.size)
    (h : ∀ i, long.getD i 0 = short.getD i 0) :
    long.toList = short.toList ++ List.replicate (long.size - short.size) 0 := by
  apply List.ext_getElem
  · simp
    omega
  · intro i hi hi'
    have hcell := h i
    rw [Array.length_toList] at hi
    simp only [Array.getD_eq_getD_getElem?, Array.getElem?_eq_getElem hi, Option.getD_some] at hcell
    rw [Array.getElem_toList, hcell]
    by_cases hshort : i < short.size
    · rw [Array.getElem?_eq_getElem hshort, List.getElem_append_left (by simpa using hshort)]
      rfl
    · rw [List.getElem_append_right (by simpa using hshort), List.getElem_replicate,
        Array.getElem?_eq_none (by omega)]
      rfl

/-- Tapes with the same cells are the same up to zeros at the end. -/
theorem usedTape_eq_of_cells {m m' : Machine} (h : ∀ i, m'.tape.getD i 0 = m.tape.getD i 0) :
    m'.usedTape = m.usedTape := by
  change m'.tape.toList.rdropWhile (· == 0) = m.tape.toList.rdropWhile (· == 0)
  rcases Nat.le_total m.tape.size m'.tape.size with hsize | hsize
  · rw [toList_eq_append_zeros hsize h, rdropWhile_append_zeros]
  · rw [toList_eq_append_zeros hsize fun i => (h i).symm, rdropWhile_append_zeros]

end UsedTape

/-- How a run under a limit on the steps and one on the cells compares with the run `bounded`
    under the limit on the cells alone and the run `endless` under no limit, both of which are
    given for every number of instructions. -/
structure CutShort (limit cells : Nat) (limited : Outcome × Machine)
    (bounded endless : Nat → Outcome × Machine) : Prop where
  ended : ∀ next, limited.1 ≠ .outOfFuel next
  /-- If no limit ends the run, it ends in the same way and state without limits. -/
  same : limited.1 ≠ .failed (.stepLimit limit) → limited.1 ≠ .failed (.overflow cells) →
    (limited.1 = .finished ∨ limited.1 = .failed .underflow) ∧
      ∀ fuel, limit ≤ fuel →
        (endless fuel).1 = limited.1 ∧ (endless fuel).2.output = limited.2.output ∧
          (endless fuel).2.steps = limited.2.steps ∧
          (endless fuel).2.pointer = limited.2.pointer ∧
          (endless fuel).2.usedTape = limited.2.usedTape
  /-- The limit on the steps ends the run if more instructions than that are needed. -/
  stepLimit_iff : limited.1 = .failed (.stepLimit limit) ↔
    ∃ next, (bounded limit).1 = .outOfFuel next
  /-- It does so after that many instructions, in the state they lead to. -/
  executed : limited.1 = .failed (.stepLimit limit) →
    (bounded limit).2.steps = limit ∧ limited.2.unlimited = (bounded limit).2.counted
  /-- Where a limit ends the run, the run without limits has written as much and may go on. -/
  output : limited.1 = .failed (.stepLimit limit) ∨ limited.1 = .failed (.overflow cells) →
    ∀ fuel, limit ≤ fuel ∨ (∀ next, (endless fuel).1 ≠ .outOfFuel next) →
      limited.2.output.toList <+: (endless fuel).2.output.toList

section CutShort

variable (code : Code) (input : List UInt8) (mode : EndOfInput) (limit : Nat) {cells : Nat}

theorem alike_start_of_pos (hcells : 0 < cells) :
    Alike (Machine.start ⟨some cells, mode, none⟩ input)
      (Machine.start ⟨none, mode, none⟩ input) := by
  have hlimit : limitOfInt cells = some cells := by
    rw [limitOfInt, if_pos (by omega), Int.toNat_natCast]
  rw [← hlimit]
  exact alike_start cells mode none input

theorem Cut.output {limited run : Outcome × Machine} (h : Cut limit run limited) :
    limited.2.output = run.2.output := by
  cases h with
  | atLimit next h => exact congrArg (fun m => m.output) h
  | before ho h => exact congrArg (fun m => m.output) h

/-- What a run on a short tape has written after some instructions is what the run on a tape
    without end has written once it is as long, or is over. -/
theorem output_bounded_of_le (hcells : 0 < cells) {fuel : Nat}
    (h : limit ≤ fuel ∨
      ∀ next, ((Machine.start ⟨none, mode, none⟩ input).run code fuel).1 ≠ .outOfFuel next) :
    ((Machine.start ⟨some cells, mode, none⟩ input).run code limit).2.output.toList <+:
      ((Machine.start ⟨none, mode, none⟩ input).run code fuel).2.output.toList := by
  have hwritten :
      ((Machine.start ⟨some cells, mode, none⟩ input).run code limit).2.output.toList <+:
        ((Machine.start ⟨none, mode, none⟩ input).run code limit).2.output.toList :=
    output_runFrom_of_alike (alike_start_of_pos input mode hcells)
  rcases Nat.le_total limit fuel with hle | hle
  · exact hwritten.trans (output_mono_runFrom code none hle 0 _)
  · rcases h with h | hended
    · obtain rfl : fuel = limit := by omega
      exact hwritten
    · obtain ⟨extra, rfl⟩ := Nat.exists_eq_add_of_le hle
      have hsame : (Machine.start ⟨none, mode, none⟩ input).run code (fuel + extra) = _ :=
        runFrom_add_of_ended extra hended
      rwa [hsame] at hwritten

/-- A run that is over on a short tape, and did not leave it at its end, is over in the same
    state on a tape without end. -/
theorem endless_of_bounded (hcells : 0 < cells) {fuel : Nat} (hle : limit ≤ fuel)
    {outcome : Outcome} {m : Machine}
    (h : (Machine.start ⟨some cells, mode, none⟩ input).run code limit = (outcome, m))
    (hended : ∀ next, outcome ≠ .outOfFuel next) (hover : ∀ n, outcome ≠ .failed (.overflow n)) :
    ∃ m', (Machine.start ⟨none, mode, none⟩ input).run code fuel = (outcome, m') ∧ Alike m m' := by
  have hruns : (∃ n, ((Machine.start ⟨some cells, mode, none⟩ input).run code limit).1 =
        .failed (.overflow n)) ∨
      (((Machine.start ⟨none, mode, none⟩ input).run code limit).1 =
          ((Machine.start ⟨some cells, mode, none⟩ input).run code limit).1 ∧
        Alike ((Machine.start ⟨some cells, mode, none⟩ input).run code limit).2
          ((Machine.start ⟨none, mode, none⟩ input).run code limit).2) :=
    (alike_start_of_pos input mode hcells).runFrom limit
  rw [h] at hruns
  rcases hruns with ⟨n, hn⟩ | ⟨hsame, halike⟩
  · exact absurd hn (hover n)
  · obtain ⟨extra, rfl⟩ := Nat.exists_eq_add_of_le hle
    refine ⟨_, ?_, halike⟩
    have hlonger : (Machine.start ⟨none, mode, none⟩ input).run code (limit + extra) = _ :=
      runFrom_add_of_ended extra fun next hnext => hended next (hsame.symm.trans hnext)
    rw [hlonger]
    exact Prod.ext hsame rfl

/-- Limits only cut a run short: a run that no limit ends is the run without limits, the limit
    on the steps ends a run exactly if it takes more steps, and what a run has written when a
    limit ends it is what it would have written first. The limits are any numbers, those that fit
    a word among them. -/
theorem limits_cut_runs_short (hcells : 0 < cells) {fuel : Nat} (hfuel : limit < fuel) :
    CutShort limit cells
      ((Machine.start ⟨some cells, mode, some limit⟩ input).run code fuel)
      (fun n => (Machine.start ⟨some cells, mode, none⟩ input).run code n)
      (fun n => (Machine.start ⟨none, mode, none⟩ input).run code n) := by
  have hcut : Cut limit ((Machine.start ⟨some cells, mode, none⟩ input).run code limit)
      ((Machine.start ⟨some cells, mode, some limit⟩ input).run code fuel) :=
    cut_runFrom (m := Machine.start ⟨some cells, mode, some limit⟩ input) rfl
      (Nat.zero_add limit) hfuel
  have hwritten (n : Nat) (hn : limit ≤ n ∨
      ∀ next, ((Machine.start ⟨none, mode, none⟩ input).run code n).1 ≠ .outOfFuel next) :=
    output_bounded_of_le code input mode limit hcells hn
  have hsteps : ∀ next, ((Machine.start ⟨some cells, mode, none⟩ input).run code limit).1 =
      .outOfFuel next →
        ((Machine.start ⟨some cells, mode, none⟩ input).run code limit).2.steps = 0 + limit :=
    steps_of_outOfFuel code limit 0 _ rfl
  have hfault : ∀ fault, ((Machine.start ⟨some cells, mode, none⟩ input).run code limit).1 =
      .failed fault → fault = .underflow ∨ ∃ n ∈ some cells, fault = .overflow n :=
    fault_of_runFrom code limit 0 _ rfl
  rw [← hcut.output] at hwritten
  rcases hlimited : (Machine.start ⟨some cells, mode, some limit⟩ input).run code fuel
    with ⟨outcome, m⟩
  rcases hbounded : (Machine.start ⟨some cells, mode, none⟩ input).run code limit
    with ⟨outcome', m'⟩
  rw [hlimited, hbounded] at hcut
  rw [hlimited] at hwritten
  rw [hbounded] at hfault hsteps
  cases hcut with
  | atLimit next hstate =>
    refine ⟨by simp, fun hne => absurd rfl hne, ?_, ?_, fun _ => hwritten⟩
    · simp [hbounded]
    · intro _
      simp only [hbounded]
      exact ⟨(hsteps next rfl).trans (Nat.zero_add limit), hstate⟩
  | before hended hstate =>
    have hlimit : outcome ≠ .failed (.stepLimit limit) := by
      rintro rfl
      rcases hfault _ rfl with h | ⟨n, -, h⟩ <;> cases h
    refine ⟨hended, fun _ hover => ?_, ?_, fun h => absurd h hlimit, fun _ => hwritten⟩
    · have hover' (n : Nat) : outcome ≠ .failed (.overflow n) := by
        rintro rfl
        rcases hfault _ rfl with h | ⟨n', hn', h⟩
        · cases h
        · cases h
          cases hn'
          exact hover rfl
      refine ⟨?_, fun n hn => ?_⟩
      · cases outcome with
        | finished => exact .inl rfl
        | outOfFuel next => exact absurd rfl (hended next)
        | failed fault =>
          rcases hfault fault rfl with rfl | ⟨n, -, rfl⟩
          · exact .inr rfl
          · exact absurd rfl (hover' n)
      · obtain ⟨m₁, hrun, halike⟩ :=
          endless_of_bounded code input mode limit hcells hn hbounded hended hover'
        simp only [hrun]
        subst hstate
        exact ⟨trivial, halike.output, halike.steps, halike.pointer,
          usedTape_eq_of_cells halike.cells⟩
    · simp only [hbounded]
      exact ⟨fun h => absurd h hlimit, fun ⟨next, h⟩ => absurd h (hended next)⟩

/-- A loop that writes and goes right forever is ended by the limit on its steps before it gets
    to the end of its tape. -/
theorem limits_cut_runs_short_rightward :
    ∃ code, Code.load "+[.>+]" = .ok code ∧ 0 < 3 ∧ 9 < 10 ∧
      ((Machine.start ⟨some 3, .zero, some 9⟩ []).run code 10).1 = .failed (.stepLimit 9) ∧
      CutShort 9 3 ((Machine.start ⟨some 3, .zero, some 9⟩ []).run code 10)
        (fun n => (Machine.start ⟨some 3, .zero, none⟩ []).run code n)
        (fun n => (Machine.start ⟨none, .zero, none⟩ []).run code n) := by
  refine ⟨⟨#[.add 1, .loopStart 5, .write, .move 1, .add 1, .loopEnd 1]⟩, by decide +kernel,
    by decide, by decide, by decide +kernel, ?_⟩
  exact limits_cut_runs_short _ [] .zero 9 (by decide) (by decide)

end CutShort

end Goat.Machine
