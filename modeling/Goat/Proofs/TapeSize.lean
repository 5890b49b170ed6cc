import Goat.Proofs.Preservation

/-!
# How long a tape has to be

The peak of a compilation is enough tape: on a tape of that many cells the machine neither
leaves the tape nor does anything else than on a tape without end.
-/

namespace Goat

open Plain (Settings)
open Machine (Code)

namespace Machine

/-- The pointer left the tape. -/
def Fault.LeavesTape (fault : Fault) : Prop := fault = .underflow ∨ ∃ cells, fault = .overflow cells

section Limits

variable {code : Code} {pending : Option Interruption} {fuel pc : Nat} {m m' : Machine}
  {fault : Fault}

theorem not_leavesTape_of_countStep (h : m.countStep pending = .error fault) :
    ¬fault.LeavesTape := by
  have hpoll (h : countStep.poll m pending = .error fault) : ¬fault.LeavesTape := by
    unfold countStep.poll at h
    split at h
    · split at h
      · cases h
        rintro (hfault | ⟨cells, hfault⟩) <;> cases hfault
      · cases h
    · cases h
  unfold countStep at h
  split at h
  · split at h
    · cases h
      rintro (hfault | ⟨cells, hfault⟩) <;> cases hfault
    · exact hpoll h
  · exact hpoll h

/-- A machine that leaves its tape does so without a limit on its steps, too. -/
theorem runFrom_unlimited (hfault : fault.LeavesTape)
    (h : runFrom code pending fuel pc m = (.failed fault, m')) :
    runFrom code none fuel pc m.unlimited = (.failed fault, m'.unlimited) := by
  induction fuel generalizing pc m with
  | zero =>
    cases hi : code.instructions[pc]? with
    | none =>
      rw [runFrom_past_end hi] at h
      cases h
    | some i =>
      rw [runFrom_without_fuel hi] at h
      cases h
  | succ fuel ih =>
    cases hi : code.instructions[pc]? with
    | none =>
      rw [runFrom_past_end hi] at h
      cases h
    | some i =>
      have hcount : m.counted.unlimited.countStep none = .ok () := countStep_of_unlimited rfl
      rw [runFrom_instruction hi] at h ⊢
      rw [show m.unlimited.counted = m.counted.unlimited from rfl, hcount, execute_unlimited]
      cases hcount : m.counted.countStep pending with
      | error fault' =>
        rw [hcount] at h
        obtain ⟨hsame, -⟩ := Prod.mk.inj h
        cases hsame
        exact absurd hfault (not_leavesTape_of_countStep hcount)
      | ok _ =>
        simp only [hcount] at h
        rcases he : m.counted.execute pc i with ⟨fault' | next, m₁⟩
        · simp only [he] at h
          cases h
          rfl
        · simp only [he] at h
          exact ih h

end Limits

section Lengths

/-- The machines are in the same state, up to the lengths of their tapes. -/
structure Alike (m m' : Machine) : Prop where
  pointer : m'.pointer = m.pointer
  steps : m'.steps = m.steps
  input : m'.input = m.input
  output : m'.output = m.output
  cells : ∀ i, m'.tape.getD i 0 = m.tape.getD i 0
  inside : m.pointer < m.tape.size
  inside' : m'.pointer < m'.tape.size
  endOfInput : m'.config.endOfInput = m.config.endOfInput
  maxSteps : m'.config.maxSteps = m.config.maxSteps
  unbounded : m'.config.tapeSize = none

variable {m m' : Machine} {code : Code} {pending : Option Interruption} {pc : Nat}

namespace Alike

theorem current (h : Alike m m') : m'.current = m.current := by
  rw [Machine.current, Machine.current, h.pointer, h.cells]

theorem counted (h : Alike m m') : Alike m.counted m'.counted :=
  { h with steps := congrArg (· + 1) h.steps }

theorem store (h : Alike m m') (value : UInt8) : Alike (m.store value) (m'.store value) where
  pointer := h.pointer
  steps := h.steps
  input := h.input
  output := h.output
  cells i := by
    have hin := h.inside
    have hin' := h.inside'
    have hcells := h.cells i
    rw [h.pointer] at hin'
    simp only [Machine.store, h.pointer, Array.getD_eq_getD_getElem?,
      Array.getElem?_setIfInBounds] at hcells ⊢
    by_cases hi : m.pointer = i
    · subst hi
      simp [hin, hin']
    · simp only [hi, if_false, hcells]
  inside := by simpa [Machine.store] using h.inside
  inside' := by simpa [Machine.store] using h.inside'
  endOfInput := h.endOfInput
  maxSteps := h.maxSteps
  unbounded := h.unbounded

theorem write (h : Alike m m') :
    Alike { m with output := m.output.push m.current }
      { m' with output := m'.output.push m'.current } :=
  { h with output := by rw [h.output, h.current] }

theorem read (h : Alike m m') : Alike m.read m'.read := by
  unfold Machine.read
  rw [h.input]
  cases m.input with
  | nil =>
    simp only [h.endOfInput, h.current]
    exact h.store _
  | cons b rest =>
    have hrest : Alike { m with input := rest } { m' with input := rest } := { h with input := rfl }
    exact hrest.store b

theorem moveTo (h : Alike m m') {p : Nat} (hp : ∀ size ∈ m.config.tapeSize, p < size) :
    Alike (m.moveTo p) (m'.moveTo p) where
  pointer := rfl
  steps := h.steps
  input := h.input
  output := h.output
  cells i := by
    show (m'.growTo p).getD i 0 = (m.growTo p).getD i 0
    rw [getD_growTo, getD_growTo, h.cells]
  inside := lt_size_growTo m hp
  inside' := by
    refine lt_size_growTo m' fun size hsize => ?_
    rw [h.unbounded] at hsize
    cases hsize
  endOfInput := h.endOfInput
  maxSteps := h.maxSteps
  unbounded := h.unbounded

theorem countStep (h : Alike m m') : m'.countStep pending = m.countStep pending := by
  unfold Machine.countStep countStep.poll
  rw [h.maxSteps, h.steps]

/-- A move leads to the same cell on both tapes, unless the shorter one ends before. -/
theorem destination (h : Alike m m') (distance : Int) :
    (∃ cells, m.destination distance = .error (.overflow cells)) ∨
      m'.destination distance = m.destination distance := by
  unfold Machine.destination
  rw [h.pointer, h.unbounded]
  by_cases hneg : (m.pointer : Int) + distance < 0
  · right
    rw [if_pos hneg, if_pos hneg]
  · rw [if_neg hneg, if_neg hneg]
    cases m.config.tapeSize with
    | none => exact .inr rfl
    | some limit =>
      by_cases hlimit : limit ≤ ((m.pointer : Int) + distance).toNat
      · exact .inl ⟨limit, if_pos hlimit⟩
      · exact .inr (if_neg hlimit).symm

/-- An instruction does the same on both tapes, unless it leaves the shorter one. -/
theorem execute (h : Alike m m') (pc : Nat) (i : Instruction) :
    (∃ cells, (m.execute pc i).1 = .error (.overflow cells)) ∨
      ((m'.execute pc i).1 = (m.execute pc i).1 ∧
        Alike (m.execute pc i).2 (m'.execute pc i).2) := by
  cases i with
  | add amount =>
    right
    refine ⟨rfl, ?_⟩
    rw [Machine.execute, Machine.execute, h.current]
    exact h.store _
  | move distance =>
    rw [Machine.execute, Machine.execute]
    rcases h.destination distance with ⟨cells, hover⟩ | hsame
    · exact .inl ⟨cells, by rw [hover]⟩
    · rw [hsame]
      cases hp : m.destination distance with
      | error fault => exact .inr ⟨rfl, h⟩
      | ok p => exact .inr ⟨rfl, h.moveTo (lt_of_destination hp)⟩
  | clear => exact .inr ⟨rfl, h.store 0⟩
  | write => exact .inr ⟨rfl, h.write⟩
  | read => exact .inr ⟨rfl, h.read⟩
  | loopStart partner =>
    right
    refine ⟨?_, h⟩
    rw [Machine.execute, Machine.execute, h.current]
  | loopEnd partner =>
    right
    refine ⟨?_, h⟩
    rw [Machine.execute, Machine.execute, h.current]

/-- A run is the same on both tapes, unless it leaves the shorter one. -/
theorem runFrom (h : Alike m m') (fuel : Nat) :
    (∃ cells, (runFrom code pending fuel pc m).1 = .failed (.overflow cells)) ∨
      ((runFrom code pending fuel pc m').1 = (runFrom code pending fuel pc m).1 ∧
        Alike (runFrom code pending fuel pc m).2 (runFrom code pending fuel pc m').2) := by
  induction fuel generalizing pc m m' with
  | zero =>
    right
    cases hi : code.instructions[pc]? with
    | none =>
      rw [runFrom_past_end hi, runFrom_past_end hi]
      exact ⟨rfl, h⟩
    | some i =>
      rw [runFrom_without_fuel hi, runFrom_without_fuel hi]
      exact ⟨rfl, h⟩
  | succ fuel ih =>
    cases hi : code.instructions[pc]? with
    | none =>
      right
      rw [runFrom_past_end hi, runFrom_past_end hi]
      exact ⟨rfl, h⟩
    | some i =>
      rw [runFrom_instruction hi, runFrom_instruction hi, h.counted.countStep]
      cases m.counted.countStep pending with
      | error fault => exact .inr ⟨rfl, h.counted⟩
      | ok _ =>
        rcases h.counted.execute pc i with ⟨cells, hover⟩ | ⟨hsame, halike⟩
        · rcases he : m.counted.execute pc i with ⟨result, m₁⟩
          rw [he] at hover
          cases hover
          exact .inl ⟨cells, rfl⟩
        · rcases he : m.counted.execute pc i with ⟨result, m₁⟩
          rcases he' : m'.counted.execute pc i with ⟨result', m₁'⟩
          rw [he, he'] at hsame halike
          cases hsame
          cases result with
          | error fault => exact .inr ⟨rfl, halike⟩
          | ok next => exact ih halike

end Alike

theorem alike_start (size : Int) (mode : EndOfInput) (maxSteps : Option Nat) (input : List UInt8) :
    Alike (Machine.start ⟨limitOfInt size, mode, maxSteps⟩ input)
      (Machine.start ⟨none, mode, maxSteps⟩ input) where
  pointer := rfl
  steps := rfl
  input := rfl
  output := rfl
  cells i := by
    simp only [Machine.start, Array.getD_eq_getD_getElem?, Array.getElem?_replicate]
    repeat' split
    all_goals rfl
  inside := (matches_start size mode [] input).inside
  inside' := (matches_start 0 mode [] input).inside
  endOfInput := rfl
  maxSteps := rfl
  unbounded := rfl

end Lengths

/-- A machine that does what a program does never leaves its tape. -/
theorem not_leavesTape_of_obeys {text : Text} {code : Code} {input : List UInt8}
    {mode : EndOfInput} {size : Int} {run : Nat → Reference.Outcome}
    (hfolds : Folds (Plain.characters text) 0 code.instructions.toList)
    (hobeys : ∀ fuel, Plain.Obeys ⟨limitOfInt size, mode⟩ text input fuel (run fuel))
    (hrange : ∀ fuel, run fuel ≠ .stuck .outOfRange) (maxSteps : Option Nat)
    (pending : Option Interruption) (fuel : Nat) (fault : Fault) (hfault : fault.LeavesTape) :
    ((Machine.start ⟨limitOfInt size, mode, maxSteps⟩ input).run code fuel pending).1 ≠
      .failed fault := by
  intro hfailed
  rcases hrun : (Machine.start ⟨limitOfInt size, mode, maxSteps⟩ input).run code fuel pending
    with ⟨outcome, m⟩
  rw [hrun] at hfailed
  cases hfailed
  have hfaults := (simulates_start hfolds size mode input fuel).faults rfl
    (runFrom_unlimited hfault hrun)
  rcases done_or_forever hobeys hrange with ⟨n, ρ, hdone⟩ | hforever
  · have hn := hobeys n
    rw [hdone] at hn
    obtain ⟨t, hends, -⟩ := hn
    exact hends.not_faults hfaults
  · exact Plain.not_faults_of_reaches (reaches_of_obeys hobeys hforever) hfaults

end Machine

theorem Command.toByte_mem (c : Command) : c.toByte ∈ ("+-<>.,[]" : Text) := by
  cases c <;> decide

/-- A tape of as many cells as the peak has every cell that was given out. -/
theorem fits_limitOfInt (e : Emitter) (mode : Machine.EndOfInput) :
    Fits ⟨Machine.limitOfInt e.layout.peak, mode⟩ e := by
  intro size hsize
  rw [Machine.limitOfInt] at hsize
  split at hsize
  · cases hsize
    omega
  · cases hsize

/-- The code of a compilation can be loaded, and if no declarations stand in loops then its
    peak is enough tape, on every input on which no computed index is out of range: on a tape of
    that many cells the machine never leaves the tape, and each of its runs ends in the same way
    and with the same output as on a tape without end, whatever limits its steps. -/
theorem Program.runs_within_peak {source : Text} {c : Compilation}
    (hcompile : compile source = .ok c) :
    (∀ b ∈ c.text, b ∈ ("+-<>.,[]" : Text)) ∧
      ∃ code, Code.load c.text = .ok code ∧
        ∀ p, Program.ofSource source = .ok p → Stmt.allLoopDeclarations p.statements = [] →
          ∀ mode input, (∀ fuel, Reference.run mode p input fuel ≠ .stuck .outOfRange) →
            ∀ maxSteps pending fuel,
              let size := Machine.limitOfInt c.statistics.peakCells
              let within := (Machine.start ⟨size, mode, maxSteps⟩ input).run code fuel pending
              let endless := (Machine.start ⟨none, mode, maxSteps⟩ input).run code fuel pending
              (∀ fault : Machine.Fault, fault.LeavesTape → within.1 ≠ .failed fault) ∧
                within.1 = endless.1 ∧ within.2.output = endless.2.output := by
  obtain ⟨p, e, hread, hrun, rfl⟩ := exists_emitted hcompile
  obtain ⟨code, hload, hfolds⟩ := exists_loaded hrun
  refine ⟨fun b hb => ?_, code, hload, ?_⟩
  · obtain ⟨command, -, rfl⟩ := List.mem_map.1 hb
    exact command.toByte_mem
  · intro p' hread' hloops mode input hrange maxSteps pending fuel
    cases hread.symm.trans hread'
    have hobeys (fuel : Nat) := Program.obeys (Program.allocatedKind?_eq_kind? hread) hrun hloops _
      (fits_limitOfInt e mode) input fuel
    have hstays := Machine.not_leavesTape_of_obeys hfolds hobeys hrange maxSteps pending fuel
    refine ⟨hstays, ?_⟩
    rcases (Machine.alike_start e.layout.peak mode maxSteps input).runFrom fuel with
      ⟨cells, hover⟩ | ⟨hsame, halike⟩
    · exact absurd hover (hstays _ (.inr ⟨cells, rfl⟩))
    · exact ⟨hsame.symm, halike.output.symm⟩

/-- An element is read at an index that is an element itself. -/
def Program.indexedSource : Text := "IntList<2> k = [1, 5] print(k[k[0]])"

theorem Program.runs_within_peak_indexed :
    ∃ p c code, Program.ofSource Program.indexedSource = .ok p ∧
      compile Program.indexedSource = .ok c ∧ 0 < c.statistics.peakCells ∧
      Code.load c.text = .ok code ∧ ∀ fuel,
        let size := Machine.limitOfInt c.statistics.peakCells
        let within := (Machine.start ⟨size, .max, none⟩ []).run code fuel
        let endless := (Machine.start ⟨none, .max, none⟩ []).run code fuel
        (∀ fault : Machine.Fault, fault.LeavesTape → within.1 ≠ .failed fault) ∧
          within.1 = endless.1 ∧ within.2.output = endless.2.output := by
  have hread : (Program.ofSource Program.indexedSource).toOption.any (fun p =>
      (Stmt.allLoopDeclarations p.statements).isEmpty &&
        (Reference.run .max p [] 0).writes [5]) = true := by decide +kernel
  have hcompile : (compile Program.indexedSource).toOption.any
      (fun c => decide (0 < c.statistics.peakCells)) = true := by decide +kernel
  obtain ⟨p, hp, hchecks⟩ := exists_ok_of_any hread
  obtain ⟨c, hc, hpeak⟩ := exists_ok_of_any hcompile
  rw [Bool.and_eq_true, List.isEmpty_iff] at hchecks
  obtain ⟨ρ, hρ, -⟩ := Reference.Outcome.exists_of_writes hchecks.2
  have hrange (fuel : Nat) := Reference.run_ne_stuck hρ fuel .outOfRange
  obtain ⟨-, code, hload, hruns⟩ := Program.runs_within_peak hc
  exact ⟨p, c, code, hp, hc, of_decide_eq_true hpeak, hload,
    hruns p hp hchecks.1 .max [] hrange none none⟩

end Goat
