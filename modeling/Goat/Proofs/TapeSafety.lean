import Goat.Proofs.BracketPairs
import Goat.Proofs.FoldedRun

/-!
# Machines stay on their tape

Whatever programs a machine has run, and however its runs have ended, its pointer is on the tape
and the tape has no more cells than it may have. Every instruction keeps this, so every run does;
and an instruction is followed by one of the same program or by its end.
-/

namespace Goat.Machine

/-- The machine has its settings, its pointer is on the tape, and the tape has no more cells than
    it may have. -/
structure OnTape (config : Config) (m : Machine) : Prop where
  config_eq : m.config = config
  pointer_lt : m.pointer < m.tape.size
  size_le : ∀ size ∈ config.tapeSize, m.tape.size ≤ size

/-- A limit that is set is the number it was given as, and not zero. -/
theorem pos_of_mem_limitOfInt {n : Int} {limit : Nat} (h : limit ∈ limitOfInt n) :
    0 < limit ∧ (limit : Int) = n := by
  unfold limitOfInt at h
  split at h
  · cases h
    omega
  · cases h

theorem onTape_start {config : Config} (hpos : ∀ size ∈ config.tapeSize, 0 < size)
    (input : List UInt8) : OnTape config (Machine.start config input) := by
  unfold Machine.start
  cases hsize : config.tapeSize with
  | none => exact ⟨rfl, by simp [initialCells], by simp [hsize]⟩
  | some size =>
    have := hpos size hsize
    refine ⟨rfl, by simp [initialCells]; omega, fun limit hlimit => ?_⟩
    rw [hsize] at hlimit
    cases hlimit
    simp

section Instruction

variable {config : Config} {m m' : Machine} {pc : Nat} {i : Instruction}
  {result : Except Fault Nat}

namespace OnTape

theorem counted (h : OnTape config m) : OnTape config m.counted :=
  ⟨h.config_eq, h.pointer_lt, h.size_le⟩

theorem store (h : OnTape config m) (value : UInt8) : OnTape config (m.store value) where
  config_eq := h.config_eq
  pointer_lt := by simpa [Machine.store] using h.pointer_lt
  size_le size hsize := by simpa [Machine.store] using h.size_le size hsize

theorem read (h : OnTape config m) : OnTape config m.read := by
  unfold Machine.read
  cases m.input with
  | nil => exact h.store _
  | cons b rest =>
    have hrest : OnTape config { m with input := rest } := ⟨h.config_eq, h.pointer_lt, h.size_le⟩
    exact hrest.store b

theorem moveTo (h : OnTape config m) {distance : Int} {p : Nat}
    (hp : m.destination distance = .ok p) : OnTape config (m.moveTo p) where
  config_eq := h.config_eq
  pointer_lt := lt_size_growTo m (lt_of_destination hp)
  size_le size hsize := size_growTo_le m (h.config_eq ▸ hsize) (h.size_le size hsize)

/-- Every instruction keeps the pointer on the tape. -/
theorem execute (h : OnTape config m) (he : m.execute pc i = (result, m')) :
    OnTape config m' := by
  cases i with
  | add amount =>
    cases he
    exact h.store _
  | move distance =>
    rw [Machine.execute] at he
    cases hp : m.destination distance with
    | error fault =>
      rw [hp] at he
      cases he
      exact h
    | ok p =>
      rw [hp] at he
      cases he
      exact h.moveTo hp
  | write =>
    cases he
    exact ⟨h.config_eq, h.pointer_lt, h.size_le⟩
  | read =>
    cases he
    exact h.read
  | clear =>
    cases he
    exact h.store 0
  | loopStart partner =>
    cases he
    exact h
  | loopEnd partner =>
    cases he
    exact h

end OnTape

/-- Growing a tape adds zeros at its end. -/
theorem exists_growTo_eq (m : Machine) (p : Nat) :
    ∃ n, m.growTo p = m.tape ++ Array.replicate n 0 := by
  unfold growTo
  split
  · exact ⟨0, by simp⟩
  · exact ⟨_, rfl⟩

theorem tape_setIfInBounds_current (m : Machine) :
    m.tape.setIfInBounds m.pointer m.current = m.tape := by
  refine Array.ext_getElem? fun k => ?_
  rw [Array.getElem?_setIfInBounds]
  split
  · rename_i heq
    subst heq
    split
    · rename_i hlt
      simp [current, hlt]
    · rename_i hle
      rw [Array.getElem?_eq_none (by omega)]
  · rfl

/-- What an instruction does to the tape: a move may add zeros at its end, and any other
    instruction stays where it is and changes the current cell at most. -/
def TapeAfter (m m' : Machine) : Instruction → Prop
  | .move _ => ∃ n, m'.tape = m.tape ++ Array.replicate n 0
  | _ => m'.pointer = m.pointer ∧ ∃ value, m'.tape = m.tape.setIfInBounds m.pointer value

theorem tapeAfter_execute (he : m.execute pc i = (result, m')) : TapeAfter m m' i := by
  cases i with
  | add amount =>
    cases he
    exact ⟨rfl, _, rfl⟩
  | move distance =>
    rw [execute] at he
    cases hp : m.destination distance with
    | error fault =>
      rw [hp] at he
      cases he
      exact ⟨0, by simp⟩
    | ok p =>
      rw [hp] at he
      cases he
      exact m.exists_growTo_eq p
  | write =>
    cases he
    exact ⟨rfl, m.current, m.tape_setIfInBounds_current.symm⟩
  | read =>
    rw [execute, read] at he
    cases hinput : m.input with
    | nil =>
      rw [hinput] at he
      cases he
      exact ⟨rfl, _, rfl⟩
    | cons b rest =>
      rw [hinput] at he
      cases he
      exact ⟨rfl, b, rfl⟩
  | clear =>
    cases he
    exact ⟨rfl, 0, rfl⟩
  | loopStart partner =>
    cases he
    exact ⟨rfl, m.current, m.tape_setIfInBounds_current.symm⟩
  | loopEnd partner =>
    cases he
    exact ⟨rfl, m.current, m.tape_setIfInBounds_current.symm⟩

/-- An instruction is followed by another one of the code or by its end. -/
theorem Code.Linked.next_le {code : Code} (h : code.Linked)
    (hi : code.instructions[pc]? = some i) {next : Nat} (he : m.execute pc i = (.ok next, m')) :
    next ≤ code.length := by
  have hpc : pc < code.length := (Array.getElem?_eq_some_iff.1 hi).1
  cases i with
  | move distance =>
    rw [execute] at he
    cases hp : m.destination distance <;> rw [hp] at he <;> cases he
    exact hpc
  | loopStart partner =>
    have hpartner : partner < code.length :=
      (Array.getElem?_eq_some_iff.1 ((h.partner pc partner).1 hi)).1
    cases he
    split <;> omega
  | loopEnd partner =>
    have hpartner : partner < code.length :=
      (Array.getElem?_eq_some_iff.1 ((h.partner partner pc).2 hi)).1
    cases he
    split <;> omega
  | _ =>
    cases he
    exact hpc

end Instruction

/-- A run has stopped with the pointer on the tape and, if it can go on, at an instruction. -/
structure StopsOnTape (config : Config) (code : Code) (result : Outcome × Machine) : Prop where
  onTape : OnTape config result.2
  place : ∀ next, result.1 = .outOfFuel next → ∃ i, code.instructions[next]? = some i

section Runs

variable {config : Config} {m : Machine}

/-- So every run keeps the pointer on the tape, wherever it is stopped. -/
theorem OnTape.runFrom (h : OnTape config m) (code : Code) (pending : Option Interruption)
    (fuel pc : Nat) : StopsOnTape config code (runFrom code pending fuel pc m) := by
  refine runFrom_induction
    (motive := fun _ _ m result => OnTape config m → StopsOnTape config code result)
    ?_ ?_ ?_ ?_ ?_ fuel pc m h
  · intro fuel pc m _ h
    exact ⟨h, by simp⟩
  · intro pc m i hi h
    refine ⟨h, fun next hnext => ?_⟩
    cases hnext
    exact ⟨i, hi⟩
  · intro fuel pc m i fault _ _ h
    exact ⟨h.counted, by simp⟩
  · intro fuel pc m i fault m' _ _ he h
    exact ⟨h.counted.execute he, by simp⟩
  · intro fuel pc m i next m' _ _ he ih h
    exact ih (h.counted.execute he)

theorem OnTape.runInterrupted (h : OnTape config m) (code : Code) (patience fuel : Nat)
    (cause : Interruption) :
    StopsOnTape config code (m.runInterrupted code patience fuel cause) := by
  have hfirst : StopsOnTape config code (m.run code patience) := h.runFrom code none patience 0
  unfold Machine.runInterrupted
  rcases hrun : m.run code patience with ⟨outcome, m₁⟩
  rw [hrun] at hfirst
  cases outcome with
  | outOfFuel next => exact hfirst.onTape.runFrom code (some cause) fuel next
  | finished => exact hfirst
  | failed fault => exact hfirst

end Runs

/-- The machine was started with some settings and an input, and has run programs to their ends:
    each of them was loaded, and finished, failed or was interrupted. -/
inductive Used (config : Config) (input : List UInt8) : Machine → Prop
  | new : Used config input (Machine.start config input)
  | run {m m' : Machine} {text : Text} {code : Code} {patience fuel : Nat} {cause : Interruption}
      {outcome : Outcome} (h : Used config input m) (hload : Code.load text = .ok code)
      (hrun : m.runInterrupted code patience fuel cause = (outcome, m'))
      (hended : ∀ next, outcome ≠ .outOfFuel next) : Used config input m'

theorem Used.onTape {config : Config} {input : List UInt8} {m : Machine}
    (hpos : ∀ size ∈ config.tapeSize, 0 < size) (h : Used config input m) : OnTape config m := by
  induction h with
  | new => exact onTape_start hpos input
  | @run m m' text code patience fuel cause outcome _ _ hrun _ ih =>
    have hstops := ih.runInterrupted code patience fuel cause
    rw [hrun] at hstops
    exact hstops.onTape

/-- A machine that has run any programs never leaves its tape. Wherever a run of a loaded program
    is stopped, the pointer is on the tape and the tape is no longer than it may be. If it can go
    on, it is at an instruction; this leads to another place of the code or to its end, adds
    nothing but zeros to the tape and, if it fails, leaves tape and pointer as they were. -/
theorem stays_on_tape {size maxSteps : Int} {mode : EndOfInput} {input : List UInt8}
    {m m' : Machine} {text : Text} {code : Code} {outcome : Outcome}
    (hm : Used ⟨limitOfInt size, mode, limitOfInt maxSteps⟩ input m)
    (hload : Code.load text = .ok code) {patience fuel : Nat} {cause : Interruption}
    (hrun : m.runInterrupted code patience fuel cause = (outcome, m')) :
    m'.pointer < m'.tape.size ∧ (0 < size → (m'.tape.size : Int) ≤ size) ∧
    ∀ next, outcome = .outOfFuel next → ∃ i, code.instructions[next]? = some i ∧
      ∀ result m'', m'.counted.execute next i = (result, m'') → TapeAfter m' m'' i ∧
        (∀ place, result = .ok place → place ≤ code.length) ∧
        ∀ fault, result = .error fault → m''.tape = m'.tape ∧ m''.pointer = m'.pointer := by
  have honTape := hm.onTape fun limit hlimit => (pos_of_mem_limitOfInt hlimit).1
  have hstops := honTape.runInterrupted code patience fuel cause
  rw [hrun] at hstops
  obtain ⟨⟨-, hpointer, hsize⟩, hplace⟩ := hstops
  refine ⟨hpointer, fun hpos => ?_, fun next hnext => ?_⟩
  · have hlimit : size.toNat ∈ limitOfInt size := by
      rw [limitOfInt, if_pos hpos]
      rfl
    have := hsize _ hlimit
    simp only at this
    omega
  · obtain ⟨i, hi⟩ := hplace next hnext
    refine ⟨i, hi, fun result m'' he => ?_⟩
    have htape := tapeAfter_execute he
    refine ⟨htape, ?_, ?_⟩
    · rintro place rfl
      exact (linked_of_load hload).next_le hi he
    · rintro fault rfl
      obtain ⟨rfl, -⟩ := fault_of_execute he
      exact ⟨rfl, rfl⟩

/-- A machine that failed to go left, and then went right past the cells it had, stops at a move
    past the end of its tape. -/
theorem stays_on_tape_at_end :
    ∃ m m' code, Used ⟨limitOfInt 70, .zero, limitOfInt 3⟩ [] m ∧ Code.load ">>>>>" = .ok code ∧
      m.runInterrupted code 0 0 .canceled = (.outOfFuel 0, m') ∧
      m'.pointer = 65 ∧ m'.tape.size = 70 ∧
      m'.counted.execute 0 (.move 5) = (.error (.overflow 70), m'.counted) ∧
      m'.pointer < m'.tape.size ∧ (m'.tape.size : Int) ≤ 70 := by
  let config : Config := ⟨limitOfInt 70, .zero, limitOfInt 3⟩
  let m₁ : Machine := { Machine.start config [] with steps := 1 }
  let m₂ : Machine := { config, tape := Array.replicate 70 0, pointer := 65, steps := 2 }
  have hleft : (Machine.start config []).runInterrupted ⟨#[.move (-1)]⟩ 9 0 .canceled =
      (.failed .underflow, m₁) := by decide +kernel
  have hright : m₁.runInterrupted ⟨#[.move 65]⟩ 9 0 .canceled = (.finished, m₂) := by
    decide +kernel
  have hloadLeft : Code.load "<" = .ok ⟨#[.move (-1)]⟩ := by decide +kernel
  have hloadRight : Code.load (List.replicate 65 0x3e) = .ok ⟨#[.move 65]⟩ := by decide +kernel
  have hload : Code.load ">>>>>" = .ok ⟨#[.move 5]⟩ := by decide +kernel
  have hused : Used config [] m₂ :=
    .run (.run .new hloadLeft hleft (by simp)) hloadRight hright (by simp)
  have hrun : m₂.runInterrupted ⟨#[.move 5]⟩ 0 0 .canceled = (.outOfFuel 0, m₂) := by
    decide +kernel
  obtain ⟨hpointer, hsize, -⟩ := stays_on_tape hused hload hrun
  exact ⟨m₂, m₂, ⟨#[.move 5]⟩, hused, hload, hrun, rfl, by simp [m₂], by decide +kernel, hpointer,
    hsize (by decide)⟩

end Goat.Machine
