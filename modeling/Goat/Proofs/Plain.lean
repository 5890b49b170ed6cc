import Goat.Machine.Basic
import Mathlib.Logic.Function.Basic

/-!
# The plain machine

A machine that executes a program text as it is written: one character at a time,
on a tape of bytes that are all zero at first. Nothing is folded and nothing is
looked up in advance: a loop that is not entered is skipped by counting brackets,
and a loop that is repeated goes back to the text from its opening bracket on.
-/

namespace Goat.Plain

open Machine (EndOfInput)

/-- A character of a program text: a command or, for `none`, a comment. -/
abbrev Character := Option Command

/-- The characters of a text. -/
def characters (text : Text) : List Character := text.map Command.ofByte?

@[simp] theorem characters_toText (code : List Command) :
    characters (Command.toText code) = code.map some := by
  simp [characters, Command.toText]

/-- The limits of a plain machine. -/
structure Settings where
  /-- The number of cells; `none` for a tape without end. -/
  tapeSize : Option Nat := none
  endOfInput : EndOfInput := .zero

/-- The tape has a cell `p`. -/
def Settings.HasCell (settings : Settings) (p : Int) : Prop :=
  0 ≤ p ∧ ∀ size ∈ settings.tapeSize, p < size

instance (settings : Settings) (p : Int) : Decidable (settings.HasCell p) :=
  inferInstanceAs (Decidable (_ ∧ _))

/-- What a machine works on. -/
structure Tape where
  cells : Int → UInt8 := fun _ => 0
  pointer : Int := 0
  /-- The input that was not read yet. -/
  input : List UInt8 := []
  output : List UInt8 := []

namespace Tape

/-- The current cell. -/
def current (t : Tape) : UInt8 := t.cells t.pointer

/-- Changes the current cell. -/
def store (t : Tape) (value : UInt8) : Tape :=
  { t with cells := Function.update t.cells t.pointer value }

/-- Reads a byte into the current cell. -/
def read (t : Tape) (mode : EndOfInput) : Tape :=
  match t.input with
  | [] => t.store (mode.store t.current)
  | b :: rest => { t with input := rest }.store b

@[simp] theorem current_store (t : Tape) (a : UInt8) : (t.store a).current = a := by
  simp [store, current]

@[simp] theorem store_store (t : Tape) (a b : UInt8) : (t.store a).store b = t.store b := by
  simp [store]

@[simp] theorem store_current (t : Tape) : t.store t.current = t := by
  simp [store, current]

/-- Moves the pointer to a cell, if there is such a cell. -/
def moveTo? (t : Tape) (settings : Settings) (p : Int) : Option Tape :=
  if settings.HasCell p then some { t with pointer := p } else none

end Tape

/-- What a machine does with a command that is no bracket; `none` for a fault. -/
def Tape.execute? (settings : Settings) (t : Tape) : Command → Option Tape
  | .increment => some (t.store (t.current + 1))
  | .decrement => some (t.store (t.current - 1))
  | .left => t.moveTo? settings (t.pointer - 1)
  | .right => t.moveTo? settings (t.pointer + 1)
  | .write => some { t with output := t.output ++ [t.current] }
  | .read => some (t.read settings.endOfInput)
  | .loopStart => some t
  | .loopEnd => some t

/-- The text after the closing bracket of the loop that is open in front of it;
    `depth` further loops are open inside that one. -/
def skipLoop : (depth : Nat) → List Character → List Character
  | _, [] => []
  | depth, some .loopStart :: rest => skipLoop (depth + 1) rest
  | 0, some .loopEnd :: rest => rest
  | depth + 1, some .loopEnd :: rest => skipLoop depth rest
  | depth, _ :: rest => skipLoop depth rest

/-- Where a machine stands. -/
structure Config where
  /-- The characters that are next. -/
  text : List Character
  /-- For every loop that is open, the innermost first, the text from its opening
      bracket on. -/
  loops : List (List Character)
  tape : Tape

/-- What a step leads to. -/
inductive Progress where
  | next (c : Config)
  | finished
  /-- The pointer left the tape. -/
  | fault

/-- Executes one character. -/
def step (settings : Settings) : Config → Progress
  | ⟨[], _, _⟩ => .finished
  | ⟨none :: rest, loops, t⟩ => .next ⟨rest, loops, t⟩
  | ⟨some .loopStart :: rest, loops, t⟩ =>
    if t.current = 0 then .next ⟨skipLoop 0 rest, loops, t⟩
    else .next ⟨rest, (some .loopStart :: rest) :: loops, t⟩
  | ⟨some .loopEnd :: rest, loops, t⟩ =>
    match loops with
    | start :: loops => .next ⟨start, loops, t⟩
    | [] => .next ⟨rest, [], t⟩
  | ⟨some command :: rest, loops, t⟩ =>
    match t.execute? settings command with
    | some t => .next ⟨rest, loops, t⟩
    | none => .fault

/-- How a run ended. -/
inductive Outcome where
  | finished (t : Tape)
  | fault
  | outOfFuel (c : Config)

/-- Executes at most `fuel` characters. -/
def run (settings : Settings) : (fuel : Nat) → Config → Outcome
  | 0, c => .outOfFuel c
  | fuel + 1, c =>
    match step settings c with
    | .next c => run settings fuel c
    | .finished => .finished c.tape
    | .fault => .fault

/-- A program text in front of an empty tape. -/
def start (text : Text) (input : List UInt8) : Config := ⟨characters text, [], { input }⟩

/-- `n` steps lead from one configuration to another. -/
inductive Reaches (settings : Settings) : Nat → Config → Config → Prop
  | refl (c : Config) : Reaches settings 0 c c
  | step {n : Nat} {c c₁ c₂ : Config} (h : Plain.step settings c = .next c₁)
      (rest : Reaches settings n c₁ c₂) : Reaches settings (n + 1) c c₂

/-- Some steps lead to a fault. -/
def Faults (settings : Settings) (c : Config) : Prop :=
  ∃ n c', Reaches settings n c c' ∧ step settings c' = .fault

/-- Some steps lead to the end of the text with a tape. -/
def Ends (settings : Settings) (c : Config) (t : Tape) : Prop :=
  ∃ n c', Reaches settings n c c' ∧ step settings c' = .finished ∧ c'.tape = t

section Reaching

variable {settings : Settings} {c c₁ c₂ : Config} {m n : Nat} {t : Tape}

theorem Reaches.single (h : Plain.step settings c = .next c₁) : Reaches settings 1 c c₁ :=
  .step h (.refl c₁)

theorem Reaches.trans (h₁ : Reaches settings m c c₁) (h₂ : Reaches settings n c₁ c₂) :
    Reaches settings (m + n) c c₂ := by
  induction h₁ with
  | refl c => simpa using h₂
  | step h _ ih =>
    rw [Nat.succ_add]
    exact .step h (ih h₂)

theorem Faults.of_reaches (h : Reaches settings n c c₁) (hf : Faults settings c₁) :
    Faults settings c := by
  obtain ⟨k, c', hk, hfault⟩ := hf
  exact ⟨n + k, c', h.trans hk, hfault⟩

theorem Ends.of_reaches (h : Reaches settings n c c₁) (he : Ends settings c₁ t) :
    Ends settings c t := by
  obtain ⟨k, c', hk, hend, htape⟩ := he
  exact ⟨n + k, c', h.trans hk, hend, htape⟩

/-- A run goes on from any configuration that it reaches. -/
theorem run_of_reaches (h : Reaches settings n c c₁) (fuel : Nat) :
    run settings (n + fuel) c = run settings fuel c₁ := by
  induction h with
  | refl c => simp
  | step h _ ih =>
    rw [Nat.succ_add, run, h]
    exact ih

theorem run_of_ends (h : Ends settings c t) : ∃ fuel, run settings fuel c = .finished t := by
  obtain ⟨n, c', hn, hend, rfl⟩ := h
  refine ⟨n + 1, ?_⟩
  rw [run_of_reaches hn, run, hend]

theorem run_of_faults (h : Faults settings c) : ∃ fuel, run settings fuel c = .fault := by
  obtain ⟨n, c', hn, hfault⟩ := h
  refine ⟨n + 1, ?_⟩
  rw [run_of_reaches hn, run, hfault]

/-- A configuration on the way to the end of the text has the rest of the way ahead. -/
theorem Reaches.rest (h : Reaches settings m c c₁) (hall : Reaches settings n c c₂)
    (hend : Plain.step settings c₂ = .finished) : ∃ k, n = m + k ∧ Reaches settings k c₁ c₂ := by
  induction h generalizing n with
  | refl c => exact ⟨n, by omega, hall⟩
  | step h _ ih =>
    cases hall with
    | refl => rw [h] at hend; cases hend
    | step h' hrest =>
      rw [h] at h'
      cases h'
      obtain ⟨k, hk, hreach⟩ := ih hrest
      exact ⟨k, by omega, hreach⟩

/-- A run that is over is the same with more fuel. -/
theorem run_add_of_ne (extra : Nat) (h : ∀ c', run settings n c ≠ .outOfFuel c') :
    run settings (n + extra) c = run settings n c := by
  induction n generalizing c with
  | zero => exact absurd rfl (h c)
  | succ n ih =>
    rw [Nat.succ_add, run, run]
    cases hs : step settings c with
    | next c₁ =>
      apply ih
      intro c'
      have := h c'
      rwa [run, hs] at this
    | finished => rfl
    | fault => rfl

/-- Two runs of a configuration that are over agree. -/
theorem run_eq_of_ne (h₁ : ∀ c', run settings m c ≠ .outOfFuel c')
    (h₂ : ∀ c', run settings n c ≠ .outOfFuel c') : run settings m c = run settings n c := by
  rw [← run_add_of_ne n h₁, ← run_add_of_ne m h₂, Nat.add_comm]

theorem Ends.run_eq (h : Ends settings c t) (hn : ∀ c', run settings n c ≠ .outOfFuel c') :
    run settings n c = .finished t := by
  obtain ⟨k, hk⟩ := run_of_ends h
  rw [← hk]
  exact run_eq_of_ne hn (by simp [hk])

theorem Ends.not_faults (h : Ends settings c t) : ¬ Faults settings c := by
  intro hf
  obtain ⟨l, hl⟩ := run_of_faults hf
  cases hl.symm.trans (h.run_eq (by simp [hl]))

theorem Ends.unique {t' : Tape} (h : Ends settings c t) (h' : Ends settings c t') : t = t' := by
  obtain ⟨l, hl⟩ := run_of_ends h'
  cases hl.symm.trans (h.run_eq (by simp [hl]))
  rfl

theorem ends_of_run {fuel : Nat} (h : run settings fuel c = .finished t) : Ends settings c t := by
  induction fuel generalizing c with
  | zero => cases h
  | succ fuel ih =>
    rw [run] at h
    cases hs : step settings c with
    | next c' =>
      rw [hs] at h
      exact (ih h).of_reaches (.single hs)
    | finished =>
      rw [hs] at h
      cases h
      exact ⟨0, c, .refl c, hs, rfl⟩
    | fault => simp [hs] at h

end Reaching

/-- Every loop in the characters is closed in them: skipping a loop from outside
    passes over them. -/
def Level (chars : List Character) : Prop :=
  ∀ depth rest, skipLoop depth (chars ++ rest) = skipLoop depth rest

theorem Level.nil : Level [] := fun _ _ => rfl

theorem Level.append {xs ys : List Character} (hx : Level xs) (hy : Level ys) :
    Level (xs ++ ys) := by
  intro depth rest
  rw [List.append_assoc, hx, hy]

theorem Level.single {c : Character} (hs : c ≠ some .loopStart) (he : c ≠ some .loopEnd) :
    Level [c] := by
  intro depth rest
  rcases c with _ | c
  · cases depth <;> rfl
  · cases c <;> first | contradiction | (cases depth <;> rfl)

theorem Level.loop {body : List Character} (h : Level body) :
    Level (some .loopStart :: body ++ [some .loopEnd]) := by
  intro depth rest
  have hopen : some .loopStart :: body ++ [some .loopEnd] ++ rest =
      some .loopStart :: (body ++ (some .loopEnd :: rest)) := by simp
  rw [hopen, skipLoop, h, skipLoop]

/-- Skipping a loop that was just opened ends after its closing bracket. -/
theorem Level.skipLoop_zero {body : List Character} (h : Level body) (rest : List Character) :
    skipLoop 0 (body ++ some .loopEnd :: rest) = rest := by
  rw [h, skipLoop]

section Loops

variable {settings : Settings} {body rest start : List Character} {loops : List (List Character)}
  {t : Tape}

theorem step_loopStart_of_zero (hbody : Level body) (h : t.current = 0) :
    step settings ⟨some .loopStart :: (body ++ some .loopEnd :: rest), loops, t⟩ =
      .next ⟨rest, loops, t⟩ := by
  rw [step, if_pos h, hbody.skipLoop_zero]

theorem step_loopStart_of_ne (h : t.current ≠ 0) :
    step settings ⟨some .loopStart :: rest, loops, t⟩ =
      .next ⟨rest, (some .loopStart :: rest) :: loops, t⟩ := by
  rw [step, if_neg h]

theorem step_loopEnd :
    step settings ⟨some .loopEnd :: rest, start :: loops, t⟩ = .next ⟨start, loops, t⟩ := rfl

end Loops

end Goat.Plain
