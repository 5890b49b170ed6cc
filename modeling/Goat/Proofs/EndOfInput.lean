import Goat.Proofs.Composition
import Goat.Proofs.Loading
import Goat.Proofs.Preservation
import Goat.Proofs.Runs

/-!
# The end of the input

Compiled programs clear a cell before they read into it. Loading keeps the two instructions
together, and no jump leads between them, so a machine that reads is always on a cell that is
zero: whether it stores a zero at the end of the input or leaves the cell as it is makes no
difference to a run.
-/

namespace Goat.Machine

open Plain

/-- Every instruction that reads comes right after one that clears the cell, and every bracket
    that is closed has a bracket for its partner. -/
structure Guarded (starts : List Nat) (code : Array Instruction) : Prop where
  first : code[0]? ≠ some .read
  reads : ∀ i : Nat, code[i + 1]? = some .read → code[i]? = some .clear
  opened : ∀ s ∈ starts, ∃ p, code[s]? = some (.loopStart p)
  partner_start : ∀ i p : Nat, code[i]? = some (.loopStart p) →
    i ∈ starts ∨ ∃ q, code[p]? = some (.loopEnd q)
  partner_end : ∀ i p : Nat, code[i]? = some (.loopEnd p) → ∃ q, code[p]? = some (.loopStart q)

namespace Guarded

variable {starts : List Nat} {code : Array Instruction}

theorem run (h : Guarded starts code) (kind : RunKind) (k : Int) :
    Guarded starts (kind.push code k) := by
  have hclear (i : Nat) : (kind.push code k)[i]? = some .clear ↔ code[i]? = some .clear :=
    kind.getElem?_push_of_ne (by cases kind <;> simp [RunKind.instruction])
  have hread (i : Nat) : (kind.push code k)[i]? = some .read ↔ code[i]? = some .read :=
    kind.getElem?_push_of_ne (by cases kind <;> simp [RunKind.instruction])
  have hstart (i p : Nat) :
      (kind.push code k)[i]? = some (.loopStart p) ↔ code[i]? = some (.loopStart p) :=
    kind.getElem?_push_of_ne (by cases kind <;> simp [RunKind.instruction])
  have hend (i p : Nat) :
      (kind.push code k)[i]? = some (.loopEnd p) ↔ code[i]? = some (.loopEnd p) :=
    kind.getElem?_push_of_ne (by cases kind <;> simp [RunKind.instruction])
  constructor
  · rw [Ne, hread]
    exact h.first
  · simpa only [hread, hclear] using h.reads
  · simpa only [hstart] using h.opened
  · simpa only [hstart, hend] using h.partner_start
  · simpa only [hstart, hend] using h.partner_end

theorem push (h : Guarded starts code) {instruction : Instruction}
    (hread : instruction = .read → code.back? = some .clear)
    (hstart : ∀ p, instruction ≠ .loopStart p) (hend : ∀ p, instruction ≠ .loopEnd p) :
    Guarded starts (code.push instruction) where
  first hfirst := by
    rcases cases_of_push hfirst with ⟨hsize, rfl⟩ | hold
    · have hback := hread rfl
      simp [Array.back?_eq_getElem?, ← hsize] at hback
    · exact h.first hold
  reads i hi := by
    rcases cases_of_push hi with ⟨hsize, rfl⟩ | hold
    · have hback := hread rfl
      rw [Array.back?_eq_getElem?, ← hsize] at hback
      exact kept_of_push hback
    · exact kept_of_push (h.reads i hold)
  opened s hs := by
    obtain ⟨p, hp⟩ := h.opened s hs
    exact ⟨p, kept_of_push hp⟩
  partner_start i p hi := by
    rcases cases_of_push hi with ⟨-, rfl⟩ | hold
    · exact absurd rfl (hstart p)
    · exact (h.partner_start i p hold).imp_right fun ⟨q, hq⟩ => ⟨q, kept_of_push hq⟩
  partner_end i p hi := by
    rcases cases_of_push hi with ⟨-, rfl⟩ | hold
    · exact absurd rfl (hend p)
    · obtain ⟨q, hq⟩ := h.partner_end i p hold
      exact ⟨q, kept_of_push hq⟩

theorem openLoop (h : Guarded starts code) :
    Guarded (code.size :: starts) (code.push (.loopStart 0)) where
  first hfirst := by
    rcases cases_of_push hfirst with ⟨-, hnew⟩ | hold
    · cases hnew
    · exact h.first hold
  reads i hi := by
    rcases cases_of_push hi with ⟨-, hnew⟩ | hold
    · cases hnew
    · exact kept_of_push (h.reads i hold)
  opened s hs := by
    rcases List.mem_cons.1 hs with rfl | hs
    · exact ⟨0, Array.getElem?_push_size⟩
    · obtain ⟨p, hp⟩ := h.opened s hs
      exact ⟨p, kept_of_push hp⟩
  partner_start i p hi := by
    rcases cases_of_push hi with ⟨rfl, -⟩ | hold
    · exact .inl List.mem_cons_self
    · exact (h.partner_start i p hold).imp (List.mem_cons_of_mem _) fun ⟨q, hq⟩ =>
        ⟨q, kept_of_push hq⟩
  partner_end i p hi := by
    rcases cases_of_push hi with ⟨-, hnew⟩ | hold
    · cases hnew
    · obtain ⟨q, hq⟩ := h.partner_end i p hold
      exact ⟨q, kept_of_push hq⟩

theorem closeLoop {start : Nat} (h : Guarded (start :: starts) code) :
    Guarded starts ((code.setIfInBounds start (.loopStart code.size)).push (.loopEnd start)) := by
  obtain ⟨p₀, hstart⟩ := h.opened start List.mem_cons_self
  have hlt : start < code.size := (Array.getElem?_eq_some_iff.1 hstart).1
  have hset (i : Nat) : (code.setIfInBounds start (.loopStart code.size))[i]? =
      if start = i then some (.loopStart code.size) else code[i]? := by
    rw [Array.getElem?_setIfInBounds]
    split <;> rfl
  -- The bracket that is closed is the only instruction that changes.
  have hkept {i : Nat} {x : Instruction} (hi : code[i]? = some x) (hx : ∀ p, x ≠ .loopStart p) :
      ((code.setIfInBounds start (.loopStart code.size)).push (.loopEnd start))[i]? = some x := by
    apply kept_of_push
    rw [hset, if_neg, hi]
    rintro rfl
    exact hx p₀ (Option.some.inj (hi.symm.trans hstart))
  have hbracket {i p : Nat} (hi : code[i]? = some (.loopStart p)) :
      ∃ q, ((code.setIfInBounds start (.loopStart code.size)).push (.loopEnd start))[i]? =
        some (.loopStart q) := by
    by_cases hne : start = i
    · exact ⟨code.size, kept_of_push (by rw [hset, if_pos hne])⟩
    · exact ⟨p, kept_of_push (by rw [hset, if_neg hne, hi])⟩
  have hcases {i : Nat} {x : Instruction}
      (hi : ((code.setIfInBounds start (.loopStart code.size)).push (.loopEnd start))[i]? =
        some x) :
      i = code.size ∧ .loopEnd start = x ∨ start = i ∧ .loopStart code.size = x ∨
        start ≠ i ∧ code[i]? = some x := by
    rcases cases_of_push hi with ⟨hsize, rfl⟩ | hold
    · exact .inl ⟨by simpa using hsize, rfl⟩
    · rw [hset] at hold
      split at hold
      · exact .inr (.inl ⟨‹_›, Option.some.inj hold⟩)
      · exact .inr (.inr ⟨‹_›, hold⟩)
  constructor
  · intro hfirst
    rcases hcases hfirst with ⟨-, hnew⟩ | ⟨-, hnew⟩ | ⟨-, hold⟩
    · cases hnew
    · cases hnew
    · exact h.first hold
  · intro i hi
    rcases hcases hi with ⟨-, hnew⟩ | ⟨-, hnew⟩ | ⟨-, hold⟩
    · cases hnew
    · cases hnew
    · exact hkept (h.reads i hold) (by simp)
  · intro s hs
    obtain ⟨p, hp⟩ := h.opened s (List.mem_cons_of_mem _ hs)
    exact hbracket hp
  · intro i p hi
    rcases hcases hi with ⟨-, hnew⟩ | ⟨-, hnew⟩ | ⟨hne, hold⟩
    · cases hnew
    · cases hnew
      exact .inr ⟨start, by rw [Array.getElem?_push, if_pos (by simp)]⟩
    · rcases h.partner_start i p hold with hmem | ⟨q, hq⟩
      · exact .inl ((List.mem_cons.1 hmem).resolve_left (Ne.symm hne))
      · exact .inr ⟨q, hkept hq (by simp)⟩
  · intro i p hi
    rcases hcases hi with ⟨-, hnew⟩ | ⟨-, hnew⟩ | ⟨-, hold⟩
    · cases hnew
      exact hbracket hstart
    · cases hnew
    · obtain ⟨q, hq⟩ := h.partner_end i p hold
      exact hbracket hq

end Guarded

/-- Every command ahead that reads comes right after commands that clear its cell, the first of
    them possibly after a clearing that was just loaded. -/
def Prepared (chars : List Character) (code : Array Instruction) : Prop :=
  ∃ commands : List Command, chars = commands.map some ∧
    (ClearedReads commands ∨
      code.back? = some .clear ∧ ∃ rest, commands = .read :: rest ∧ ClearedReads rest)

namespace Prepared

variable {chars : List Character} {code code' : Array Instruction}

theorem tail {c : Command} (h : Prepared (some c :: chars) code) (hread : c ≠ .read)
    (hstart : c ≠ .loopStart) : Prepared chars code' := by
  obtain ⟨_ | ⟨c', rest⟩, hchars, hcleared⟩ := h
  · cases hchars
  · cases hchars
    rcases hcleared with hcleared | ⟨-, more, hmore, -⟩
    · exact ⟨rest, rfl, .inl (hcleared.of_cons hstart).2⟩
    · exact absurd (List.cons.inj hmore).1 hread

theorem read (h : Prepared (some .read :: chars) code) :
    code.back? = some .clear ∧ Prepared chars code' := by
  obtain ⟨_ | ⟨c, rest⟩, hchars, hcleared⟩ := h
  · cases hchars
  · cases hchars
    rcases hcleared with hcleared | ⟨hback, more, hmore, hrest⟩
    · exact absurd rfl (hcleared.of_cons (by simp)).1
    · cases hmore
      exact ⟨hback, rest, rfl, .inl hrest⟩

theorem clear {c : Command}
    (h : Prepared (some .loopStart :: some c :: some .loopEnd :: chars) code)
    (hc : c ≠ .loopStart) : Prepared chars (code.push .clear) := by
  obtain ⟨commands, hchars, hcleared⟩ := h
  rcases commands with _ | ⟨c₁, _ | ⟨c₂, _ | ⟨c₃, rest⟩⟩⟩ <;> cases hchars
  rcases hcleared with hcleared | ⟨-, more, hmore, -⟩
  · refine ⟨rest, rfl, ?_⟩
    rcases hcleared.of_clear hc with hrest | ⟨more, rfl, hmore⟩
    · exact .inl hrest
    · exact .inr ⟨Array.back?_push .., more, rfl, hmore⟩
  · cases hmore

theorem openLoop (h : Prepared (some .loopStart :: chars) code) (hclear : ¬StartsClear chars) :
    Prepared chars code' := by
  obtain ⟨_ | ⟨c, rest⟩, hchars, hcleared⟩ := h
  · cases hchars
  · cases hchars
    rcases hcleared with hcleared | ⟨-, more, hmore, -⟩
    · cases hcleared with
      | other _ hrest => exact ⟨rest, rfl, .inl hrest⟩
      | read => exact absurd ⟨.decrement, _, .inl rfl, rfl⟩ hclear
    · cases hmore

end Prepared

/-- Loading keeps what was cleared and what reads together. -/
theorem keptByLoading_guarded :
    KeptByLoading fun chars starts code => Guarded starts code ∧ Prepared chars code where
  comment := by
    rintro rest starts code ⟨-, commands, hchars, -⟩
    cases commands <;> cases hchars
  run := by
    rintro rest starts code kind c k hk ⟨hguarded, hprepared⟩
    refine ⟨hguarded.run kind k, hprepared.tail ?_ ?_⟩
    · rintro rfl
      cases kind <;> cases hk
    · rintro rfl
      cases kind <;> cases hk
  write := by
    rintro rest starts code ⟨hguarded, hprepared⟩
    exact ⟨hguarded.push (by simp) (by simp) (by simp), hprepared.tail (by simp) (by simp)⟩
  read := by
    rintro rest starts code ⟨hguarded, hprepared⟩
    obtain ⟨hback, hrest⟩ := hprepared.read
    exact ⟨hguarded.push (fun _ => hback) (by simp) (by simp), hrest⟩
  clear := by
    rintro rest starts code c hc ⟨hguarded, hprepared⟩
    refine ⟨hguarded.push (by simp) (by simp) (by simp), hprepared.clear ?_⟩
    rcases hc with rfl | rfl <;> simp
  openLoop := by
    rintro rest starts code hclear _ ⟨hguarded, hprepared⟩
    exact ⟨hguarded.openLoop, hprepared.openLoop hclear⟩
  closeLoop := by
    rintro rest start starts code ⟨hguarded, hprepared⟩
    exact ⟨hguarded.closeLoop, hprepared.tail (by simp) (by simp)⟩

/-- The code of a text that reads into cleared cells reads right after clearing. -/
theorem guarded_of_load {commands : List Command} {code : Code} (h : ClearedReads commands)
    (hload : Code.load (Command.toText commands) = .ok code) : Guarded [] code.instructions := by
  rw [Code.load, characters_toText] at hload
  have hempty : Guarded [] #[] := ⟨by simp, by simp, by simp, by simp, by simp⟩
  exact (keptByLoading_guarded.loaded ⟨hempty, commands, rfl, .inl h⟩ hload).1

/-- The machine with another mode at the end of the input. -/
def withMode (m : Machine) (mode : EndOfInput) : Machine :=
  { m with config := { m.config with endOfInput := mode } }

/-- On a cell that is zero, storing a zero and leaving the cell as it is are the same. -/
theorem read_withMode {m : Machine} (hmode : m.config.endOfInput = .zero) (hzero : m.current = 0) :
    (m.withMode .unchanged).read = m.read.withMode .unchanged := by
  have hinput : (m.withMode .unchanged).input = m.input := rfl
  have hcurrent : (m.withMode .unchanged).current = m.current := rfl
  rw [read, read, hinput]
  cases m.input with
  | nil =>
    simp only [hmode, hcurrent, hzero]
    rfl
  | cons b rest => rfl

theorem execute_withMode {m m' : Machine} {pc : Nat} {i : Instruction} {result : Except Fault Nat}
    (hmode : m.config.endOfInput = .zero) (hread : i = .read → m.current = 0)
    (he : m.execute pc i = (result, m')) :
    (m.withMode .unchanged).execute pc i = (result, m'.withMode .unchanged) := by
  cases i with
  | move distance =>
    have hdestination : (m.withMode .unchanged).destination distance = m.destination distance := rfl
    rw [execute] at he ⊢
    rw [hdestination]
    cases hd : m.destination distance <;> rw [hd] at he <;> cases he <;> rfl
  | read =>
    cases he
    rw [execute, read_withMode hmode (hread rfl)]
  | _ =>
    cases he
    rfl

theorem current_store_zero (m : Machine) : (m.store 0).current = 0 := by
  simp only [current, store, Array.getD_eq_getD_getElem?, Array.getElem?_setIfInBounds]
  split
  · split <;> rfl
  · contradiction

/-- Where an instruction that reads comes next, the current cell is zero. -/
def Blank (code : Code) (pc : Nat) (m : Machine) : Prop :=
  code.instructions[pc]? = some .read → m.current = 0

/-- An instruction leads to one that reads only by clearing the cell. -/
theorem Blank.of_execute {code : Code} (hcode : Guarded [] code.instructions) {pc next : Nat}
    {i : Instruction} {m m' : Machine} (hi : code.instructions[pc]? = some i)
    (he : m.execute pc i = (.ok next, m')) : Blank code next m' := by
  intro hread
  have hcleared (hnext : next = pc + 1) : i = .clear := by
    subst hnext
    exact Option.some.inj (hi.symm.trans (hcode.reads pc hread))
  -- A jump leads past a bracket, which clears nothing.
  have hbracket {partner : Nat} (hnext : next = partner + 1) :
      code.instructions[partner]? = some .clear := hcode.reads partner (hnext ▸ hread)
  cases i with
  | clear =>
    cases he
    exact current_store_zero m
  | loopStart partner =>
    rw [execute] at he
    split at he
    · obtain ⟨q, hq⟩ := (hcode.partner_start pc partner hi).resolve_left (by simp)
      cases he
      cases hq.symm.trans (hbracket rfl)
    · cases he
      cases hcleared rfl
  | loopEnd partner =>
    rw [execute] at he
    split at he
    · cases he
      cases hcleared rfl
    · obtain ⟨q, hq⟩ := hcode.partner_end pc partner hi
      cases he
      cases hq.symm.trans (hbracket rfl)
  | move distance =>
    rw [execute] at he
    split at he <;> cases he
    cases hcleared rfl
  | _ =>
    cases he
    cases hcleared rfl

/-- Whether the end of the input stores a zero or leaves the cell as it is makes no difference
    to code that reads right after clearing. -/
theorem runFrom_withMode {code : Code} (hcode : Guarded [] code.instructions)
    (pending : Option Interruption) (fuel pc : Nat) (m : Machine)
    (hmode : m.config.endOfInput = .zero) (hblank : Blank code pc m) :
    runFrom code pending fuel pc (m.withMode .unchanged) =
      ((runFrom code pending fuel pc m).1,
        (runFrom code pending fuel pc m).2.withMode .unchanged) := by
  have hread {pc : Nat} {m : Machine} {i : Instruction} (hi : code.instructions[pc]? = some i)
      (hblank : Blank code pc m) (h : i = .read) : m.counted.current = 0 := hblank (h ▸ hi)
  refine runFrom_induction (motive := fun fuel pc m result => m.config.endOfInput = .zero →
    Blank code pc m → runFrom code pending fuel pc (m.withMode .unchanged) =
      (result.1, result.2.withMode .unchanged)) ?_ ?_ ?_ ?_ ?_ fuel pc m hmode hblank
  · intro fuel pc m hi _ _
    exact runFrom_past_end hi
  · intro pc m i hi _ _
    exact runFrom_without_fuel hi
  · intro fuel pc m i fault hi hcount _ _
    exact runFrom_stopped hi hcount
  · intro fuel pc m i fault m' hi hcount he hmode hblank
    exact runFrom_failed hi hcount (execute_withMode (m := m.counted) hmode (hread hi hblank) he)
  · intro fuel pc m i pc' m' hi hcount he ih hmode hblank
    have hmode' : m'.config.endOfInput = .zero := by
      rw [config_of_execute he, counted_config, hmode]
    rw [← ih hmode' (.of_execute hcode hi he)]
    exact runFrom_next hi hcount (execute_withMode (m := m.counted) hmode (hread hi hblank) he)

end Goat.Machine

namespace Goat

open Machine

/-- Compiled programs do not depend on whether the end of the input stores a zero or leaves the
    cell as it is. The code of every source text that compiles runs to the same outcome in the
    same number of steps, with the same output, pointer and tape, for every input and within
    every limit on the tape and the steps. -/
theorem Program.runs_alike_past_input {source : Text} {c : Compilation}
    (hcompile : compile source = .ok c) :
    ∃ code, Code.load c.text = .ok code ∧ ∀ tapeSize maxSteps input pending fuel,
      let zero := (Machine.start ⟨tapeSize, .zero, maxSteps⟩ input).run code fuel pending
      let unchanged := (Machine.start ⟨tapeSize, .unchanged, maxSteps⟩ input).run code fuel pending
      unchanged.1 = zero.1 ∧ unchanged.2.output = zero.2.output ∧
        unchanged.2.steps = zero.2.steps ∧ unchanged.2.pointer = zero.2.pointer ∧
        unchanged.2.tape = zero.2.tape ∧ unchanged.2.input = zero.2.input := by
  obtain ⟨p, e, -, hrun, rfl⟩ := exists_emitted hcompile
  obtain ⟨code, hload, -⟩ := exists_loaded hrun
  have hcode : Guarded [] code.instructions := guarded_of_load (clearedReads_emitProgram hrun) hload
  refine ⟨code, hload, fun tapeSize maxSteps input pending fuel => ?_⟩
  intro zero unchanged
  have hruns : unchanged = (zero.1, zero.2.withMode .unchanged) :=
    runFrom_withMode hcode pending fuel 0 (Machine.start ⟨tapeSize, .zero, maxSteps⟩ input) rfl
      fun hread => absurd hread hcode.first
  rw [hruns]
  exact ⟨rfl, rfl, rfl, rfl, rfl, rfl⟩

/-- Reads a byte into an element at an index that is an element itself. -/
def Program.readingSource : Text := "IntList<2> k = [1, 5] input(k[k[0]]) print(k[1])"

theorem Program.runs_alike_past_input_reading :
    ∃ c code, compile Program.readingSource = .ok c ∧ .read ∈ c.code ∧
      Code.load c.text = .ok code ∧ ∀ fuel,
        let zero := (Machine.start ⟨some 30, .zero, some 1000⟩ []).run code fuel
        let unchanged := (Machine.start ⟨some 30, .unchanged, some 1000⟩ []).run code fuel
        unchanged.1 = zero.1 ∧ unchanged.2.output = zero.2.output ∧
          unchanged.2.steps = zero.2.steps ∧ unchanged.2.pointer = zero.2.pointer ∧
          unchanged.2.tape = zero.2.tape ∧ unchanged.2.input = zero.2.input := by
  have hreads : (compile Program.readingSource).toOption.any (fun c => c.code.contains .read) =
      true := by decide +kernel
  obtain ⟨c, hc, hread⟩ := exists_ok_of_any hreads
  obtain ⟨code, hload, hruns⟩ := Program.runs_alike_past_input hc
  exact ⟨c, code, hc, List.contains_iff_mem.1 hread, hload,
    fun fuel => hruns (some 30) (some 1000) [] none fuel⟩

end Goat
