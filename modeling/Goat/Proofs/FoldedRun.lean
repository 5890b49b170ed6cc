import Goat.Proofs.Folding
import Goat.Proofs.Runs

/-!
# Running folded texts

A machine that runs a loaded program does what the plain machine does on its text,
up to where that one leaves its tape. One instruction stands for a stretch of text
that takes the plain machine any number of steps, so the machines are compared by
`Simulates`, which follows a number of instructions.
-/

namespace Goat.Machine

open Plain

/-- A machine and a plain one are in the same state. -/
structure Matches (settings : Settings) (m : Machine) (t : Tape) : Prop where
  config : m.config = ⟨settings.tapeSize, settings.endOfInput, none⟩
  pointer : t.pointer = m.pointer
  inside : m.pointer < m.tape.size
  size_le : ∀ size ∈ settings.tapeSize, m.tape.size ≤ size
  cells : ∀ i : Nat, t.cells i = m.tape.getD i 0
  input : t.input = m.input
  output : t.output = m.output.toList

namespace Matches

variable {settings : Settings} {m : Machine} {t : Tape}

theorem current (h : Matches settings m t) : t.current = m.current := by
  rw [Tape.current, h.pointer, h.cells, Machine.current]

theorem hasCell (h : Matches settings m t) : settings.HasCell t.pointer := by
  refine ⟨by rw [h.pointer]; omega, fun size hsize => ?_⟩
  have := h.size_le size hsize
  have := h.inside
  rw [h.pointer]
  omega

theorem store (h : Matches settings m t) (value : UInt8) :
    Matches settings (m.store value) (t.store value) where
  config := h.config
  pointer := h.pointer
  inside := by simpa [Machine.store] using h.inside
  size_le := by simpa [Machine.store] using h.size_le
  cells i := by
    have hin := h.inside
    have hcells := h.cells i
    simp only [Tape.store, h.pointer, Function.update_apply, Machine.store,
      Array.getD_eq_getD_getElem?, Array.getElem?_setIfInBounds, Int.natCast_inj] at hcells ⊢
    by_cases hi : i = m.pointer
    · subst hi
      simp [hin]
    · simp only [hi, if_false, Ne.symm hi, hcells]
  input := h.input
  output := h.output

theorem countSteps (h : Matches settings m t) (steps : Nat) :
    Matches settings { m with steps } t :=
  ⟨h.config, h.pointer, h.inside, h.size_le, h.cells, h.input, h.output⟩

theorem write (h : Matches settings m t) :
    Matches settings { m with output := m.output.push m.current }
      { t with output := t.output ++ [t.current] } where
  config := h.config
  pointer := h.pointer
  inside := h.inside
  size_le := h.size_le
  cells := h.cells
  input := h.input
  output := by rw [Array.toList_push, ← h.output, h.current]

theorem read (h : Matches settings m t) :
    Matches settings m.read (t.read settings.endOfInput) := by
  unfold Machine.read Tape.read
  rw [h.input]
  cases m.input with
  | nil =>
    have hmode : m.config.endOfInput = settings.endOfInput := by rw [h.config]
    simp only [hmode, h.current]
    exact h.store _
  | cons b rest =>
    have : Matches settings { m with input := rest } { t with input := rest } :=
      ⟨h.config, h.pointer, h.inside, h.size_le, h.cells, rfl, h.output⟩
    exact this.store b

end Matches

/-- Growing the tape keeps what is on it. -/
theorem getD_growTo (m : Machine) (p i : Nat) : (m.growTo p).getD i 0 = m.tape.getD i 0 := by
  unfold growTo
  split
  · rfl
  · simp only [Array.getD_eq_getD_getElem?, Array.getElem?_append]
    split
    · rfl
    · rename_i hi
      have houtside : m.tape[i]? = none := by simpa using hi
      rw [houtside, Array.getElem?_replicate]
      repeat' split
      all_goals rfl

theorem lt_size_growTo (m : Machine) {p : Nat} (hp : ∀ size ∈ m.config.tapeSize, p < size) :
    p < (m.growTo p).size := by
  unfold growTo
  split
  · assumption
  · cases hsize : m.config.tapeSize with
    | none =>
      simp only [Array.size_append, Array.size_replicate]
      omega
    | some size =>
      have := hp size hsize
      simp only [Array.size_append, Array.size_replicate]
      omega

theorem size_growTo_le (m : Machine) {p size : Nat} (hsize : m.config.tapeSize = some size)
    (h : m.tape.size ≤ size) : (m.growTo p).size ≤ size := by
  unfold growTo
  split
  · exact h
  · simp only [hsize, Array.size_append, Array.size_replicate]
    omega

theorem Matches.moveTo {settings : Settings} {m : Machine} {t : Tape} (h : Matches settings m t)
    {p : Nat} (hp : settings.HasCell p) :
    Matches settings (m.moveTo p) { t with pointer := p } where
  config := h.config
  pointer := rfl
  inside := by
    change p < (m.growTo p).size
    apply lt_size_growTo
    intro size hsize
    rw [h.config] at hsize
    have := hp.2 size hsize
    omega
  size_le size hsize := by
    apply size_growTo_le _ _ (h.size_le size hsize)
    rw [h.config]
    exact hsize
  cells i := by
    rw [Machine.moveTo, getD_growTo]
    exact h.cells i
  input := h.input
  output := h.output

section Runs

variable {settings : Settings} {t : Tape} {rest : List Character} {loops : List (List Character)}

/-- A run of additions changes the current cell by its amount. -/
theorem Run.reaches_add {chars : List Character} {n : Int} (h : Run .add chars n) :
    Reaches settings chars.length ⟨chars ++ rest, loops, t⟩
      ⟨rest, loops, t.store (t.current + UInt8.ofInt n)⟩ := by
  induction h generalizing rest with
  | nil =>
    have hzero : t.current + UInt8.ofInt 0 = t.current := UInt8.add_zero _
    rw [hzero, Tape.store_current]
    exact .refl _
  | @snoc chars c n k h hc ih =>
    rw [List.append_assoc, List.length_append]
    refine ih.trans (.single ?_)
    rcases c with _ | c
    · cases hc
      simp only [Int.add_zero]
      rfl
    · -- Only the two commands that change the cell have an amount.
      cases c <;> cases hc
      · have hone : t.current + UInt8.ofInt (n + 1) = t.current + UInt8.ofInt n + 1 := by
          rw [UInt8.ofInt_add]
          exact (UInt8.add_assoc _ _ _).symm
        simp only [List.singleton_append, Plain.step, Tape.execute?, Tape.store_store,
          Tape.current_store, hone]
      · have hone : t.current + UInt8.ofInt (n + -1) = t.current + UInt8.ofInt n - 1 := by
          have hminus : UInt8.ofInt (-1) = -1 := rfl
          rw [UInt8.ofInt_add, hminus]
          grind
        simp only [List.singleton_append, Plain.step, Tape.execute?, Tape.store_store,
          Tape.current_store, hone]

/-- A run of moves leads to where its distance leads, unless it leaves the tape on
    the way. -/
theorem Run.reaches_move {chars : List Character} {n : Int} (h : Run .move chars n)
    (ht : settings.HasCell t.pointer) :
    Faults settings ⟨chars ++ rest, loops, t⟩ ∨
      (settings.HasCell (t.pointer + n) ∧
        Reaches settings chars.length ⟨chars ++ rest, loops, t⟩
          ⟨rest, loops, { t with pointer := t.pointer + n }⟩) := by
  induction h generalizing rest with
  | nil =>
    right
    simp only [Int.add_zero]
    exact ⟨ht, .refl _⟩
  | @snoc chars c n k h hc ih =>
    rw [List.append_assoc, List.length_append]
    rcases @ih ([c] ++ rest) with hfault | ⟨hcell, hreach⟩
    · exact .inl hfault
    · have hmove : ∀ p : Int, c = some .right ∧ p = t.pointer + n + 1 ∨
          c = some .left ∧ p = t.pointer + n - 1 →
          Faults settings ⟨chars ++ ([c] ++ rest), loops, t⟩ ∨
            (settings.HasCell p ∧ Reaches settings (chars.length + [c].length)
              ⟨chars ++ ([c] ++ rest), loops, t⟩ ⟨rest, loops, { t with pointer := p }⟩) := by
        intro p hp
        by_cases hin : settings.HasCell p
        · refine .inr ⟨hin, hreach.trans (.single ?_)⟩
          rcases hp with ⟨rfl, rfl⟩ | ⟨rfl, rfl⟩ <;>
            simp [Plain.step, Tape.execute?, Tape.moveTo?, hin]
        · refine .inl ⟨_, _, hreach, ?_⟩
          rcases hp with ⟨rfl, rfl⟩ | ⟨rfl, rfl⟩ <;>
            simp [Plain.step, Tape.execute?, Tape.moveTo?, hin]
      rcases c with _ | c
      · cases hc
        right
        simp only [Int.add_zero]
        exact ⟨hcell, hreach.trans (.single rfl)⟩
      · cases c <;> cases hc
        · exact hmove _ (.inr ⟨rfl, by omega⟩)
        · exact hmove _ (.inl ⟨rfl, by omega⟩)

/-- A loop that only changes its cell by `d` clears it, if some number of changes
    does. -/
theorem reaches_clear {c : Command} (d : UInt8)
    (hc : ∀ (t : Tape) rest loops, Plain.step settings ⟨some c :: rest, loops, t⟩ =
      .next ⟨rest, loops, t.store (t.current + d)⟩)
    (hlevel : Level [some c]) (n : Nat) (t : Tape) (hn : t.current + UInt8.ofNat n * d = 0) :
    ∃ k, Reaches settings (k + 1) ⟨some .loopStart :: some c :: some .loopEnd :: rest, loops, t⟩
      ⟨rest, loops, t.store 0⟩ := by
  have of_zero : ∀ t : Tape, t.current = 0 →
      ∃ k, Reaches settings (k + 1) ⟨some .loopStart :: some c :: some .loopEnd :: rest, loops, t⟩
        ⟨rest, loops, t.store 0⟩ := by
    intro t hzero
    refine ⟨0, .single ?_⟩
    rw [← hzero, Tape.store_current]
    exact step_loopStart_of_zero hlevel hzero
  induction n generalizing t with
  | zero => exact of_zero t (by simpa using hn)
  | succ n ih =>
    by_cases hzero : t.current = 0
    · exact of_zero t hzero
    · have hnext : (t.store (t.current + d)).current + UInt8.ofNat n * d = 0 := by
        rw [Tape.current_store]
        rw [UInt8.ofNat_add] at hn
        grind
      obtain ⟨k, hk⟩ := ih (t.store (t.current + d)) hnext
      rw [Tape.store_store] at hk
      exact ⟨k + 3, .step (step_loopStart_of_ne hzero) (.step (hc t _ _) (.step step_loopEnd hk))⟩

end Runs

/-- The code has some instructions from a place on. -/
def Code.HoldsAt (code : Code) (base : Nat) (is : List Instruction) : Prop :=
  ∀ i, i < is.length → code.instructions[base + i]? = is[i]?

theorem Code.HoldsAt.left {code : Code} {base : Nat} {is js : List Instruction}
    (h : code.HoldsAt base (is ++ js)) : code.HoldsAt base is := by
  intro i hi
  rw [h i (by rw [List.length_append]; omega), List.getElem?_append_left hi]

theorem Code.HoldsAt.right {code : Code} {base : Nat} {is js : List Instruction}
    (h : code.HoldsAt base (is ++ js)) : code.HoldsAt (base + is.length) js := by
  intro i hi
  have := h (is.length + i) (by rw [List.length_append]; omega)
  rw [Nat.add_assoc, this, List.getElem?_append_right (by omega), Nat.add_sub_cancel_left]

theorem Code.HoldsAt.head {code : Code} {base : Nat} {i : Instruction} {is : List Instruction}
    (h : code.HoldsAt base (i :: is)) : code.instructions[base]? = some i :=
  h 0 (by simp)

theorem Code.holdsAt_self (code : Code) : code.HoldsAt 0 code.instructions.toList := by
  intro i _
  simp

/-- The plain machine in configuration `c` can follow `n` instructions of a machine
    at place `pc` and gets to the same state, or leaves its tape; it also ends or leaves
    its tape if the code ends there. -/
def Simulates (settings : Settings) (code : Code) : (n : Nat) → Plain.Config → Nat → Machine → Prop
  | 0, c, _, m => Faults settings c ∨ ∃ k c', Reaches settings k c c' ∧ Matches settings m c'.tape
  | n + 1, c, pc, m =>
    match code.instructions[pc]? with
    | none => Faults settings c ∨ ∃ t, Ends settings c t ∧ Matches settings m t
    | some i =>
      match { m with steps := m.steps + 1 }.execute pc i with
      | (.error _, _) => Faults settings c
      | (.ok next, m') =>
        Faults settings c ∨
          ∃ k c', Reaches settings (k + 1) c c' ∧ Simulates settings code n c' next m'

section Simulation

variable {settings : Settings} {code : Code} {n k pc : Nat} {c c' : Plain.Config} {m : Machine}

/-- Steps of the plain machine can be put in front. -/
theorem Simulates.of_reaches (h : Reaches settings k c c')
    (hs : Simulates settings code n c' pc m) : Simulates settings code n c pc m := by
  cases n with
  | zero =>
    rcases hs with hf | ⟨j, c'', hj, hm⟩
    · exact .inl (hf.of_reaches h)
    · exact .inr ⟨k + j, c'', h.trans hj, hm⟩
  | succ n =>
    rw [Simulates] at hs ⊢
    split at hs
    · rcases hs with hf | ⟨t, he, ht⟩
      · exact .inl (hf.of_reaches h)
      · exact .inr ⟨t, he.of_reaches h, ht⟩
    · split at hs
      · exact hs.of_reaches h
      · rcases hs with hf | ⟨j, c'', hj, hs⟩
        · exact .inl (hf.of_reaches h)
        · exact .inr ⟨k + j, c'', h.trans hj, hs⟩

/-- An instruction that leads to place `next` can be followed if the plain machine
    gets to a configuration that can follow the rest, or leaves its tape. -/
theorem Simulates.of_execute {i : Instruction} {next : Nat} {m' : Machine}
    (hi : code.instructions[pc]? = some i)
    (he : { m with steps := m.steps + 1 }.execute pc i = (.ok next, m'))
    (h : Faults settings c ∨
      ∃ k c', Reaches settings (k + 1) c c' ∧ Simulates settings code n c' next m') :
    Simulates settings code (n + 1) c pc m := by
  rw [Simulates, hi]
  simp only [he]
  exact h

/-- From place `pc` on, a machine can be followed by a plain one with text `rest`. -/
def Continues (settings : Settings) (code : Code) (n : Nat) (rest : List Character)
    (loops : List (List Character)) (pc : Nat) : Prop :=
  ∀ k ≤ n, ∀ t m, Matches settings m t → Simulates settings code k ⟨rest, loops, t⟩ pc m

theorem Continues.mono {rest : List Character} {loops : List (List Character)}
    (h : Continues settings code n rest loops pc) (hk : k ≤ n) :
    Continues settings code k rest loops pc :=
  fun j hj => h j (Nat.le_trans hj hk)

/-- A single instruction, whose text takes the plain machine at least one step. -/
theorem Continues.of_execute {i : Instruction} {chars rest : List Character}
    {loops : List (List Character)} (hi : code.instructions[pc]? = some i)
    (h : ∀ t m, Matches settings m t → Faults settings ⟨chars ++ rest, loops, t⟩ ∨
      ∃ k t' m', m.execute pc i = (.ok (pc + 1), m') ∧ Matches settings m' t' ∧
        Reaches settings (k + 1) ⟨chars ++ rest, loops, t⟩ ⟨rest, loops, t'⟩)
    (hrest : Continues settings code n rest loops (pc + 1)) :
    Continues settings code n (chars ++ rest) loops pc := by
  intro k hk t m hm
  cases k with
  | zero => exact .inr ⟨0, _, .refl _, hm⟩
  | succ k =>
    rcases h t _ (hm.countSteps (m.steps + 1)) with hf | ⟨j, t', m', he, hm', hj⟩
    · rw [Simulates, hi]
      simp only
      split
      · exact hf
      · exact .inl hf
    · exact .of_execute hi he (.inr ⟨j, _, hj, hrest k (by omega) t' m' hm'⟩)

end Simulation

section Folded

variable {settings : Settings} {code : Code} {n base : Nat} {rest : List Character}
  {loops : List (List Character)}

theorem continues_add {chars : List Character} {k : Int} (h : Run .add chars k) (hne : chars ≠ [])
    (hi : code.instructions[base]? = some (.add k))
    (hrest : Continues settings code n rest loops (base + 1)) :
    Continues settings code n (chars ++ rest) loops base := by
  refine .of_execute hi (fun t m hm => .inr ?_) hrest
  obtain ⟨j, hj⟩ := Nat.exists_eq_succ_of_ne_zero (mt List.length_eq_zero_iff.1 hne)
  refine ⟨j, t.store (t.current + UInt8.ofInt k), m.store (m.current + UInt8.ofInt k), rfl, ?_, ?_⟩
  · rw [hm.current]
    exact hm.store _
  · rw [← Nat.succ_eq_add_one, ← hj]
    exact h.reaches_add

/-- A move that the machine cannot make takes the plain machine off its tape. -/
theorem continues_move {chars : List Character} {k : Int} (h : Run .move chars k)
    (hne : chars ≠ []) (hi : code.instructions[base]? = some (.move k))
    (hrest : Continues settings code n rest loops (base + 1)) :
    Continues settings code n (chars ++ rest) loops base := by
  refine .of_execute hi (fun t m hm => ?_) hrest
  rcases h.reaches_move hm.hasCell with hf | ⟨hcell, hreach⟩
  · exact .inl hf
  · right
    obtain ⟨j, hj⟩ := Nat.exists_eq_succ_of_ne_zero (mt List.length_eq_zero_iff.1 hne)
    obtain ⟨p, hp⟩ := Int.eq_ofNat_of_zero_le hcell.1
    have hdest : m.destination k = .ok p := by
      unfold destination
      rw [← hm.pointer, hp, hm.config]
      simp only [Int.toNat_natCast]
      rw [if_neg (by omega)]
      cases hsize : settings.tapeSize with
      | none => rfl
      | some size =>
        have := hcell.2 size hsize
        simp only
        rw [if_neg (by omega)]
    refine ⟨j, { t with pointer := p }, m.moveTo p, ?_, ?_, ?_⟩
    · rw [execute, hdest]
    · exact hm.moveTo (hp ▸ hcell)
    · rw [← Nat.succ_eq_add_one, ← hj, ← hp]
      exact hreach

theorem continues_clear {c : Command} (hc : c = .decrement ∨ c = .increment)
    (hi : code.instructions[base]? = some .clear)
    (hrest : Continues settings code n rest loops (base + 1)) :
    Continues settings code n ([some .loopStart, some c, some .loopEnd] ++ rest) loops base := by
  refine .of_execute hi (fun t m hm => .inr ?_) hrest
  have hreach : ∃ k, Reaches settings (k + 1)
      ⟨some .loopStart :: some c :: some .loopEnd :: rest, loops, t⟩ ⟨rest, loops, t.store 0⟩ := by
    rcases hc with rfl | rfl
    · refine reaches_clear (-1) (fun t rest loops => ?_) (.single (by simp) (by simp))
        t.current.toNat t ?_
      · rw [← UInt8.sub_eq_add_neg t.current 1]
        rfl
      · rw [UInt8.ofNat_toNat]
        grind
    · refine reaches_clear 1 (fun t rest loops => rfl) (.single (by simp) (by simp))
        (-t.current).toNat t ?_
      rw [UInt8.ofNat_toNat]
      grind
  obtain ⟨k, hk⟩ := hreach
  exact ⟨k, t.store 0, m.store 0, rfl, hm.store 0, hk⟩

section Loop

variable {body : List Character} {last : Nat} (hlevel : Level body)
  (hbody : ∀ n rest loops, Continues settings code n rest loops last →
    Continues settings code n (body ++ rest) loops (base + 1))

include hlevel hbody

/-- Inside a loop, by induction on the number of instructions: each time around takes at least
    the closing bracket. -/
theorem continues_inside (hend : code.instructions[last]? = some (.loopEnd base)) (n : Nat)
    (hrest : Continues settings code n rest loops (last + 1)) :
    Continues settings code n (body ++ some .loopEnd :: rest)
      ((some .loopStart :: (body ++ some .loopEnd :: rest)) :: loops) (base + 1) := by
  induction n using Nat.strongRecOn with
  | ind n ih =>
    apply hbody
    intro k hk t m hm
    cases k with
    | zero => exact .inr ⟨0, _, .refl _, hm⟩
    | succ k =>
      have hcurrent : ({ m with steps := m.steps + 1 } : Machine).current = t.current :=
        hm.current.symm
      by_cases hzero : t.current = 0
      · have hafter := hrest k (by omega) t _ (hm.countSteps (m.steps + 1))
        refine .of_execute hend (by rw [execute, hcurrent, if_pos hzero]) (.inr ⟨1, _, ?_, hafter⟩)
        exact .step step_loopEnd (.single (step_loopStart_of_zero hlevel hzero))
      · have hagain := ih k (by omega) (hrest.mono (by omega)) k (Nat.le_refl k) t _
          (hm.countSteps (m.steps + 1))
        refine .of_execute hend (by rw [execute, hcurrent, if_neg hzero]) (.inr ⟨1, _, ?_, hagain⟩)
        exact .step step_loopEnd (.single (step_loopStart_of_ne hzero))

/-- A loop: `hbody` says that its body can be followed up to its closing bracket. -/
theorem continues_loop (hstart : code.instructions[base]? = some (.loopStart last))
    (hend : code.instructions[last]? = some (.loopEnd base))
    (hrest : Continues settings code n rest loops (last + 1)) :
    Continues settings code n (some .loopStart :: (body ++ some .loopEnd :: rest)) loops base := by
  intro k hk t m hm
  cases k with
  | zero => exact .inr ⟨0, _, .refl _, hm⟩
  | succ k =>
    have hcurrent : ({ m with steps := m.steps + 1 } : Machine).current = t.current :=
      hm.current.symm
    by_cases hzero : t.current = 0
    · have hafter := hrest k (by omega) t _ (hm.countSteps (m.steps + 1))
      refine .of_execute hstart (by rw [execute, hcurrent, if_pos hzero]) (.inr ⟨0, _, ?_, hafter⟩)
      exact .single (step_loopStart_of_zero hlevel hzero)
    · have hinto := continues_inside hlevel hbody hend k (hrest.mono (by omega)) k (Nat.le_refl k)
        t _ (hm.countSteps (m.steps + 1))
      refine .of_execute hstart (by rw [execute, hcurrent, if_neg hzero]) (.inr ⟨0, _, ?_, hinto⟩)
      exact .single (step_loopStart_of_ne hzero)

end Loop

/-- Instructions can be followed on the text that they were folded from. -/
theorem Folds.continues {chars : List Character} {is : List Instruction}
    (h : Folds chars base is) (hcode : code.HoldsAt base is)
    (hrest : Continues settings code n rest loops (base + is.length)) :
    Continues settings code n (chars ++ rest) loops base := by
  induction h generalizing n rest loops with
  | nil => exact hrest
  | comment base =>
    intro k hk t m hm
    exact (hrest k hk t m hm).of_reaches (.single rfl)
  | @run kind chars k hrun hne base =>
    cases kind with
    | add => exact continues_add hrun hne hcode.head hrest
    | move => exact continues_move hrun hne hcode.head hrest
  | write base =>
    refine .of_execute hcode.head (fun t m hm => .inr ⟨0, _, _, rfl, hm.write, .single rfl⟩) hrest
  | read base =>
    refine .of_execute hcode.head (fun t m hm => .inr ⟨0, _, _, rfl, hm.read, .single rfl⟩) hrest
  | clear hc base => exact continues_clear hc hcode.head hrest
  | @loop body base is h ih =>
    have hbody : code.HoldsAt (base + 1) is := by
      have hwhole : code.HoldsAt base
        ([.loopStart (base + 1 + is.length)] ++ is ++ [.loopEnd base]) := hcode
      exact hwhole.left.right
    have hlength : base + (Instruction.loopStart (base + 1 + is.length) :: is ++
        [Instruction.loopEnd base]).length = base + 1 + is.length + 1 := by
      simp
      omega
    rw [hlength] at hrest
    have hend : code.instructions[base + 1 + is.length]? = some (.loopEnd base) := by
      have := hcode.right.head
      rwa [List.length_cons, Nat.add_comm is.length, ← Nat.add_assoc] at this
    have := continues_loop h.level (fun n rest loops hcont => ih hbody hcont) hcode.head hend hrest
    simpa using this
  | @append xs ys base is js hx hy ihx ihy =>
    rw [List.append_assoc]
    apply ihx hcode.left
    apply ihy hcode.right
    rwa [List.length_append, ← Nat.add_assoc] at hrest

end Folded

section Endings

variable {settings : Settings} {code : Code} {n pc fuel : Nat} {c c' : Plain.Config} {m : Machine}

/-- The next instruction of an unlimited machine that a plain one follows on its tape. -/
theorem Simulates.step_cases (hs : Simulates settings code (n + 1) c pc m)
    (hmax : m.config.maxSteps = none) (hfaults : ¬ Faults settings c) :
    (code.instructions[pc]? = none ∧ ∃ t, Ends settings c t ∧ Matches settings m t) ∨
      ∃ next m' j c', m'.config.maxSteps = none ∧ Reaches settings (j + 1) c c' ∧
        Simulates settings code n c' next m' ∧ runFrom code none 0 pc m = (.outOfFuel pc, m) ∧
        ∀ fuel, runFrom code none (fuel + 1) pc m = runFrom code none fuel next m' := by
  rw [Simulates] at hs
  cases hi : code.instructions[pc]? with
  | none =>
    simp only [hi] at hs
    exact .inl ⟨rfl, hs.resolve_left hfaults⟩
  | some i =>
    simp only [hi] at hs
    have hconfig := execute_config { m with steps := m.steps + 1 } pc i
    rcases he : { m with steps := m.steps + 1 }.execute pc i with ⟨fault | next, m'⟩
    · rw [he] at hs
      exact absurd hs hfaults
    · rw [he] at hs hconfig
      obtain ⟨j, c', hj, hs⟩ := hs.resolve_left hfaults
      refine .inr ⟨next, m', j, c', hconfig ▸ hmax, hj, hs, runFrom_without_fuel hi,
        fun fuel => runFrom_next hi (countStep_of_unlimited hmax) he⟩

/-- Where the plain machine ends, the machine ends in the same state. -/
theorem Simulates.finished (hs : Simulates settings code n c pc m) (hmax : m.config.maxSteps = none)
    {k : Nat} (hk : Reaches settings k c c') (hend : Plain.step settings c' = .finished)
    (hlt : k < n) :
    ∃ fuel m', runFrom code none fuel pc m = (.finished, m') ∧ Matches settings m' c'.tape := by
  induction n generalizing c pc m k with
  | zero => omega
  | succ n ih =>
    have hends : Ends settings c c'.tape := ⟨k, c', hk, hend, rfl⟩
    obtain ⟨hi, t, ht, hm⟩ | ⟨next, m₁, j, c₁, hmax, hj, hs, -, hstep⟩ :=
      hs.step_cases hmax hends.not_faults
    · obtain rfl := hends.unique ht
      exact ⟨0, m, runFrom_past_end hi, hm⟩
    · obtain ⟨l, hl, hrest⟩ := hj.rest hk hend
      obtain ⟨fuel, m', hrun, hm⟩ := ih hs hmax hrest (by omega)
      exact ⟨fuel + 1, m', (hstep fuel).trans hrun, hm⟩

/-- As long as the plain machine neither ends nor leaves its tape, the machine goes on. -/
theorem Simulates.goes_on (hs : Simulates settings code (fuel + 1) c pc m)
    (hmax : m.config.maxSteps = none) (hends : ∀ t, ¬ Ends settings c t)
    (hfaults : ¬ Faults settings c) :
    ∃ next m', runFrom code none fuel pc m = (.outOfFuel next, m') := by
  induction fuel generalizing c pc m with
  | zero =>
    obtain ⟨-, t, ht, -⟩ | ⟨-, -, -, -, -, -, -, hstop, -⟩ := hs.step_cases hmax hfaults
    · exact absurd ht (hends t)
    · exact ⟨pc, m, hstop⟩
  | succ fuel ih =>
    obtain ⟨-, t, ht, -⟩ | ⟨next, m₁, j, c₁, hmax, hj, hs, -, hstep⟩ := hs.step_cases hmax hfaults
    · exact absurd ht (hends t)
    · rw [hstep]
      exact ih hs hmax (fun t ht => hends t (ht.of_reaches hj))
        (fun hf => hfaults (hf.of_reaches hj))

/-- Where the machine fails, the plain machine leaves its tape. -/
theorem Simulates.faults (hs : Simulates settings code fuel c pc m)
    (hmax : m.config.maxSteps = none) {fault : Fault} {m' : Machine}
    (hrun : runFrom code none fuel pc m = (.failed fault, m')) : Faults settings c := by
  by_contra hfaults
  induction fuel generalizing c pc m with
  | zero =>
    cases hi : code.instructions[pc]? with
    | none =>
      rw [runFrom_past_end hi] at hrun
      cases hrun
    | some i =>
      rw [runFrom_without_fuel hi] at hrun
      cases hrun
  | succ fuel ih =>
    obtain ⟨hi, -⟩ | ⟨next, m₁, j, c₁, hmax, hj, hs, -, hstep⟩ := hs.step_cases hmax hfaults
    · rw [runFrom_past_end hi] at hrun
      cases hrun
    · rw [hstep] at hrun
      exact ih hs hmax hrun fun hf => hfaults (hf.of_reaches hj)

/-- Where the machine stops for lack of fuel, the plain machine gets to the same state, in at
    least as many steps, unless it leaves its tape. -/
theorem Simulates.tracks (hs : Simulates settings code fuel c pc m)
    (hmax : m.config.maxSteps = none) (hfaults : ¬ Faults settings c) {next : Nat} {m' : Machine}
    (hrun : runFrom code none fuel pc m = (.outOfFuel next, m')) :
    ∃ k c', fuel ≤ k ∧ Reaches settings k c c' ∧ Matches settings m' c'.tape := by
  induction fuel generalizing c pc m with
  | zero =>
    obtain ⟨k, c', hk, hm⟩ := hs.resolve_left hfaults
    cases hi : code.instructions[pc]? with
    | none =>
      rw [runFrom_past_end hi] at hrun
      cases hrun
    | some i =>
      rw [runFrom_without_fuel hi] at hrun
      cases hrun
      exact ⟨k, c', Nat.zero_le k, hk, hm⟩
  | succ fuel ih =>
    obtain ⟨hi, -⟩ | ⟨next, m₁, j, c₁, hmax, hj, hs, -, hstep⟩ := hs.step_cases hmax hfaults
    · rw [runFrom_past_end hi] at hrun
      cases hrun
    · rw [hstep] at hrun
      obtain ⟨k, c', hk, hreach, hm⟩ := ih hs hmax (fun hf => hfaults (hf.of_reaches hj)) hrun
      exact ⟨j + 1 + k, c', by omega, hj.trans hreach, hm⟩

end Endings

/-- A machine starts in the same state as a plain one. -/
theorem matches_start (size : Int) (mode : EndOfInput) (text : Text) (input : List UInt8) :
    Matches ⟨limitOfInt size, mode⟩ (Machine.start ⟨limitOfInt size, mode, none⟩ input)
      (Plain.start text input).tape where
  config := rfl
  pointer := rfl
  inside := by
    by_cases h : 0 < size
    · simp only [Machine.start, limitOfInt, h, if_true, initialCells, Array.size_replicate]
      omega
    · simp [Machine.start, limitOfInt, h, initialCells]
  size_le limit hlimit := by
    simp only [Option.mem_def] at hlimit
    simp only [Machine.start, hlimit, Array.size_replicate]
    omega
  cells i := by
    simp only [Plain.start, Machine.start, Array.getD_eq_getD_getElem?, Array.getElem?_replicate]
    repeat' split
    all_goals rfl
  input := rfl
  output := rfl

/-- Every number of instructions of a loaded text can be followed by a plain machine that starts
    in the same state. -/
theorem Folds.simulates {text : Text} {code : Code} {settings : Settings} {m : Machine} {t : Tape}
    (hfolds : Folds (characters text) 0 code.instructions.toList) (hm : Matches settings m t)
    (n : Nat) : Simulates settings code n ⟨characters text, [], t⟩ 0 m := by
  have hend : Continues settings code n [] [] (0 + code.instructions.toList.length) := by
    intro k _ t m hm
    cases k with
    | zero => exact .inr ⟨0, _, .refl _, hm⟩
    | succ k =>
      have hi : code.instructions[0 + code.instructions.toList.length]? = none := by simp
      rw [Simulates, hi]
      exact .inr ⟨t, ⟨0, _, .refl _, rfl, rfl⟩, hm⟩
  have := hfolds.continues code.holdsAt_self hend n (Nat.le_refl n) _ _ hm
  rwa [List.append_nil] at this

theorem simulates_start {text : Text} {code : Code}
    (hfolds : Folds (characters text) 0 code.instructions.toList) (size : Int) (mode : EndOfInput)
    (input : List UInt8) (n : Nat) :
    Simulates ⟨limitOfInt size, mode⟩ code n (Plain.start text input) 0
      (Machine.start ⟨limitOfInt size, mode, none⟩ input) :=
  hfolds.simulates (matches_start size mode text input) n

/-- How the run of a loaded text goes, compared with the plain machine on the text. -/
structure RefinesPlain (code : Code) (text : Text) (input : List UInt8) (mode : EndOfInput)
    (size : Int) : Prop where
  /-- Where the plain machine ends, the machine ends with the same output, input left,
      pointer and cells. -/
  finished : ∀ fuel t,
    Plain.run ⟨limitOfInt size, mode⟩ fuel (Plain.start text input) = .finished t →
      ∃ fuel' m,
        (Machine.start ⟨limitOfInt size, mode, none⟩ input).run code fuel' = (.finished, m) ∧
          m.output.toList = t.output ∧ m.input = t.input ∧ (m.pointer : Int) = t.pointer ∧
          ∀ i : Nat, m.tape.getD i 0 = t.cells i
  /-- If the plain machine goes on forever, so does the machine. -/
  forever :
    (∀ fuel, ∃ c, Plain.run ⟨limitOfInt size, mode⟩ fuel (Plain.start text input) =
        .outOfFuel c) →
      ∀ fuel, ∃ next m, (Machine.start ⟨limitOfInt size, mode, none⟩ input).run code fuel =
        (.outOfFuel next, m)
  /-- If the machine leaves its tape, so does the plain one. -/
  fault : ∀ fuel fault m, (fault = .underflow ∨ ∃ cells, fault = .overflow cells) →
    (Machine.start ⟨limitOfInt size, mode, none⟩ input).run code fuel = (.failed fault, m) →
      ∃ fuel', Plain.run ⟨limitOfInt size, mode⟩ fuel' (Plain.start text input) = .fault

theorem Folds.refinesPlain {text : Text} {code : Code}
    (hfolds : Folds (characters text) 0 code.instructions.toList) (input : List UInt8)
    (mode : EndOfInput) (size : Int) : RefinesPlain code text input mode size := by
  have hs := simulates_start hfolds size mode input
  refine ⟨?_, ?_, ?_⟩
  · intro fuel t hrun
    obtain ⟨k, c', hk, hend, rfl⟩ := ends_of_run hrun
    obtain ⟨fuel', m, hfinished, hm⟩ := (hs (k + 1)).finished rfl hk hend (Nat.lt_succ_self k)
    exact ⟨fuel', m, hfinished, hm.output.symm, hm.input.symm, hm.pointer.symm,
      fun i => (hm.cells i).symm⟩
  · intro hforever fuel
    apply (hs (fuel + 1)).goes_on rfl
    · intro t ht
      obtain ⟨k, hk⟩ := run_of_ends ht
      obtain ⟨c, hc⟩ := hforever k
      rw [hk] at hc
      cases hc
    · intro hf
      obtain ⟨k, hk⟩ := run_of_faults hf
      obtain ⟨c, hc⟩ := hforever k
      rw [hk] at hc
      cases hc
  · intro fuel fault m _ hrun
    exact run_of_faults ((hs fuel).faults rfl hrun)

/-- Folding refines the plain machine: a text whose brackets pair up can be loaded, and
    a machine that runs it does what the plain machine does, whatever the input, the
    mode at its end and the size of the tape. -/
theorem run_loaded_refines_plain (text : Text) (hbalanced : Balanced (Command.ofText text))
    (input : List UInt8) (mode : EndOfInput) (size : Int) :
    ∃ code, Code.load text = .ok code ∧ RefinesPlain code text input mode size := by
  obtain ⟨code, hload, hfolds⟩ := load_folds hbalanced
  exact ⟨code, hload, hfolds.refinesPlain input mode size⟩

/-- A text with a comment inside a run, a loop that is folded and one that is not. -/
theorem run_loaded_refines_plain_nested :
    Balanced (Command.ofText "+[>[-]+ +<-]>.") ∧
      ∃ code, Code.load "+[>[-]+ +<-]>." = .ok code ∧
        RefinesPlain code "+[>[-]+ +<-]>." [] .max 2 := by
  have hbalanced : Balanced (Command.ofText "+[>[-]+ +<-]>.") := by decide
  exact ⟨hbalanced, run_loaded_refines_plain _ hbalanced [] .max 2⟩

end Goat.Machine
