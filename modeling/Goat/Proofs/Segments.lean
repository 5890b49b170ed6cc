import Goat.Proofs.Plain
import Goat.Tape.Layout

/-!
# Running a piece of code

What a piece of code does to the tape of the plain machine, whatever stands after it
and whatever loops are open around it: it takes one tape to another, or it keeps the
machine busy. Both compose along the code.
-/

namespace Goat

/-- `n` rounds of a loop, each of which starts where the loop is entered. -/
inductive Rounds {α : Type} (enters : α → Prop) (round : α → α → Prop) : Nat → α → α → Prop
  | zero (s : α) : Rounds enters round 0 s s
  | succ {n : Nat} {s s₁ s₂ : α} (hs : enters s) (h : round s s₁)
      (hrest : Rounds enters round n s₁ s₂) : Rounds enters round (n + 1) s s₂

section Rounds

variable {α : Type} {enters : α → Prop} {round : α → α → Prop} {n : Nat}

theorem Rounds.snoc {s s₁ s₂ : α} (h : Rounds enters round n s s₁) (hs : enters s₁)
    (hround : round s₁ s₂) : Rounds enters round (n + 1) s s₂ := by
  induction h with
  | zero s => exact .succ hs hround (.zero _)
  | succ hs' h' _ ih => exact .succ hs' h' (ih hs hround)

/-- Rounds that go through `g 0`, `g 1`, ... -/
theorem Rounds.of_forall (g : Nat → α) (h : ∀ k < n, enters (g k) ∧ round (g k) (g (k + 1))) :
    Rounds enters round n (g 0) (g n) := by
  induction n with
  | zero => exact .zero _
  | succ n ih =>
    have hlast := h n (Nat.lt_succ_self n)
    exact (ih fun k hk => h k (Nat.lt_succ_of_lt hk)).snoc hlast.1 hlast.2

end Rounds

theorem sub_ofNat_ne_zero {v : UInt8} {k : Nat} (h : k < v.toNat) : v - UInt8.ofNat k ≠ 0 := by
  intro hzero
  have heq : v = UInt8.ofNat k := by grind
  rw [heq, UInt8.toNat_ofNat'] at h
  omega

theorem sub_ofNat_toNat (v : UInt8) : v - UInt8.ofNat v.toNat = 0 := by
  rw [UInt8.ofNat_toNat, UInt8.sub_self]

namespace Plain

/-- The code takes the machine from one tape to another. -/
def Runs (settings : Settings) (code : List Command) (t t' : Tape) : Prop :=
  ∀ rest loops, ∃ n, Reaches settings n ⟨code.map some ++ rest, loops, t⟩ ⟨rest, loops, t'⟩

/-- The code keeps the machine busy for at least `n` steps, after which the machine has
    written `output`. -/
def Stalls (settings : Settings) (n : Nat) (code : List Command) (t : Tape)
    (output : List UInt8) : Prop :=
  ∀ rest loops, ∃ k c, n ≤ k ∧ Reaches settings k ⟨code.map some ++ rest, loops, t⟩ c ∧
    c.tape.output = output

/-- Every loop of the code is closed in it. -/
def Closed (code : List Command) : Prop := Level (code.map some)

theorem Closed.nil : Closed [] := Level.nil

theorem Closed.append {code code' : List Command} (h : Closed code) (h' : Closed code') :
    Closed (code ++ code') := by
  rw [Closed, List.map_append]
  exact Level.append h h'

theorem Closed.single {c : Command} (hs : c ≠ .loopStart) (he : c ≠ .loopEnd) : Closed [c] :=
  Level.single (by simpa using hs) (by simpa using he)

theorem Closed.replicate {c : Command} (hs : c ≠ .loopStart) (he : c ≠ .loopEnd) (n : Nat) :
    Closed (List.replicate n c) := by
  induction n with
  | zero => exact .nil
  | succ n ih => exact (Closed.single hs he).append ih

theorem Closed.loop {body : List Command} (h : Closed body) :
    Closed (.loopStart :: (body ++ [.loopEnd])) := by
  have := Level.loop h
  simpa [Closed] using this

section Composition

variable {settings : Settings} {code code' body : List Command} {t t' t'' : Tape} {n : Nat}
  {output : List UInt8}

theorem Runs.nil (t : Tape) : Runs settings [] t t := fun _ _ => ⟨0, .refl _⟩

theorem Runs.append (h : Runs settings code t t') (h' : Runs settings code' t' t'') :
    Runs settings (code ++ code') t t'' := by
  intro rest loops
  obtain ⟨m, hm⟩ := h (code'.map some ++ rest) loops
  obtain ⟨n, hn⟩ := h' rest loops
  refine ⟨m + n, ?_⟩
  rw [List.map_append, List.append_assoc]
  exact hm.trans hn

/-- A command that is no bracket. -/
theorem Runs.single {c : Command} (hs : c ≠ .loopStart) (he : c ≠ .loopEnd)
    (h : t.execute? settings c = some t') : Runs settings [c] t t' := by
  intro rest loops
  refine ⟨1, .single ?_⟩
  cases c with
  | loopStart => contradiction
  | loopEnd => contradiction
  | _ => simp only [List.map_cons, List.map_nil, List.singleton_append, step, h]

theorem Stalls.append (h : Stalls settings n code t output) (code' : List Command) :
    Stalls settings n (code ++ code') t output := by
  intro rest loops
  rw [List.map_append, List.append_assoc]
  exact h (code'.map some ++ rest) loops

theorem Stalls.after (h' : Stalls settings n code' t' output) (h : Runs settings code t t') :
    Stalls settings n (code ++ code') t output := by
  intro rest loops
  obtain ⟨m, hm⟩ := h (code'.map some ++ rest) loops
  obtain ⟨k, c, hk, hreach, hout⟩ := h' rest loops
  refine ⟨m + k, c, by omega, ?_, hout⟩
  rw [List.map_append, List.append_assoc]
  exact hm.trans hreach

/-- A loop is entered here. -/
def Tape.Enters (t : Tape) : Prop := t.current ≠ 0

/-- Some rounds of a loop lead back to its opening bracket, in at least as many steps. -/
theorem reaches_of_rounds (h : Rounds Tape.Enters (Runs settings body) n t t')
    (rest : List Character) (loops : List (List Character)) :
    ∃ k, n ≤ k ∧ Reaches settings k
      ⟨some .loopStart :: (body.map some ++ some .loopEnd :: rest), loops, t⟩
      ⟨some .loopStart :: (body.map some ++ some .loopEnd :: rest), loops, t'⟩ := by
  induction h with
  | zero t => exact ⟨0, Nat.le_refl 0, .refl _⟩
  | succ ht hbody _ ih =>
    obtain ⟨j, hj⟩ := hbody (some .loopEnd :: rest)
      ((some .loopStart :: (body.map some ++ some .loopEnd :: rest)) :: loops)
    obtain ⟨k, hk, hrest⟩ := ih
    have hagain := hj.trans (.step step_loopEnd hrest)
    exact ⟨j + (k + 1) + 1, by omega, .step (step_loopStart_of_ne ht) hagain⟩

theorem map_loop (body : List Command) (rest : List Character) :
    (.loopStart :: (body ++ [.loopEnd]) : List Command).map some ++ rest =
      some .loopStart :: (body.map some ++ some .loopEnd :: rest) := by
  simp

/-- A loop ends after some rounds on a cell that is zero. -/
theorem Runs.loop (hbody : Closed body) (h : Rounds Tape.Enters (Runs settings body) n t t')
    (hzero : t'.current = 0) : Runs settings (.loopStart :: (body ++ [.loopEnd])) t t' := by
  intro rest loops
  obtain ⟨k, -, hk⟩ := reaches_of_rounds h rest loops
  rw [map_loop]
  exact ⟨k + 1, hk.trans (.single (step_loopStart_of_zero hbody hzero))⟩

/-- Rounds of a loop keep the machine busy. -/
theorem Stalls.of_rounds (h : Rounds Tape.Enters (Runs settings body) n t t') :
    Stalls settings n (.loopStart :: (body ++ [.loopEnd])) t t'.output := by
  intro rest loops
  obtain ⟨k, hnk, hk⟩ := reaches_of_rounds h rest loops
  rw [map_loop]
  exact ⟨k, _, hnk, hk, rfl⟩

/-- So does a round that does not end. -/
theorem Stalls.of_body {m : Nat} (h : Rounds Tape.Enters (Runs settings body) m t t')
    (ht : t'.current ≠ 0) (hbody : Stalls settings n body t' output) :
    Stalls settings n (.loopStart :: (body ++ [.loopEnd])) t output := by
  intro rest loops
  obtain ⟨j, -, hj⟩ := reaches_of_rounds h rest loops
  obtain ⟨k, c, hk, hreach, hout⟩ := hbody (some .loopEnd :: rest)
    ((some .loopStart :: (body.map some ++ some .loopEnd :: rest)) :: loops)
  rw [map_loop]
  exact ⟨j + (k + 1), c, by omega, hj.trans (.step (step_loopStart_of_ne ht) hreach), hout⟩

end Composition

/-- What a tape holds, wherever its pointer stands. -/
@[ext]
structure Contents where
  cells : Int → UInt8
  input : List UInt8
  output : List UInt8

namespace Contents

/-- The tape with its pointer on a cell. -/
def tape (s : Contents) (pointer : Int) : Tape := ⟨s.cells, pointer, s.input, s.output⟩

/-- Changes a cell. -/
def set (s : Contents) (x : Int) (value : UInt8) : Contents :=
  { s with cells := Function.update s.cells x value }

/-- Writes bytes. -/
def write (s : Contents) (text : List UInt8) : Contents := { s with output := s.output ++ text }

/-- A loop on a cell is entered here. -/
def Enters (x : Int) (s : Contents) : Prop := s.cells x ≠ 0

/-- Goes on to later input. -/
def withInput (s : Contents) (input : List UInt8) : Contents := { s with input }

@[simp] theorem set_input (s : Contents) (x : Int) (v : UInt8) : (s.set x v).input = s.input := rfl

@[simp] theorem set_output (s : Contents) (x : Int) (v : UInt8) :
    (s.set x v).output = s.output := rfl

@[simp] theorem write_cells (s : Contents) (text : List UInt8) :
    (s.write text).cells = s.cells := rfl

@[simp] theorem write_input (s : Contents) (text : List UInt8) :
    (s.write text).input = s.input := rfl

@[simp] theorem write_output (s : Contents) (text : List UInt8) :
    (s.write text).output = s.output ++ text := rfl

@[simp] theorem withInput_cells (s : Contents) (input : List UInt8) :
    (s.withInput input).cells = s.cells := rfl

@[simp] theorem withInput_input (s : Contents) (input : List UInt8) :
    (s.withInput input).input = input := rfl

@[simp] theorem withInput_output (s : Contents) (input : List UInt8) :
    (s.withInput input).output = s.output := rfl

theorem set_cells (s : Contents) (x : Int) (v : UInt8) (y : Int) :
    (s.set x v).cells y = if y = x then v else s.cells y := by
  simp [set, Function.update_apply]

@[simp] theorem set_cells_self (s : Contents) (x : Int) (v : UInt8) : (s.set x v).cells x = v := by
  simp [set_cells]

theorem set_cells_of_ne (s : Contents) {x y : Int} (v : UInt8) (h : y ≠ x) :
    (s.set x v).cells y = s.cells y := by
  simp [set_cells, h]

@[simp] theorem set_set (s : Contents) (x : Int) (v w : UInt8) :
    (s.set x v).set x w = s.set x w := by
  simp [set]

theorem set_eq_self {s : Contents} {x : Int} {v : UInt8} (h : s.cells x = v) : s.set x v = s := by
  simp [set, ← h]

@[simp] theorem tape_pointer (s : Contents) (p : Int) : (s.tape p).pointer = p := rfl

@[simp] theorem tape_output (s : Contents) (p : Int) : (s.tape p).output = s.output := rfl

@[simp] theorem tape_current (s : Contents) (p : Int) : (s.tape p).current = s.cells p := rfl

theorem tape_store (s : Contents) (p : Int) (v : UInt8) : (s.tape p).store v = (s.set p v).tape p :=
  rfl

end Contents

/-- The contents reached can be written in another way. -/
theorem Runs.to {settings : Settings} {code : List Command} {t : Tape} {s s' : Contents} {p : Int}
    (h : Runs settings code t (s.tape p)) (hs : s = s') : Runs settings code t (s'.tape p) := hs ▸ h

theorem Settings.HasCell.mono {settings : Settings} {p q x : Int} (hp : settings.HasCell p)
    (hq : settings.HasCell q) (hpx : p ≤ x) (hxq : x ≤ q) : settings.HasCell x := by
  refine ⟨by have := hp.1; omega, fun size hsize => ?_⟩
  have := hq.2 size hsize
  omega

section Pieces

variable {settings : Settings} {p q : Int}

theorem runs_right (s : Contents) (n : Nat) (hp : settings.HasCell p)
    (hq : settings.HasCell (p + n)) :
    Runs settings (List.replicate n .right) (s.tape p) (s.tape (p + n)) := by
  induction n generalizing p with
  | zero =>
    rw [Int.natCast_zero, Int.add_zero]
    exact .nil _
  | succ n ih =>
    have hnext : settings.HasCell (p + 1) := hp.mono hq (by omega) (by omega)
    have hstep : (s.tape p).execute? settings .right = some (s.tape (p + 1)) :=
      if_pos hnext
    have heq : p + 1 + (n : Int) = p + (n + 1 : Nat) := by omega
    have hrest := ih hnext (by rw [heq]; exact hq)
    rw [heq] at hrest
    exact (Runs.single (by decide) (by decide) hstep).append hrest

theorem runs_left (s : Contents) (n : Nat) (hp : settings.HasCell p)
    (hq : settings.HasCell (p - n)) :
    Runs settings (List.replicate n .left) (s.tape p) (s.tape (p - n)) := by
  induction n generalizing p with
  | zero =>
    rw [Int.natCast_zero, Int.sub_zero]
    exact .nil _
  | succ n ih =>
    have hnext : settings.HasCell (p - 1) := hq.mono hp (by omega) (by omega)
    have hstep : (s.tape p).execute? settings .left = some (s.tape (p - 1)) :=
      if_pos hnext
    have heq : p - 1 - (n : Int) = p - (n + 1 : Nat) := by omega
    have hrest := ih hnext (by rw [heq]; exact hq)
    rw [heq] at hrest
    exact (Runs.single (by decide) (by decide) hstep).append hrest

/-- The commands that bring the pointer to a cell do so. -/
theorem runs_moves (s : Contents) (hp : settings.HasCell p) (hq : settings.HasCell q) :
    Runs settings (Layout.moves p q) (s.tape p) (s.tape q) := by
  unfold Layout.moves
  split
  · have heq : p + ((q - p).toNat : Int) = q := by omega
    have := runs_right s (q - p).toNat hp (by rw [heq]; exact hq)
    rwa [heq] at this
  · have heq : p - ((p - q).toNat : Int) = q := by omega
    have := runs_left s (p - q).toNat hp (by rw [heq]; exact hq)
    rwa [heq] at this

theorem closed_moves (p q : Int) : Closed (Layout.moves p q) := by
  unfold Layout.moves
  split <;> exact .replicate (by decide) (by decide) _

theorem runs_increment (s : Contents) (p : Int) (n : Nat) :
    Runs settings (List.replicate n .increment) (s.tape p)
      ((s.set p (s.cells p + UInt8.ofNat n)).tape p) := by
  induction n generalizing s with
  | zero =>
    have : s.set p (s.cells p + UInt8.ofNat 0) = s := Contents.set_eq_self (by simp)
    rw [this]
    exact .nil _
  | succ n ih =>
    have hstep : (s.tape p).execute? settings .increment =
        some ((s.set p (s.cells p + 1)).tape p) := rfl
    have hrest := ih (s.set p (s.cells p + 1))
    rw [Contents.set_set, Contents.set_cells_self, UInt8.add_assoc, UInt8.add_comm 1] at hrest
    rw [UInt8.ofNat_add]
    exact (Runs.single (by decide) (by decide) hstep).append hrest

theorem runs_decrement (s : Contents) (p : Int) (n : Nat) :
    Runs settings (List.replicate n .decrement) (s.tape p)
      ((s.set p (s.cells p - UInt8.ofNat n)).tape p) := by
  induction n generalizing s with
  | zero =>
    have : s.set p (s.cells p - UInt8.ofNat 0) = s := Contents.set_eq_self (by simp)
    rw [this]
    exact .nil _
  | succ n ih =>
    have hstep : (s.tape p).execute? settings .decrement =
        some ((s.set p (s.cells p - 1)).tape p) := rfl
    have hrest := ih (s.set p (s.cells p - 1))
    have heq : s.cells p - 1 - UInt8.ofNat n = s.cells p - UInt8.ofNat (n + 1) := by
      rw [UInt8.ofNat_add]
      grind
    rw [Contents.set_set, Contents.set_cells_self, heq] at hrest
    exact (Runs.single (by decide) (by decide) hstep).append hrest

/-- A loop that takes one from its cell each round; `g k` is what the tape holds after `k`
    rounds. -/
theorem runs_countdown {body : List Command} (hbody : Closed body) (v : UInt8) (g : Nat → Contents)
    (hcell : ∀ k, (g k).cells p = v - UInt8.ofNat k)
    (h : ∀ k < v.toNat, Runs settings body ((g k).tape p) ((g (k + 1)).tape p)) :
    Runs settings (.loopStart :: (body ++ [.loopEnd])) ((g 0).tape p) ((g v.toNat).tape p) := by
  have hrounds : Rounds Tape.Enters (Runs settings body) v.toNat ((g 0).tape p)
      ((g v.toNat).tape p) := by
    refine .of_forall (fun k => (g k).tape p) fun k hk => ⟨?_, h k hk⟩
    rw [Tape.Enters, Contents.tape_current, hcell]
    exact sub_ofNat_ne_zero hk
  refine .loop hbody hrounds ?_
  rw [Contents.tape_current, hcell]
  exact sub_ofNat_toNat v

/-- `[-]` clears the cell. -/
theorem runs_clear (s : Contents) (p : Int) :
    Runs settings [.loopStart, .decrement, .loopEnd] (s.tape p) ((s.set p 0).tape p) := by
  let g (k : Nat) : Contents := s.set p (s.cells p - UInt8.ofNat k)
  have hround (k : Nat) : Runs settings [.decrement] ((g k).tape p) ((g (k + 1)).tape p) := by
    have hnext : g (k + 1) = (g k).set p ((g k).cells p - 1) := by
      have heq : s.cells p - UInt8.ofNat (k + 1) = s.cells p - UInt8.ofNat k - 1 := by
        rw [UInt8.ofNat_add]
        grind
      simp only [g, Contents.set_set, Contents.set_cells_self, heq]
    rw [hnext]
    exact .single (by decide) (by decide) rfl
  have hloop := runs_countdown (.single (by decide) (by decide)) (s.cells p) g
    (fun k => Contents.set_cells_self _ _ _) fun k _ => hround k
  have hstart : g 0 = s := Contents.set_eq_self (UInt8.sub_zero _).symm
  have hend : g (s.cells p).toNat = s.set p 0 := by
    simp only [g, sub_ofNat_toNat]
  rwa [hstart, hend] at hloop

end Pieces

end Goat.Plain
