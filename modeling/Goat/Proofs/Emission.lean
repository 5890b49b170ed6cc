import Goat.Emitter.CellList
import Goat.Proofs.Allocation
import Goat.Proofs.Segments

/-!
# What emitted code does

An emission step is described by what the code it writes does to the contents of the
tape, starting at the tracked pointer before the step and ending at the tracked pointer
after it. The description depends on the regions in use only, so it can be used wherever
the step is taken.
-/

namespace Goat

open Plain (Settings Contents Runs Stalls Closed)

/-- The tape has every cell that was given out. -/
def Fits (settings : Settings) (e : Emitter) : Prop :=
  ∀ size ∈ settings.tapeSize, e.layout.peak ≤ size ∧ 0 < size

/-- `e'` is a sound state that is reached from `e` by writing code with closed loops. -/
structure Extends (e e' : Emitter) : Prop where
  code : ∃ piece, e'.code.toList = e.code.toList ++ piece ∧ Closed piece
  peak : e.layout.peak ≤ e'.layout.peak
  sound : e'.layout.Sound

/-- The code written between `e` and `e'` takes the tape from `s` to `s'`. -/
def Transforms (settings : Settings) (e e' : Emitter) (s s' : Contents) : Prop :=
  ∀ piece, e'.code.toList = e.code.toList ++ piece → Fits settings e' →
    Runs settings piece (s.tape e.layout.pointer) (s'.tape e'.layout.pointer)

/-- The code written between `e` and `e'` keeps the machine busy for `n` steps, after
    which the machine has written `output`. -/
def Delays (settings : Settings) (n : Nat) (e e' : Emitter) (s : Contents)
    (output : List UInt8) : Prop :=
  ∀ piece, e'.code.toList = e.code.toList ++ piece → Fits settings e' →
    Stalls settings n piece (s.tape e.layout.pointer) output

section Composition

variable {settings : Settings} {e e₁ e₂ : Emitter} {s s₁ s₂ : Contents} {n : Nat}
  {output : List UInt8}

theorem Extends.refl (h : e.layout.Sound) : Extends e e where
  code := ⟨[], by simp, .nil⟩
  peak := Int.le_refl _
  sound := h

theorem Extends.trans (h₁ : Extends e e₁) (h₂ : Extends e₁ e₂) : Extends e e₂ where
  code := by
    obtain ⟨piece₁, hcode₁, hclosed₁⟩ := h₁.code
    obtain ⟨piece₂, hcode₂, hclosed₂⟩ := h₂.code
    exact ⟨piece₁ ++ piece₂, by rw [hcode₂, hcode₁, List.append_assoc], hclosed₁.append hclosed₂⟩
  peak := Int.le_trans h₁.peak h₂.peak
  sound := h₂.sound

theorem Extends.fits (h : Extends e e₁) (hfits : Fits settings e₁) : Fits settings e := by
  intro size hsize
  have := hfits size hsize
  have := h.peak
  omega

theorem Fits.hasCell_pointer (hfits : Fits settings e) (h : e.layout.Sound) :
    settings.HasCell e.layout.pointer := by
  refine ⟨h.pointer_nonneg, fun size hsize => ?_⟩
  have := hfits size hsize
  have := h.pointer_lt_peak
  omega

theorem Fits.hasCell (hfits : Fits settings e) (h : e.layout.Sound) {x : Int}
    (hx : Owned e.layout.live x) : settings.HasCell x := by
  refine ⟨h.packed.owned_nonneg hx, fun size hsize => ?_⟩
  have := hfits size hsize
  have := h.owned_lt_peak hx
  omega

/-- What two extensions add is what the first adds and then what the second adds. -/
theorem Extends.exists_pieces (h₁ : Extends e e₁) (h₂ : Extends e₁ e₂) {piece : List Command}
    (hpiece : e₂.code.toList = e.code.toList ++ piece) :
    ∃ piece₁ piece₂, piece = piece₁ ++ piece₂ ∧ e₁.code.toList = e.code.toList ++ piece₁ ∧
      e₂.code.toList = e₁.code.toList ++ piece₂ := by
  obtain ⟨piece₁, hcode₁, -⟩ := h₁.code
  obtain ⟨piece₂, hcode₂, -⟩ := h₂.code
  refine ⟨piece₁, piece₂, ?_, hcode₁, hcode₂⟩
  rw [hcode₂, hcode₁, List.append_assoc] at hpiece
  exact (List.append_cancel_left hpiece).symm

theorem Transforms.refl (e : Emitter) (s : Contents) : Transforms settings e e s s := by
  intro piece hpiece _
  obtain rfl : piece = [] := by simpa using hpiece
  exact .nil _

theorem Transforms.trans (h₁ : Extends e e₁) (h₂ : Extends e₁ e₂)
    (ht₁ : Transforms settings e e₁ s s₁) (ht₂ : Transforms settings e₁ e₂ s₁ s₂) :
    Transforms settings e e₂ s s₂ := by
  intro piece hpiece hfits
  obtain ⟨piece₁, piece₂, rfl, hcode₁, hcode₂⟩ := h₁.exists_pieces h₂ hpiece
  exact (ht₁ piece₁ hcode₁ (h₂.fits hfits)).append (ht₂ piece₂ hcode₂ hfits)

theorem Delays.left (h₁ : Extends e e₁) (h₂ : Extends e₁ e₂)
    (hd : Delays settings n e e₁ s output) : Delays settings n e e₂ s output := by
  intro piece hpiece hfits
  obtain ⟨piece₁, piece₂, rfl, hcode₁, hcode₂⟩ := h₁.exists_pieces h₂ hpiece
  exact (hd piece₁ hcode₁ (h₂.fits hfits)).append piece₂

theorem Delays.right (h₁ : Extends e e₁) (h₂ : Extends e₁ e₂)
    (ht : Transforms settings e e₁ s s₁) (hd : Delays settings n e₁ e₂ s₁ output) :
    Delays settings n e e₂ s output := by
  intro piece hpiece hfits
  obtain ⟨piece₁, piece₂, rfl, hcode₁, hcode₂⟩ := h₁.exists_pieces h₂ hpiece
  exact (hd piece₂ hcode₂ hfits).after (ht piece₁ hcode₁ (h₂.fits hfits))

end Composition

section Loop

variable {settings : Settings} {e e₂ : Emitter} {c : Int}

/-- The state inside a loop that was just opened. -/
def Emitter.opened (e : Emitter) (c : Int) : Emitter :=
  { e with toBuilder := e.toBuilder.openLoop c }

/-- The state after a loop was closed. -/
def Emitter.closed (e : Emitter) (c : Int) : Emitter :=
  { e with toBuilder := e.toBuilder.closeLoop c }

theorem Emitter.opened_code (e : Emitter) (c : Int) :
    (e.opened c).code.toList =
      e.code.toList ++ (Layout.moves e.layout.pointer c ++ [.loopStart]) := by
  simp [opened, Builder.openLoop, Builder.append, Builder.moveTo, Layout.moveTo]

theorem Emitter.closed_code (e : Emitter) (c : Int) :
    (e.closed c).code.toList =
      e.code.toList ++ (Layout.moves e.layout.pointer c ++ [.loopEnd]) := by
  simp [closed, Builder.closeLoop, Builder.append, Builder.moveTo, Layout.moveTo]

theorem Emitter.opened_sound (h : e.layout.Sound) (hc : Owned e.layout.live c) :
    (e.opened c).layout.Sound := h.assume hc

theorem Emitter.closed_sound (h : e.layout.Sound) (hc : Owned e.layout.live c) :
    (e.closed c).layout.Sound := h.assume hc

/-- The code of a loop: the pointer is brought to its cell first and after every round. -/
theorem exists_loop_code (hbody : Extends (e.opened c) e₂) :
    ∃ body, (e₂.closed c).code.toList = e.code.toList ++
        (Layout.moves e.layout.pointer c ++ (.loopStart :: (body ++ [.loopEnd]))) ∧
      Closed body ∧ ∃ piece, e₂.code.toList = (e.opened c).code.toList ++ piece ∧
        body = piece ++ Layout.moves e₂.layout.pointer c := by
  obtain ⟨piece, hpiece, hclosed⟩ := hbody.code
  refine ⟨piece ++ Layout.moves e₂.layout.pointer c, ?_, hclosed.append (Plain.closed_moves _ _),
    piece, hpiece, rfl⟩
  rw [Emitter.closed_code, hpiece, Emitter.opened_code]
  simp

/-- What a loop appended to the code is the way to its cell and the loop around its body. -/
theorem exists_of_loop_piece (hbody : Extends (e.opened c) e₂) {piece : List Command}
    (hpiece : (e₂.closed c).code.toList = e.code.toList ++ piece) :
    ∃ inner, e₂.code.toList = (e.opened c).code.toList ++ inner ∧
      Closed (inner ++ Layout.moves e₂.layout.pointer c) ∧
      piece = Layout.moves e.layout.pointer c ++
        (.loopStart :: (inner ++ Layout.moves e₂.layout.pointer c ++ [.loopEnd])) := by
  obtain ⟨body, hcode, hclosed, inner, hinner, rfl⟩ := exists_loop_code hbody
  rw [hcode] at hpiece
  exact ⟨inner, hinner, hclosed, (List.append_cancel_left hpiece).symm⟩

/-- A loop around code with closed loops extends the state. -/
theorem Extends.loop (hbody : Extends (e.opened c) e₂) (hc₂ : Owned e₂.layout.live c) :
    Extends e (e₂.closed c) where
  code := by
    obtain ⟨body, hcode, hclosed, -⟩ := exists_loop_code hbody
    exact ⟨_, hcode, (Plain.closed_moves _ _).append hclosed.loop⟩
  peak := hbody.peak
  sound := Emitter.closed_sound hbody.sound hc₂

/-- Rounds of a loop on the tape, as the plain machine makes them. -/
theorem rounds_plain (he : e.layout.Sound) (hc : Owned e.layout.live c)
    (hbody : Extends (e.opened c) e₂) (hfits : Fits settings e₂) {piece : List Command}
    (hpiece : e₂.code.toList = (e.opened c).code.toList ++ piece) {n : Nat} {s s' : Contents}
    (h : Rounds (Contents.Enters c) (Transforms settings (e.opened c) e₂) n s s') :
    Rounds Plain.Tape.Enters (Runs settings (piece ++ Layout.moves e₂.layout.pointer c)) n
      (s.tape c) (s'.tape c) := by
  have hcell : settings.HasCell c := (hbody.fits hfits).hasCell (Emitter.opened_sound he hc) hc
  induction h with
  | zero s => exact .zero _
  | @succ n s s₁ s₂ hs hround _ ih =>
    have hback := Plain.runs_moves s₁ (hfits.hasCell_pointer hbody.sound) hcell
    exact .succ hs ((hround piece hpiece hfits).append hback) ih

section Execution

variable (he : e.layout.Sound) (hc : Owned e.layout.live c) (hbody : Extends (e.opened c) e₂)
  {n : Nat} {s s' : Contents}

include he hc hbody

/-- The way to a loop. -/
theorem runs_to_loop (hfits : Fits settings e₂) (s : Contents) :
    Runs settings (Layout.moves e.layout.pointer c) (s.tape e.layout.pointer) (s.tape c) := by
  have hopened := Emitter.opened_sound he hc
  have hfits₁ := hbody.fits hfits
  exact Plain.runs_moves s (Fits.hasCell_pointer (e := e) hfits₁ he) (hfits₁.hasCell hopened hc)

/-- A loop takes the tape where its rounds take it, if its cell is zero then. -/
theorem Transforms.loop
    (h : Rounds (Contents.Enters c) (Transforms settings (e.opened c) e₂) n s s')
    (hzero : s'.cells c = 0) : Transforms settings e (e₂.closed c) s s' := by
  intro piece hpiece hfits
  obtain ⟨inner, hinner, hclosed, rfl⟩ := exists_of_loop_piece hbody hpiece
  have hrounds := rounds_plain he hc hbody hfits hinner h
  exact (runs_to_loop he hc hbody hfits s).append (.loop hclosed hrounds hzero)

/-- A loop keeps the machine busy for its rounds. -/
theorem Delays.of_rounds
    (h : Rounds (Contents.Enters c) (Transforms settings (e.opened c) e₂) n s s') :
    Delays settings n e (e₂.closed c) s s'.output := by
  intro piece hpiece hfits
  obtain ⟨inner, hinner, hclosed, rfl⟩ := exists_of_loop_piece hbody hpiece
  have hrounds := rounds_plain he hc hbody hfits hinner h
  exact (Stalls.of_rounds hrounds).after (runs_to_loop he hc hbody hfits s)

/-- A loop keeps the machine busy if one of its rounds does. -/
theorem Delays.of_body {k : Nat} {output : List UInt8}
    (h : Rounds (Contents.Enters c) (Transforms settings (e.opened c) e₂) n s s')
    (hs : s'.cells c ≠ 0) (hround : Delays settings k (e.opened c) e₂ s' output) :
    Delays settings k e (e₂.closed c) s output := by
  intro piece hpiece hfits
  obtain ⟨inner, hinner, hclosed, rfl⟩ := exists_of_loop_piece hbody hpiece
  have hrounds := rounds_plain he hc hbody hfits hinner h
  have hlast := (hround inner hinner hfits).append (Layout.moves e₂.layout.pointer c)
  exact (Stalls.of_body hrounds hs hlast).after (runs_to_loop he hc hbody hfits s)

end Execution

end Loop

end Goat
