import Goat.Proofs.Preservation

/-!
# Machines in step with an emission

A machine is in step with an emission if it stands on the tracked pointer. The code that an
emission step writes can be loaded on its own, and a machine that is in step before it runs the
code to its end, does to its tape what the step is said to do, and is in step after it.
-/

namespace Goat.Machine

open Plain (Settings Contents Runs Closed Tape)

/-- What a cell holds. There is nothing left of the first cell. -/
def cell (m : Machine) (x : Int) : UInt8 := if 0 ≤ x then m.tape.getD x.toNat 0 else 0

/-- What the machine has on its tape, in its input and in its output. -/
def contents (m : Machine) : Contents := ⟨m.cell, m.input, m.output.toList⟩

/-- The limit of the tape, and what reading past the input stores. -/
def settings (m : Machine) : Settings := ⟨m.config.tapeSize, m.config.endOfInput⟩

@[simp] theorem contents_cells (m : Machine) (x : Int) : m.contents.cells x = m.cell x := rfl

theorem cell_of_neg (m : Machine) {x : Int} (hx : x < 0) : m.cell x = 0 := by
  rw [cell, if_neg (by omega)]

theorem cell_natCast (m : Machine) (i : Nat) : m.cell i = m.tape.getD i 0 := by
  simp [cell]

/-- The machine stands on the tracked pointer of an emission, inside its tape, and may execute
    any number of instructions. -/
structure InStep (m : Machine) (e : Emitter) : Prop where
  pointer : (m.pointer : Int) = e.layout.pointer
  inside : m.pointer < m.tape.size
  size_le : ∀ size ∈ m.config.tapeSize, m.tape.size ≤ size
  unlimited : m.config.maxSteps = none

/-- The machine loads the code that was written between `e` and `e'`, and runs it to its end. -/
def Executes (m : Machine) (e e' : Emitter) (m' : Machine) : Prop :=
  ∃ piece code fuel, e'.code.toList = e.code.toList ++ piece ∧
    Code.load (Command.toText piece) = .ok code ∧ m.run code fuel = (.finished, m')

/-- The tape can have every cell that was given out. -/
def HasRoom (m : Machine) (e : Emitter) : Prop := ∀ size ∈ m.config.tapeSize, e.layout.peak ≤ size

instance (m : Machine) (e : Emitter) : Decidable (m.HasRoom e) :=
  inferInstanceAs (Decidable (∀ size ∈ m.config.tapeSize, e.layout.peak ≤ size))

variable {m m' : Machine} {e e' : Emitter} {s : Contents}

theorem InStep.matches (h : m.InStep e) :
    Matches m.settings m (m.contents.tape e.layout.pointer) where
  config := by
    have := h.unlimited
    cases hconfig : m.config
    simp_all [settings]
  pointer := h.pointer.symm
  inside := h.inside
  size_le := h.size_le
  cells i := m.cell_natCast i
  input := rfl
  output := rfl

theorem Matches.inStep (h : Matches m.settings m' (s.tape e'.layout.pointer)) : m'.InStep e' where
  pointer := h.pointer.symm
  inside := h.inside
  size_le size hsize := by
    rw [h.config] at hsize
    exact h.size_le size hsize
  unlimited := by rw [h.config]

/-- The machine has the contents of a tape that matches it, if nothing stands left of the first
    cell. -/
theorem Matches.contents_eq {settings : Settings} {p : Int} (h : Matches settings m' (s.tape p))
    (hleft : ∀ x < 0, s.cells x = 0) : m'.contents = s := by
  refine Contents.ext (funext fun x => ?_) h.input.symm h.output.symm
  by_cases hx : 0 ≤ x
  · obtain ⟨i, rfl⟩ := Int.eq_ofNat_of_zero_le hx
    rw [contents_cells, cell_natCast]
    exact (h.cells i).symm
  · rw [contents_cells, cell_of_neg m' (by omega), hleft x (by omega)]

theorem InStep.fits (h : m.InStep e) (hroom : m.HasRoom e') : Fits m.settings e' := by
  intro size hsize
  have hinside := h.inside
  have hle := h.size_le size hsize
  exact ⟨hroom size hsize, by omega⟩

/-- What a closed piece of code does on the plain machine, a machine does that has loaded it. -/
theorem exists_run_of_runs {settings : Settings} {piece : List Command} {t t' : Tape}
    (hclosed : Closed piece) (hruns : Runs settings piece t t') (hm : Matches settings m t) :
    ∃ code fuel m', Code.load (Command.toText piece) = .ok code ∧
      m.run code fuel = (.finished, m') ∧ Matches settings m' t' := by
  have hbalanced : Balanced (Command.ofText (Command.toText piece)) := by
    rw [Command.ofText_toText]
    exact hclosed.balanced
  obtain ⟨code, hload, hfolds⟩ := load_folds hbalanced
  obtain ⟨n, hreaches⟩ := hruns [] []
  have hsimulates := hfolds.simulates hm (n + 1)
  rw [Plain.characters_toText] at hsimulates
  rw [List.append_nil] at hreaches
  have hunlimited : m.config.maxSteps = none := by rw [hm.config]
  obtain ⟨fuel, m', hrun, hm'⟩ := hsimulates.finished hunlimited hreaches rfl (Nat.lt_succ_self n)
  exact ⟨code, fuel, m', hload, hrun, hm'⟩

/-- A machine that is in step before some code was written executes the code, with the effect that
    it is said to have, and is in step after it. -/
theorem InStep.executes_written (hm : m.InStep e) (hgrows : Extends e e')
    (htransforms : Transforms m.settings e e' m.contents s) (hleft : ∀ x < 0, s.cells x = 0)
    (hroom : m.HasRoom e') : ∃ m', m.Executes e e' m' ∧ m'.InStep e' ∧ m'.contents = s := by
  obtain ⟨piece, hpiece, hclosed⟩ := hgrows.code
  have hruns := htransforms piece hpiece (hm.fits hroom)
  obtain ⟨code, fuel, m', hload, hfinished, hm'⟩ := exists_run_of_runs hclosed hruns hm.matches
  exact ⟨m', ⟨piece, code, fuel, hpiece, hload, hfinished⟩, hm'.inStep, hm'.contents_eq hleft⟩

/-- So it executes the code of an emission step. -/
theorem InStep.executes {α : Type} {step : Emit α} {a : α} {live' : List Region}
    (he : e.layout.Sound) (hm : m.InStep e)
    (htakes : Takes m.settings e.layout.live step a live' m.contents s)
    (hleft : ∀ x < 0, s.cells x = 0) :
    ∃ e', step.run e = (a, e') ∧ Emitted e e' live' ∧
      (m.HasRoom e' → ∃ m', m.Executes e e' m' ∧ m'.InStep e' ∧ m'.contents = s) := by
  obtain ⟨e', hrun, hemitted, htransforms⟩ := htakes e he rfl
  exact ⟨e', hrun, hemitted, hm.executes_written hemitted.grows htransforms hleft⟩

/-- The other machine has another value in one cell, and has read and written nothing. -/
structure SetsCell (m m' : Machine) (x : Int) (value : UInt8) : Prop where
  cell : m'.cell x = value
  others : ∀ y, y ≠ x → m'.cell y = m.cell y
  input : m'.input = m.input
  output : m'.output = m.output

theorem SetsCell.of_contents {x : Int} {value : UInt8}
    (h : m'.contents = m.contents.set x value) : m.SetsCell m' x value where
  cell := by rw [← contents_cells, h, Contents.set_cells_self]
  others y hy := by rw [← contents_cells, h, Contents.set_cells_of_ne _ _ hy, contents_cells]
  input := congrArg Contents.input h
  output := Array.toList_inj.1 (congrArg Contents.output h)

/-- A step that is said to set one cell of the tape does so on a machine. -/
theorem InStep.executes_set {α : Type} {step : Emit α} {a : α} {live' : List Region} {x : Int}
    {value : UInt8} (he : e.layout.Sound) (hm : m.InStep e) (hx : 0 ≤ x)
    (htakes : Takes m.settings e.layout.live step a live' m.contents (m.contents.set x value)) :
    ∃ e', step.run e = (a, e') ∧ Emitted e e' live' ∧
      (m.HasRoom e' → ∃ m', m.Executes e e' m' ∧ m'.InStep e' ∧ m.SetsCell m' x value) := by
  have hleft (y : Int) (hy : y < 0) : (m.contents.set x value).cells y = 0 := by
    rw [Contents.set_cells_of_ne _ _ (by omega), contents_cells, cell_of_neg m hy]
  obtain ⟨e', hrun, hemitted, hexecutes⟩ := hm.executes he htakes hleft
  refine ⟨e', hrun, hemitted, fun hroom => ?_⟩
  obtain ⟨m', hexecuted, hinStep, hcontents⟩ := hexecutes hroom
  exact ⟨m', hexecuted, hinStep, .of_contents hcontents⟩

/-- The machine is in step with a sound emission, and every cell that is not in use is zero.
    Operations on cells are emitted and executed from here, and lead back here. -/
structure Awaits (m : Machine) (e : Emitter) : Prop where
  sound : e.layout.Sound
  inStep : m.InStep e
  free : ∀ x, ¬ Owned e.layout.live x → m.cell x = 0

/-- The step yields `a` and leaves `live'` in use. If there is room for the cells it takes, the
    machine executes its code, awaits what is emitted next and meets `post`. -/
def Performs {α : Type} (m : Machine) (e : Emitter) (step : Emit α) (a : α) (live' : List Region)
    (post : Machine → Prop) : Prop :=
  ∃ e', step.run e = (a, e') ∧ e'.layout.live = live' ∧
    (m.HasRoom e' → ∃ m', m.Executes e e' m' ∧ m'.Awaits e' ∧ post m')

/-- The number that a cell holds. -/
def number (m : Machine) (c : Cell) : Nat := (m.cell c.address).toNat

/-- The step gives back every cell it takes, and its code sets a cell to `n` modulo 256 and
    changes nothing else. -/
def Computes (m : Machine) (e : Emitter) (step : Emit Unit) (c : Cell) (n : Int) : Prop :=
  m.Performs e step () e.layout.live fun m' =>
    ∃ value, m.SetsCell m' c.address value ∧ (value.toNat : Int) = n % 256

theorem Awaits.ready (h : m.Awaits e) : Ready e.layout.live m.contents := ⟨h.sound.packed, h.free⟩

/-- What a step is said to do to the tape, a machine does that awaits its code. -/
theorem Awaits.performs {α : Type} {step : Emit α} {a : α} {live' : List Region}
    {post : Machine → Prop} (h : m.Awaits e)
    (htakes : Takes m.settings e.layout.live step a live' m.contents s) (hs : Ready live' s)
    (hpost : ∀ m', m'.contents = s → post m') : m.Performs e step a live' post := by
  obtain ⟨e', hrun, hemitted, hexecutes⟩ :=
    h.inStep.executes h.sound htakes fun x hx => hs.cells_of_neg hx
  refine ⟨e', hrun, hemitted.live, fun hroom => ?_⟩
  obtain ⟨m', hexecuted, hinStep, hcontents⟩ := hexecutes hroom
  refine ⟨m', hexecuted, ⟨hemitted.grows.sound, hinStep, fun x hx => ?_⟩, hpost m' hcontents⟩
  rw [hemitted.live] at hx
  rw [← contents_cells, hcontents, hs.clean x hx]

/-- There is only one state that a step leads to, so the room it needs can be computed. -/
theorem Performs.exists_executes {α : Type} {step : Emit α} {a : α} {live' : List Region}
    {post : Machine → Prop} (h : m.Performs e step a live' post)
    (hroom : m.HasRoom (step.run e).2) :
    ∃ e' m', step.run e = (a, e') ∧ m.Executes e e' m' ∧ post m' := by
  obtain ⟨e', hrun, -, hperforms⟩ := h
  rw [hrun] at hroom
  obtain ⟨m', hexecuted, -, hpost⟩ := hperforms hroom
  exact ⟨e', m', hrun, hexecuted, hpost⟩

theorem Computes.exists_executes {step : Emit Unit} {c : Cell} {n : Int} {value : UInt8}
    (h : m.Computes e step c n) (hroom : m.HasRoom (step.run e).2)
    (hvalue : n % 256 = value.toNat) :
    ∃ e' m', step.run e = ((), e') ∧ m.Executes e e' m' ∧ m'.cell c.address = value := by
  obtain ⟨e', m', hrun, hexecuted, stored, hsets, hstored⟩ := Performs.exists_executes h hroom
  have hequal : stored = value := UInt8.toNat_inj.1 (Int.ofNat_inj.1 (hstored.trans hvalue))
  exact ⟨e', m', hrun, hexecuted, hsets.cell.trans hequal⟩

theorem toNat_ofInt (n : Int) : ((UInt8.ofInt n).toNat : Int) = n % 256 := by
  rw [UInt8.ofInt, UInt8.toNat_ofNat']
  omega

@[simp] theorem ofInt_number (m : Machine) (c : Cell) :
    UInt8.ofInt (m.number c) = m.cell c.address := by
  rw [ofInt_natCast, number, UInt8.ofNat_toNat]

theorem Awaits.computes {step : Emit Unit} {c : Cell} {value : UInt8} {n : Int} (h : m.Awaits e)
    (hc : Owned e.layout.live c.address)
    (htakes : Takes m.settings e.layout.live step () e.layout.live m.contents
      (m.contents.set c.address value)) (hvalue : UInt8.ofInt n = value) :
    m.Computes e step c n := by
  refine h.performs htakes (h.ready.set hc value) fun _ hcontents => ?_
  exact ⟨value, .of_contents hcontents, hvalue ▸ toNat_ofInt n⟩

end Goat.Machine
