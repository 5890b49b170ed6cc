import Goat.Proofs.Operations
import Mathlib.Data.Nat.Digits.Defs

/-!
# Decimal numbers on a machine

A machine reads the decimal number that its input starts with, however long it is, modulo 256.
It writes the number in a cell in decimal, and the numbers in a list one after the other.
-/

namespace Goat

section Digits

/-- The number that a row of decimal digits stands for. -/
def decimalValue (digits : List UInt8) : Nat :=
  Nat.ofDigits 10 (digits.reverse.map fun b => b.toNat - 48)

/-- The decimal digits of a number. -/
def decimal (n : Nat) : List UInt8 := (Nat.toDigits 10 n).map fun d => UInt8.ofNat d.toNat

theorem decimalValue_cons (b : UInt8) (digits : List UInt8) :
    decimalValue (b :: digits) = (b.toNat - 48) * 10 ^ digits.length + decimalValue digits := by
  simp only [decimalValue, List.reverse_cons, List.map_append, List.map_cons, List.map_nil,
    Nat.ofDigits_append, List.length_map, List.length_reverse, Nat.ofDigits_singleton]
  rw [Nat.add_comm, Nat.mul_comm]

theorem ofNat_toNat_sub_of_isDigit {b : UInt8} (h : Text.isDigit b = true) :
    UInt8.ofNat (b.toNat - 48) = b - 48 := by
  rw [Text.isDigit, Bool.and_eq_true, decide_eq_true_iff, UInt8.le_iff_toNat_le] at h
  have hle : 48 ≤ b.toNat := h.1
  rw [UInt8.ofNat_sub hle, UInt8.ofNat_toNat]
  rfl

theorem digit_eq_digitChar {d : Nat} (h : d < 10) :
    Text.digit d = UInt8.ofNat d.digitChar.toNat := by
  rw [Nat.toNat_digitChar_of_lt_ten h, Text.digit]

/-- Numbers are written in the usual way. -/
theorem ofNat_eq_decimal (n : Nat) : Text.ofNat n = decimal n := by
  fun_induction Text.ofNat n with
  | case1 n hsmall =>
    rw [decimal, Nat.toDigits_of_lt_base hsmall, digit_eq_digitChar hsmall]
    rfl
  | case2 n hlarge ih =>
    have hlast : n % 10 < 10 := Nat.mod_lt n (by decide)
    rw [ih, decimal, decimal, Nat.toDigits_of_base_le (by decide) (Nat.le_of_not_lt hlarge),
      List.map_append, digit_eq_digitChar hlast]
    rfl

/-- The digits at the front of the input are read, and the byte after them. -/
theorem readNumber_digits {digits rest : List UInt8} (hdigits : ∀ b ∈ digits, Text.isDigit b = true)
    (hrest : ∀ b ∈ rest.head?, Text.isDigit b = false) (acc : UInt8) :
    Reference.readNumber acc (digits ++ rest) =
      (acc * UInt8.ofNat (10 ^ digits.length) + UInt8.ofNat (decimalValue digits), rest.tail) := by
  induction digits generalizing acc with
  | nil =>
    have hacc : acc * UInt8.ofNat (10 ^ 0) + UInt8.ofNat (decimalValue []) = acc := by
      show acc * 1 + 0 = acc
      rw [UInt8.mul_one, UInt8.add_zero]
    rw [List.nil_append, List.length_nil, hacc]
    cases rest with
    | nil => rfl
    | cons b rest =>
      rw [Reference.readNumber, hrest b rfl]
      rfl
  | cons b digits ih =>
    obtain ⟨hb, hdigits⟩ := List.forall_mem_cons.1 hdigits
    -- the digit is read with what stands before it, and shifted by what follows
    have hvalue (p v : UInt8) :
        (acc * 10 + (b - 48)) * p + v = acc * (p * 10) + ((b - 48) * p + v) := by
      grind
    rw [List.cons_append, Reference.readNumber, if_pos hb, ih hdigits, hvalue, decimalValue_cons,
      List.length_cons, Nat.pow_succ, UInt8.ofNat_add, UInt8.ofNat_mul, UInt8.ofNat_mul,
      ofNat_toNat_sub_of_isDigit hb]
    rfl

end Digits

section Writing

open Plain (Settings Contents)

variable {settings : Settings} {live : List Region} {s : Contents}

theorem writes_decimal (settings : Settings) :
    Writes settings Cell.printDecimal fun b => decimal b.toNat := by
  have hwrites := writes_printDecimal settings
  simp only [ofNat_eq_decimal] at hwrites
  exact hwrites

/-- What is written of the elements of a list, one by one. -/
theorem CellList.takes_writeElements {op : Cell → Emit Unit} {form : UInt8 → List UInt8}
    {l : CellList} (hop : Writes settings op form) (hs : Ready live s)
    (hl : ∀ k < l.length, Owned live (l.element k).address) :
    Takes settings live (l.elements.forM op) () live s
      (s.write ((List.range l.length).flatMap fun k => form (s.cells (l.element k).address))) := by
  refine (takes_printWith (hop live) hs hl).to ?_
  rw [values, elements, List.map_map, List.flatMap_map]
  rfl

end Writing

/-- The other machine has written a text, and is the same in all its cells and its input. -/
structure Machine.Prints (m m' : Machine) (text : List UInt8) : Prop where
  cell : ∀ x, m'.cell x = m.cell x
  input : m'.input = m.input
  output : m'.output.toList = m.output.toList ++ text

theorem Machine.Prints.of_contents {m m' : Machine} {text : List UInt8}
    (h : m'.contents = m.contents.write text) : m.Prints m' text where
  cell x := by rw [← contents_cells, h, Plain.Contents.write_cells, contents_cells]
  input := congrArg Plain.Contents.input h
  output := congrArg Plain.Contents.output h

namespace Cell

variable {e : Emitter} {m : Machine}

/-- A number is read into a cell up to the first byte that is no digit, which is read as well, or
    up to the end of the input, whatever reading there stores. -/
theorem machine_reads_decimal {c : Cell} (hm : m.Awaits e) (hc : Owned e.layout.live c.address)
    {digits rest : List UInt8} (hinput : m.input = digits ++ rest)
    (hdigits : ∀ b ∈ digits, Text.isDigit b = true)
    (hrest : ∀ b ∈ rest.head?, Text.isDigit b = false) :
    m.Performs e c.inputDecimal () e.layout.live fun m' =>
      m'.number c = decimalValue digits % 256 ∧ (∀ x, x ≠ c.address → m'.cell x = m.cell x) ∧
        m'.input = rest.tail ∧ m'.output = m.output := by
  have hnumber : Reference.readNumber 0 m.contents.input =
      (UInt8.ofNat (decimalValue digits), rest.tail) := by
    rw [show m.contents.input = digits ++ rest from hinput, readNumber_digits hdigits hrest,
      UInt8.zero_mul, UInt8.zero_add]
  refine hm.performs (takes_inputDecimal hm.ready hc) ((hm.ready.set hc _).withInput _)
    fun m' hcontents => ?_
  rw [hnumber] at hcontents
  have hcell (x : Int) : m'.cell x =
      (m.contents.set c.address (UInt8.ofNat (decimalValue digits))).cells x := by
    rw [← Machine.contents_cells, hcontents, Plain.Contents.withInput_cells]
  refine ⟨?_, fun x hx => ?_, congrArg Plain.Contents.input hcontents,
    Array.toList_inj.1 (congrArg Plain.Contents.output hcontents)⟩
  · rw [Machine.number, hcell, Plain.Contents.set_cells_self, UInt8.toNat_ofNat']
  · rw [hcell, Plain.Contents.set_cells_of_ne _ _ hx, Machine.contents_cells]

/-- The sample with the input `300`, at whose end reading stores 255. -/
def readingMachine : Machine :=
  { sampleMachine with
    config := { tapeSize := some 32, endOfInput := .max }
    input := [51, 48, 48] }

/-- The digits may go up to the end of the input, and the number past 255. -/
theorem machine_reads_decimal_ending :
    ∃ e' m', (view 5).inputDecimal.run sampleEmission = ((), e') ∧
      readingMachine.Executes sampleEmission e' m' ∧ m'.number (view 5) = 44 ∧ m'.input = [] := by
  have hm : readingMachine.Awaits sampleEmission :=
    ⟨sampleEmission_sound, ⟨rfl, by decide, by decide, rfl⟩, sampleMachine_free⟩
  have hc : Owned sampleEmission.layout.live (view 5).address :=
    owned_sampleEmission (by decide) (by decide)
  have hdigits : ∀ b ∈ readingMachine.input, Text.isDigit b = true := List.all_eq_true.1 rfl
  have hreads := machine_reads_decimal hm hc (List.append_nil _).symm hdigits (by simp)
  obtain ⟨e', m', hrun, hexecuted, hvalue, -, hinput, -⟩ :=
    hreads.exists_executes (by decide +kernel)
  exact ⟨e', m', hrun, hexecuted, hvalue.trans (by decide), hinput⟩

/-- The number in a cell is written in decimal, without leading zeros, and so are the numbers in a
    list of any length, one after the other. -/
theorem machine_prints_decimal (hm : m.Awaits e) :
    (∀ c : Cell, Owned e.layout.live c.address →
      m.Performs e c.printDecimal () e.layout.live (m.Prints · (decimal (m.number c)))) ∧
    ∀ l : CellList, (∀ k < l.length, Owned e.layout.live (l.element k).address) →
      m.Performs e l.printDecimal () e.layout.live
        (m.Prints · ((List.range l.length).flatMap fun k => decimal (m.number (l.element k)))) := by
  constructor
  · intro c hc
    exact hm.performs (writes_decimal m.settings _ c _ hm.ready hc) (hm.ready.write _)
      fun _ => .of_contents
  · intro l hl
    exact hm.performs (CellList.takes_writeElements (writes_decimal m.settings) hm.ready hl)
      (hm.ready.write _) fun _ => .of_contents

/-- The elements 10 and 20 are written without anything between them. -/
theorem machine_prints_decimal_elements :
    ∃ e' m', CellList.sampleList.printDecimal.run sampleEmission = ((), e') ∧
      sampleMachine.Executes sampleEmission e' m' ∧
      sampleMachine.Prints m' [49, 48, 50, 48] := by
  have hl : ∀ k < CellList.sampleList.length,
      Owned sampleEmission.layout.live (CellList.sampleList.element k).address := by
    intro k hk
    have hlt : (k : Int) < 2 := Int.ofNat_lt.2 hk
    exact owned_sampleEmission (by simp [CellList.sampleList]; omega)
      (by simp [CellList.sampleList]; omega)
  obtain ⟨-, hprints⟩ := machine_prints_decimal sampleMachine_awaits
  exact (hprints CellList.sampleList hl).exists_executes (by decide +kernel)

end Cell

end Goat
