import Goat.Proofs.Comparison

/-!
# Input and output of cells

Bytes and decimal numbers are read and written as the semantics of programs asks for. The
digits of a number are counted up one by one, and leading zeros are left out.
-/

namespace Goat.Cell

open Plain (Settings Contents Runs)
open Reference (readByte)

variable {settings : Settings} {live : List Region} {s s' : Contents} {c : Cell}

section Bytes

theorem emit_write (b : Builder) : b.emit [.write] = b.append [.write] := by
  simp [Builder.emit, Builder.push, Builder.append]

theorem emit_read (b : Builder) : b.emit [.read] = b.append [.read] := by
  simp [Builder.emit, Builder.push, Builder.append]

theorem append_append (b : Builder) (code code' : List Command) :
    (b.append code).append code' = b.append (code ++ code') := by
  have hcode : b.code ++ code ++ code' = b.code ++ (code ++ code') := by
    apply Array.ext'
    simp
  simp only [Builder.append, hcode]

theorem runs_write (s : Contents) (p : Int) :
    Runs settings [.write] (s.tape p) ((s.write [s.cells p]).tape p) :=
  .single (by decide) (by decide) rfl

theorem takes_print (hc : Owned live c.address) (s : Contents) :
    Takes settings live c.print () live s (s.write [s.cells c.address]) := by
  show Takes settings live (Emit.build fun b => (b.moveTo c.address).emit [.write]) () live s _
  refine takes_build_append [.write] ?_ hc (.single (by decide) (by decide))
    (runs_write s c.address)
  intro b
  exact emit_write _

/-- What a cell and the input are after a byte was read. -/
theorem takes_input (hc : Owned live c.address) (s : Contents) :
    Takes settings live c.input () live s
      ((s.set c.address (readByte settings.endOfInput s.input).1).withInput
        (readByte settings.endOfInput s.input).2) := by
  show Takes settings live (Emit.build fun b => (b.clear c.address).emit [.read]) () live s _
  refine takes_build_append ([.loopStart, .decrement, .loopEnd] ++ [.read]) ?_ hc ?_ ?_
  · intro b
    rw [emit_read, Builder.clear, append_append]
  · have hclear : Plain.Closed [.loopStart, .decrement, .loopEnd] :=
      .loop (.single (by decide) (by decide))
    exact hclear.append (.single (by decide) (by decide))
  · refine (Plain.runs_clear s c.address).append (.single (by decide) (by decide) ?_)
    have hread : ((s.set c.address 0).tape c.address).execute? settings .read =
        some (((s.set c.address 0).tape c.address).read settings.endOfInput) := rfl
    have hzero : ((s.set c.address 0).tape c.address).current = 0 := by simp
    rw [hread, Plain.Tape.read, hzero]
    rcases hinput : s.input with _ | ⟨b, rest⟩
    · have htape : ((s.set c.address 0).tape c.address).input = [] := hinput
      rw [htape]
      simp only [Contents.tape_store, Contents.set_set, readByte]
      simp [Contents.tape, Contents.withInput, Contents.set, hinput]
    · have htape : ((s.set c.address 0).tape c.address).input = b :: rest := hinput
      rw [htape]
      simp [Contents.tape, Contents.withInput, Contents.set, Plain.Tape.store, readByte]

theorem takes_add_write (hc : Owned live c.address) {n : Nat} (hn : 0 < n) (s : Contents) :
    Takes settings live (do c.add n; Emit.commands [.write]) () live s
      ((s.set c.address (s.cells c.address + UInt8.ofNat n)).write
        [s.cells c.address + UInt8.ofNat n]) := by
  show Takes settings live (Emit.build fun b => (b.add c.address n).emit [.write]) () live s _
  refine takes_build_append (List.replicate n .increment ++ [.write]) ?_ hc ?_ ?_
  · intro b
    rw [emit_write, ← append_append, Builder.add, if_neg (by omega), if_pos (by omega),
      Int.toNat_natCast]
  · exact (Plain.Closed.replicate (by decide) (by decide) n).append
      (.single (by decide) (by decide))
  · have hwrite : Runs settings [.write] _ _ :=
      runs_write (s.set c.address (s.cells c.address + UInt8.ofNat n)) c.address
    rw [Contents.set_cells_self] at hwrite
    exact (Plain.runs_increment s c.address n).append hwrite

theorem takes_printDigit (hc : Owned live c.address) (s : Contents) :
    Takes settings live c.printDigit () live s (s.write [s.cells c.address + 48]) := by
  have hassoc : c.printDigit =
      (do c.add (48 : Nat); Emit.commands [.write]) >>= fun _ => c.add (-(48 : Nat)) := by
    rw [bind_assoc]
    rfl
  rw [hassoc]
  refine .bind (takes_add_write hc (by decide) s) ((takes_add hc _ _).to ?_)
  refine Contents.ext (funext fun z => ?_) rfl rfl
  simp only [Contents.set_cells, Contents.write_cells, UInt8.ofInt_neg, ofInt_natCast]
  grind

end Bytes

section Conditions

variable {body : Emit Unit}

/-- The code takes the tape from `s` to `s'` wherever at least the regions `live` are in use. -/
def TakesWithin (settings : Settings) (live : List Region) (m : Emit Unit) (s s' : Contents) :
    Prop :=
  ∀ live', Packed live' → (∀ x, Owned live x → Owned live' x) →
    Takes settings live' m () live' s s'

theorem takes_ifEquals (hs : Ready live s) (hs' : Ready live s') (hc : Owned live c.address)
    (k : Int) (hbody : TakesWithin settings live body s s') :
    Takes settings live (c.ifEquals k body) () live s
      (if s.cells c.address = UInt8.ofInt k then s' else s) := by
  obtain ⟨t, live₁, ht, hclone⟩ := exists_taken_clone settings hs.packed hc
  obtain ⟨flag, live₂, hflag, hnew⟩ := exists_taken_temporary settings ht.fresh.packed
  have htz := ht.zero hs
  have hfz := hflag.zero (ht.ready hs)
  have htz' := ht.zero hs'
  have hfz' := hflag.zero (ht.ready hs')
  have htf := hflag.ne ht.self
  have hbody₂ := hbody live₂ hflag.fresh.packed fun x hx => hflag.old (ht.old hx)
  let s₁ : Contents := s.set flag.address (truth (s.cells c.address = UInt8.ofInt k))
  have hround (htrue : s₁.cells flag.address ≠ 0) :
      Takes settings live₂ (do flag.add (-1); body) () live₂ s₁ s' := by
    refine .bind ((takes_add hflag.self (-1) s₁).to ?_) hbody₂
    refine Contents.ext (funext fun z => ?_) rfl rfl
    simp only [s₁, Contents.set_cells, truth, UInt8.ofInt_neg_one] at htrue ⊢
    grind
  have hdown : Takes settings live₂ (flag.add (-1)) () live₂ s _ := takes_add hflag.self (-1) s
  have hleaves : Leaves live₂ (do flag.add (-1); body) () live₂ := hdown.leaves.bind hbody₂.leaves
  refine .bind (hclone s hs) (.bind (takes_add ht.self (-k) _) (.bind (hnew _) ?_))
  refine .bind (takes_add hflag.self 1 _) ?_
  refine .bind ((takes_flip (hflag.old ht.self) hflag.self htf (-1) _).to (?_ : _ = s₁)) ?_
  · refine Contents.ext (funext fun z => ?_) rfl rfl
    simp only [s₁, Contents.set_cells, truth, UInt8.ofInt_neg, UInt8.ofInt_one]
    grind
  refine .bind (takes_once hflag.self hleaves hround fun _ => hfz') ?_
  refine .bind (hflag.takes_destroy _) ?_
  refine (ht.takes_destroy _).to ?_
  by_cases hequal : s.cells c.address = UInt8.ofInt k
  · rw [if_pos hequal, if_neg (by simp [s₁, truth, hequal]), Contents.set_eq_self hfz',
      Contents.set_eq_self htz']
  · rw [if_neg hequal, if_pos (by simp [s₁, truth, hequal])]
    refine Contents.ext (funext fun z => ?_) rfl rfl
    simp only [s₁, Contents.set_cells]
    grind

theorem takes_ifNonzero (hs : Ready live s) (hs' : Ready live s') (hc : Owned live c.address)
    (hbody : TakesWithin settings live body s s') :
    Takes settings live (c.ifNonzero body) () live s
      (if s.cells c.address = 0 then s else s') := by
  obtain ⟨t, live₁, ht, hclone⟩ := exists_taken_clone settings hs.packed hc
  have htz := ht.zero hs
  have htz' := ht.zero hs'
  have hbody₁ := hbody live₁ ht.fresh.packed fun x hx => ht.old hx
  let s₁ : Contents := s.set t.address (s.cells c.address)
  have hround : Takes settings live₁ (do t.reset; body) () live₁ s₁ s' := by
    refine .bind ((takes_reset ht.self s₁).to ?_) hbody₁
    rw [Contents.set_set, Contents.set_eq_self htz]
  refine .bind (hclone s hs) ?_
  refine .bind (takes_once ht.self hround.leaves (fun _ => hround) fun _ => htz') ?_
  refine (ht.takes_destroy _).to ?_
  rw [Contents.set_cells_self]
  split
  · rw [Contents.set_set, Contents.set_eq_self htz]
  · exact Contents.set_eq_self htz'

end Conditions

section Printing

/-- Adds one to a digit and, once it is ten, clears it and goes on with the next one. -/
def tick (digit : Cell) (next : Emit Unit) : Emit Unit := do
  digit.add 1
  digit.ifEquals 10 do
    digit.reset
    next

theorem takesWithin_tick {digit : Cell} {next : Emit Unit} (hs : Ready live s)
    (hs' : Ready live s') (hd : Owned live digit.address)
    (hnext : TakesWithin settings live next (s.set digit.address 0) s') :
    TakesWithin settings live (tick digit next) s
      (if s.cells digit.address + 1 = 10 then s'
        else s.set digit.address (s.cells digit.address + 1)) := by
  intro live₁ hpacked hsub
  have hs₁ := hs.mono hpacked hsub
  have hbody : TakesWithin settings live₁ (do digit.reset; next)
      (s.set digit.address (s.cells digit.address + 1)) s' := by
    intro live₂ hpacked₂ hsub₂
    refine .bind (takes_reset (hsub₂ _ (hsub _ hd)) _) ?_
    rw [Contents.set_set]
    exact hnext live₂ hpacked₂ fun x hx => hsub₂ x (hsub x hx)
  refine .bind (takes_add (hsub _ hd) 1 s) ?_
  have htest := takes_ifEquals (hs₁.set (hsub _ hd) _) (hs'.mono hpacked hsub) (hsub _ hd) 10 hbody
  rw [Contents.set_cells_self] at htest
  exact htest

variable {n ones tens hundreds : Cell}

/-- Three cells for the digits of a number. -/
structure DigitCells (live : List Region) (ones tens hundreds : Cell) : Prop where
  ownedOnes : Owned live ones.address
  ownedTens : Owned live tens.address
  ownedHundreds : Owned live hundreds.address
  ones_ne_tens : ones.address ≠ tens.address
  ones_ne_hundreds : ones.address ≠ hundreds.address
  tens_ne_hundreds : tens.address ≠ hundreds.address

/-- What the digit cells hold after counting to `k`. -/
def counted (s : Contents) (ones tens hundreds : Cell) (k : Nat) : Contents :=
  ((s.set ones.address (UInt8.ofNat (k % 10))).set tens.address
    (UInt8.ofNat (k / 10 % 10))).set hundreds.address (UInt8.ofNat (k / 100))

namespace DigitCells

theorem mono {live' : List Region} (h : DigitCells live ones tens hundreds)
    (hsub : ∀ {x}, Owned live x → Owned live' x) : DigitCells live' ones tens hundreds :=
  { h with
    ownedOnes := hsub h.ownedOnes
    ownedTens := hsub h.ownedTens
    ownedHundreds := hsub h.ownedHundreds }

variable (h : DigitCells live ones tens hundreds)
include h

theorem ready (hs : Ready live s) (k : Nat) : Ready live (counted s ones tens hundreds k) :=
  ((hs.set h.ownedOnes _).set h.ownedTens _).set h.ownedHundreds _

theorem counted_ones (s : Contents) (k : Nat) :
    (counted s ones tens hundreds k).cells ones.address = UInt8.ofNat (k % 10) := by
  simp [counted, Contents.set_cells, h.ones_ne_tens, h.ones_ne_hundreds]

theorem counted_tens (s : Contents) (k : Nat) :
    (counted s ones tens hundreds k).cells tens.address = UInt8.ofNat (k / 10 % 10) := by
  simp [counted, Contents.set_cells, h.tens_ne_hundreds]

omit h in
theorem counted_hundreds (s : Contents) (k : Nat) :
    (counted s ones tens hundreds k).cells hundreds.address = UInt8.ofNat (k / 100) := by
  simp [counted]

/-- One round of counting: a digit that gets to ten is cleared and the next one goes up. -/
theorem takes_count (hs : Ready live s) (k : Nat) :
    Takes settings live (tick ones (tick tens (hundreds.add 1))) () live
      (counted s ones tens hundreds k) (counted s ones tens hundreds (k + 1)) := by
  have hg := h.ready hs k
  have hclear := (hg.set h.ownedOnes 0).set h.ownedTens 0
  have hfull : ∀ m < 10, (UInt8.ofNat m + 1 = 10 ↔ m = 9) := by decide
  have hlast : TakesWithin settings live (hundreds.add 1)
      (((counted s ones tens hundreds k).set ones.address 0).set tens.address 0) _ :=
    fun live₁ _ hsub => takes_add (hsub _ h.ownedHundreds) 1 _
  have htens := takesWithin_tick (hg.set h.ownedOnes 0) (hclear.set h.ownedHundreds _) h.ownedTens
    hlast
  have hot := h.ones_ne_tens
  have hoh := h.ones_ne_hundreds
  have hth := h.tens_ne_hundreds
  refine (takesWithin_tick hg (.ite (hclear.set h.ownedHundreds _)
    ((hg.set h.ownedOnes 0).set h.ownedTens _)) h.ownedOnes htens live hs.packed
    fun _ hx => hx).to ?_
  rw [Contents.set_cells_of_ne _ _ (Ne.symm hot), h.counted_ones, h.counted_tens]
  simp only [hfull _ (Nat.mod_lt _ (by decide : 0 < 10))]
  by_cases hcarry : k % 10 = 9
  · have hzero : (k + 1) % 10 = 0 := by omega
    by_cases hcarry₂ : k / 10 % 10 = 9
    · have hzero₂ : (k + 1) / 10 % 10 = 0 := by omega
      have hup : (k + 1) / 100 = k / 100 + 1 := by omega
      rw [if_pos hcarry, if_pos hcarry₂]
      refine Contents.ext (funext fun z => ?_) rfl rfl
      simp only [counted, Contents.set_cells, hzero, hzero₂, hup, UInt8.ofNat_add, UInt8.ofInt_one]
      grind
    · have hup : (k + 1) / 10 % 10 = k / 10 % 10 + 1 := by omega
      have hsame : (k + 1) / 100 = k / 100 := by omega
      rw [if_pos hcarry, if_neg hcarry₂]
      refine Contents.ext (funext fun z => ?_) rfl rfl
      simp only [counted, Contents.set_cells, hzero, hup, hsame, UInt8.ofNat_add]
      grind
  · have hup : (k + 1) % 10 = k % 10 + 1 := by omega
    have hsame : (k + 1) / 10 % 10 = k / 10 % 10 := by omega
    have hsame₂ : (k + 1) / 100 = k / 100 := by omega
    rw [if_neg hcarry]
    refine Contents.ext (funext fun z => ?_) rfl rfl
    simp only [counted, Contents.set_cells, hup, hsame, hsame₂, UInt8.ofNat_add]
    grind

/-- Counting a cell down leaves its decimal digits in the digit cells. -/
theorem takes_countDigits (hs : Ready live s) (hn : Owned live n.address)
    (hno : n.address ≠ ones.address) (hnt : n.address ≠ tens.address)
    (hnh : n.address ≠ hundreds.address) (hones : s.cells ones.address = 0)
    (htens : s.cells tens.address = 0) (hhundreds : s.cells hundreds.address = 0) :
    Takes settings live (n.loop do n.add (-1); tick ones (tick tens (hundreds.add 1))) () live s
      (counted (s.set n.address 0) ones tens hundreds (s.cells n.address).toNat) := by
  have hswap (k : Nat) (v : UInt8) : (counted s ones tens hundreds k).set n.address v =
      counted (s.set n.address v) ones tens hundreds k := by
    refine Contents.ext (funext fun z => ?_) rfl rfl
    simp only [counted, Contents.set_cells]
    grind
  -- after `k` rounds the digit cells hold the digits of `k`
  have hrest (k : Nat) (v : UInt8) : Takes settings live (tick ones (tick tens (hundreds.add 1))) ()
      live ((counted s ones tens hundreds k).set n.address v)
      ((counted s ones tens hundreds (k + 1)).set n.address v) := by
    rw [hswap, hswap]
    exact h.takes_count (hs.set hn v) k
  refine (takes_spend hn (counted s ones tens hundreds) ?_ hrest).to (hswap _ 0)
  refine Contents.ext (funext fun z => ?_) rfl rfl
  simp only [counted, Contents.set_cells]
  grind

end DigitCells

/-- Three digits without leading zeros. -/
def digits (hundreds tens ones : UInt8) : List UInt8 :=
  (if hundreds = 0 then [] else [hundreds + 48]) ++
    ((if hundreds = 0 ∧ tens = 0 then [] else [tens + 48]) ++ [ones + 48])

theorem digits_eq_ofNat {k : Nat} (h : k < 256) :
    digits (UInt8.ofNat (k / 100)) (UInt8.ofNat (k / 10 % 10)) (UInt8.ofNat (k % 10)) =
      Text.ofNat k := by
  have hzero : ∀ m < 10, (UInt8.ofNat m = 0 ↔ m = 0) := by decide
  have hdigit : ∀ m < 10, UInt8.ofNat m + 48 = Text.digit m := by decide
  have hhundred : k / 100 < 10 := by omega
  have hten : k / 10 % 10 < 10 := Nat.mod_lt _ (by decide)
  rw [digits, hdigit _ hhundred, hdigit _ hten, hdigit _ (Nat.mod_lt k (by decide))]
  simp only [hzero _ hhundred, hzero _ hten]
  rw [Text.ofNat]
  by_cases hsmall : k < 10
  · have hmod : k % 10 = k := Nat.mod_eq_of_lt hsmall
    rw [if_pos hsmall, if_pos (by omega), if_pos (by omega), hmod]
    rfl
  · rw [if_neg hsmall, if_neg (by omega : ¬(k / 100 = 0 ∧ k / 10 % 10 = 0)), Text.ofNat]
    by_cases hmiddle : k / 10 < 10
    · have hmod : k / 10 % 10 = k / 10 := Nat.mod_eq_of_lt hmiddle
      rw [if_pos hmiddle, if_pos (by omega), hmod]
      rfl
    · have hdiv : k / 10 / 10 = k / 100 := Nat.div_div_eq_div_mul k 10 10
      rw [if_neg hmiddle, if_neg (by omega), Text.ofNat, hdiv, if_pos hhundred]
      rfl

variable {shown : Cell}

theorem takes_showHundreds (hs : Ready live s) (hh : Owned live hundreds.address)
    (hw : Owned live shown.address) :
    Takes settings live (hundreds.ifNonzero do hundreds.printDigit; shown.reset; shown.add 1) ()
      live s
      ((s.write (if s.cells hundreds.address = 0 then [] else [s.cells hundreds.address + 48])).set
        shown.address (if s.cells hundreds.address = 0 then s.cells shown.address else 1)) := by
  have hbody : TakesWithin settings live (do hundreds.printDigit; shown.reset; shown.add 1) s
      ((s.write [s.cells hundreds.address + 48]).set shown.address 1) := by
    intro live₁ _ hsub
    refine .bind (takes_printDigit (hsub _ hh) s) ?_
    refine .bind (takes_reset (hsub _ hw) _) ((takes_add (hsub _ hw) 1 _).to ?_)
    rw [Contents.set_set, Contents.set_cells_self]
    rfl
  refine (takes_ifNonzero hs ((hs.write _).set hw _) hh hbody).to ?_
  split
  · refine Contents.ext (funext fun z => ?_) rfl (by simp)
    simp only [Contents.set_cells, Contents.write_cells]
    grind
  · rfl

theorem takes_markTens (hs : Ready live s) (ht : Owned live tens.address)
    (hw : Owned live shown.address) :
    Takes settings live (tens.ifNonzero do shown.reset; shown.add 1) () live s
      (s.set shown.address (if s.cells tens.address = 0 then s.cells shown.address else 1)) := by
  have hbody : TakesWithin settings live (do shown.reset; shown.add 1) s
      (s.set shown.address 1) := by
    intro live₁ _ hsub
    refine .bind (takes_reset (hsub _ hw) s) ((takes_add (hsub _ hw) 1 _).to ?_)
    rw [Contents.set_set, Contents.set_cells_self]
    rfl
  refine (takes_ifNonzero hs (hs.set hw _) ht hbody).to ?_
  split
  · exact (Contents.set_eq_self rfl).symm
  · rfl

theorem takes_showTens (ht : Owned live tens.address) (hw : Owned live shown.address)
    (hne : tens.address ≠ shown.address) (hmark : s.cells shown.address ≠ 0 →
      s.cells shown.address = 1) :
    Takes settings live (shown.loop do shown.add (-1); tens.printDigit) () live s
      ((s.set shown.address 0).write
        (if s.cells shown.address = 0 then [] else [s.cells tens.address + 48])) := by
  have hbody : Takes settings live (do shown.add (-1); tens.printDigit) () live s _ :=
    .bind (takes_add hw (-1) s) (takes_printDigit ht _)
  refine (takes_once hw hbody.leaves (fun _ => hbody) fun h => ?_).to ?_
  · rw [Contents.write_cells, Contents.set_cells_self, hmark h]
    rfl
  · by_cases hzero : s.cells shown.address = 0
    · rw [if_pos hzero, if_pos hzero, Contents.set_eq_self hzero]
      refine Contents.ext rfl rfl (by simp)
    · rw [if_neg hzero, if_neg hzero, hmark hzero, Contents.set_cells_of_ne _ _ hne]
      rfl

/-- The digit cells are written without leading zeros; `shown` says whether a digit was. -/
theorem takes_showDigits {rest : Emit Unit} (hs : Ready live s)
    (h : DigitCells live ones tens hundreds) (hw : Owned live shown.address)
    (how : ones.address ≠ shown.address) (htw : tens.address ≠ shown.address)
    (hzero : s.cells shown.address = 0)
    (hrest : Takes settings live rest () live' (s.write (digits (s.cells hundreds.address)
      (s.cells tens.address) (s.cells ones.address))) s') :
    Takes settings live (do
      hundreds.ifNonzero do hundreds.printDigit; shown.reset; shown.add 1
      tens.ifNonzero do shown.reset; shown.add 1
      shown.loop do shown.add (-1); tens.printDigit
      ones.printDigit
      rest) () live' s s' := by
  refine .bind (takes_showHundreds hs h.ownedHundreds hw) ?_
  refine .bind (takes_markTens ((hs.write _).set hw _) h.ownedTens hw) ?_
  refine .bind (takes_showTens h.ownedTens hw htw ?_) ?_
  · simp only [Contents.set_cells, Contents.write_cells, hzero]
    grind
  refine .bind ((takes_printDigit h.ownedOnes _).to ?_) hrest
  refine Contents.ext (funext fun z => ?_) rfl ?_
  · simp only [Contents.set_cells, Contents.write_cells]
    grind
  · simp only [Contents.set_output, Contents.write_output, Contents.set_cells,
      Contents.write_cells, hzero, digits, if_neg htw, if_neg how, if_true]
    by_cases hhundred : s.cells hundreds.address = 0
    · by_cases hten : s.cells tens.address = 0
      · simp [hhundred, hten]
      · simp [hhundred, hten]
    · simp [hhundred]

theorem takes_printDecimal (hs : Ready live s) (hc : Owned live c.address) :
    Takes settings live c.printDecimal () live s
      (s.write (Text.ofNat (s.cells c.address).toNat)) := by
  obtain ⟨n, live₁, hn, hclone⟩ := exists_taken_clone settings hs.packed hc
  obtain ⟨ones, live₂, hones, hnew₂⟩ := exists_taken_temporary settings hn.fresh.packed
  obtain ⟨tens, live₃, htens, hnew₃⟩ := exists_taken_temporary settings hones.fresh.packed
  obtain ⟨hundreds, live₄, hhundreds, hnew₄⟩ := exists_taken_temporary settings htens.fresh.packed
  obtain ⟨shown, live₅, hshown, hnew₅⟩ :=
    exists_taken_temporary settings hhundreds.fresh.packed
  have hn₄ := hhundreds.old (htens.old (hones.old hn.self))
  have hdigits : DigitCells live₄ ones tens hundreds :=
    ⟨hhundreds.old (htens.old hones.self), hhundreds.old htens.self, hhundreds.self,
      htens.ne hones.self, hhundreds.ne (htens.old hones.self), hhundreds.ne htens.self⟩
  have hno := hones.ne hn.self
  have hnt := htens.ne (hones.old hn.self)
  have hnh := hhundreds.ne (htens.old (hones.old hn.self))
  have hs₁ := hn.ready hs
  have hs₂ := hones.ready hs₁
  have hs₃ := htens.ready hs₂
  have hs₄ := hhundreds.ready hs₃
  have hnz := hn.zero hs
  have hoz := hones.zero hs₁
  have htz := htens.zero hs₂
  have hhz := hhundreds.zero hs₃
  have hwz := hshown.zero hs₄
  generalize hv : s.cells c.address = v
  let r : Contents := counted s ones tens hundreds v.toNat
  have hr : Ready live₄ r := hdigits.ready hs₄ _
  have hcount : Takes settings live₄ (n.loop do n.add (-1); tick ones (tick tens (hundreds.add 1)))
      () live₄ (s.set n.address v) r := by
    refine (hdigits.takes_countDigits (hs₄.set hn₄ v) hn₄ hno hnt hnh ?_ ?_ ?_).to ?_
    · rw [Contents.set_cells_of_ne _ _ hno.symm, hoz]
    · rw [Contents.set_cells_of_ne _ _ hnt.symm, htz]
    · rw [Contents.set_cells_of_ne _ _ hnh.symm, hhz]
    · rw [Contents.set_set, Contents.set_cells_self, Contents.set_eq_self hnz]
  refine .bind (hclone s hs) (.bind (hnew₂ _) (.bind (hnew₃ _) (.bind (hnew₄ _) ?_)))
  rw [hv]
  refine .bind hcount (.bind (hnew₅ r) ?_)
  refine takes_showDigits (hshown.ready hr) (hdigits.mono hshown.old) hshown.self
    (hshown.ne hdigits.ownedOnes) (hshown.ne hdigits.ownedTens) (hshown.zero hr) ?_
  rw [DigitCells.counted_hundreds, hdigits.counted_tens, hdigits.counted_ones,
    digits_eq_ofNat v.toNat_lt]
  refine .bind (hshown.takes_destroy _) (.bind (hhundreds.takes_destroy _) ?_)
  refine .bind (htens.takes_destroy _) (.bind (hones.takes_destroy _) ?_)
  refine (hn.takes_destroy _).to ?_
  refine Contents.ext (funext fun z => ?_) rfl rfl
  simp only [r, counted, Contents.set_cells, Contents.write_cells]
  grind

end Printing

section Reading

variable {digit ten more : Cell}

theorem isDigit_iff (b : UInt8) : Text.isDigit b = true ↔ b - 48 < 10 := by
  have hlt := b.toNat_lt
  have hsub : (b - 48).toNat = (256 - 48 + b.toNat) % 256 := UInt8.toNat_sub b 48
  have hlow : (48 : UInt8).toNat = 48 := rfl
  have hhigh : (57 : UInt8).toNat = 57 := rfl
  have hten : (10 : UInt8).toNat = 10 := rfl
  rw [Text.isDigit, Bool.and_eq_true, decide_eq_true_iff, decide_eq_true_iff,
    UInt8.le_iff_toNat_le, UInt8.le_iff_toNat_le, UInt8.lt_iff_toNat_lt, hsub, hlow, hhigh, hten]
  omega

theorem not_digit_endOfInput (mode : Machine.EndOfInput) : ¬mode.store 0 - 48 < 10 := by
  cases mode <;> decide

/-- Reading past the end of the input yields no digit. -/
theorem readNumber_of_readByte {mode : Machine.EndOfInput} {input rest : List UInt8} {b : UInt8}
    (acc : UInt8) (hread : readByte mode input = (b, rest)) :
    Reference.readNumber acc (b :: rest) = Reference.readNumber acc input := by
  cases input with
  | nil =>
    cases hread
    exact if_neg (mt (isDigit_iff _).1 (not_digit_endOfInput mode))
  | cons b' rest' =>
    cases hread
    rfl

theorem takes_readDigit (hs : Ready live s) (hd : Owned live digit.address)
    (ht : Owned live ten.address) (hm : Owned live more.address)
    (hdt : digit.address ≠ ten.address) (hten : s.cells ten.address = 10) {b : UInt8}
    {rest : List UInt8} (hread : readByte settings.endOfInput s.input = (b, rest)) :
    Takes settings live (readDigit digit ten more) () live s
      (((s.set digit.address (b - 48)).set more.address (truth (b - 48 < 10))).withInput rest) := by
  refine .bind (takes_input hd s) (.bind (takes_add hd (-zeroDigit) _) ?_)
  refine (takes_lessThan (((hs.set hd _).withInput _).set hd _) hm hd ht).to ?_
  have hback : UInt8.ofInt (-zeroDigit) = -48 := rfl
  have hvalue : b + -48 = b - 48 := (UInt8.sub_eq_add_neg b 48).symm
  simp only [hread, hback]
  refine Contents.ext (funext fun z => ?_) rfl rfl
  simp only [Contents.set_cells, Contents.withInput_cells, if_neg (Ne.symm hdt), hten, if_true,
    hvalue]
  grind

/-- What the cells of a number that is being read hold. -/
def reading (s : Contents) (c digit more : Cell) (acc d m : UInt8) (input : List UInt8) :
    Contents :=
  (((s.set c.address acc).set digit.address d).set more.address m).withInput input

variable (hs : Ready live s) (hc : Owned live c.address) (hd : Owned live digit.address)
  (ht : Owned live ten.address) (hm : Owned live more.address)
  (hne : [c.address, digit.address, ten.address, more.address].Nodup)
  (hten : s.cells ten.address = 10)

include hs hc hd ht hm hne hten

theorem takes_digitRound (acc d m : UInt8) {input rest : List UInt8} {b : UInt8}
    (hread : readByte settings.endOfInput input = (b, rest)) :
    Takes settings live (do c.times ten; c.plus digit; readDigit digit ten more) () live
      (reading s c digit more acc d m input)
      (reading s c digit more (acc * 10 + d) (b - 48) (truth (b - 48 < 10)) rest) := by
  simp only [List.nodup_cons, List.mem_cons, List.not_mem_nil, not_or, or_false,
    not_false_eq_true, List.nodup_nil, and_true] at hne
  have hready : Ready live (reading s c digit more acc d m input) :=
    (((hs.set hc _).set hd _).set hm _).withInput _
  refine .bind (takes_times hready hc ht) (.bind (takes_plus (hready.set hc _) hc hd) ?_)
  refine (takes_readDigit ((hready.set hc _).set hc _) hd ht hm hne.2.1.1 ?_ hread).to ?_
  · simp only [reading, Contents.set_cells, Contents.withInput_cells]
    grind
  · refine Contents.ext (funext fun z => ?_) rfl rfl
    simp only [reading, Contents.set_cells, Contents.withInput_cells]
    grind

/-- The loop goes on up to the first byte that is no digit, or the end of the input. -/
theorem exists_rounds_reading (settings : Settings) (input : List UInt8) (acc b : UInt8) : ∃ n d,
    Rounds (Contents.Enters more.address)
      (Takes settings live (do c.times ten; c.plus digit; readDigit digit ten more) () live) n
      (reading s c digit more acc (b - 48) (truth (b - 48 < 10)) input)
      (reading s c digit more (Reference.readNumber acc (b :: input)).1 d 0
        (Reference.readNumber acc (b :: input)).2) := by
  induction input generalizing acc b with
  | nil =>
    by_cases hdigit : b - 48 < 10
    · have hread : readByte settings.endOfInput [] = (settings.endOfInput.store 0, []) := rfl
      have hround :=
        takes_digitRound hs hc hd ht hm hne hten acc (b - 48) (truth (b - 48 < 10)) hread
      have hend : truth (settings.endOfInput.store 0 - 48 < 10) = 0 :=
        if_neg (not_digit_endOfInput settings.endOfInput)
      rw [hend] at hround
      rw [Reference.readNumber, if_pos ((isDigit_iff b).2 hdigit), Reference.readNumber]
      refine ⟨1, _, .succ ?_ hround (.zero _)⟩
      simp [Contents.Enters, reading, truth, hdigit]
    · rw [Reference.readNumber, if_neg (mt (isDigit_iff b).1 hdigit), truth, if_neg hdigit]
      exact ⟨0, _, .zero _⟩
  | cons b' rest ih =>
    by_cases hdigit : b - 48 < 10
    · have hread : readByte settings.endOfInput (b' :: rest) = (b', rest) := rfl
      have hround :=
        takes_digitRound hs hc hd ht hm hne hten acc (b - 48) (truth (b - 48 < 10)) hread
      obtain ⟨n, d, hrest⟩ := ih (acc * 10 + (b - 48)) b'
      rw [Reference.readNumber, if_pos ((isDigit_iff b).2 hdigit)]
      refine ⟨n + 1, d, .succ ?_ hround hrest⟩
      simp [Contents.Enters, reading, truth, hdigit]
    · rw [Reference.readNumber, if_neg (mt (isDigit_iff b).1 hdigit), truth, if_neg hdigit]
      exact ⟨0, _, .zero _⟩

omit hs hc hd ht hm hne hten

theorem takes_inputDecimal (hs : Ready live s) (hc : Owned live c.address) :
    Takes settings live c.inputDecimal () live s
      ((s.set c.address (Reference.readNumber 0 s.input).1).withInput
        (Reference.readNumber 0 s.input).2) := by
  obtain ⟨digit, live₁, hdigit, hnew₁⟩ := exists_taken_temporary settings hs.packed
  obtain ⟨ten, live₂, hten, hnew₂⟩ := exists_taken_temporary settings hdigit.fresh.packed
  obtain ⟨more, live₃, hmore, hnew₃⟩ := exists_taken_temporary settings hten.fresh.packed
  have hc₁ := hdigit.old hc
  have hc₃ := hmore.old (hten.old hc₁)
  have hd₃ := hmore.old (hten.old hdigit.self)
  have ht₃ := hmore.old hten.self
  have hdz := hdigit.zero hs
  have htz := hten.zero (hdigit.ready hs)
  have hmz := hmore.zero (hten.ready (hdigit.ready hs))
  have hne : [c.address, digit.address, ten.address, more.address].Nodup := by
    simp only [List.nodup_cons, List.mem_cons, List.not_mem_nil, not_or, or_false,
      not_false_eq_true, List.nodup_nil, and_true]
    exact ⟨⟨hdigit.ne hc, hten.ne hc₁, hmore.ne (hten.old hc₁)⟩,
      ⟨hten.ne hdigit.self, hmore.ne (hten.old hdigit.self)⟩, hmore.ne hten.self⟩
  have hne' := hne
  simp only [List.nodup_cons, List.mem_cons, List.not_mem_nil, not_or, or_false,
    not_false_eq_true, List.nodup_nil, and_true] at hne'
  let s₁ : Contents := s.set ten.address 10
  have hready : Ready live₃ s₁ := (hmore.ready (hten.ready (hdigit.ready hs))).set ht₃ 10
  have hs₁ : s₁.cells ten.address = 10 := Contents.set_cells_self _ _ _
  obtain ⟨b, rest, hread⟩ : ∃ b rest, readByte settings.endOfInput s.input = (b, rest) :=
    ⟨_, _, rfl⟩
  -- what is read first decides on the rounds, also if there is no input at all
  have hnumber := readNumber_of_readByte 0 hread
  obtain ⟨n, d, hrounds⟩ :=
    exists_rounds_reading hready hc₃ hd₃ ht₃ hmore.self hne hs₁ settings rest 0 b
  have hleaves : Leaves live₃ (do c.times ten; c.plus digit; readDigit digit ten more) () live₃ :=
    (takes_digitRound hready hc₃ hd₃ ht₃ hmore.self hne hs₁ 0 0 0 hread).leaves
  rw [hnumber] at hrounds
  refine .bind (hnew₁ s) (.bind (hnew₂ _) (.bind (hnew₃ _) ?_))
  refine .bind ((takes_add ht₃ 10 s).to (?_ : _ = s₁)) (.bind (takes_reset hc₃ _) ?_)
  · rw [htz]
    rfl
  refine .bind ((takes_readDigit (hready.set hc₃ 0) hd₃ ht₃ hmore.self hne'.2.1.1 ?_ hread).to
    (?_ : _ = reading s₁ c digit more 0 (b - 48) (truth (b - 48 < 10)) rest)) ?_
  · simp only [s₁, Contents.set_cells]
    grind
  · rfl
  refine .bind (takes_loop hmore.self hleaves hrounds (by simp [reading])) ?_
  refine .bind (hmore.takes_destroy _) ?_
  refine .bind (hten.takes_destroy _) ?_
  refine (hdigit.takes_destroy _).to ?_
  refine Contents.ext (funext fun z => ?_) rfl rfl
  simp only [reading, s₁, Contents.set_cells, Contents.withInput_cells]
  grind

end Reading

end Goat.Cell
