import Goat.Proofs.Transfer
import Mathlib.Algebra.Group.Nat.Defs

/-!
# Arithmetic on cells

The code for sums, differences, products, quotients and powers is exact modulo 256,
also when both operands are the same cell, and leaves every other cell as it was.
-/

namespace Goat.Cell

open Plain (Settings Contents)

variable {settings : Settings} {live : List Region} {s : Contents} {c y : Cell}

/-- An operation with a right operand in another cell serves for any operand: it is
    applied to a copy if need be. -/
theorem takes_withDistinct (f : UInt8 → UInt8 → UInt8) {body : Cell → Emit Unit}
    (hbody : ∀ {live' : List Region} {y' : Cell} {s' : Contents}, Ready live' s' →
      Owned live' c.address → Owned live' y'.address → c.address ≠ y'.address →
        Takes settings live' (body y') () live' s'
          (s'.set c.address (f (s'.cells c.address) (s'.cells y'.address))))
    (hs : Ready live s) (hc : Owned live c.address) (hy : Owned live y.address) :
    Takes settings live (c.withDistinct y body) () live s
      (s.set c.address (f (s.cells c.address) (s.cells y.address))) := by
  unfold withDistinct
  by_cases heq : c.address = y.address
  · obtain ⟨copy, live', hcopy, hclone⟩ := exists_taken_clone settings hs.packed hy
    have hne := hcopy.ne hc
    have hzero := hcopy.zero hs
    have hready := (hcopy.ready hs).set hcopy.self (s.cells y.address)
    rw [if_pos heq]
    refine .bind (hclone s hs) ?_
    rw [if_neg hne]
    refine .bind (hbody hready (hcopy.old hc) hcopy.self hne) ?_
    refine (hcopy.takes_destroy _).to ?_
    refine Contents.ext (funext fun z => ?_) rfl rfl
    simp only [Contents.set_cells]
    grind
  · rw [if_neg heq]
    exact hbody hs hc hy heq

theorem takes_accumulate (hs : Ready live s) (hc : Owned live c.address)
    (hy : Owned live y.address) (sign : Int) :
    Takes settings live (c.accumulate y sign) () live s
      (s.set c.address (s.cells c.address + UInt8.ofInt sign * s.cells y.address)) := by
  refine takes_withDistinct (fun v w => v + UInt8.ofInt sign * w) ?_ hs hc hy
  intro live y s hs hc hy hne
  obtain ⟨back, live', hback, hnew⟩ := exists_taken_temporary settings hs.packed
  have hyb := hback.ne hy
  have hcb := hback.ne hc
  have hzero := hback.zero hs
  refine .bind (hnew s) ?_
  refine .bind (takes_transfer (hback.old hy) (hback.old hc) hback.self hne.symm hyb hcb sign s) ?_
  refine .bind (takes_drain (hback.old hy) hback.self hyb _) ?_
  refine (hback.takes_destroy _).to ?_
  refine Contents.ext (funext fun z => ?_) rfl rfl
  simp only [Contents.set_cells]
  grind

theorem takes_plus (hs : Ready live s) (hc : Owned live c.address) (hy : Owned live y.address) :
    Takes settings live (c.plus y) () live s
      (s.set c.address (s.cells c.address + s.cells y.address)) := by
  refine (takes_accumulate hs hc hy 1).to ?_
  rw [UInt8.ofInt_one, UInt8.one_mul]

theorem takes_minus (hs : Ready live s) (hc : Owned live c.address) (hy : Owned live y.address) :
    Takes settings live (c.minus y) () live s
      (s.set c.address (s.cells c.address - s.cells y.address)) := by
  refine (takes_accumulate hs hc hy (-1)).to ?_
  rw [UInt8.ofInt_neg_one]
  congr 1
  grind

/-- Copies a cell to another one. -/
theorem takes_set (hs : Ready live s) (hc : Owned live c.address) (hy : Owned live y.address) :
    Takes settings live (c.set y) () live s (s.set c.address (s.cells y.address)) := by
  unfold set
  by_cases heq : c.address = y.address
  · rw [if_neg (not_not.2 heq)]
    refine .to (.pure _ _) (Contents.set_eq_self ?_).symm
    rw [heq]
  · rw [if_pos heq]
    refine .to (.bind (takes_reset hc s) (takes_plus (hs.set hc 0) hc hy)) ?_
    refine Contents.ext (funext fun z => ?_) rfl rfl
    simp only [Contents.set_cells]
    grind

theorem takes_times (hs : Ready live s) (hc : Owned live c.address) (hy : Owned live y.address) :
    Takes settings live (c.times y) () live s
      (s.set c.address (s.cells c.address * s.cells y.address)) := by
  refine takes_withDistinct (fun v w => v * w) ?_ hs hc hy
  intro live y s hs hc hy hne
  obtain ⟨count, live₁, hcount, hnew₁⟩ := exists_taken_temporary settings hs.packed
  obtain ⟨back, live₂, hback, hnew₂⟩ := exists_taken_temporary settings hcount.fresh.packed
  have hcc := hcount.ne hc
  have hyc := hcount.ne hy
  have hcb := hback.ne (hcount.old hc)
  have hyb := hback.ne (hcount.old hy)
  have hkb := hback.ne hcount.self
  have hc₂ := hback.old (hcount.old hc)
  have hy₂ := hback.old (hcount.old hy)
  have hk₂ := hback.old hcount.self
  have hkz := hcount.zero hs
  have hbz := hback.zero (hcount.ready hs)
  -- After `k` rounds the cell holds `k` times the right operand.
  let g (k : Nat) : Contents := s.set c.address (UInt8.ofNat k * s.cells y.address)
  have hrest (k : Nat) (v : UInt8) : Takes settings live₂ (do
      y.loop do
        y.add (-1)
        c.add 1
        back.add 1
      y.drain back) () live₂ ((g k).set count.address v) ((g (k + 1)).set count.address v) := by
    refine .bind (takes_transfer hy₂ hc₂ hback.self hne.symm hyb hcb 1 _) ?_
    refine .to (takes_drain hy₂ hback.self hyb _) ?_
    refine Contents.ext (funext fun z => ?_) rfl rfl
    simp only [g, Contents.set_cells, UInt8.ofNat_add, UInt8.ofInt_one]
    grind
  refine .bind (hnew₁ s) (.bind (hnew₂ s) (.bind (takes_drain hk₂ hc₂ hcc.symm s) ?_))
  refine .bind (takes_spend hk₂ g ?_ hrest) ?_
  · refine Contents.ext (funext fun z => ?_) rfl rfl
    simp only [g, Contents.set_cells]
    grind
  · refine .bind (hback.takes_destroy _) ?_
    refine (hcount.takes_destroy _).to ?_
    refine Contents.ext (funext fun z => ?_) rfl rfl
    simp only [g, Contents.set_cells, UInt8.ofNat_toNat]
    grind

section Division

variable {countdown t flag rest : Cell}

/-- Adds `y` to the countdown. -/
theorem takes_reload (hy : Owned live y.address) (hd : Owned live countdown.address)
    (ht : Owned live t.address) (hyd : y.address ≠ countdown.address)
    (hyt : y.address ≠ t.address) (hdt : countdown.address ≠ t.address)
    (hzero : s.cells t.address = 0) :
    Takes settings live (reload y countdown t) () live s
      (s.set countdown.address (s.cells countdown.address + s.cells y.address)) := by
  refine .to (.bind (takes_transfer hy hd ht hyd hyt hdt 1 s) (takes_drain hy ht hyt _)) ?_
  refine Contents.ext (funext fun z => ?_) rfl rfl
  simp only [Contents.set_cells, UInt8.ofInt_one]
  grind

/-- A round of the division loop, for one unit of the dividend. -/
def divisionRound (c y rest countdown t flag : Cell) : Emit Unit := do
  rest.add (-1)
  countdown.add (-1)
  flag.add 1
  t.drain countdown
  t.loop do
    t.add (-1)
    countdown.add 1
    flag.reset
  flag.loop do
    flag.add (-1)
    c.add 1
    reload y countdown t

/-- In a round the countdown goes down by one; once it is zero, the quotient goes up by one
    and the countdown starts again. -/
theorem takes_divisionRound (hc : Owned live c.address) (hy : Owned live y.address)
    (hr : Owned live rest.address) (hd : Owned live countdown.address) (ht : Owned live t.address)
    (hf : Owned live flag.address)
    (hne : [c.address, y.address, rest.address, countdown.address, t.address, flag.address].Nodup)
    (htz : s.cells t.address = 0) (hfz : s.cells flag.address = 0) :
    Takes settings live (divisionRound c y rest countdown t flag) () live s
      (if s.cells countdown.address - 1 = 0 then
        ((s.set rest.address (s.cells rest.address - 1)).set c.address
          (s.cells c.address + 1)).set countdown.address (s.cells y.address)
      else (s.set rest.address (s.cells rest.address - 1)).set countdown.address
        (s.cells countdown.address - 1)) := by
  simp only [List.nodup_cons, List.mem_cons, List.not_mem_nil, not_or, or_false,
    not_false_eq_true, List.nodup_nil, and_true] at hne
  obtain ⟨⟨hcy, hcr, hcd, hct, hcf⟩, ⟨hyr, hyd, hyt, hyf⟩, ⟨hrd, hrt, hrf⟩, ⟨hdt, hdf⟩, htf⟩ := hne
  -- Until the flag is tested, the round only counts.
  let s₁ : Contents := ((s.set rest.address (s.cells rest.address - 1)).set countdown.address
    (s.cells countdown.address - 1)).set flag.address
      (if s.cells countdown.address - 1 = 0 then 1 else 0)
  have hcarry : ∀ u : Contents, u.cells t.address = 0 → Takes settings live (do
      flag.add (-1)
      c.add 1
      reload y countdown t) () live u
        (((u.set flag.address (u.cells flag.address - 1)).set c.address
        (u.cells c.address + 1)).set countdown.address
          (u.cells countdown.address + u.cells y.address)) := by
    intro u hu
    refine .bind (takes_add hf (-1) _) (.bind (takes_add hc 1 _) ?_)
    refine .to (takes_reload hy hd ht hyd hyt hdt ?_) ?_
    · simp only [Contents.set_cells]
      grind
    · refine Contents.ext (funext fun z => ?_) rfl rfl
      simp only [Contents.set_cells, UInt8.ofInt_neg_one, UInt8.ofInt_one]
      grind
  have htz₁ : s₁.cells t.address = 0 := by
    simp only [s₁, Contents.set_cells]
    grind
  refine .bind (takes_add hr (-1) _) (.bind (takes_add hd (-1) _) (.bind (takes_add hf 1 _) ?_))
  refine .bind (takes_drain ht hd (Ne.symm hdt) _) ?_
  have hclear (u : Contents) : Takes settings live flag.reset () live u _ := takes_reset hf u
  refine .bind ((takes_mark ht hd (Ne.symm hdt) htf hdf hclear _).to (?_ : _ = s₁)) ?_
  · refine Contents.ext (funext fun z => ?_) rfl rfl
    simp only [s₁, Contents.set_cells, UInt8.ofInt_neg_one, UInt8.ofInt_one]
    grind
  refine .to (takes_once hf (hcarry s₁ htz₁).leaves (fun _ => hcarry s₁ htz₁) fun h => ?_) ?_
  · simp only [s₁, Contents.set_cells] at h ⊢
    grind
  · by_cases hzero : s.cells countdown.address - 1 = 0
    · rw [if_pos hzero, if_neg (by simp [s₁, hzero])]
      refine Contents.ext (funext fun z => ?_) rfl rfl
      simp only [s₁, Contents.set_cells]
      grind
    · rw [if_neg hzero, if_pos (by simp [s₁, hzero])]
      refine Contents.ext (funext fun z => ?_) rfl rfl
      simp only [s₁, Contents.set_cells]
      grind

theorem quotient_up {k n : Nat} (h : k % n + 1 = n) :
    (k + 1) / n = k / n + 1 ∧ (k + 1) % n = 0 := by
  have hk := Nat.div_add_mod k n
  have hsucc : k + 1 = n * (k / n + 1) + 0 := by
    rw [Nat.mul_add]
    omega
  rw [hsucc, Nat.mul_add_div (by omega), Nat.mul_add_mod]
  simp

theorem quotient_same {k n : Nat} (h : k % n + 1 ≠ n) :
    (k + 1) / n = k / n ∧ (k + 1) % n = k % n + 1 := by
  rcases Nat.eq_zero_or_pos n with rfl | hn
  · simp
  · have hk := Nat.div_add_mod k n
    have hmod := Nat.mod_lt k hn
    have hlt : k % n + 1 < n := by omega
    have hsucc : k + 1 = n * (k / n) + (k % n + 1) := by omega
    rw [hsucc, Nat.mul_add_div hn, Nat.mul_add_mod, Nat.div_eq_of_lt hlt, Nat.mod_eq_of_lt hlt,
      Nat.add_zero]
    exact ⟨rfl, rfl⟩

/-- The countdown is zero after a round exactly if a multiple of the divisor is reached. -/
theorem countdown_eq_zero_iff {w : UInt8} {k : Nat} (hk : k < 255) :
    w - UInt8.ofNat (k % w.toNat) - 1 = 0 ↔ k % w.toNat + 1 = w.toNat := by
  have hw := w.toNat_lt
  have hmod := Nat.mod_le k w.toNat
  have hsum : w - UInt8.ofNat (k % w.toNat) - 1 = 0 ↔ UInt8.ofNat (k % w.toNat + 1) = w := by
    rw [UInt8.ofNat_add]
    grind
  rw [hsum, ← UInt8.toNat_inj, UInt8.toNat_ofNat', Nat.mod_eq_of_lt (by omega)]

/-- The division loop: `k` units give a quotient of `k / n` and leave the countdown `k % n`
    below `n`. -/
theorem takes_divisionLoop (hc : Owned live c.address) (hy : Owned live y.address)
    (hr : Owned live rest.address) (hd : Owned live countdown.address) (ht : Owned live t.address)
    (hf : Owned live flag.address)
    (hne : [c.address, y.address, rest.address, countdown.address, t.address, flag.address].Nodup)
    (hcz : s.cells c.address = 0) (hds : s.cells countdown.address = s.cells y.address)
    (htz : s.cells t.address = 0) (hfz : s.cells flag.address = 0) :
    Takes settings live (rest.loop (divisionRound c y rest countdown t flag)) () live s
      (((s.set rest.address 0).set c.address (s.cells rest.address / s.cells y.address)).set
        countdown.address
          (s.cells y.address -
            UInt8.ofNat ((s.cells rest.address).toNat % (s.cells y.address).toNat))) := by
  have hdistinct := hne
  simp only [List.nodup_cons, List.mem_cons, List.not_mem_nil, not_or, or_false,
    not_false_eq_true, List.nodup_nil, and_true] at hdistinct
  let n := (s.cells y.address).toNat
  let g (k : Nat) : Contents := ((s.set rest.address (s.cells rest.address - UInt8.ofNat k)).set
    c.address (UInt8.ofNat (k / n))).set countdown.address
      (s.cells y.address - UInt8.ofNat (k % n))
  have hround (k : Nat) (hk : k < (s.cells rest.address).toNat) :
      Takes settings live (divisionRound c y rest countdown t flag) () live (g k) (g (k + 1)) := by
    have hlt := (s.cells rest.address).toNat_lt
    have hiff : s.cells y.address - UInt8.ofNat (k % n) - 1 = 0 ↔ k % n + 1 = n :=
      countdown_eq_zero_iff (by omega)
    have hcell : (g k).cells countdown.address = s.cells y.address - UInt8.ofNat (k % n) := by
      simp [g]
    refine (takes_divisionRound hc hy hr hd ht hf hne ?_ ?_).to ?_
    · simp only [g, Contents.set_cells]
      grind
    · simp only [g, Contents.set_cells]
      grind
    · rw [hcell]
      by_cases hup : k % n + 1 = n
      · obtain ⟨hdiv, hmod⟩ := quotient_up hup
        rw [if_pos (hiff.2 hup)]
        refine Contents.ext (funext fun z => ?_) rfl rfl
        simp only [g, Contents.set_cells, hdiv, hmod, UInt8.ofNat_add]
        grind
      · obtain ⟨hdiv, hmod⟩ := quotient_same hup
        rw [if_neg fun hzero => hup (hiff.1 hzero)]
        refine Contents.ext (funext fun z => ?_) rfl rfl
        simp only [g, Contents.set_cells, hdiv, hmod, UInt8.ofNat_add]
        grind
  have hcell (k : Nat) : (g k).cells rest.address = s.cells rest.address - UInt8.ofNat k := by
    simp only [g, Contents.set_cells]
    grind
  have hfirst : Takes settings live (divisionRound c y rest countdown t flag) () live s _ :=
    takes_divisionRound hc hy hr hd ht hf hne htz hfz
  refine ((takes_countdown hr _ g hcell hfirst.leaves hround).start ?_).to ?_
  · refine Contents.ext (funext fun z => ?_) rfl rfl
    simp only [g, Contents.set_cells, Nat.zero_div, Nat.zero_mod]
    grind
  · have hquotient : UInt8.ofNat ((s.cells rest.address).toNat / n) =
        s.cells rest.address / s.cells y.address := by
      rw [← UInt8.toNat_div, UInt8.ofNat_toNat]
    simp only [g, hquotient, UInt8.ofNat_toNat, UInt8.sub_self]
    rfl

theorem takes_dividedBy (hs : Ready live s) (hc : Owned live c.address)
    (hy : Owned live y.address) :
    Takes settings live (c.dividedBy y) () live s
      (s.set c.address (s.cells c.address / s.cells y.address)) := by
  refine takes_withDistinct (fun v w => v / w) ?_ hs hc hy
  intro live y s hs hc hy hne
  obtain ⟨rest, live₁, hrest, hnew₁⟩ := exists_taken_temporary settings hs.packed
  obtain ⟨countdown, live₂, hdown, hnew₂⟩ := exists_taken_temporary settings hrest.fresh.packed
  obtain ⟨t, live₃, htemp, hnew₃⟩ := exists_taken_temporary settings hdown.fresh.packed
  obtain ⟨flag, live₄, hflag, hnew₄⟩ := exists_taken_temporary settings htemp.fresh.packed
  have hready₁ := hrest.ready hs
  have hready₂ := hdown.ready hready₁
  have hrz := hrest.zero hs
  have hdz := hdown.zero hready₁
  have htz := htemp.zero hready₂
  have hfz := hflag.zero (htemp.ready hready₂)
  have hc₂ := hdown.old (hrest.old hc)
  have hy₂ := hdown.old (hrest.old hy)
  have hr₂ := hdown.old hrest.self
  have hc₄ := hflag.old (htemp.old hc₂)
  have hy₄ := hflag.old (htemp.old hy₂)
  have hr₄ := hflag.old (htemp.old hr₂)
  have hd₄ := hflag.old (htemp.old hdown.self)
  have ht₄ := hflag.old htemp.self
  have hcr := hrest.ne hc
  have hyd := hdown.ne (hrest.old hy)
  have hyt := htemp.ne hy₂
  have hdt := htemp.ne hdown.self
  have hdistinct : [c.address, y.address, rest.address, countdown.address, t.address,
      flag.address].Nodup := by
    simp only [List.nodup_cons, List.mem_cons, List.not_mem_nil, not_or, or_false,
      not_false_eq_true, List.nodup_nil, and_true]
    exact ⟨⟨hne, hcr, hdown.ne (hrest.old hc), htemp.ne hc₂, hflag.ne (htemp.old hc₂)⟩,
      ⟨hrest.ne hy, hyd, hyt, hflag.ne (htemp.old hy₂)⟩,
      ⟨hdown.ne hrest.self, htemp.ne hr₂, hflag.ne (htemp.old hr₂)⟩,
      ⟨hdt, hflag.ne (htemp.old hdown.self)⟩, hflag.ne htemp.self⟩
  have hne' := hdistinct
  simp only [List.nodup_cons, List.mem_cons, List.not_mem_nil, not_or, or_false,
    not_false_eq_true, List.nodup_nil, and_true] at hne'
  refine .bind (hnew₁ s) (.bind (hnew₂ s) (.bind (hnew₃ s) (.bind (hnew₄ s) ?_)))
  refine .bind (takes_drain hr₄ hc₄ hcr.symm s) ?_
  refine .bind (takes_reload hy₄ hd₄ ht₄ hyd hyt hdt ?_) ?_
  · simp only [Contents.set_cells]
    grind
  refine .bind (takes_divisionLoop hc₄ hy₄ hr₄ hd₄ ht₄ hflag.self hdistinct ?_ ?_ ?_ ?_) ?_
  · simp only [Contents.set_cells]
    grind
  · simp only [Contents.set_cells]
    grind
  · simp only [Contents.set_cells]
    grind
  · simp only [Contents.set_cells]
    grind
  refine .bind (hflag.takes_destroy _) ?_
  refine .bind (htemp.takes_destroy _) ?_
  refine .bind (hdown.takes_destroy _) ?_
  refine (hrest.takes_destroy _).to ?_
  refine Contents.ext (funext fun z => ?_) rfl rfl
  simp only [Contents.set_cells]
  grind

end Division

theorem takes_power (hs : Ready live s) (hc : Owned live c.address) (hy : Owned live y.address) :
    Takes settings live (c.power y) () live s
      (s.set c.address
        (UInt8.ofNat ((s.cells c.address).toNat ^ (s.cells y.address).toNat))) := by
  obtain ⟨exponent, live₁, hexponent, hclone⟩ := exists_taken_clone settings hs.packed hy
  obtain ⟨base, live₂, hbase, hnew⟩ := exists_taken_temporary settings hexponent.fresh.packed
  have hce := hexponent.ne hc
  have hcb := hbase.ne (hexponent.old hc)
  have heb := hbase.ne hexponent.self
  have hc₂ := hbase.old (hexponent.old hc)
  have he₂ := hbase.old hexponent.self
  have hready := hbase.ready (hexponent.ready hs)
  have hez := hexponent.zero hs
  have hbz := hbase.zero (hexponent.ready hs)
  -- After `k` rounds the cell holds the `k`-th power.
  let g (k : Nat) : Contents := (s.set base.address (s.cells c.address)).set c.address
    (UInt8.ofNat ((s.cells c.address).toNat ^ k))
  have hrest (k : Nat) (v : UInt8) : Takes settings live₂ (c.times base) () live₂
      ((g k).set exponent.address v) ((g (k + 1)).set exponent.address v) := by
    have hg : Ready live₂ ((g k).set exponent.address v) :=
      ((hready.set hbase.self _).set hc₂ _).set he₂ _
    have hpower : UInt8.ofNat ((s.cells c.address).toNat ^ (k + 1)) =
        UInt8.ofNat ((s.cells c.address).toNat ^ k) * s.cells c.address := by
      rw [Nat.pow_succ, UInt8.ofNat_mul, UInt8.ofNat_toNat]
    refine (takes_times hg hc₂ hbase.self).to ?_
    refine Contents.ext (funext fun z => ?_) rfl rfl
    simp only [g, Contents.set_cells, hpower]
    grind
  refine .bind (hclone s hs) (.bind (hnew _) (.bind (takes_drain hbase.self hc₂ hcb.symm _) ?_))
  refine .bind (takes_add hc₂ 1 _) (.bind (takes_spend he₂ g ?_ hrest) ?_)
  · refine Contents.ext (funext fun z => ?_) rfl rfl
    simp only [g, Contents.set_cells, UInt8.ofInt_one, Nat.pow_zero]
    grind
  · refine .bind (hbase.takes_destroy _) ?_
    refine (hexponent.takes_destroy _).to ?_
    refine Contents.ext (funext fun z => ?_) rfl rfl
    simp only [g, Contents.set_cells]
    grind

end Goat.Cell
