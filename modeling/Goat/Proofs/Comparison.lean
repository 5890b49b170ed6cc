import Goat.Proofs.Arithmetic
import Goat.Proofs.Reference

/-!
# Comparing cells

The code for comparisons yields 1 or 0 as the bytes compare, whichever of the cells
involved are the same, and leaves every other cell as it was. With that, the code for every
operator is known to compute its value.
-/

namespace Goat.Cell

open Plain (Settings Contents)

variable {settings : Settings} {live : List Region} {s : Contents} {c y : Cell}

theorem takes_difference (hs : Ready live s) (hc : Owned live c.address)
    (hy : Owned live y.address) :
    Takes settings live (c.difference y) () live s
      (s.set c.address (s.cells c.address - s.cells y.address)) := by
  obtain ⟨copy, live', hcopy, hclone⟩ := exists_taken_clone settings hs.packed hy
  have hne := hcopy.ne hc
  have hzero := hcopy.zero hs
  let g (k : Nat) : Contents := s.set c.address (s.cells c.address - UInt8.ofNat k)
  have hcell : (s.set copy.address (s.cells y.address)).cells copy.address = s.cells y.address :=
    Contents.set_cells_self _ _ _
  refine .bind (hclone s hs) (.bind (takes_spend hcopy.self g ?_ fun k v =>
    (takes_add (hcopy.old hc) (-1) _).to ?_) ((hcopy.takes_destroy _).to ?_))
  all_goals
    refine Contents.ext (funext fun z => ?_) rfl rfl
    simp only [g, hcell, Contents.set_cells, UInt8.ofNat_add, UInt8.ofNat_toNat,
      UInt8.ofInt_neg_one]
    grind

/-- Clears a cell and, unless it was zero already, changes another one. -/
theorem takes_flip {flag : Cell} (hc : Owned live c.address) (hf : Owned live flag.address)
    (hne : c.address ≠ flag.address) (n : Int) (s : Contents) :
    Takes settings live (c.loop do c.reset; flag.add n) () live s
      ((s.set c.address 0).set flag.address (s.cells flag.address +
        if s.cells c.address = 0 then 0 else UInt8.ofInt n)) := by
  have hbody : Takes settings live (do c.reset; flag.add n) () live s _ :=
    .bind (takes_reset hc s) (takes_add hf n _)
  refine (takes_once hc hbody.leaves (fun _ => hbody) fun _ => ?_).to ?_
  · simp [Contents.set_cells, hne]
  · by_cases hzero : s.cells c.address = 0
    · rw [if_pos hzero, if_pos hzero]
      refine Contents.ext (funext fun z => ?_) rfl rfl
      simp only [Contents.set_cells]
      grind
    · rw [if_neg hzero, if_neg hzero, Contents.set_cells_of_ne _ _ hne.symm]

theorem takes_equals (hs : Ready live s) (hc : Owned live c.address) (hy : Owned live y.address) :
    Takes settings live (c.equals y) () live s
      (s.set c.address (truth (s.cells c.address = s.cells y.address))) := by
  obtain ⟨flag, live', hflag, hnew⟩ := exists_taken_temporary settings hs.packed
  have hne := hflag.ne hc
  have hzero := hflag.zero hs
  refine .bind (takes_difference hs hc hy) (.bind (hnew _) (.bind (takes_add hflag.self 1 _) ?_))
  refine .bind (takes_flip (hflag.old hc) hflag.self hne (-1) _) ?_
  refine .bind (takes_take (hflag.old hc) hflag.self hne _) ?_
  refine (hflag.takes_destroy _).to ?_
  refine Contents.ext (funext fun z => ?_) rfl rfl
  simp only [Contents.set_cells, truth, UInt8.ofInt_one, UInt8.ofInt_neg_one]
  grind

theorem takes_differs (hs : Ready live s) (hc : Owned live c.address) (hy : Owned live y.address) :
    Takes settings live (c.differs y) () live s
      (s.set c.address (truth (s.cells c.address ≠ s.cells y.address))) := by
  obtain ⟨flag, live', hflag, hnew⟩ := exists_taken_temporary settings hs.packed
  have hne := hflag.ne hc
  have hzero := hflag.zero hs
  refine .bind (takes_difference hs hc hy) (.bind (hnew _) ?_)
  refine .bind (takes_flip (hflag.old hc) hflag.self hne 1 _) ?_
  refine .bind (takes_take (hflag.old hc) hflag.self hne _) ?_
  refine (hflag.takes_destroy _).to ?_
  refine Contents.ext (funext fun z => ?_) rfl rfl
  simp only [Contents.set_cells, truth, UInt8.ofInt_one]
  grind

section Less

variable {ac bc t flag : Cell}

/-- A round of the comparison loop: both copies go down by one, the second one only while
    it is not zero. -/
def lessRound (ac bc t flag : Cell) : Emit Unit := do
  ac.add (-1)
  t.drain bc
  t.loop do
    t.add (-1)
    bc.add 1
    flag.reset
    flag.add 1
  flag.loop do
    flag.add (-1)
    bc.add (-1)

theorem takes_lessRound (ha : Owned live ac.address) (hb : Owned live bc.address)
    (ht : Owned live t.address) (hf : Owned live flag.address)
    (hne : [ac.address, bc.address, t.address, flag.address].Nodup)
    (htz : s.cells t.address = 0) (hfz : s.cells flag.address = 0) :
    Takes settings live (lessRound ac bc t flag) () live s
      ((s.set ac.address (s.cells ac.address - 1)).set bc.address
        (if s.cells bc.address = 0 then 0 else s.cells bc.address - 1)) := by
  simp only [List.nodup_cons, List.mem_cons, List.not_mem_nil, not_or, or_false,
    not_false_eq_true, List.nodup_nil, and_true] at hne
  obtain ⟨⟨hab, hat, haf⟩, ⟨hbt, hbf⟩, htf⟩ := hne
  have hmark (u : Contents) : Takes settings live (do flag.reset; flag.add 1) () live u
      (u.set flag.address 1) := by
    refine .to (.bind (takes_reset hf u) (takes_add hf 1 _)) ?_
    simp
  let s₁ : Contents := (s.set ac.address (s.cells ac.address - 1)).set flag.address
    (if s.cells bc.address = 0 then 0 else 1)
  have hlower : Takes settings live (do flag.add (-1); bc.add (-1)) () live s₁ _ :=
    .bind (takes_add hf (-1) s₁) (takes_add hb (-1) _)
  refine .bind (takes_add ha (-1) _) (.bind (takes_drain ht hb (Ne.symm hbt) _) ?_)
  refine .bind ((takes_mark ht hb (Ne.symm hbt) htf hbf hmark _).to (?_ : _ = s₁)) ?_
  · refine Contents.ext (funext fun z => ?_) rfl rfl
    simp only [s₁, Contents.set_cells, UInt8.ofInt_neg_one]
    grind
  refine (takes_once hf hlower.leaves (fun _ => hlower) fun h => ?_).to ?_
  · simp only [s₁, Contents.set_cells, UInt8.ofInt_neg_one] at h ⊢
    grind
  · refine Contents.ext (funext fun z => ?_) (by split <;> rfl) (by split <;> rfl)
    by_cases hzero : s.cells bc.address = 0
    · rw [if_pos (by simp [s₁, hzero])]
      simp only [s₁, Contents.set_cells]
      grind
    · rw [if_neg (by simp [s₁, hzero])]
      simp only [s₁, Contents.set_cells, UInt8.ofInt_neg_one]
      grind

theorem lower_ofNat {n : Nat} (h : n < 256) :
    (if UInt8.ofNat n = 0 then 0 else UInt8.ofNat n - 1) = UInt8.ofNat (n - 1) := by
  cases n with
  | zero => rfl
  | succ n =>
    have hne : UInt8.ofNat (n + 1) ≠ 0 := by
      rw [ne_eq, ← UInt8.toNat_inj, UInt8.toNat_ofNat', Nat.mod_eq_of_lt h]
      exact Nat.succ_ne_zero n
    rw [if_neg hne, Nat.add_sub_cancel, UInt8.ofNat_add]
    grind

/-- The comparison loop takes the first copy from the second one, down to zero. -/
theorem takes_lessLoop (ha : Owned live ac.address) (hb : Owned live bc.address)
    (ht : Owned live t.address) (hf : Owned live flag.address)
    (hne : [ac.address, bc.address, t.address, flag.address].Nodup)
    (htz : s.cells t.address = 0) (hfz : s.cells flag.address = 0) :
    Takes settings live (ac.loop (lessRound ac bc t flag)) () live s
      ((s.set ac.address 0).set bc.address
        (UInt8.ofNat ((s.cells bc.address).toNat - (s.cells ac.address).toNat))) := by
  have hdistinct := hne
  simp only [List.nodup_cons, List.mem_cons, List.not_mem_nil, not_or, or_false,
    not_false_eq_true, List.nodup_nil, and_true] at hdistinct
  let g (k : Nat) : Contents :=
    (s.set ac.address (s.cells ac.address - UInt8.ofNat k)).set bc.address
      (UInt8.ofNat ((s.cells bc.address).toNat - k))
  have hround (k : Nat) :
      Takes settings live (lessRound ac bc t flag) () live (g k) (g (k + 1)) := by
    have hlt := (s.cells bc.address).toNat_lt
    have hlower := lower_ofNat (n := (s.cells bc.address).toNat - k) (by omega)
    have hcell : (g k).cells bc.address = UInt8.ofNat ((s.cells bc.address).toNat - k) := by
      simp [g]
    refine (takes_lessRound ha hb ht hf hne ?_ ?_).to ?_
    · simp only [g, Contents.set_cells]
      grind
    · simp only [g, Contents.set_cells]
      grind
    · rw [hcell, hlower, Nat.sub_sub]
      refine Contents.ext (funext fun z => ?_) rfl rfl
      simp only [g, Contents.set_cells, UInt8.ofNat_add]
      grind
  have hcell (k : Nat) : (g k).cells ac.address = s.cells ac.address - UInt8.ofNat k := by
    simp only [g, Contents.set_cells]
    grind
  refine ((takes_countdown ha _ g hcell (hround 0).leaves fun k _ => hround k).start ?_).to ?_
  · refine Contents.ext (funext fun z => ?_) rfl rfl
    simp only [g, Contents.set_cells, Nat.sub_zero, UInt8.ofNat_toNat]
    grind
  · simp only [g, UInt8.ofNat_toNat, UInt8.sub_self]

theorem ofNat_sub_toNat_eq_zero_iff (v w : UInt8) :
    UInt8.ofNat (w.toNat - v.toNat) = 0 ↔ ¬v < w := by
  have hlt := w.toNat_lt
  rw [← UInt8.toNat_inj, UInt8.toNat_ofNat', Nat.mod_eq_of_lt (by omega), UInt8.lt_iff_toNat_lt]
  show w.toNat - v.toNat = 0 ↔ _
  omega

/-- Any of the three cells may be the same. -/
theorem takes_lessThan {a b : Cell} (hs : Ready live s) (hc : Owned live c.address)
    (ha : Owned live a.address) (hb : Owned live b.address) :
    Takes settings live (c.lessThan a b) () live s
      (s.set c.address (truth (s.cells a.address < s.cells b.address))) := by
  obtain ⟨ac, live₁, hac, hclone₁⟩ := exists_taken_clone settings hs.packed ha
  obtain ⟨bc, live₂, hbc, hclone₂⟩ := exists_taken_clone settings hac.fresh.packed (hac.old hb)
  obtain ⟨t, live₃, htemp, hnew₃⟩ := exists_taken_temporary settings hbc.fresh.packed
  obtain ⟨flag, live₄, hflag, hnew₄⟩ := exists_taken_temporary settings htemp.fresh.packed
  have hready₁ := hac.ready hs
  have hready₂ := hbc.ready hready₁
  have haz := hac.zero hs
  have hbz := hbc.zero hready₁
  have htz := htemp.zero hready₂
  have hfz := hflag.zero (htemp.ready hready₂)
  have hc₂ := hbc.old (hac.old hc)
  have hc₄ := hflag.old (htemp.old hc₂)
  have ha₄ := hflag.old (htemp.old (hbc.old hac.self))
  have hb₄ := hflag.old (htemp.old hbc.self)
  have ht₄ := hflag.old htemp.self
  have hba := hac.ne hb
  have hca := hac.ne hc
  have hcb := hbc.ne (hac.old hc)
  have hct := htemp.ne hc₂
  have hcf := hflag.ne (htemp.old hc₂)
  have hdistinct : [ac.address, bc.address, t.address, flag.address].Nodup := by
    simp only [List.nodup_cons, List.mem_cons, List.not_mem_nil, not_or, or_false,
      not_false_eq_true, List.nodup_nil, and_true]
    exact ⟨⟨hbc.ne hac.self, htemp.ne (hbc.old hac.self), hflag.ne (htemp.old (hbc.old hac.self))⟩,
      ⟨htemp.ne hbc.self, hflag.ne (htemp.old hbc.self)⟩, hflag.ne htemp.self⟩
  have hne := hdistinct
  simp only [List.nodup_cons, List.mem_cons, List.not_mem_nil, not_or, or_false,
    not_false_eq_true, List.nodup_nil, and_true] at hne
  have hleft := ofNat_sub_toNat_eq_zero_iff (s.cells a.address) (s.cells b.address)
  refine .bind (hclone₁ s hs) (.bind (hclone₂ _ (hready₁.set hac.self _)) ?_)
  refine .bind (hnew₃ _) (.bind (hnew₄ _) ?_)
  refine .bind (takes_lessLoop ha₄ hb₄ ht₄ hflag.self hdistinct ?_ ?_) ?_
  · simp only [Contents.set_cells]
    grind
  · simp only [Contents.set_cells]
    grind
  refine .bind (takes_reset hc₄ _) (.bind (takes_flip hb₄ hc₄ (Ne.symm hcb) 1 _) ?_)
  refine .bind (hflag.takes_destroy _) ?_
  refine .bind (htemp.takes_destroy _) ?_
  refine .bind (hbc.takes_destroy _) ?_
  refine (hac.takes_destroy _).to ?_
  refine Contents.ext (funext fun z => ?_) rfl rfl
  simp only [Contents.set_cells, truth, UInt8.ofInt_one]
  grind

end Less

/-- Exchanges 0 and 1. -/
theorem takes_negate (hs : Ready live s) (hc : Owned live c.address) (p : Prop) [Decidable p]
    (hp : s.cells c.address = truth p) :
    Takes settings live c.negate () live s (s.set c.address (truth ¬p)) := by
  obtain ⟨flag, live', hflag, hnew⟩ := exists_taken_temporary settings hs.packed
  have hne := hflag.ne hc
  have hzero := hflag.zero hs
  have hbody (u : Contents) : Takes settings live' (do c.add (-1); flag.add (-1)) () live' u _ :=
    .bind (takes_add (hflag.old hc) (-1) u) (takes_add hflag.self (-1) _)
  refine .bind (hnew s) (.bind (takes_add hflag.self 1 _) ?_)
  refine .bind (takes_once (hflag.old hc) (hbody s).leaves (fun _ => hbody _) fun h => ?_) ?_
  · simp only [Contents.set_cells, truth, UInt8.ofInt_neg_one] at h hp ⊢
    grind
  refine .bind (takes_take (hflag.old hc) hflag.self hne _) ?_
  refine (hflag.takes_destroy _).to ?_
  refine Contents.ext (funext fun z => ?_) (by split <;> rfl) (by split <;> rfl)
  by_cases hcell : s.cells c.address = 0
  · rw [if_pos (by simpa [Contents.set_cells, hne] using hcell)]
    simp only [Contents.set_cells, truth, UInt8.ofInt_one] at hp ⊢
    grind
  · rw [if_neg (by simpa [Contents.set_cells, hne] using hcell)]
    simp only [Contents.set_cells, truth, UInt8.ofInt_one, UInt8.ofInt_neg_one] at hp ⊢
    grind

theorem truth_congr {p q : Prop} [Decidable p] [Decidable q] (h : p ↔ q) : truth p = truth q := by
  simp only [truth, h]

/-- The code for an operator computes its value; the operands may be the same cell. -/
theorem takes_apply (hs : Ready live s) (hc : Owned live c.address) (hy : Owned live y.address)
    (op : Operator) :
    Takes settings live (c.apply op y) () live s
      (s.set c.address (op.eval (s.cells c.address) (s.cells y.address))) := by
  cases op with
  | add => exact takes_plus hs hc hy
  | sub => exact takes_minus hs hc hy
  | mul => exact takes_times hs hc hy
  | div =>
    refine (takes_dividedBy hs hc hy).to ?_
    by_cases hzero : s.cells y.address = 0
    · simp [Operator.eval, hzero]
    · simp [Operator.eval, hzero]
  | pow => exact takes_power hs hc hy
  | eq => exact takes_equals hs hc hy
  | neq => exact takes_differs hs hc hy
  | lt => exact takes_lessThan hs hc hc hy
  | gt => exact takes_lessThan hs hc hy hc
  | lte =>
    refine .bind (takes_lessThan hs hc hy hc) ?_
    refine (takes_negate (hs.set hc _) hc _ (Contents.set_cells_self _ _ _)).to ?_
    rw [Contents.set_set, truth_congr UInt8.not_lt]
    rfl
  | gte =>
    refine .bind (takes_lessThan hs hc hc hy) ?_
    refine (takes_negate (hs.set hc _) hc _ (Contents.set_cells_self _ _ _)).to ?_
    rw [Contents.set_set, truth_congr UInt8.not_lt]
    rfl

end Goat.Cell
