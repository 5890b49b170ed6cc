import Goat.Proofs.Steps

/-!
# Moving and copying cells

The loops that carry the value of a cell over to others: every round takes one from the
cell and changes the others by fixed amounts. Copies, sums and products are built from
them.
-/

namespace Goat

open Plain (Settings Contents)

namespace Cell

variable {settings : Settings} {live live' : List Region} {s s' : Contents} {c y a b : Cell}

/-- A loop that takes one from its cell each round goes through as many rounds as the cell
    says; `g k` is what the tape holds after `k` of them. -/
theorem takes_countdown (hc : Owned live c.address) {body : Emit Unit} (v : UInt8)
    (g : Nat → Contents) (hcell : ∀ k, (g k).cells c.address = v - UInt8.ofNat k)
    (hleaves : Leaves live body () live)
    (hbody : ∀ k < v.toNat, Takes settings live body () live (g k) (g (k + 1))) :
    Takes settings live (c.loop body) () live (g 0) (g v.toNat) := by
  have hrounds : Rounds (Contents.Enters c.address) (Takes settings live body () live) v.toNat (g 0)
      (g v.toNat) := by
    refine .of_forall g fun k hk => ⟨?_, hbody k hk⟩
    rw [Contents.Enters, hcell]
    exact sub_ofNat_ne_zero hk
  refine takes_loop hc hleaves hrounds ?_
  rw [hcell]
  exact sub_ofNat_toNat v

/-- A loop that takes one from its cell and then does the rest of its round, for as many rounds
    as the cell says; `g k` is what the other cells hold after `k` of them. -/
theorem takes_spend (hy : Owned live y.address) {rest : Emit Unit} (g : Nat → Contents)
    (hstart : s = (g 0).set y.address (s.cells y.address))
    (hrest : ∀ k v, Takes settings live rest () live
      ((g k).set y.address v) ((g (k + 1)).set y.address v)) :
    Takes settings live (y.loop do y.add (-1); rest) () live s
      ((g (s.cells y.address).toNat).set y.address 0) := by
  let left (k : Nat) : UInt8 := s.cells y.address - UInt8.ofNat k
  have hround (k : Nat) : Takes settings live (do y.add (-1); rest) () live
      ((g k).set y.address (left k)) ((g (k + 1)).set y.address (left (k + 1))) := by
    refine .bind ((takes_add hy (-1) _).to ?_) (hrest k (left (k + 1)))
    have hleft : left k + UInt8.ofInt (-1) = left (k + 1) := by
      simp only [left, UInt8.ofNat_add, UInt8.ofInt_neg_one]
      grind
    rw [Contents.set_cells_self, Contents.set_set, hleft]
  have hcell (k : Nat) : ((g k).set y.address (left k)).cells y.address = left k :=
    Contents.set_cells_self _ _ _
  refine ((takes_countdown hy _ _ hcell (hround 0).leaves fun k _ => hround k).start ?_).to ?_
  · simpa [left] using hstart
  · simp only [left, UInt8.ofNat_toNat, UInt8.sub_self]

/-- A loop whose body clears its cell runs the body at most once. -/
theorem takes_once (hc : Owned live c.address) {body : Emit Unit}
    (hleaves : Leaves live body () live)
    (hbody : s.cells c.address ≠ 0 → Takes settings live body () live s s')
    (hzero : s.cells c.address ≠ 0 → s'.cells c.address = 0) :
    Takes settings live (c.loop body) () live s (if s.cells c.address = 0 then s else s') := by
  split
  · rename_i h
    exact takes_loop hc hleaves (.zero s) h
  · rename_i h
    exact takes_loop hc hleaves (.succ h (hbody h) (.zero s')) (hzero h)

/-- Adds a cell to another one and clears it. -/
theorem takes_drain (hc : Owned live c.address) (hy : Owned live y.address)
    (hne : c.address ≠ y.address) (s : Contents) :
    Takes settings live (c.drain y) () live s
      ((s.set y.address 0).set c.address (s.cells c.address + s.cells y.address)) := by
  let g (k : Nat) : Contents := s.set c.address (s.cells c.address + UInt8.ofNat k)
  refine (takes_spend hy g ?_ fun k v => (takes_add hc 1 _).to ?_).to ?_
  all_goals
    refine Contents.ext (funext fun z => ?_) rfl rfl
    simp only [g, Contents.set_cells, UInt8.ofNat_add, UInt8.ofNat_toNat, UInt8.ofInt_one]
    grind

/-- A loop that adds a cell to `b`, and `n` times the cell to `a`, and clears it. -/
theorem takes_transfer (hy : Owned live y.address) (ha : Owned live a.address)
    (hb : Owned live b.address) (hya : y.address ≠ a.address) (hyb : y.address ≠ b.address)
    (hab : a.address ≠ b.address) (n : Int) (s : Contents) :
    Takes settings live (y.loop do y.add (-1); a.add n; b.add 1) () live s
      (((s.set y.address 0).set a.address
        (s.cells a.address + UInt8.ofInt n * s.cells y.address)).set b.address
          (s.cells b.address + s.cells y.address)) := by
  let g (k : Nat) : Contents :=
    (s.set a.address (s.cells a.address + UInt8.ofInt n * UInt8.ofNat k)).set b.address
      (s.cells b.address + UInt8.ofNat k)
  have hrest (k : Nat) (v : UInt8) : Takes settings live (do a.add n; b.add 1) () live
      ((g k).set y.address v) _ := .bind (takes_add ha n _) (takes_add hb 1 _)
  refine (takes_spend hy g ?_ fun k v => (hrest k v).to ?_).to ?_
  all_goals
    refine Contents.ext (funext fun z => ?_) rfl rfl
    simp only [g, Contents.set_cells, UInt8.ofNat_add, UInt8.ofNat_toNat, UInt8.ofInt_one]
    grind

/-- A loop that adds a cell to `a` and, unless the cell is zero, marks `b` with a value. -/
theorem takes_mark (hy : Owned live y.address) (ha : Owned live a.address)
    (hya : y.address ≠ a.address) (hyb : y.address ≠ b.address) (hab : a.address ≠ b.address)
    {mark : Emit Unit} {v : UInt8}
    (hmark : ∀ u, Takes settings live mark () live u (u.set b.address v)) (s : Contents) :
    Takes settings live (y.loop do y.add (-1); a.add 1; mark) () live s
      (((s.set y.address 0).set a.address (s.cells a.address + s.cells y.address)).set b.address
        (if s.cells y.address = 0 then s.cells b.address else v)) := by
  let g (k : Nat) : Contents :=
    (s.set a.address (s.cells a.address + UInt8.ofNat k)).set b.address
      (if k = 0 then s.cells b.address else v)
  have hrest (k : Nat) (u : UInt8) : Takes settings live (do a.add 1; mark) () live
      ((g k).set y.address u) _ := .bind (takes_add ha 1 _) (hmark _)
  have hiff : (s.cells y.address).toNat = 0 ↔ s.cells y.address = 0 := by
    rw [← UInt8.toNat_inj]
    rfl
  refine (takes_spend hy g ?_ fun k u => (hrest k u).to ?_).to ?_
  all_goals
    refine Contents.ext (funext fun z => ?_) rfl rfl
    simp only [g, Contents.set_cells, hiff, UInt8.ofNat_add, UInt8.ofNat_toNat, UInt8.ofInt_one]
    grind

/-- Moves a cell to another one. -/
theorem takes_take (hc : Owned live c.address) (hy : Owned live y.address)
    (hne : c.address ≠ y.address) (s : Contents) :
    Takes settings live (c.take y) () live s
      ((s.set y.address 0).set c.address (s.cells y.address)) := by
  rw [take, if_pos hne]
  refine .to (.bind (takes_reset hc s) (takes_drain hc hy hne _)) ?_
  refine Contents.ext (funext fun z => ?_) rfl rfl
  simp only [Contents.set_cells]
  grind

theorem takes_setConst (hc : Owned live c.address) (n : Int) (s : Contents) :
    Takes settings live (c.setConst n) () live s (s.set c.address (UInt8.ofInt n)) := by
  refine .to (.bind (takes_reset hc s) (takes_add hc (n % 256) _)) ?_
  have hmod : UInt8.ofInt (n % 256) = UInt8.ofInt n := by
    rw [UInt8.ofInt, UInt8.ofInt, Int.emod_emod_of_dvd n (by decide)]
  rw [Contents.set_set, Contents.set_cells_self, UInt8.zero_add, hmod]

/-- What a copy of a cell leaves: a temporary with the value of the cell. -/
theorem exists_taken_clone (settings : Settings) (hpacked : Packed live)
    (hc : Owned live c.address) :
    ∃ t live', t.Taken live live' ∧ ∀ s, Ready live s →
      Takes settings live c.clone t live' s (s.set t.address (s.cells c.address)) := by
  obtain ⟨back, live₁, hback, hnew₁⟩ := exists_taken_temporary settings hpacked
  obtain ⟨copy, live₂, hcopy, hnew₂⟩ := exists_taken_temporary settings hback.fresh.packed
  have hcb := hback.ne hc
  have hcc := hcopy.ne (hback.old hc)
  have hbc := hcopy.ne hback.self
  have hc₂ := hcopy.old (hback.old hc)
  have hb₂ := hcopy.old hback.self
  refine ⟨copy, live₂.erase back.region, ⟨hback.fresh.swap hcopy.fresh, hcopy.owned⟩, ?_⟩
  intro s hs
  have hbz := hback.zero hs
  have hcz := hcopy.zero (hback.ready hs)
  refine .bind (hnew₁ s) (.bind (hnew₂ s) ?_)
  refine .bind (takes_transfer hc₂ hb₂ hcopy.self hcb hcc hbc 1 s) ?_
  refine .bind (takes_drain hc₂ hb₂ hcb _) (.bind (takes_destroy hb₂ hback.owned _) ?_)
  refine .to (.pure _ _) ?_
  refine Contents.ext (funext fun z => ?_) rfl rfl
  simp only [Contents.set_cells, UInt8.ofInt_one]
  grind

end Cell

end Goat
