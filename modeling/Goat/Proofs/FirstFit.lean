import Goat.Proofs.Allocation
import Mathlib.Algebra.Ring.Int.Defs
import Mathlib.Order.Bounds.Basic

/-!
# First fit

Cells are given out as far left as they fit, whatever was given out and given back before. The
regions are kept in order, so the first gap that is large enough is the leftmost one; the peak
is one past the highest cell that was ever given out. Cells are numbered in words, so all this
holds as long as there is room below the greatest number, and fails where there is none.
-/

namespace Goat.Layout

/-- A request to a layout. -/
inductive Request where
  /-- Cells, at least one, are to be reserved. -/
  | allocate (length : Int)
  /-- A region, which need not be in use, is to be freed. -/
  | release (region : Region)
  deriving DecidableEq, Repr

/-- The `n` cells from `s` on belong to no region. -/
def IsFree (live : List Region) (s n : Int) : Prop := ∀ x, s ≤ x → x < s + n → ¬Owned live x

/-- Reserving `n` cells, at least one, gives out the leftmost region of that many free cells, adds
    it to those in use and nothing else, and keeps the peak above it. -/
structure FirstFit (l : Layout) (n : Int) (r : Region) (l' : Layout) : Prop where
  length : r.length = max n 1
  leftmost : IsLeast {s | 0 ≤ s ∧ IsFree l.live s (max n 1)} r.start
  live : l'.live.Perm (r :: l.live)
  stop_lt_peak : r.stop < l'.peak

/-- The cells that a request asks for are free somewhere, and one past them is a word still. -/
def Request.HasRoom (live : List Region) : Request → Prop
  | .allocate n => ∃ s, 0 ≤ s ∧ s + max n 1 ≤ Text.maxInt64 ∧ IsFree live s (max n 1)
  | .release _ => True

/-- The number of cells that a request asks for. -/
def Request.cells : Request → Int
  | .allocate n => max n 1
  | .release _ => 0

/-- A layout with all the regions it has given out, the last one first. -/
structure History where
  layout : Layout := {}
  given : List Region := []
  deriving DecidableEq, Repr

namespace History

/-- Serves a request. -/
def serve (h : History) : Request → History
  | .allocate n => ⟨(h.layout.allocateWord n).2, (h.layout.allocateWord n).1 :: h.given⟩
  | .release region => { h with layout := (h.layout.release region).2 }

/-- Serves requests in order. -/
def serveAll (h : History) (requests : List Request) : History := requests.foldl serve h

/-- Every request finds room when its turn comes. -/
def HasRoom (h : History) : List Request → Prop
  | [] => True
  | request :: rest => request.HasRoom h.layout.live ∧ (h.serve request).HasRoom rest

/-- What requests with room have led to: the regions in use are packed, and the peak is one past
    the highest cell of those given out. -/
structure Sound (h : History) : Prop where
  layout : h.layout.Sound
  peak_nonneg : 0 ≤ h.layout.peak
  peak_le : h.layout.peak ≤ Text.maxInt64
  lt_peak : ∀ x, Owned h.given x → x < h.layout.peak
  reached : (h.given = [] ∧ h.layout.peak = 0) ∨ Owned h.given (h.layout.peak - 1)

end History

/-- No `n` cells from `next` on are free further left than the gap that is found. -/
theorem gapFrom_le {n next s : Int} (hn : 1 ≤ n) {live : List Region} (h : Packed live)
    (hs : next ≤ s) (hfree : IsFree live s n) : gapFrom id n next live ≤ s := by
  induction live generalizing next with
  | nil => exact hs
  | cons r live ih =>
    have hr := h.start_le_stop r (by simp)
    rw [gapFrom]
    simp only [id]
    split
    · exact hs
    · rename_i hgap
      -- The gap before `r` is too small, so cells that are free after `next` are free after `r`.
      have hafter : r.stop < s := by
        by_contra hle
        exact hfree (max s r.start) (by omega) (by omega) ⟨r, by simp, by omega, by omega⟩
      refine ih h.tail (by omega) fun x hx hx' => ?_
      rintro ⟨t, ht, hxt⟩
      exact hfree x hx hx' ⟨t, List.mem_cons_of_mem r ht, hxt⟩

/-! ### Words and exact sums -/

/-- Between regions whose ends have a word after them, no sum wraps around. -/
theorem gapFrom_wordOf (n : Int) {next : Int} (hnext : 0 ≤ next) (hnext' : next ≤ Text.maxInt64)
    {live : List Region} (h : Packed live) (hstop : ∀ r ∈ live, r.stop < Text.maxInt64) :
    gapFrom wordOf n next live = gapFrom id n next live := by
  induction live generalizing next with
  | nil => rfl
  | cons r live ih =>
    have hstart := h.start_nonneg r (by simp)
    have hr := h.start_le_stop r (by simp)
    have hlt := hstop r (by simp)
    rw [gapFrom, gapFrom, wordOf_eq_self (by omega) (by omega),
      wordOf_eq_self (by omega) (by omega)]
    simp only [id]
    rw [ih (by omega) (by omega) h.tail fun s hs => hstop s (List.mem_cons_of_mem r hs)]

/-- With room for them, cells are reserved as if sums were exact. -/
theorem allocateWord_eq {l : Layout} (h : Packed l.live)
    (hstop : ∀ r ∈ l.live, r.stop < Text.maxInt64) {n : Int}
    (hroom : (Request.allocate n).HasRoom l.live) : l.allocateWord n = l.allocate n := by
  obtain ⟨s, hs, hle, hfree⟩ := hroom
  have hstart := (gapFrom_free (max n 1) h h.start_nonneg).1
  have hleft := gapFrom_le (by omega) h hs hfree
  have hgap := gapFrom_wordOf (max n 1) (Int.le_refl 0) (by decide) h hstop
  unfold allocateWord allocate allocateBy place
  simp only [hgap, id]
  rw [wordOf_eq_self (n := _ + max n 1 - 1) (by omega) (by omega),
    wordOf_eq_self (by omega) (by omega)]

theorem allocate_max (l : Layout) (n : Int) : l.allocate (max n 1) = l.allocate n := by
  have hmax : max (max n 1) 1 = max n 1 := by omega
  rw [allocate, allocate, allocateBy, allocateBy, hmax]

theorem Sound.firstFit {l l' : Layout} (h : l.Sound) {n : Int} {r : Region}
    (hallocate : l.allocate n = (r, l')) : FirstFit l n r l' := by
  rw [← allocate_max] at hallocate
  obtain ⟨hfresh, hsound, hstop, -, -⟩ := h.allocate (by omega) hallocate
  have hperm := List.perm_cons_erase hfresh.mem
  rw [hfresh.erase] at hperm
  refine ⟨by rw [Region.length]; omega, ⟨⟨?_, fun x hx hx' => ?_⟩, ?_⟩, hperm,
    hsound.stop_lt_peak r hfresh.mem⟩
  · exact hsound.packed.start_nonneg r hfresh.mem
  · exact hfresh.free x hx (by omega)
  · rintro s ⟨hs, hfree⟩
    rw [allocate_max] at hallocate
    cases hallocate
    exact gapFrom_le (by omega) h.packed hs hfree

theorem release_of_mem {l : Layout} {r : Region} (h : r ∈ l.live) :
    l.release r = (true, { l with live := l.live.erase r }) := by
  rw [release, if_pos h]

theorem release_of_not_mem {l : Layout} {r : Region} (h : r ∉ l.live) :
    l.release r = (false, l) := by
  rw [release, if_neg h]

namespace History

variable {h : History}

theorem sound_empty : Sound {} where
  layout := Layout.sound_empty
  peak_nonneg := Int.le_refl 0
  peak_le := by decide
  lt_peak := by
    rintro x ⟨r, hr, -⟩
    cases hr
  reached := .inl ⟨rfl, rfl⟩

theorem Sound.stop_lt (hs : h.Sound) : ∀ r ∈ h.layout.live, r.stop < Text.maxInt64 := by
  intro r hr
  have hlt := hs.layout.stop_lt_peak r hr
  have hle := hs.peak_le
  omega

/-- What is reserved with room for it is the leftmost fit, and the peak is past it. -/
theorem Sound.exists_allocated (hs : h.Sound) {n : Int}
    (hroom : (Request.allocate n).HasRoom h.layout.live) :
    ∃ r l', h.layout.allocateWord n = (r, l') ∧ FirstFit h.layout n r l' ∧ l'.Sound ∧
      l'.peak = max h.layout.peak (r.stop + 1) := by
  have hword := allocateWord_eq hs.layout.packed hs.stop_lt hroom
  obtain ⟨r, l', hallocate⟩ : ∃ r l', h.layout.allocate n = (r, l') := ⟨_, _, rfl⟩
  have hsound := (hs.layout.allocate (by omega) ((allocate_max h.layout n).trans hallocate)).2.1
  refine ⟨r, l', hword.trans hallocate, hs.layout.firstFit hallocate, hsound, ?_⟩
  cases hallocate
  rfl

theorem Sound.allocate (hs : h.Sound) {n : Int}
    (hroom : (Request.allocate n).HasRoom h.layout.live) : (h.serve (.allocate n)).Sound := by
  obtain ⟨r, l', hallocate, hfit, hsound, hpeak⟩ := hs.exists_allocated hroom
  obtain ⟨s, hs', hle, hfree⟩ := hroom
  have hleft := hfit.leftmost.2 ⟨hs', hfree⟩
  have hlength := hfit.length
  have hnonneg := hs.peak_nonneg
  have hbelow := hs.peak_le
  rw [Region.length] at hlength
  rw [serve, hallocate]
  refine ⟨hsound, by simp only; omega, by simp only; omega, ?_, .inr ?_⟩
  · rintro x ⟨t, ht, hx⟩
    rcases List.mem_cons.1 ht with rfl | ht
    · simp only
      omega
    · have := hs.lt_peak x ⟨t, ht, hx⟩
      simp only
      omega
  · simp only [hpeak]
    by_cases hnew : h.layout.peak ≤ r.stop + 1
    · exact ⟨r, List.mem_cons_self, by omega, by omega⟩
    · rcases hs.reached with ⟨-, hzero⟩ | ⟨t, ht, hx⟩
      · have := hfit.leftmost.1.1
        omega
      · exact ⟨t, List.mem_cons_of_mem _ ht, by omega, by omega⟩

@[simp] theorem serve_release (h : History) (r : Region) :
    h.serve (.release r) =
      { h with layout := { h.layout with live := h.layout.live.erase r } } := by
  rw [serve, release_eq]

theorem Sound.release (hs : h.Sound) (r : Region) : (h.serve (.release r)).Sound := by
  have hsound := hs.layout.release r
  rw [serve_release]
  rw [release_eq] at hsound
  exact ⟨hsound, hs.peak_nonneg, hs.peak_le, hs.lt_peak, hs.reached⟩

theorem Sound.serve (hs : h.Sound) {request : Request} (hroom : request.HasRoom h.layout.live) :
    (h.serve request).Sound := by
  cases request with
  | allocate n => exact hs.allocate hroom
  | release r => exact hs.release r

theorem Sound.serveAll (hs : h.Sound) {requests : List Request} (hroom : h.HasRoom requests) :
    (h.serveAll requests).Sound := by
  induction requests generalizing h with
  | nil => exact hs
  | cons request rest ih => exact ih (hs.serve hroom.1) hroom.2

theorem sum_cells_nonneg (requests : List Request) :
    0 ≤ (requests.map Request.cells).sum := by
  induction requests with
  | nil => decide
  | cons request rest ih =>
    rw [List.map_cons, List.sum_cons]
    cases request <;> simp only [Request.cells] <;> omega

/-- There is room for requests that ask for fewer cells than are left above the peak. -/
theorem Sound.hasRoom (hs : h.Sound) {requests : List Request}
    (htotal : h.layout.peak + (requests.map Request.cells).sum ≤ Text.maxInt64) :
    h.HasRoom requests := by
  induction requests generalizing h with
  | nil => trivial
  | cons request rest ih =>
    rw [List.map_cons, List.sum_cons] at htotal
    have hrest := sum_cells_nonneg rest
    cases request with
    | release r =>
      refine ⟨trivial, ih (hs.release r) ?_⟩
      rw [Request.cells, Int.zero_add] at htotal
      rwa [serve_release]
    | allocate n =>
      have hfree : IsFree h.layout.live h.layout.peak (max n 1) := by
        intro x hx _ howned
        have := hs.layout.owned_lt_peak howned
        omega
      rw [Request.cells] at htotal
      have hroom : (Request.allocate n).HasRoom h.layout.live :=
        ⟨h.layout.peak, hs.peak_nonneg, by omega, hfree⟩
      refine ⟨hroom, ih (hs.allocate hroom) ?_⟩
      obtain ⟨r, l', hallocate, hfit, -, hpeak⟩ := hs.exists_allocated hroom
      have hleft := hfit.leftmost.2 ⟨hs.peak_nonneg, hfree⟩
      have hlength := hfit.length
      rw [Region.length] at hlength
      rw [History.serve, hallocate]
      simp only [hpeak]
      omega

theorem peak_le_serve (h : History) (request : Request) :
    h.layout.peak ≤ (h.serve request).layout.peak := by
  cases request with
  | allocate n => exact Int.le_max_left _ _
  | release r => rw [serve_release]

theorem peak_le_serveAll (h : History) (requests : List Request) :
    h.layout.peak ≤ (h.serveAll requests).layout.peak := by
  induction requests generalizing h with
  | nil => exact Int.le_refl _
  | cons request rest ih => exact (h.peak_le_serve request).trans (ih _)

/-- A region that is given out as it should, with the peak past it, had room. -/
theorem Sound.hasRoom_of_firstFit (hs : h.Sound) {n : Int} {r : Region} {l' : Layout}
    (hallocate : h.layout.allocateWord n = (r, l')) (hfit : FirstFit h.layout n r l') :
    (Request.allocate n).HasRoom h.layout.live := by
  obtain ⟨hstart, hfree⟩ := hfit.leftmost.1
  have hlength := hfit.length
  have hpast := hfit.stop_lt_peak
  have hpeak : l'.peak ≤ Text.maxInt64 := by
    cases hallocate
    exact Int.max_le.2 ⟨hs.peak_le, wordOf_le _⟩
  rw [Region.length] at hlength
  exact ⟨r.start, hstart, by omega, hfree⟩

end History

/-- Whatever was reserved and freed before, as long as there was room: no two regions in use share
    a cell, cells are reserved as far left as they fit exactly if there is room for them, freeing a
    region frees it alone, and the peak is one past the highest cell of all regions that were given
    out. -/
theorem reserves_first_fit {requests : List Request}
    (hroom : History.HasRoom {} requests) :
    let h : History := History.serveAll {} requests
    (∀ r ∈ h.layout.live, 0 ≤ r.start ∧ 0 < r.length) ∧
    h.layout.live.Pairwise (fun r s => r.overlaps s = false) ∧
    (∀ n r l', h.layout.allocateWord n = (r, l') →
      ((Request.allocate n).HasRoom h.layout.live ↔ FirstFit h.layout n r l')) ∧
    (∀ r ok l', h.layout.release r = (ok, l') → (ok = true ↔ r ∈ h.layout.live) ∧
      (ok = true → h.layout.live.Perm (r :: l'.live)) ∧ (ok = false → l' = h.layout)) ∧
    (h.given = [] → h.layout.peak = 0) ∧
    (h.given ≠ [] → IsGreatest {x | Owned h.given x} (h.layout.peak - 1)) ∧
    ∀ more, h.layout.peak ≤ (h.serveAll more).layout.peak := by
  intro h
  have hs : h.Sound := History.sound_empty.serveAll hroom
  have hpacked := hs.layout.packed
  refine ⟨fun r hr => ⟨hpacked.start_nonneg r hr, ?_⟩, ?_, ?_, ?_, ?_, ?_, h.peak_le_serveAll⟩
  · have := hpacked.start_le_stop r hr
    rw [Region.length]
    omega
  · refine hpacked.apart.imp fun {r s} hrs => ?_
    simp only [Region.overlaps, Bool.and_eq_false_iff, decide_eq_false_iff_not]
    omega
  · intro n r l' hallocate
    refine ⟨fun hfits => ?_, hs.hasRoom_of_firstFit hallocate⟩
    obtain ⟨_, _, hallocated, hfit, -⟩ := hs.exists_allocated hfits
    cases hallocate.symm.trans hallocated
    exact hfit
  · rintro r ok l' hrelease
    by_cases hr : r ∈ h.layout.live
    · rw [release_of_mem hr] at hrelease
      obtain ⟨rfl, rfl⟩ := Prod.mk.inj hrelease
      exact ⟨by simp [hr], fun _ => List.perm_cons_erase hr, by simp⟩
    · rw [release_of_not_mem hr] at hrelease
      obtain ⟨rfl, rfl⟩ := Prod.mk.inj hrelease
      exact ⟨by simp [hr], by simp, fun _ => rfl⟩
  · intro hgiven
    rcases hs.reached with ⟨-, hzero⟩ | ⟨r, hr, -⟩
    · exact hzero
    · rw [hgiven] at hr
      cases hr
  · intro hgiven
    refine ⟨hs.reached.resolve_left fun hnone => hgiven hnone.1, fun x hx => ?_⟩
    have := hs.lt_peak x hx
    omega

/-- Cells that were freed are used again as far as they suffice. -/
theorem reserves_first_fit_reused :
    let requests : List Request :=
      [.allocate 3, .allocate 2, .release ⟨0, 2⟩, .allocate 0, .allocate 3, .release ⟨9, 9⟩]
    let h : History := History.serveAll {} requests
    History.HasRoom {} requests ∧ h.layout.live = [⟨0, 0⟩, ⟨3, 4⟩, ⟨5, 7⟩] ∧
      h.layout.live.Pairwise (fun r s => r.overlaps s = false) ∧
      FirstFit h.layout 2 ⟨1, 2⟩ (h.layout.allocateWord 2).2 ∧
      IsGreatest {x | Owned h.given x} 7 := by
  intro requests h
  have hroom : History.HasRoom {} requests := History.sound_empty.hasRoom (by decide)
  obtain ⟨-, hapart, hfit, -, -, hpeak, -⟩ := reserves_first_fit hroom
  have hmore : h.HasRoom [.allocate 2] := (History.sound_empty.serveAll hroom).hasRoom (by decide)
  exact ⟨hroom, by decide, hapart, (hfit 2 _ _ rfl).1 hmore.1, hpeak (by decide)⟩

/-- Without room, a sum wraps around: the third region lies in the second one, and the peak
    below its end. -/
theorem allocateWord_overlaps :
    let h : History := History.serveAll {} [.allocate 1, .allocate Text.maxInt64, .allocate 1]
    h.layout.live = [⟨0, 0⟩, ⟨1, Text.maxInt64⟩, ⟨1, 1⟩] ∧ h.layout.peak = 2 ∧
      ¬h.layout.live.Pairwise fun r s => r.overlaps s = false := by
  decide

end Goat.Layout
