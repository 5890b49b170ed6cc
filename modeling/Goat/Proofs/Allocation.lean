import Goat.Tape.Layout
import Mathlib.Data.List.Induction

/-!
# Giving out cells

The regions in use never overlap: cells are given out in a gap between them, and what
is given back leaves the regions that were there before.
-/

namespace Goat

/-- The cell lies in one of the regions. -/
def Owned (live : List Region) (x : Int) : Prop := ∃ r ∈ live, r.start ≤ x ∧ x ≤ r.stop

/-- The regions hold cells of the tape, and stand in order without a shared cell. -/
structure Packed (live : List Region) : Prop where
  apart : live.Pairwise fun r s => r.stop < s.start
  start_nonneg : ∀ r ∈ live, 0 ≤ r.start
  start_le_stop : ∀ r ∈ live, r.start ≤ r.stop

theorem Packed.nil : Packed [] where
  apart := .nil
  start_nonneg := by simp
  start_le_stop := by simp

theorem Packed.tail {r : Region} {live : List Region} (h : Packed (r :: live)) : Packed live where
  apart := (List.pairwise_cons.1 h.apart).2
  start_nonneg s hs := h.start_nonneg s (List.mem_cons_of_mem r hs)
  start_le_stop s hs := h.start_le_stop s (List.mem_cons_of_mem r hs)

/-- A region in front of all the others. -/
theorem Packed.cons {r : Region} {live : List Region} (h : Packed live) (hstart : 0 ≤ r.start)
    (hr : r.start ≤ r.stop) (hbefore : ∀ s ∈ live, r.stop < s.start) : Packed (r :: live) where
  apart := List.pairwise_cons.2 ⟨hbefore, h.apart⟩
  start_nonneg := List.forall_mem_cons.2 ⟨hstart, h.start_nonneg⟩
  start_le_stop := List.forall_mem_cons.2 ⟨hr, h.start_le_stop⟩

theorem Packed.owned_nonneg {live : List Region} (h : Packed live) {x : Int} (hx : Owned live x) :
    0 ≤ x := by
  obtain ⟨r, hr, hstart, -⟩ := hx
  have := h.start_nonneg r hr
  omega

/-- Two regions in use that share a cell are the same. -/
theorem Packed.eq_of_owned {live : List Region} (h : Packed live) {r s : Region} (hr : r ∈ live)
    (hs : s ∈ live) {x : Int} (hxr : r.start ≤ x ∧ x ≤ r.stop) (hxs : s.start ≤ x ∧ x ≤ s.stop) :
    r = s := by
  induction live with
  | nil => cases hr
  | cons a live ih =>
    obtain ⟨hapart, -⟩ := List.pairwise_cons.1 h.apart
    rcases List.mem_cons.1 hr with rfl | hr'
    · rcases List.mem_cons.1 hs with rfl | hs'
      · rfl
      · have := hapart s hs'
        omega
    · rcases List.mem_cons.1 hs with rfl | hs'
      · have := hapart r hr'
        omega
      · exact ih h.tail hr' hs'

theorem Packed.nodup {live : List Region} (h : Packed live) : live.Nodup := by
  induction live with
  | nil => exact .nil
  | cons r live ih =>
    refine List.nodup_cons.2 ⟨fun hr => ?_, ih h.tail⟩
    have := (List.pairwise_cons.1 h.apart).1 r hr
    have := h.start_le_stop r (by simp)
    omega

theorem Packed.erase {live : List Region} (h : Packed live) (r : Region) :
    Packed (live.erase r) where
  apart := h.apart.sublist List.erase_sublist
  start_nonneg s hs := h.start_nonneg s (List.mem_of_mem_erase hs)
  start_le_stop s hs := h.start_le_stop s (List.mem_of_mem_erase hs)

/-- `live'` is `live` with a new region. -/
structure Fresh (live : List Region) (r : Region) (live' : List Region) : Prop where
  packed : Packed live'
  mem_iff : ∀ s, s ∈ live' ↔ s = r ∨ s ∈ live
  free : ∀ x, r.start ≤ x → x ≤ r.stop → ¬ Owned live x
  erase : live'.erase r = live

namespace Fresh

variable {live live' : List Region} {r : Region}

theorem mem (h : Fresh live r live') : r ∈ live' := (h.mem_iff r).2 (.inl rfl)

theorem owned_iff (h : Fresh live r live') (x : Int) :
    Owned live' x ↔ (r.start ≤ x ∧ x ≤ r.stop) ∨ Owned live x := by
  constructor
  · rintro ⟨s, hs, hx⟩
    rcases (h.mem_iff s).1 hs with rfl | hs
    · exact .inl hx
    · exact .inr ⟨s, hs, hx⟩
  · rintro (hx | ⟨s, hs, hx⟩)
    · exact ⟨r, h.mem, hx⟩
    · exact ⟨s, (h.mem_iff s).2 (.inr hs), hx⟩

theorem owned (h : Fresh live r live') {x : Int} (hx : Owned live x) : Owned live' x :=
  (h.owned_iff x).2 (.inr hx)

theorem not_mem (h : Fresh live r live') : r ∉ live := by
  intro hr
  have hle := h.packed.start_le_stop r h.mem
  exact h.free r.start (Int.le_refl _) hle ⟨r, hr, Int.le_refl _, hle⟩

/-- Of two regions taken one after the other, the first may be given back first. -/
theorem swap {live₁ live₂ : List Region} {r₁ r₂ : Region} (h₁ : Fresh live r₁ live₁)
    (h₂ : Fresh live₁ r₂ live₂) : Fresh live r₂ (live₂.erase r₁) where
  packed := h₂.packed.erase r₁
  mem_iff s := by
    have hne : r₂ ≠ r₁ := fun heq => h₂.not_mem (heq ▸ h₁.mem)
    rw [h₂.packed.nodup.mem_erase_iff, h₂.mem_iff, h₁.mem_iff]
    constructor
    · rintro ⟨hs, rfl | rfl | hs'⟩
      · exact .inl rfl
      · exact absurd rfl hs
      · exact .inr hs'
    · rintro (rfl | hs)
      · exact ⟨hne, .inl rfl⟩
      · exact ⟨fun heq => h₁.not_mem (heq ▸ hs), .inr (.inr hs)⟩
  free x hx hx' hown := h₂.free x hx hx' (h₁.owned hown)
  erase := by rw [List.erase_comm, h₂.erase, h₁.erase]

/-- A region in front of those in use is new. -/
theorem head (h : Packed live) (hstart : 0 ≤ r.start) (hr : r.start ≤ r.stop)
    (hbefore : ∀ s ∈ live, r.stop < s.start) : Fresh live r (r :: live) where
  packed := h.cons hstart hr hbefore
  mem_iff s := List.mem_cons
  free x _ hx := by
    rintro ⟨s, hs, hxs, -⟩
    have := hbefore s hs
    omega
  erase := List.erase_cons_head _ _

/-- A new region behind the first one in use. -/
theorem cons {first : Region} (h : Fresh live r live') (hfirst : Packed (first :: live))
    (hafter : first.stop < r.start) : Fresh (first :: live) r (first :: live') where
  packed := by
    refine h.packed.cons (hfirst.start_nonneg first (by simp))
      (hfirst.start_le_stop first (by simp)) fun s hs => ?_
    rcases (h.mem_iff s).1 hs with rfl | hs
    · exact hafter
    · exact (List.pairwise_cons.1 hfirst.apart).1 s hs
  mem_iff s := by
    rw [List.mem_cons, h.mem_iff, List.mem_cons]
    tauto
  free x hx hx' := by
    rintro ⟨s, hs, hxs⟩
    rcases List.mem_cons.1 hs with rfl | hs
    · omega
    · exact h.free x hx hx' ⟨s, hs, hxs⟩
  erase := by
    have hne : first ≠ r := by
      rintro rfl
      have := hfirst.start_le_stop first (by simp)
      omega
    rw [List.erase_cons_tail (by simpa using hne), h.erase]

end Fresh

namespace Layout

/-- The cells of a gap are free. -/
theorem gapFrom_free (length : Int) {next : Int} {live : List Region} (h : Packed live)
    (hafter : ∀ r ∈ live, next ≤ r.start) :
    next ≤ gapFrom id length next live ∧
      ∀ x, gapFrom id length next live ≤ x → x < gapFrom id length next live + length →
        ¬Owned live x := by
  induction live generalizing next with
  | nil =>
    refine ⟨Int.le_refl _, fun x _ _ => ?_⟩
    rintro ⟨r, hr, -⟩
    cases hr
  | cons r live ih =>
    obtain ⟨hapart, -⟩ := List.pairwise_cons.1 h.apart
    have hr := h.start_le_stop r (by simp)
    have hnext := hafter r (by simp)
    rw [gapFrom]
    simp only [id]
    split
    · refine ⟨Int.le_refl _, fun x _ hx => ?_⟩
      rintro ⟨s, hs, hxs, -⟩
      rcases List.mem_cons.1 hs with rfl | hs
      · omega
      · have := hapart s hs
        omega
    · have hmax : max next (r.stop + 1) = r.stop + 1 := by omega
      obtain ⟨hle, hfree⟩ := ih h.tail (fun s hs => by
        have := hapart s hs
        omega : ∀ s ∈ live, r.stop + 1 ≤ s.start)
      rw [hmax]
      refine ⟨by omega, fun x hx hx' => ?_⟩
      rintro ⟨s, hs, hxs⟩
      rcases List.mem_cons.1 hs with rfl | hs
      · omega
      · exact hfree x hx hx' ⟨s, hs, hxs⟩

/-- A region of free cells is new. -/
theorem insert_fresh {r : Region} {live : List Region} (h : Packed live) (hstart : 0 ≤ r.start)
    (hr : r.start ≤ r.stop) (hfree : ∀ x, r.start ≤ x → x ≤ r.stop → ¬Owned live x) :
    Fresh live r (insert r live) := by
  induction live with
  | nil => exact .head .nil hstart hr (by simp)
  | cons a live ih =>
    obtain ⟨hapart, -⟩ := List.pairwise_cons.1 h.apart
    have ha := h.start_le_stop a (by simp)
    -- A region that shares no cell with `r` and does not start before it starts behind it.
    have hbehind (s : Region) (hs : s ∈ a :: live) (hle : r.start ≤ s.start) :
        r.stop < s.start := by
      by_contra hshared
      exact hfree s.start hle (by omega) ⟨s, hs, Int.le_refl _, h.start_le_stop s hs⟩
    rw [insert]
    split
    · rename_i hlt
      refine .head h hstart hr fun s hs => hbehind s hs ?_
      rcases List.mem_cons.1 hs with rfl | hs
      · omega
      · have := hapart s hs
        omega
    · have hafter : a.stop < r.start := by
        by_contra hshared
        exact hfree r.start (Int.le_refl _) hr ⟨a, by simp, by omega, by omega⟩
      refine (ih h.tail fun x hx hx' => ?_).cons h hafter
      rintro ⟨s, hs, hxs⟩
      exact hfree x hx hx' ⟨s, List.mem_cons_of_mem a hs, hxs⟩

/-- Cells that are placed are new. -/
theorem place_fresh {length : Int} (hlength : 1 ≤ length) {live live' : List Region} {new : Region}
    (h : Packed live) (hplace : place id length live = (new, live')) :
    Fresh live new live' ∧ new.stop = new.start + length - 1 := by
  cases hplace
  obtain ⟨hle, hfree⟩ := gapFrom_free length h h.start_nonneg
  refine ⟨insert_fresh h hle (by simp only [id]; omega) fun x hx hx' => hfree x hx ?_, rfl⟩
  simp only [id] at hx'
  omega

/-- What the layout of an emission keeps to: the regions in use are packed and below the
    peak, and so is the pointer once cells were given out. -/
structure Sound (l : Layout) : Prop where
  packed : Packed l.live
  stop_lt_peak : ∀ r ∈ l.live, r.stop < l.peak
  pointer_nonneg : 0 ≤ l.pointer
  pointer_lt_peak : l.pointer < l.peak ∨ l.pointer = 0

theorem sound_empty : Sound {} where
  packed := .nil
  stop_lt_peak := by simp
  pointer_nonneg := Int.le_refl _
  pointer_lt_peak := .inr rfl

theorem Sound.owned_lt_peak {l : Layout} (h : l.Sound) {x : Int} (hx : Owned l.live x) :
    x < l.peak := by
  obtain ⟨r, hr, -, hstop⟩ := hx
  have := h.stop_lt_peak r hr
  omega

/-- The pointer may go to any cell in use. -/
theorem Sound.assume {l : Layout} (h : l.Sound) {x : Int} (hx : Owned l.live x) :
    (l.assume x).Sound where
  packed := h.packed
  stop_lt_peak := h.stop_lt_peak
  pointer_nonneg := h.packed.owned_nonneg hx
  pointer_lt_peak := .inl (h.owned_lt_peak hx)

/-- What is reserved is new and as long as asked for. -/
theorem Sound.allocate {l l' : Layout} (h : l.Sound) {length : Int} (hlength : 1 ≤ length)
    {r : Region} (hallocate : l.allocate length = (r, l')) :
    Fresh l.live r l'.live ∧ l'.Sound ∧ r.stop = r.start + length - 1 ∧ l.peak ≤ l'.peak ∧
      l'.pointer = l.pointer := by
  have hmax : max length 1 = length := by omega
  obtain ⟨placed, live', hplace⟩ : ∃ placed live', place id length l.live = (placed, live') :=
    ⟨_, _, rfl⟩
  simp only [Layout.allocate, allocateBy, hmax, hplace, id] at hallocate
  cases hallocate
  obtain ⟨hfresh, hstop⟩ := place_fresh hlength h.packed hplace
  refine ⟨hfresh, ⟨hfresh.packed, fun s hs => ?_, h.pointer_nonneg, ?_⟩, hstop, ?_, rfl⟩
  · rcases (hfresh.mem_iff s).1 hs with rfl | hs
    · simp only
      omega
    · have := h.stop_lt_peak s hs
      simp only
      omega
  · have := h.pointer_lt_peak
    simp only
    omega
  · simp only
    omega

theorem release_eq (l : Layout) (r : Region) :
    (l.release r).2 = { l with live := l.live.erase r } := by
  unfold release
  split
  · rfl
  · rename_i h
    rw [List.erase_of_not_mem h]

theorem Sound.release {l : Layout} (h : l.Sound) (r : Region) : (l.release r).2.Sound := by
  rw [release_eq]
  exact ⟨h.packed.erase r, fun s hs => h.stop_lt_peak s (List.mem_of_mem_erase hs),
    h.pointer_nonneg, h.pointer_lt_peak⟩

end Layout

end Goat
