import Goat.Proofs.InputOutput
import Goat.Proofs.ListWalk

/-!
# Lists on the tape

What the code for lists does: reading and storing at a computed index, copying and
printing. The scratch cells of a list are zero before and after all of it.
-/

namespace Goat.CellList

open Plain (Settings Contents Runs Closed)

/-- The list is in use, its region has a cell for every element, and a byte can be the index
    of every element. -/
structure Placed (live : List Region) (l : CellList) : Prop where
  mem : l.region ∈ live
  stop : l.region.stop = l.region.start + 4 + l.length - 1
  length_pos : 0 < l.length
  length_lt : l.length < 256

/-- The scratch cells of the list are zero. -/
def Quiet (l : CellList) (s : Contents) : Prop := ∀ k < 4, s.cells (l.region.start + (k : Nat)) = 0

/-- The elements of the list. -/
def values (l : CellList) (s : Contents) : List UInt8 :=
  l.elements.map fun c => s.cells c.address

variable {settings : Settings} {live live' : List Region} {s s' : Contents} {l source : CellList}

@[simp] theorem element_address (l : CellList) (k : Nat) :
    (l.element k).address = l.region.start + 4 + k := rfl

@[simp] theorem scratch_address (l : CellList) (k : Nat) :
    (l.scratch k).address = l.region.start + k := rfl

@[simp] theorem length_values (l : CellList) (s : Contents) : (l.values s).length = l.length := by
  simp [values, elements]

theorem getElem?_values (l : CellList) (s : Contents) {k : Nat} (hk : k < l.length) :
    (l.values s)[k]? = some (s.cells (l.region.start + 4 + k)) := by
  simp [values, elements, hk]

theorem values_set (l : CellList) (s : Contents) (k : Nat) (b : UInt8) :
    l.values (s.set (l.element k).address b) = (l.values s).set k b := by
  refine List.ext_getElem? fun j => ?_
  by_cases hj : j < l.length
  · rw [getElem?_values l _ hj, List.getElem?_set, getElem?_values l s hj, length_values,
      Contents.set_cells, element_address]
    by_cases hjk : k = j
    · subst hjk
      simp [hj]
    · rw [if_neg hjk, if_neg (by omega)]
  · rw [List.getElem?_eq_none (by simpa using hj), List.getElem?_eq_none (by simpa using hj)]

theorem Placed.owned (h : l.Placed live) {x : Int} (hx : l.region.start ≤ x)
    (hx' : x < l.region.start + 4 + l.length) : Owned live x :=
  ⟨l.region, h.mem, hx, by rw [h.stop]; omega⟩

theorem Placed.owned_scratch (h : l.Placed live) {k : Nat} (hk : k < 4) :
    Owned live (l.scratch k).address :=
  h.owned (by rw [scratch_address]; omega) (by rw [scratch_address]; omega)

theorem Placed.owned_element (h : l.Placed live) {k : Nat} (hk : k < l.length) :
    Owned live (l.element k).address :=
  h.owned (by rw [element_address]; omega) (by rw [element_address]; omega)

theorem Placed.mono (h : l.Placed live) (hsub : ∀ r ∈ live, r ∈ live') : l.Placed live' :=
  ⟨hsub _ h.mem, h.stop, h.length_pos, h.length_lt⟩

/-- A fresh list can be taken. -/
theorem exists_placed_new (settings : Settings) (h : Packed live) (name : Text) {n : Nat}
    (hn : 0 < n) (hn' : n < 256) :
    ∃ l live', Fresh live l.region live' ∧ l.Placed live' ∧ l.name = name ∧ l.length = n ∧
      ∀ s, Takes settings live (CellList.new name n) l live' s s := by
  have hlength : 1 ≤ (n : Int) + scratchCells := by
    simp only [scratchCells]
    omega
  obtain ⟨r, live', hfresh, hstop, htakes⟩ := exists_takes_allocate settings h hlength
  refine ⟨⟨name, r, n⟩, live', hfresh, ⟨hfresh.mem, ?_, hn, hn'⟩, rfl, rfl, fun s => ?_⟩
  · simp only [hstop, scratchCells]
    omega
  · exact .bind (htakes s) (.bind (.trace _ s) (.pure _ s))

section Walks

variable {index value : Cell}

theorem takes_walk (hl : l.Placed live) {walk : List Command} (hclosed : Closed walk)
    (hrun : (∀ x, Owned live x → settings.HasCell x) →
      Runs settings walk (s.tape (l.region.start + 1)) (s'.tape (l.region.start + 2))) :
    Takes settings live (do
      Emit.moveTo (l.region.start + 1)
      Emit.build (·.emitEndingAt walk (l.region.start + 2))) () live s s' := by
  show Takes settings live (Emit.build fun b =>
    (b.moveTo (l.region.start + 1)).emitEndingAt walk (l.region.start + 2)) () live s s'
  exact takes_build (fun _ => rfl) (hl.owned (by omega) (by omega))
    (hl.owned (by omega) (by omega)) hclosed hrun

theorem packet_zero (hquiet : l.Quiet s) (v c : UInt8) :
    packet s l.region.start 0 v c 0 = (s.set l.region.start v).set (l.region.start + 1) c := by
  have h₂ := hquiet 2 (by decide)
  have h₃ := hquiet 3 (by decide)
  refine Contents.ext (funext fun z => ?_) rfl rfl
  simp only [packet, Contents.set_cells]
  grind

/-- A tape with all cells in use has the cell that an index leads to, be it in range or not. -/
def Spans (settings : Settings) (live : List Region) (l : CellList) (k : Nat) : Prop :=
  (∀ x, Owned live x → settings.HasCell x) → settings.HasCell (l.element k).address

theorem Placed.spans (hl : l.Placed live) {k : Nat} (hk : k < l.length) : l.Spans settings live k :=
  fun h => h _ (hl.owned_element hk)

/-- The cells that a walk passes. -/
theorem Placed.hasCell (hl : l.Placed live) {k : Nat} (hspans : l.Spans settings live k)
    (h : ∀ x, Owned live x → settings.HasCell x) (x : Int) (hx : l.region.start ≤ x)
    (hx' : x ≤ l.region.start + k + 4) : settings.HasCell x := by
  have hfirst : settings.HasCell l.region.start := h _ (hl.owned (Int.le_refl _) (by omega))
  refine hfirst.mono (hspans h) hx ?_
  rw [element_address]
  omega

/-- Reading at an index: a new temporary holds what the cell held that the index leads to. -/
theorem exists_taken_get_spanning (settings : Settings) (hpacked : Packed live) (hl : l.Placed live)
    (hi : Owned live index.address) :
    ∃ found live', found.Taken live live' ∧ ∀ s, Ready live s → l.Quiet s →
      l.Spans settings live (s.cells index.address).toNat →
        Takes settings live (l.get index) found live' s
          (s.set found.address
            (s.cells (l.element (s.cells index.address).toNat).address)) := by
  obtain ⟨found, live', hfound, hnew⟩ := Cell.exists_taken_temporary settings hpacked
  refine ⟨found, live', hfound, fun s hs hquiet hspans => ?_⟩
  generalize hc : s.cells index.address = c at hspans ⊢
  have hcell := hl.hasCell hspans
  let v : UInt8 := s.cells (l.region.start + c.toNat + 4)
  have hwalk : Takes settings live (do
      Emit.moveTo (l.region.start + 1)
      Emit.build (·.emitEndingAt (walkForward ++ readElement ++ walkBack) (l.region.start + 2))) ()
      live (packet s l.region.start 0 0 c 0) (packet s l.region.start 0 v 0 0) := by
    refine takes_walk hl ?_ fun h => ?_
    · rw [walkForward_eq, walkBack_eq]
      exact (closed_forwardStep.loop.append closed_readElement).append closed_backStep.loop
    · exact ((runs_walkForward s _ 0 c (hcell h)).append (runs_readElement s _ _ c
        fun x hx hx' => hcell h x (by omega) (by omega))).append (runs_walkBack s _ v c (hcell h))
  have h₀ : s.cells l.region.start = 0 := by simpa using hquiet 0 (by decide)
  have h₁ : s.cells (l.region.start + 1) = 0 := hquiet 1 (by decide)
  refine .bind ((Cell.takes_set hs (hl.owned_scratch (by decide)) hi).to ?_)
    (.bind_bind hwalk (.bind (hnew _) ?_))
  · rw [packet_zero hquiet, hc, Contents.set_eq_self h₀]
    rfl
  have hne : found.address ≠ l.region.start :=
    (hfound.ne (hl.owned (Int.le_refl _) (by omega))).symm
  have hown : Owned live' (l.scratch 0).address := hfound.old (hl.owned_scratch (by decide))
  refine .bind (Cell.takes_take hfound.self hown (by simpa using hne) _) ((Takes.pure _ _).to ?_)
  rw [packet_zero hquiet]
  refine Contents.ext (funext fun z => ?_) rfl rfl
  simp only [v, Contents.set_cells, scratch_address, element_address]
  grind

/-- Reading at an index that is in range: a new temporary holds the element. -/
theorem exists_taken_get (settings : Settings) (hpacked : Packed live) (hl : l.Placed live)
    (hi : Owned live index.address) :
    ∃ found live', found.Taken live live' ∧ ∀ s, Ready live s → l.Quiet s →
      (s.cells index.address).toNat < l.length →
        Takes settings live (l.get index) found live' s
          (s.set found.address
            (s.cells (l.element (s.cells index.address).toNat).address)) := by
  obtain ⟨found, live', hfound, hget⟩ := exists_taken_get_spanning settings hpacked hl hi
  exact ⟨found, live', hfound, fun s hs hquiet hrange => hget s hs hquiet (hl.spans hrange)⟩

/-- Storing at an index changes the cell that the index leads to. -/
theorem takes_put_spanning (hs : Ready live s) (hl : l.Placed live) (hquiet : l.Quiet s)
    (hi : Owned live index.address) (hv : Owned live value.address)
    (hne : index.address ≠ l.region.start)
    (hspans : l.Spans settings live (s.cells index.address).toNat) :
    Takes settings live (l.put index value) () live s
      (s.set (l.element (s.cells index.address).toNat).address (s.cells value.address)) := by
  generalize hc : s.cells index.address = c at hspans ⊢
  generalize hb : s.cells value.address = b
  let s' : Contents := s.set (l.region.start + c.toNat + 4) b
  have hcell := hl.hasCell hspans
  have hwalk : Takes settings live (do
      Emit.moveTo (l.region.start + 1)
      Emit.build (·.emitEndingAt (walkForward ++ writeElement ++ walkBack) (l.region.start + 2))) ()
      live (packet s l.region.start 0 b c 0) (packet s' l.region.start 0 0 0 0) := by
    refine takes_walk hl ?_ fun h => ?_
    · rw [walkForward_eq, walkBack_eq]
      exact (closed_forwardStep.loop.append closed_writeElement).append closed_backStep.loop
    · exact ((runs_walkForward s _ b c (hcell h)).append (runs_writeElement s _ _ b c
        fun x hx hx' => hcell h x (by omega) (by omega))).append (runs_walkBack s' _ 0 c (hcell h))
  have hquiet' : l.Quiet s' := by
    intro k hk
    rw [Contents.set_cells_of_ne _ _ (by omega)]
    exact hquiet k hk
  have h₀ : s'.cells l.region.start = 0 := by simpa using hquiet' 0 (by decide)
  have h₁ : s'.cells (l.region.start + 1) = 0 := hquiet' 1 (by decide)
  have hscratch₀ := hl.owned_scratch (by decide : 0 < 4)
  refine .bind (Cell.takes_set hs hscratch₀ hv) (.bind ((Cell.takes_set (hs.set hscratch₀ _)
    (hl.owned_scratch (by decide)) hi).to ?_) (hwalk.to ?_))
  · rw [packet_zero hquiet, Contents.set_cells_of_ne _ _ (by simpa using hne), hc, hb]
    simp
  · rw [packet_zero hquiet', Contents.set_eq_self h₀, Contents.set_eq_self h₁]
    have haddress : l.region.start + c.toNat + 4 = (l.element c.toNat).address := by
      rw [element_address]
      omega
    simp only [s', haddress]

theorem takes_put (hs : Ready live s) (hl : l.Placed live) (hquiet : l.Quiet s)
    (hi : Owned live index.address) (hv : Owned live value.address)
    (hne : index.address ≠ l.region.start) (hrange : (s.cells index.address).toNat < l.length) :
    Takes settings live (l.put index value) () live s
      (s.set (l.element (s.cells index.address).toNat).address (s.cells value.address)) :=
  takes_put_spanning hs hl hquiet hi hv hne (hl.spans hrange)

end Walks

section Elements

theorem takes_forM {α : Type} {f : α → Emit Unit} (items : List α) (g : Nat → Contents)
    (h : ∀ k x, items[k]? = some x → Takes settings live (f x) () live (g k) (g (k + 1))) :
    Takes settings live (items.forM f) () live (g 0) (g items.length) := by
  induction items generalizing g with
  | nil => exact .pure _ _
  | cons x items ih =>
    have hrest := ih (fun k => g (k + 1)) fun k y hy => h (k + 1) y hy
    exact .bind (h 0 x rfl) hrest

/-- What the tape holds after the first `k` elements of a list were copied. -/
def copied (s : Contents) (l source : CellList) (k : Nat) : Contents :=
  { s with cells := fun x =>
      if l.region.start + 4 ≤ x ∧ x < l.region.start + 4 + k then
        s.cells (x - l.region.start + source.region.start)
      else s.cells x }

theorem copied_cells (s : Contents) (l source : CellList) (k : Nat) (x : Int) :
    (copied s l source k).cells x =
      if l.region.start + 4 ≤ x ∧ x < l.region.start + 4 + k then
        s.cells (x - l.region.start + source.region.start)
      else s.cells x := rfl

theorem values_copied (s : Contents) (l source : CellList) (hlength : source.length = l.length) :
    l.values (copied s l source l.length) = source.values s := by
  simp only [values, elements, List.map_map, hlength]
  refine List.map_congr_left fun k hk => ?_
  have hlt := List.mem_range.1 hk
  have haddress : l.region.start + 4 + k - l.region.start + source.region.start =
      source.region.start + 4 + k := by omega
  simp only [Function.comp_apply, element_address]
  rw [copied_cells, if_pos (by omega), haddress]

/-- The elements of two different lists in use are different cells. -/
theorem Placed.apart (hl : l.Placed live) (hsource : source.Placed live) (hpacked : Packed live)
    (hne : l.region ≠ source.region) {x : Int} (hx : l.region.start ≤ x)
    (hx' : x < l.region.start + 4 + l.length) :
    x < source.region.start ∨ source.region.start + 4 + source.length ≤ x := by
  by_contra hboth
  have hstop := hl.stop
  have hstop' := hsource.stop
  exact hne (hpacked.eq_of_owned hl.mem hsource.mem ⟨hx, by omega⟩ ⟨by omega, by omega⟩)

theorem takes_set (hs : Ready live s) (hl : l.Placed live) (hsource : source.Placed live)
    (hlength : source.length = l.length) :
    Takes settings live (l.set source) () live s (copied s l source l.length) := by
  unfold set
  by_cases hne : l.region = source.region
  · rw [if_neg (not_not.2 hne)]
    refine (Takes.pure _ _).to (Contents.ext (funext fun z => ?_) rfl rfl)
    have haddress : z - l.region.start + source.region.start = z := by
      rw [hne]
      omega
    rw [copied_cells, haddress, ite_self]
  · rw [if_pos hne]
    have hready (k : Nat) (hk : k ≤ l.length) : Ready live (copied s l source k) := by
      refine ⟨hs.packed, fun x hx => ?_⟩
      have hout : ¬(l.region.start + 4 ≤ x ∧ x < l.region.start + 4 + k) := by
        intro hin
        exact hx (hl.owned (by omega) (by omega))
      rw [copied_cells, if_neg hout]
      exact hs.clean x hx
    have hstep (k j : Nat) (hj : (List.range l.length)[k]? = some j) :
        Takes settings live ((l.element j).set (source.element j)) () live (copied s l source k)
          (copied s l source (k + 1)) := by
      obtain ⟨hk, rfl⟩ : k < l.length ∧ k = j := by
        obtain ⟨hk, hget⟩ := List.getElem?_eq_some_iff.1 hj
        rw [List.getElem_range] at hget
        exact ⟨by simpa using hk, hget⟩
      have hapart := hsource.apart hl hs.packed (Ne.symm hne)
        (x := (source.element k).address) (by rw [element_address]; omega)
        (by rw [element_address]; omega)
      refine (Cell.takes_set (hready k (by omega)) (hl.owned_element hk)
        (hsource.owned_element (by omega))).to ?_
      refine Contents.ext (funext fun z => ?_) rfl rfl
      simp only [Contents.set_cells, copied_cells, element_address] at hapart ⊢
      grind
    have hall := takes_forM (List.range l.length) (fun k => copied s l source k) hstep
    have hstart : copied s l source 0 = s := by
      refine Contents.ext (funext fun z => ?_) rfl rfl
      rw [copied_cells]
      grind
    rwa [hstart, List.length_range] at hall

theorem takes_forM_write {op : Cell → Emit Unit} {form : UInt8 → List UInt8}
    (hop : ∀ c s, Ready live s → Owned live c.address →
      Takes settings live (op c) () live s (s.write (form (s.cells c.address))))
    (hs : Ready live s) {cells : List Cell} (hcells : ∀ c ∈ cells, Owned live c.address) :
    Takes settings live (cells.forM op) () live s
      (s.write (cells.flatMap fun c => form (s.cells c.address))) := by
  induction cells generalizing s with
  | nil =>
    refine (Takes.pure _ _).to (Contents.ext rfl rfl ?_)
    simp
  | cons c cells ih =>
    obtain ⟨hc, hcells⟩ := List.forall_mem_cons.1 hcells
    refine .bind (hop c s hs hc) ((ih (hs.write _) hcells).to (Contents.ext rfl rfl ?_))
    simp

/-- Prints the elements one after the other. -/
theorem takes_printWith {op : Cell → Emit Unit} {form : UInt8 → List UInt8}
    (hop : ∀ c s, Ready live s → Owned live c.address →
      Takes settings live (op c) () live s (s.write (form (s.cells c.address))))
    (hs : Ready live s) (hl : ∀ k < l.length, Owned live (l.element k).address) :
    Takes settings live (l.elements.forM op) () live s (s.write ((l.values s).flatMap form)) := by
  have hcells : ∀ c ∈ l.elements, Owned live c.address := by
    intro c hc
    obtain ⟨k, hk, rfl⟩ := List.mem_map.1 hc
    exact hl k (List.mem_range.1 hk)
  refine (takes_forM_write hop hs hcells).to ?_
  rw [values, List.flatMap_map]

end Elements

end Goat.CellList
