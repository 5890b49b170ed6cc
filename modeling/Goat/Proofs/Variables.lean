import Goat.Proofs.Lists
import Goat.Proofs.Scope
import Mathlib.Data.List.Nodup

/-!
# Variables on the tape

Every declared variable has cells of its own, which hold what the store of the semantics
says. Storing in one variable leaves the others alone.
-/

namespace Goat

open Plain (Settings Contents)
open Reference (Store Value)

namespace Variable

/-- The kind of a variable. -/
def kind : Variable → Kind
  | int _ => .int
  | list l => .list l.length

/-- What the variable holds. -/
def value (s : Contents) : Variable → Value
  | int c => .int (s.cells c.address)
  | list l => .list (l.values s)

/-- The variable is in use. -/
def Placed (live : List Region) : Variable → Prop
  | int c => c.region ∈ live
  | list l => l.Placed live

/-- The scratch cells of the variable, if it has any, are zero. -/
def Quiet (s : Contents) : Variable → Prop
  | int _ => True
  | list l => l.Quiet s

variable {live live' : List Region} {s s' : Contents} {v : Variable}

theorem Placed.mem (h : v.Placed live) : v.region ∈ live := by
  cases v with
  | int c => exact h
  | list l => exact CellList.Placed.mem h

theorem Placed.mono (h : v.Placed live) (hsub : ∀ r ∈ live, r ∈ live') : v.Placed live' := by
  cases v with
  | int c => exact hsub _ h
  | list l => exact CellList.Placed.mono h hsub

/-- What a variable holds depends on its own cells only. -/
theorem value_congr (hv : v.Placed live)
    (h : ∀ x, v.region.start ≤ x → x ≤ v.region.stop → s'.cells x = s.cells x) :
    v.value s' = v.value s := by
  cases v with
  | int c => exact congrArg Value.int (h c.address (Int.le_refl _) (Int.le_refl _))
  | list l =>
    refine congrArg Value.list (List.map_congr_left fun c hc => ?_)
    obtain ⟨k, hk, rfl⟩ := List.mem_map.1 hc
    have hlt := List.mem_range.1 hk
    have hstop := CellList.Placed.stop hv
    apply h
    · simp only [region, CellList.element_address]
      omega
    · simp only [region, CellList.element_address]
      omega

theorem Quiet.congr (hq : v.Quiet s) (hv : v.Placed live)
    (h : ∀ x, v.region.start ≤ x → x ≤ v.region.stop → s'.cells x = s.cells x) : v.Quiet s' := by
  cases v with
  | int c => trivial
  | list l =>
    intro k hk
    have hstop := CellList.Placed.stop hv
    rw [h _ (by simp only [region]; omega) (by simp only [region]; omega)]
    exact hq k hk

end Variable

/-- Variables with their names. -/
abbrev Declared := List (Text × Variable)

namespace Declared

/-- The variable of a name. -/
def find? (D : Declared) (name : Text) : Option Variable :=
  (List.find? (fun entry => entry.1 == name) D).map Prod.snd

/-- The variables in scope. -/
def scope (D : Declared) : Scope := fun name => (D.find? name).map Variable.kind

/-- The regions of the variables. -/
def regions (D : Declared) : List Region := D.map fun entry => entry.2.region

variable {D : Declared} {name : Text} {v : Variable}

theorem mem_of_find (h : D.find? name = some v) : (name, v) ∈ D := by
  rw [find?, Option.map_eq_some_iff] at h
  obtain ⟨entry, hfind, rfl⟩ := h
  have hname : entry.1 = name := by simpa using List.find?_some hfind
  rw [← hname]
  exact List.mem_of_find?_eq_some hfind

theorem not_mem_of_find (h : D.find? name = none) (v : Variable) : (name, v) ∉ D := by
  intro hmem
  rw [find?, Option.map_eq_none_iff, List.find?_eq_none] at h
  exact h _ hmem (by simp)

theorem exists_int (h : D.scope name = some .int) : ∃ c, D.find? name = some (.int c) := by
  obtain ⟨v, hv, hkind⟩ := Option.map_eq_some_iff.1 h
  cases v with
  | int c => exact ⟨c, hv⟩
  | list l => cases hkind

theorem exists_list {n : Nat} (h : D.scope name = some (.list n)) :
    ∃ l, D.find? name = some (.list l) ∧ l.length = n := by
  obtain ⟨v, hv, hkind⟩ := Option.map_eq_some_iff.1 h
  cases v with
  | int c => cases hkind
  | list l => exact ⟨l, hv, Kind.list.inj hkind⟩

theorem owned_of_mem (hv : (name, v) ∈ D) {x : Int} (hx : v.region.start ≤ x)
    (hx' : x ≤ v.region.stop) : Owned D.regions x :=
  ⟨v.region, List.mem_map.2 ⟨_, hv, rfl⟩, hx, hx'⟩

end Declared

/-- Every variable has a name and cells of its own among those in use. -/
structure Arranged (D : Declared) (live : List Region) : Prop where
  packed : Packed live
  placed : ∀ name v, (name, v) ∈ D → v.Placed live
  regions : D.regions.Nodup
  names : (D.map Prod.fst).Nodup

/-- The cells of the variables hold what the store says. -/
structure Represents (D : Declared) (σ : Store) (s : Contents) : Prop where
  holds : ∀ name v, (name, v) ∈ D → σ name = some (v.value s)
  quiet : ∀ name v, (name, v) ∈ D → v.Quiet s

namespace Arranged

variable {D : Declared} {live live' : List Region} {name : Text} {v v' : Variable}

theorem eq_of_name (h : Arranged D live) (hv : (name, v) ∈ D) (hv' : (name, v') ∈ D) : v = v' := by
  have hentry := List.inj_on_of_nodup_map h.names hv hv' rfl
  exact (Prod.mk.inj hentry).2

theorem find_of_mem (h : Arranged D live) (hv : (name, v) ∈ D) : D.find? name = some v := by
  cases hfind : D.find? name with
  | none => exact absurd hv (Declared.not_mem_of_find hfind v)
  | some v' => rw [h.eq_of_name (Declared.mem_of_find hfind) hv]

theorem owned (h : Arranged D live) {x : Int} (hx : Owned D.regions x) : Owned live x := by
  obtain ⟨r, hr, hx⟩ := hx
  obtain ⟨⟨name, v⟩, hv, rfl⟩ := List.mem_map.1 hr
  exact ⟨_, (h.placed name v hv).mem, hx⟩

/-- Two variables that share a cell are the same. -/
theorem eq_of_cell (h : Arranged D live) {name' : Text} (hv : (name, v) ∈ D)
    (hv' : (name', v') ∈ D) {x : Int} (hx : v.region.start ≤ x ∧ x ≤ v.region.stop)
    (hx' : v'.region.start ≤ x ∧ x ≤ v'.region.stop) : name = name' := by
  have hregion := h.packed.eq_of_owned (h.placed name v hv).mem (h.placed name' v' hv').mem hx hx'
  exact (Prod.mk.inj (List.inj_on_of_nodup_map h.regions hv hv' hregion)).1

theorem nil : Arranged [] [] where
  packed := .nil
  placed := by simp
  regions := .nil
  names := .nil

theorem mono (h : Arranged D live) (hpacked : Packed live') (hsub : ∀ r ∈ live, r ∈ live') :
    Arranged D live' where
  packed := hpacked
  placed name v hv := (h.placed name v hv).mono hsub
  regions := h.regions
  names := h.names

theorem taken (h : Arranged D live) {c : Cell} (hc : c.Taken live live') : Arranged D live' :=
  h.mono hc.fresh.packed fun r hr => (hc.fresh.mem_iff r).2 (.inr hr)

theorem owned_int (h : Arranged D live) {c : Cell} (hc : D.find? name = some (.int c)) :
    Owned live c.address :=
  ⟨c.region, h.placed name _ (Declared.mem_of_find hc), Int.le_refl _, Int.le_refl _⟩

theorem placed_list (h : Arranged D live) {l : CellList} (hl : D.find? name = some (.list l)) :
    l.Placed live := h.placed name _ (Declared.mem_of_find hl)

/-- A cell that was just taken belongs to no variable. -/
theorem not_owned (h : Arranged D live) {c : Cell} (hc : c.Taken live live') :
    ¬Owned D.regions c.address := fun hown => hc.ne (h.owned hown) rfl


end Arranged

namespace Represents

variable {D : Declared} {live : List Region} {s s' : Contents} {σ : Store} {name : Text}
  {v : Variable}

theorem fills (h : Represents D σ s) : σ.Fills D.scope := by
  intro name kind hkind
  obtain ⟨v, hv, rfl⟩ := Option.map_eq_some_iff.1 hkind
  rw [h.holds name v (Declared.mem_of_find hv)]
  cases v with
  | int c => rfl
  | list l => simp [Variable.value, Reference.Value.kind, Variable.kind]

theorem byte (h : Represents D σ s) {c : Cell} (hc : D.find? name = some (.int c)) :
    σ.byte name = .ok (s.cells c.address) := by
  rw [Store.byte, h.holds name _ (Declared.mem_of_find hc)]
  rfl

theorem bytes (h : Represents D σ s) {l : CellList} (hl : D.find? name = some (.list l)) :
    σ.bytes name = .ok (l.values s) := by
  rw [Store.bytes, h.holds name _ (Declared.mem_of_find hl)]
  rfl

theorem quiet_list (h : Represents D σ s) {l : CellList} (hl : D.find? name = some (.list l)) :
    l.Quiet s := h.quiet name _ (Declared.mem_of_find hl)

/-- Cells of no variable do not matter. -/
theorem congr (h : Represents D σ s) (hD : Arranged D live)
    (hcells : ∀ x, Owned D.regions x → s'.cells x = s.cells x) : Represents D σ s' where
  holds name v hv := by
    have hsame := Variable.value_congr (hD.placed name v hv) fun x hx hx' =>
      hcells x (Declared.owned_of_mem hv hx hx')
    rw [h.holds name v hv, hsame]
  quiet name v hv := (h.quiet name v hv).congr (hD.placed name v hv) fun x hx hx' =>
    hcells x (Declared.owned_of_mem hv hx hx')

/-- So a temporary may change. -/
theorem set (h : Represents D σ s) (hD : Arranged D live) {x : Int} (hx : ¬Owned D.regions x)
    (b : UInt8) : Represents D σ (s.set x b) := by
  refine h.congr hD fun y hy => Contents.set_cells_of_ne s b ?_
  rintro rfl
  exact hx hy

/-- A change to the cells of one variable changes what that variable holds. -/
theorem store (h : Represents D σ s) (hD : Arranged D live) (hv : (name, v) ∈ D)
    (hquiet : v.Quiet s')
    (hcells : ∀ x, Owned D.regions x → ¬(v.region.start ≤ x ∧ x ≤ v.region.stop) →
      s'.cells x = s.cells x) :
    Represents D (σ.set name (v.value s')) s' := by
  have hother (name' : Text) (v' : Variable) (hv' : (name', v') ∈ D) (hne : name' ≠ name)
      (x : Int) (hx : v'.region.start ≤ x) (hx' : x ≤ v'.region.stop) : s'.cells x = s.cells x := by
    refine hcells x (Declared.owned_of_mem hv' hx hx') fun hboth => hne ?_
    exact hD.eq_of_cell hv' hv ⟨hx, hx'⟩ hboth
  constructor
  · intro name' v' hv'
    by_cases hname : name' = name
    · subst hname
      rw [hD.eq_of_name hv' hv, Store.set, if_pos rfl]
    · rw [Store.set, if_neg hname, h.holds name' v' hv',
        Variable.value_congr (hD.placed name' v' hv') (hother name' v' hv' hname)]
  · intro name' v' hv'
    by_cases hname : name' = name
    · subst hname
      rw [hD.eq_of_name hv' hv]
      exact hquiet
    · exact (h.quiet name' v' hv').congr (hD.placed name' v' hv') (hother name' v' hv' hname)

theorem store_int (h : Represents D σ s) (hD : Arranged D live) {c : Cell}
    (hc : (name, .int c) ∈ D) (b : UInt8) :
    Represents D (σ.set name (.int b)) (s.set c.address b) := by
  have hstore : Represents D (σ.set name (.int ((s.set c.address b).cells c.address))) _ :=
    h.store hD hc trivial fun x _ hx => Contents.set_cells_of_ne s b ?_
  · rwa [Contents.set_cells_self] at hstore
  · rintro rfl
    exact hx ⟨Int.le_refl _, Int.le_refl _⟩

theorem store_element (h : Represents D σ s) (hD : Arranged D live) {l : CellList}
    (hl : (name, .list l) ∈ D) {k : Nat} (hk : k < l.length) (b : UInt8) :
    Represents D (σ.set name (.list ((l.values s).set k b)))
      (s.set (l.element k).address b) := by
  have hplaced : l.Placed live := hD.placed name _ hl
  have hquiet : l.Quiet (s.set (l.element k).address b) := by
    intro j hj
    rw [Contents.set_cells_of_ne _ _ (by rw [CellList.element_address]; omega)]
    exact h.quiet name _ hl j hj
  rw [← l.values_set s _ b]
  refine h.store hD hl hquiet fun x _ hx => Contents.set_cells_of_ne s b ?_
  rintro rfl
  have hstop := hplaced.stop
  simp only [Variable.region, CellList.element_address] at hx
  omega

end Represents

end Goat
