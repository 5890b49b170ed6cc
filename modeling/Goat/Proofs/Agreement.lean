import Goat.Proofs.Realization

/-!
# Tapes that agree with a state

The contents of the tape agree with a state of the semantics if the variables on the tape
hold what the store says and every cell that is not in use is zero. Variables that are not
declared yet hold their initial value, so declaring them keeps the agreement.
-/

namespace Goat

open Plain (Settings Contents)
open Reference (Store State Outcome Stuck)

/-- The tape agrees with the state. Names that are not declared hold what `initial` says. -/
structure Agrees (initial : Store) (D : Declared) (live : List Region) (ρ : State)
    (s : Contents) : Prop where
  ready : Ready live s
  holds : Represents D ρ.store s
  input : s.input = ρ.input
  output : s.output = ρ.output
  rest : ∀ name, D.find? name = none → ρ.store name = initial name

/-- Cells in use that belong to no variable are kept. -/
def Keeps (D : Declared) (live : List Region) (s s' : Contents) : Prop :=
  ∀ x, Owned live x → ¬Owned D.regions x → s'.cells x = s.cells x

/-- The variables are zero at first. -/
def Zeroed (initial : Store) (D : Declared) : Prop :=
  ∀ name v, (name, v) ∈ D → initial name = some v.kind.zero

theorem Variable.value_zero {v : Variable} {live : List Region} {s : Contents} (hv : v.Placed live)
    (h : ∀ x, v.region.start ≤ x → x ≤ v.region.stop → s.cells x = 0) :
    v.value s = v.kind.zero := by
  cases v with
  | int c => exact congrArg Reference.Value.int (h c.address (Int.le_refl _) (Int.le_refl _))
  | list l =>
    have hstop := CellList.Placed.stop hv
    refine congrArg Reference.Value.list (List.eq_replicate_iff.2 ⟨l.length_values s, ?_⟩)
    intro b hb
    obtain ⟨c, hc, rfl⟩ := List.mem_map.1 hb
    obtain ⟨k, hk, rfl⟩ := List.mem_map.1 hc
    have hlt := List.mem_range.1 hk
    apply h
    · simp only [Variable.region, CellList.element_address]
      omega
    · simp only [Variable.region, CellList.element_address]
      omega

theorem Variable.quiet_zero {v : Variable} {live : List Region} {s : Contents} (hv : v.Placed live)
    (h : ∀ x, v.region.start ≤ x → x ≤ v.region.stop → s.cells x = 0) : v.Quiet s := by
  cases v with
  | int c => trivial
  | list l =>
    intro k hk
    have hstop := CellList.Placed.stop hv
    exact h _ (by simp only [Variable.region]; omega) (by simp only [Variable.region]; omega)

theorem Declared.find_append (D new : Declared) (name : Text) :
    Declared.find? (D ++ new) name = (D.find? name).or (new.find? name) := by
  simp [Declared.find?, List.find?_append, Option.map_or]

namespace Agrees

variable {initial : Store} {D new : Declared} {live live' : List Region} {ρ : State}
  {s s' : Contents} {c : Cell}

/-- A temporary may be taken. -/
theorem taken (h : Agrees initial D live ρ s) (hc : c.Taken live live') :
    Agrees initial D live' ρ s := { h with ready := hc.ready h.ready }

/-- A temporary may change. -/
theorem set (h : Agrees initial D live ρ s) (hD : Arranged D live) {x : Int} (hx : Owned live x)
    (hxD : ¬Owned D.regions x) (b : UInt8) : Agrees initial D live ρ (s.set x b) where
  ready := h.ready.set hx b
  holds := h.holds.set hD hxD b
  input := h.input
  output := h.output
  rest := h.rest

theorem write (h : Agrees initial D live ρ s) (text : List UInt8) :
    Agrees initial D live (ρ.write text) (s.write text) where
  ready := h.ready.write text
  holds := ⟨h.holds.holds, h.holds.quiet⟩
  input := h.input
  output := by
    show s.output ++ text = ρ.output ++ text
    rw [h.output]
  rest := h.rest

/-- The input may go on. -/
theorem withInput (h : Agrees initial D live ρ s) (input : List UInt8) :
    Agrees initial D live { ρ with input } (s.withInput input) where
  ready := h.ready.withInput input
  holds := ⟨h.holds.holds, h.holds.quiet⟩
  input := rfl
  output := h.output
  rest := h.rest

/-- A temporary may be given back. -/
theorem release (h : Agrees initial D live ρ s) (hD : Arranged D live)
    (hcD : ¬Owned D.regions c.address) :
    Agrees initial D (live.erase c.region) ρ (s.set c.address 0) where
  ready := by
    refine ⟨hD.packed.erase _, fun x hx => ?_⟩
    by_cases hxc : x = c.address
    · rw [hxc, Contents.set_cells_self]
    · rw [Contents.set_cells_of_ne _ _ hxc]
      refine h.ready.clean x fun hown => hx ?_
      obtain ⟨r, hr, hx'⟩ := hown
      have hne : r ≠ c.region := by
        rintro rfl
        exact hxc (Int.le_antisymm hx'.2 hx'.1)
      exact ⟨r, hD.packed.nodup.mem_erase_iff.2 ⟨hne, hr⟩, hx'⟩
  holds := h.holds.set hD hcD 0
  input := h.input
  output := h.output
  rest := h.rest

/-- Variables may be declared in cells that were not in use. -/
theorem grow (h : Agrees initial D live ρ s) (hgrown : Grown D live new live')
    (hzero : Zeroed initial (D ++ new)) : Agrees initial (D ++ new) live' ρ s where
  ready := h.ready.mono hgrown.arranged.packed fun x hx => hgrown.owned hx
  holds := by
    have hclean (name : Text) (v : Variable) (hv : (name, v) ∈ new) (x : Int)
        (hx : v.region.start ≤ x) (hx' : x ≤ v.region.stop) : s.cells x = 0 :=
      h.ready.clean x (hgrown.free x (Declared.owned_of_mem hv hx hx'))
    constructor
    · intro name v hv
      rcases List.mem_append.1 hv with hold | hnew
      · exact h.holds.holds name v hold
      · have hfind : D.find? name = none := by
          cases hfind : D.find? name with
          | none => rfl
          | some w =>
            have hnames := hgrown.arranged.names
            rw [List.map_append] at hnames
            have hw : name ∈ D.map Prod.fst :=
              List.mem_map.2 ⟨_, Declared.mem_of_find hfind, rfl⟩
            exact absurd (List.mem_map.2 ⟨_, hnew, rfl⟩) (List.disjoint_of_nodup_append hnames hw)
        rw [h.rest name hfind, hzero name v hv,
          Variable.value_zero (hgrown.arranged.placed name v hv) (hclean name v hnew)]
    · intro name v hv
      rcases List.mem_append.1 hv with hold | hnew
      · exact h.holds.quiet name v hold
      · exact Variable.quiet_zero (hgrown.arranged.placed name v hv) (hclean name v hnew)
  input := h.input
  output := h.output
  rest name hname := by
    rw [Declared.find_append, Option.or_eq_none_iff] at hname
    exact h.rest name hname.1

/-- A declared variable may change. -/
theorem store (h : Agrees initial D live ρ s) (hD : Arranged D live) {name : Text} {v : Variable}
    (hv : D.find? name = some v) {σ' : Store} (hσ' : Represents D σ' s')
    (hother : ∀ other, other ≠ name → σ' other = ρ.store other) (hchanges : Changes v s s') :
    Agrees initial D live { ρ with store := σ' } s' ∧ Keeps D live s s' := by
  have hmem := Declared.mem_of_find hv
  have hregion := (hD.placed name v hmem).mem
  refine ⟨⟨⟨hD.packed, fun x hx => ?_⟩, hσ', ?_, ?_, fun other hfind => ?_⟩, fun x _ hx => ?_⟩
  · rw [hchanges.cells x fun hin => hx ⟨_, hregion, hin⟩]
    exact h.ready.clean x hx
  · exact hchanges.input.trans h.input
  · exact hchanges.output.trans h.output
  · have hne : other ≠ name := by
      rintro rfl
      rw [hv] at hfind
      cases hfind
    exact (hother other hne).trans (h.rest other hfind)
  · exact hchanges.cells x fun hin => hx (Declared.owned_of_mem hmem hin.1 hin.2)

theorem store_int (h : Agrees initial D live ρ s) (hD : Arranged D live) {name : Text}
    (hc : D.find? name = some (.int c)) (b : UInt8) :
    Agrees initial D live { ρ with store := ρ.store.set name (.int b) } (s.set c.address b) ∧
      Keeps D live s (s.set c.address b) :=
  h.store hD hc (h.holds.store_int hD (Declared.mem_of_find hc) b) (fun _ hne => if_neg hne)
    (.set (Int.le_refl _) (Int.le_refl _) s b)

theorem store_element (h : Agrees initial D live ρ s) (hD : Arranged D live) {name : Text}
    {l : CellList} (hl : D.find? name = some (.list l)) {k : Nat} (hk : k < l.length) (b : UInt8) :
    Agrees initial D live { ρ with store := ρ.store.set name (.list ((l.values s).set k b)) }
        (s.set (l.element k).address b) ∧
      Keeps D live s (s.set (l.element k).address b) := by
  have hstop := (hD.placed_list hl).stop
  have hchanges : Changes (.list l) s (s.set (l.element k).address b) := by
    refine .set ?_ ?_ s b
    · simp only [Variable.region, CellList.element_address]
      omega
    · simp only [Variable.region, CellList.element_address]
      omega
  exact h.store hD hl (h.holds.store_element hD (Declared.mem_of_find hl) hk b)
    (fun _ hne => if_neg hne) hchanges

end Agrees

namespace Keeps

variable {D new : Declared} {live live₁ : List Region} {s s₁ s₂ : Contents}

theorem refl (D : Declared) (live : List Region) (s : Contents) : Keeps D live s s :=
  fun _ _ _ => rfl

theorem trans (h₁ : Keeps D live s s₁) (hgrown : Grown D live new live₁)
    (h₂ : Keeps (D ++ new) live₁ s₁ s₂) : Keeps D live s s₂ := fun x hx hxD =>
  (h₂ x (hgrown.owned hx) (hgrown.not_owned hx hxD)).trans (h₁ x hx hxD)

end Keeps

/-- The step realizes a run: its code does what the run says, and declares `new`. -/
structure Realizes (settings : Settings) (initial : Store) (D : Declared) (live : List Region)
    (m : TryEmit Unit) (new : Declared) (live' : List Region) (run : Nat → State → Outcome) :
    Prop where
  builds : TryBuilds D live m new live'
  grown : Grown D live new live'
  runs : Zeroed initial (D ++ new) → ∀ fuel ρ s, Agrees initial D live ρ s →
    TryRuns settings D live m new live' fuel s
      (fun ρ' s' => Agrees initial (D ++ new) live' ρ' s' ∧ Keeps D live s s') (run fuel ρ)

/-- The step realizes a run each time its code is gone through, also when the variables it
    declares are in use already. -/
structure Repeats (settings : Settings) (initial : Store) (D : Declared) (live : List Region)
    (m : TryEmit Unit) (new : Declared) (live' : List Region) (run : Nat → State → Outcome) :
    Prop where
  builds : TryBuilds D live m new live'
  grown : Grown D live new live'
  runs : Zeroed initial (D ++ new) → ∀ fuel ρ s, Agrees initial (D ++ new) live' ρ s →
    TryRuns settings D live m new live' fuel s
      (fun ρ' s' => Agrees initial (D ++ new) live' ρ' s' ∧ Keeps D live s s') (run fuel ρ)

namespace Realizes

variable {settings : Settings} {initial : Store} {D new new' : Declared}
  {live live₁ live₂ : List Region} {m k : TryEmit Unit} {run run' : Nat → State → Outcome}

theorem pure (hD : Arranged D live) :
    Realizes settings initial D live (pure ()) [] live fun _ ρ => .done ρ where
  builds := TryLeaves.builds (.pure ())
  grown := .refl hD
  runs hzero fuel ρ s hs := by
    refine ⟨s, TryTakes.transforms (.pure () s), hs.grow (.refl hD) hzero, .refl D live s⟩

theorem andThen (h : Realizes settings initial D live m new live₁ run)
    (hk : Realizes settings initial (D ++ new) live₁ k new' live₂ run') :
    Realizes settings initial D live (do m; k) (new ++ new') live₂
      fun fuel ρ => (run fuel ρ).andThen (run' fuel) where
  builds := h.builds.bind hk.builds
  grown := h.grown.trans hk.grown
  runs hzero fuel ρ s hs := by
    rw [← List.append_assoc] at hzero ⊢
    have hzero' : Zeroed initial (D ++ new) := fun name v hv =>
      hzero name v (List.mem_append_left _ hv)
    refine (h.runs hzero' fuel ρ s hs).bind hk.builds fun ρ₁ s₁ hs₁ => ?_
    refine (hk.runs hzero fuel ρ₁ s₁ hs₁.1).mono fun ρ₂ s₂ hs₂ => ⟨hs₂.1, ?_⟩
    exact hs₁.2.trans h.grown hs₂.2

/-- What declares nothing can be gone through again. -/
theorem repeats (h : Realizes settings initial D live m [] live₁ run) (hlive : Packed live) :
    Repeats settings initial D live m [] live₁ run where
  builds := h.builds
  grown := h.grown
  runs hzero fuel ρ s hs := by
    rw [h.grown.eq_of_nil hlive, List.append_nil] at hs
    exact h.runs hzero fuel ρ s hs

end Realizes

end Goat
