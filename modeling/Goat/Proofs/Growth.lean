import Goat.Proofs.Assignments

/-!
# Steps that declare variables

A statement gives back every temporary it takes, so the regions in use grow by those of the
variables it declares.
-/

namespace Goat

open Plain (Settings Contents)

/-- Packed regions are determined by which regions they are. -/
theorem Packed.ext {live live' : List Region} (h : Packed live) (h' : Packed live')
    (hmem : ∀ r, r ∈ live' ↔ r ∈ live) : live' = live := by
  have hperm : live'.Perm live := (List.perm_ext_iff_of_nodup h'.nodup h.nodup).2 hmem
  refine hperm.eq_of_pairwise (fun r s hr hs hrs hsr => ?_) h'.apart h.apart
  have := h'.start_le_stop r hr
  have := h.start_le_stop s hs
  omega

/-- The regions `live'` are `live` and those of the variables `new`, which were free. -/
structure Grown (D : Declared) (live : List Region) (new : Declared) (live' : List Region) :
    Prop where
  arranged : Arranged (D ++ new) live'
  mem_iff : ∀ r, r ∈ live' ↔ r ∈ live ∨ r ∈ new.regions
  free : ∀ x, Owned new.regions x → ¬Owned live x

theorem Declared.regions_append (D new : Declared) :
    Declared.regions (D ++ new) = D.regions ++ new.regions := List.map_append

theorem owned_append {live new : List Region} {x : Int} :
    Owned (live ++ new) x ↔ Owned live x ∨ Owned new x := by
  simp only [Owned, List.mem_append]
  constructor
  · rintro ⟨r, hr | hr, hx⟩
    · exact .inl ⟨r, hr, hx⟩
    · exact .inr ⟨r, hr, hx⟩
  · rintro (⟨r, hr, hx⟩ | ⟨r, hr, hx⟩)
    · exact ⟨r, .inl hr, hx⟩
    · exact ⟨r, .inr hr, hx⟩

namespace Grown

variable {D new new' : Declared} {live live₁ live₂ live' : List Region}

theorem refl (h : Arranged D live) : Grown D live [] live where
  arranged := by rwa [List.append_nil]
  mem_iff r := by simp [Declared.regions]
  free x hx := by
    obtain ⟨r, hr, -⟩ := hx
    cases hr

theorem owned_iff (h : Grown D live new live') (x : Int) :
    Owned live' x ↔ Owned live x ∨ Owned new.regions x := by
  rw [← owned_append]
  simp only [Owned, List.mem_append, h.mem_iff]

theorem owned (h : Grown D live new live') {x : Int} (hx : Owned live x) : Owned live' x :=
  (h.owned_iff x).2 (.inl hx)

/-- A cell that was in use and belonged to no variable still belongs to none. -/
theorem not_owned (h : Grown D live new live') {x : Int} (hx : Owned live x)
    (hD : ¬Owned D.regions x) : ¬Owned (Declared.regions (D ++ new)) x := by
  rw [Declared.regions_append, owned_append]
  rintro (hold | hnew)
  · exact hD hold
  · exact h.free x hnew hx

theorem trans (h₁ : Grown D live new live₁) (h₂ : Grown (D ++ new) live₁ new' live₂) :
    Grown D live (new ++ new') live₂ where
  arranged := by
    rw [← List.append_assoc]
    exact h₂.arranged
  mem_iff r := by
    rw [h₂.mem_iff, h₁.mem_iff, Declared.regions_append, List.mem_append, or_assoc]
  free x hx := by
    rw [Declared.regions_append, owned_append] at hx
    rcases hx with hx | hx
    · exact h₁.free x hx
    · exact fun hold => h₂.free x hx (h₁.owned hold)

/-- A step that declares nothing leaves the regions as they were. -/
theorem eq_of_nil (h : Grown D live [] live') (hlive : Packed live) : live' = live := by
  refine hlive.ext h.arranged.packed fun r => ?_
  simpa [Declared.regions] using h.mem_iff r

/-- A temporary can be given back. -/
theorem release (h : Grown D live₁ new live₂) (hD : Arranged D live) {c : Cell}
    (hc : c.Taken live live₁) : Grown D live new (live₂.erase c.region) := by
  have hpacked := h.arranged.packed
  have hown : Owned live₁ c.address := hc.self
  have hnot := h.not_owned hown (hD.not_owned hc)
  have hne (r : Region) (hr : r ∈ Declared.regions (D ++ new)) : r ≠ c.region := by
    rintro rfl
    exact hnot ⟨c.region, hr, Int.le_refl _, Int.le_refl _⟩
  have hmem (r : Region) (hr : r ∈ live₂) (hr' : r ≠ c.region) : r ∈ live₂.erase c.region :=
    hpacked.nodup.mem_erase_iff.2 ⟨hr', hr⟩
  constructor
  · refine ⟨hpacked.erase _, fun name v hv => ?_, h.arranged.regions, h.arranged.names⟩
    have hplaced := h.arranged.placed name v hv
    have hkept := hmem _ hplaced.mem (hne _ (List.mem_map.2 ⟨_, hv, rfl⟩))
    cases v with
    | int t => exact hkept
    | list l => exact ⟨hkept, hplaced.stop, hplaced.length_pos, hplaced.length_lt⟩
  · intro r
    rw [hpacked.nodup.mem_erase_iff, h.mem_iff, hc.fresh.mem_iff]
    constructor
    · rintro ⟨hr, (rfl | hold) | hnew⟩
      · exact absurd rfl hr
      · exact .inl hold
      · exact .inr hnew
    · rintro (hold | hnew)
      · exact ⟨fun heq => hc.fresh.not_mem (heq ▸ hold), .inl (.inr hold)⟩
      · refine ⟨hne r ?_, .inr hnew⟩
        rw [Declared.regions_append]
        exact List.mem_append_right _ hnew
  · exact fun x hx hold => h.free x hx (hc.old hold)

/-- A variable can be declared in fresh cells. -/
theorem declare (hD : Arranged D live) {name : Text} (hname : D.find? name = none) {v : Variable}
    (hfresh : Fresh live v.region live') (hv : v.Placed live') :
    Grown D live [(name, v)] live' where
  arranged := by
    have hold := hD.mono hfresh.packed fun r hr => (hfresh.mem_iff r).2 (.inr hr)
    refine ⟨hfresh.packed, fun other w hw => ?_, ?_, ?_⟩
    · rcases List.mem_append.1 hw with hw | hw
      · exact hold.placed other w hw
      · cases List.mem_singleton.1 hw
        exact hv
    · rw [Declared.regions_append]
      refine hD.regions.append (List.nodup_singleton _) fun r hr hr' => ?_
      cases List.mem_singleton.1 hr'
      obtain ⟨⟨other, w⟩, hw, hregion⟩ := List.mem_map.1 hr
      have hmem := (hD.placed other w hw).mem
      rw [hregion] at hmem
      exact hfresh.not_mem hmem
    · rw [List.map_append]
      refine hD.names.append (List.nodup_singleton _) fun other hother hother' => ?_
      cases List.mem_singleton.1 hother'
      obtain ⟨⟨other, w⟩, hw, rfl⟩ := List.mem_map.1 hother
      exact Declared.not_mem_of_find hname w hw
  mem_iff r := by
    rw [hfresh.mem_iff, or_comm]
    simp [Declared.regions]
  free x hx := by
    obtain ⟨r, hr, hx, hx'⟩ := hx
    cases List.mem_singleton.1 hr
    exact hfresh.free x hx hx'

end Grown

/-- `e'` is reached from `e` by a step that leaves the variables `D'` declared and the regions
    `live'` in use. -/
structure Built (e e' : Emitter) (D' : Declared) (live' : List Region) : Prop where
  grows : Extends e e'
  live : e'.layout.live = live'
  declared : e'.declared = D'

theorem Built.trans {e e₁ e₂ : Emitter} {D₁ D₂ : Declared} {live₁ live₂ : List Region}
    (h₁ : Built e e₁ D₁ live₁) (h₂ : Built e₁ e₂ D₂ live₂) : Built e e₂ D₂ live₂ :=
  ⟨h₁.grows.trans h₂.grows, h₂.live, h₂.declared⟩

/-- With the variables `D` and the regions `live`, the step declares `new` and leaves `live'`
    in use. -/
def TryBuilds (D : Declared) (live : List Region) (m : TryEmit Unit) (new : Declared)
    (live' : List Region) : Prop :=
  ∀ e : Emitter, e.layout.Sound → e.layout.live = live → e.declared = D →
    ∃ e', e.run m = (.ok (), e') ∧ Built e e' (D ++ new) live'

section Judgement

variable {α : Type} {D new new' : Declared} {live live₁ live₂ : List Region}

theorem TryLeaves.builds {m : TryEmit Unit} (h : TryLeaves D live m () live₁) :
    TryBuilds D live m [] live₁ := by
  intro e he hlive hdeclared
  obtain ⟨e₁, hrun, hstep⟩ := h e he hlive hdeclared
  exact ⟨e₁, hrun, hstep.grows, hstep.live, by rw [hstep.declared, hdeclared, List.append_nil]⟩

theorem TryBuilds.leaves {m : TryEmit Unit} (h : TryBuilds D live m [] live₁) :
    TryLeaves D live m () live₁ := by
  intro e he hlive hdeclared
  obtain ⟨e₁, hrun, hstep⟩ := h e he hlive hdeclared
  exact ⟨e₁, hrun, hstep.grows, hstep.live, by rw [hstep.declared, hdeclared, List.append_nil]⟩

theorem TryLeaves.andBuilds {m : TryEmit α} {a : α} {k : α → TryEmit Unit}
    (h : TryLeaves D live m a live₁) (hk : TryBuilds D live₁ (k a) new live₂) :
    TryBuilds D live (m >>= k) new live₂ := by
  intro e he hlive hdeclared
  obtain ⟨e₁, hrun₁, hstep₁⟩ := h e he hlive hdeclared
  obtain ⟨e₂, hrun₂, hstep₂⟩ :=
    hk e₁ hstep₁.grows.sound hstep₁.live (hstep₁.declared.trans hdeclared)
  exact ⟨e₂, (Emitter.run_bind hrun₁).trans hrun₂, hstep₁.grows.trans hstep₂.grows, hstep₂.live,
    hstep₂.declared⟩

theorem TryBuilds.bind {m : TryEmit Unit} {k : Unit → TryEmit Unit}
    (h : TryBuilds D live m new live₁) (hk : TryBuilds (D ++ new) live₁ (k ()) new' live₂) :
    TryBuilds D live (m >>= k) (new ++ new') live₂ := by
  intro e he hlive hdeclared
  obtain ⟨e₁, hrun₁, hstep₁⟩ := h e he hlive hdeclared
  obtain ⟨e₂, hrun₂, hstep₂⟩ := hk e₁ hstep₁.grows.sound hstep₁.live hstep₁.declared
  rw [List.append_assoc] at hstep₂
  exact ⟨e₂, (Emitter.run_bind hrun₁).trans hrun₂, hstep₁.trans hstep₂⟩

theorem TryBuilds.andLeaves {m : TryEmit Unit} {k : Unit → TryEmit Unit}
    (h : TryBuilds D live m new live₁) (hk : TryLeaves (D ++ new) live₁ (k ()) () live₂) :
    TryBuilds D live (m >>= k) new live₂ := by
  have hboth := h.bind hk.builds
  rwa [List.append_nil] at hboth

theorem TryBuilds.andRejects {m : TryEmit Unit} {k : Unit → TryEmit α}
    (h : TryBuilds D live m new live₁) (hk : TryRejects (D ++ new) live₁ (k ())) :
    TryRejects D live (m >>= k) := by
  intro e he hlive hdeclared
  obtain ⟨e₁, hrun₁, hstep₁⟩ := h e he hlive hdeclared
  exact .after hrun₁ (hk e₁ hstep₁.grows.sound hstep₁.live hstep₁.declared)

variable {c : Cell} {body : TryEmit Unit} {e e₂ : Emitter}

theorem Cell.run_openLoop (c : Cell) (e : Emitter) :
    e.run (liftM (Emit.build (·.openLoop c.address)) : TryEmit Unit) =
      (.ok (), e.opened c.address) := rfl

theorem Cell.run_tryLoop (hbody : (e.opened c.address).run body = (.ok (), e₂)) :
    e.run (c.tryLoop body) = (.ok (), e₂.closed c.address) := by
  have hloop : e.run (c.tryLoop body) = (e.opened c.address).run
      (body >>= fun _ => (liftM (Emit.build (·.closeLoop c.address)) : TryEmit Unit)) :=
    Emitter.run_bind (c.run_openLoop e)
  rw [hloop, Emitter.run_bind hbody]
  rfl

theorem TryBuilds.exists_loop (h : TryBuilds D live body new live₁) (hc : Owned live c.address)
    (hc₁ : Owned live₁ c.address) {e : Emitter} (he : e.layout.Sound) (hlive : e.layout.live = live)
    (hdeclared : e.declared = D) :
    ∃ e₂, (e.opened c.address).run body = (.ok (), e₂) ∧ Extends (e.opened c.address) e₂ ∧
      e.run (c.tryLoop body) = (.ok (), e₂.closed c.address) ∧
      Built e (e₂.closed c.address) (D ++ new) live₁ := by
  subst hlive
  obtain ⟨e₂, hrun, hstep⟩ := h (e.opened c.address) (Emitter.opened_sound he hc) rfl hdeclared
  have hgrows := hstep.grows.loop (c := c.address) (by rwa [hstep.live])
  exact ⟨e₂, hrun, hstep.grows, Cell.run_tryLoop hrun, hgrows, hstep.live, hstep.declared⟩

theorem TryBuilds.loop (h : TryBuilds D live body new live₁) (hc : Owned live c.address)
    (hc₁ : Owned live₁ c.address) : TryBuilds D live (c.tryLoop body) new live₁ := by
  intro e he hlive hdeclared
  obtain ⟨e₂, -, -, hrun, hbuilt⟩ := h.exists_loop hc hc₁ he hlive hdeclared
  exact ⟨_, hrun, hbuilt⟩

theorem TryRejects.loop (h : TryRejects D live body) (hc : Owned live c.address) :
    TryRejects D live (c.tryLoop body) := by
  intro e he hlive hdeclared
  subst hlive
  exact .after (c.run_openLoop e) ((h _ (Emitter.opened_sound he hc) rfl hdeclared).bind _)

end Judgement

end Goat
