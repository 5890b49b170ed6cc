import Goat.Proofs.Growth

/-!
# Code that does what a run says

A step realizes a run of the semantics if, from contents of the tape that agree with the
state before the run, its code leads to contents that agree with the state after it, and
keeps the machine busy for as long as the run runs out of fuel.
-/

namespace Goat

open Plain (Settings Contents)
open Reference (Store State Outcome Stuck)

/-- With the variables `D` and the regions `live`, the step declares `new` and leaves `live'`
    in use, and its code takes the tape from `s` to `s'`. -/
def TryTransforms (settings : Settings) (D : Declared) (live : List Region) (m : TryEmit Unit)
    (new : Declared) (live' : List Region) (s s' : Contents) : Prop :=
  ∀ e : Emitter, e.layout.Sound → e.layout.live = live → e.declared = D →
    ∃ e', e.run m = (.ok (), e') ∧ Built e e' (D ++ new) live' ∧ Transforms settings e e' s s'

/-- With the variables `D` and the regions `live`, the step declares `new` and leaves `live'`
    in use, and its code keeps the machine busy for `n` steps. -/
def TryDelays (settings : Settings) (D : Declared) (live : List Region) (m : TryEmit Unit)
    (new : Declared) (live' : List Region) (n : Nat) (s : Contents) (output : List UInt8) : Prop :=
  ∀ e : Emitter, e.layout.Sound → e.layout.live = live → e.declared = D →
    ∃ e', e.run m = (.ok (), e') ∧ Built e e' (D ++ new) live' ∧ Delays settings n e e' s output

section Judgement

variable {α : Type} {settings : Settings} {D new new' : Declared} {live live₁ live₂ : List Region}
  {s s₁ s₂ : Contents} {n : Nat} {output : List UInt8} {m : TryEmit Unit} {k : Unit → TryEmit Unit}

theorem TryTakes.transforms (h : TryTakes settings D live m () live₁ s s₁) :
    TryTransforms settings D live m [] live₁ s s₁ := by
  intro e he hlive hdeclared
  obtain ⟨e₁, hrun, hstep, ht⟩ := h e he hlive hdeclared
  refine ⟨e₁, hrun, ⟨hstep.grows, hstep.live, ?_⟩, ht⟩
  rw [hstep.declared, hdeclared, List.append_nil]

theorem TryTransforms.bind (h : TryTransforms settings D live m new live₁ s s₁)
    (hk : TryTransforms settings (D ++ new) live₁ (k ()) new' live₂ s₁ s₂) :
    TryTransforms settings D live (m >>= k) (new ++ new') live₂ s s₂ := by
  intro e he hlive hdeclared
  obtain ⟨e₁, hrun₁, hstep₁, ht₁⟩ := h e he hlive hdeclared
  obtain ⟨e₂, hrun₂, hstep₂, ht₂⟩ := hk e₁ hstep₁.grows.sound hstep₁.live hstep₁.declared
  rw [List.append_assoc] at hstep₂
  exact ⟨e₂, (Emitter.run_bind hrun₁).trans hrun₂, hstep₁.trans hstep₂,
    .trans hstep₁.grows hstep₂.grows ht₁ ht₂⟩

theorem TryTransforms.andDelays (h : TryTransforms settings D live m new live₁ s s₁)
    (hk : TryDelays settings (D ++ new) live₁ (k ()) new' live₂ n s₁ output) :
    TryDelays settings D live (m >>= k) (new ++ new') live₂ n s output := by
  intro e he hlive hdeclared
  obtain ⟨e₁, hrun₁, hstep₁, ht⟩ := h e he hlive hdeclared
  obtain ⟨e₂, hrun₂, hstep₂, hd⟩ := hk e₁ hstep₁.grows.sound hstep₁.live hstep₁.declared
  rw [List.append_assoc] at hstep₂
  exact ⟨e₂, (Emitter.run_bind hrun₁).trans hrun₂, hstep₁.trans hstep₂,
    .right hstep₁.grows hstep₂.grows ht hd⟩

theorem TryDelays.andBuilds (h : TryDelays settings D live m new live₁ n s output)
    (hk : TryBuilds (D ++ new) live₁ (k ()) new' live₂) :
    TryDelays settings D live (m >>= k) (new ++ new') live₂ n s output := by
  intro e he hlive hdeclared
  obtain ⟨e₁, hrun₁, hstep₁, hd⟩ := h e he hlive hdeclared
  obtain ⟨e₂, hrun₂, hstep₂⟩ := hk e₁ hstep₁.grows.sound hstep₁.live hstep₁.declared
  rw [List.append_assoc] at hstep₂
  exact ⟨e₂, (Emitter.run_bind hrun₁).trans hrun₂, hstep₁.trans hstep₂,
    .left hstep₁.grows hstep₂.grows hd⟩

/-- A step that yields a value comes first. -/
theorem TryTakes.andTransforms {m : TryEmit α} {a : α} {k : α → TryEmit Unit}
    (h : TryTakes settings D live m a live₁ s s₁)
    (hk : TryTransforms settings D live₁ (k a) new live₂ s₁ s₂) :
    TryTransforms settings D live (m >>= k) new live₂ s s₂ := by
  intro e he hlive hdeclared
  obtain ⟨e₁, hrun₁, hstep₁, ht₁⟩ := h e he hlive hdeclared
  obtain ⟨e₂, hrun₂, hstep₂, ht₂⟩ :=
    hk e₁ hstep₁.grows.sound hstep₁.live (hstep₁.declared.trans hdeclared)
  exact ⟨e₂, (Emitter.run_bind hrun₁).trans hrun₂,
    ⟨hstep₁.grows.trans hstep₂.grows, hstep₂.live, hstep₂.declared⟩,
    .trans hstep₁.grows hstep₂.grows ht₁ ht₂⟩

theorem TryTakes.andDelays {m : TryEmit α} {a : α} {k : α → TryEmit Unit}
    (h : TryTakes settings D live m a live₁ s s₁)
    (hk : TryDelays settings D live₁ (k a) new live₂ n s₁ output) :
    TryDelays settings D live (m >>= k) new live₂ n s output := by
  intro e he hlive hdeclared
  obtain ⟨e₁, hrun₁, hstep₁, ht⟩ := h e he hlive hdeclared
  obtain ⟨e₂, hrun₂, hstep₂, hd⟩ :=
    hk e₁ hstep₁.grows.sound hstep₁.live (hstep₁.declared.trans hdeclared)
  exact ⟨e₂, (Emitter.run_bind hrun₁).trans hrun₂,
    ⟨hstep₁.grows.trans hstep₂.grows, hstep₂.live, hstep₂.declared⟩,
    .right hstep₁.grows hstep₂.grows ht hd⟩

end Judgement

section Loop

variable {settings : Settings} {D new : Declared} {live live' : List Region} {c : Cell}
  {round : TryEmit Unit} {s s' : Contents} {n k : Nat} {output : List UInt8}

/-- Rounds of a step, once the code of the step is known. -/
theorem rounds_transforms {e e₂ : Emitter} (he : e.layout.Sound) (hlive : e.layout.live = live)
    (hdeclared : e.declared = D) (hrun : e.run round = (.ok (), e₂))
    (h : Rounds (Contents.Enters c.address)
      (TryTransforms settings D live round new live') n s s') :
    Rounds (Contents.Enters c.address) (Transforms settings e e₂) n s s' := by
  induction h with
  | zero s => exact .zero s
  | succ hs hround _ ih =>
    obtain ⟨e₂', hrun', -, ht⟩ := hround e he hlive hdeclared
    obtain rfl : e₂' = e₂ := congrArg Prod.snd (hrun'.symm.trans hrun)
    exact .succ hs ht ih

variable (hround : TryBuilds D live round new live') (hc : Owned live c.address)
  (hc' : Owned live' c.address)

include hround hc hc'

/-- A loop takes the tape where its rounds take it. -/
theorem tryTransforms_loop
    (h : Rounds (Contents.Enters c.address) (TryTransforms settings D live round new live') n s s')
    (hzero : s'.cells c.address = 0) :
    TryTransforms settings D live (c.tryLoop round) new live' s s' := by
  intro e he hlive hdeclared
  obtain ⟨e₂, hrun, hgrows, hloop, hbuilt⟩ := hround.exists_loop hc hc' he hlive hdeclared
  subst hlive
  have hopened := Emitter.opened_sound he hc
  exact ⟨_, hloop, hbuilt,
    .loop he hc hgrows (rounds_transforms hopened rfl hdeclared hrun h) hzero⟩

/-- A loop keeps the machine busy for its rounds. -/
theorem tryDelays_rounds
    (h : Rounds (Contents.Enters c.address)
      (TryTransforms settings D live round new live') n s s') :
    TryDelays settings D live (c.tryLoop round) new live' n s s'.output := by
  intro e he hlive hdeclared
  obtain ⟨e₂, hrun, hgrows, hloop, hbuilt⟩ := hround.exists_loop hc hc' he hlive hdeclared
  subst hlive
  have hopened := Emitter.opened_sound he hc
  exact ⟨_, hloop, hbuilt, .of_rounds he hc hgrows (rounds_transforms hopened rfl hdeclared hrun h)⟩

/-- A loop keeps the machine busy if one of its rounds does. -/
theorem tryDelays_body
    (h : Rounds (Contents.Enters c.address) (TryTransforms settings D live round new live') k s s')
    (hs : s'.cells c.address ≠ 0)
    (hdelays : TryDelays settings D live round new live' n s' output) :
    TryDelays settings D live (c.tryLoop round) new live' n s output := by
  intro e he hlive hdeclared
  obtain ⟨e₂, hrun, hgrows, hloop, hbuilt⟩ := hround.exists_loop hc hc' he hlive hdeclared
  subst hlive
  have hopened := Emitter.opened_sound he hc
  obtain ⟨e₂', hrun', -, hd⟩ := hdelays (e.opened c.address) hopened rfl hdeclared
  obtain rfl : e₂' = e₂ := congrArg Prod.snd (hrun'.symm.trans hrun)
  exact ⟨_, hloop, hbuilt,
    .of_body he hc hgrows (rounds_transforms hopened rfl hdeclared hrun h) hs hd⟩

end Loop

/-- The code of the step does on `s` what the outcome of a run says. A run that is stuck says
    nothing, as long as it is stuck on an index. -/
def TryRuns (settings : Settings) (D : Declared) (live : List Region) (m : TryEmit Unit)
    (new : Declared) (live' : List Region) (fuel : Nat) (s : Contents)
    (post : State → Contents → Prop) : Outcome → Prop
  | .done ρ => ∃ s', TryTransforms settings D live m new live' s s' ∧ post ρ s'
  | .stuck reason => reason = .outOfRange
  | .outOfFuel ρ => TryDelays settings D live m new live' fuel s ρ.output

section Runs

variable {α : Type} {settings : Settings} {D new new' : Declared} {live live₁ live₂ : List Region}
  {s s₁ : Contents} {fuel : Nat} {post post' : State → Contents → Prop} {o : Outcome}
  {m : TryEmit Unit} {k : Unit → TryEmit Unit}

theorem TryRuns.mono (h : TryRuns settings D live m new live₁ fuel s post o)
    (hpost : ∀ ρ s', post ρ s' → post' ρ s') :
    TryRuns settings D live m new live₁ fuel s post' o := by
  cases o with
  | done ρ =>
    obtain ⟨s', ht, hs'⟩ := h
    exact ⟨s', ht, hpost ρ s' hs'⟩
  | stuck reason => exact h
  | outOfFuel ρ => exact h

theorem TryRuns.bind {next : State → Outcome}
    (h : TryRuns settings D live m new live₁ fuel s post o)
    (hk : TryBuilds (D ++ new) live₁ (k ()) new' live₂)
    (hnext : ∀ ρ s₁, post ρ s₁ →
      TryRuns settings (D ++ new) live₁ (k ()) new' live₂ fuel s₁ post' (next ρ)) :
    TryRuns settings D live (m >>= k) (new ++ new') live₂ fuel s post' (o.andThen next) := by
  cases o with
  | done ρ =>
    obtain ⟨s₁, ht₁, hs₁⟩ := h
    have hrest := hnext ρ s₁ hs₁
    show TryRuns _ _ _ _ _ _ _ _ _ (next ρ)
    cases hout : next ρ with
    | done ρ' =>
      rw [hout] at hrest
      obtain ⟨s₂, ht₂, hs₂⟩ := hrest
      exact ⟨s₂, ht₁.bind ht₂, hs₂⟩
    | stuck reason =>
      rw [hout] at hrest
      exact hrest
    | outOfFuel ρ' =>
      rw [hout] at hrest
      exact ht₁.andDelays hrest
  | stuck reason => exact h
  | outOfFuel ρ => exact TryDelays.andBuilds h hk

/-- A step that declares nothing comes last. -/
theorem TryRuns.andThen {next : State → Outcome}
    (h : TryRuns settings D live m new live₁ fuel s post o)
    (hk : TryLeaves (D ++ new) live₁ (k ()) () live₂)
    (hnext : ∀ ρ s₁, post ρ s₁ →
      TryRuns settings (D ++ new) live₁ (k ()) [] live₂ fuel s₁ post' (next ρ)) :
    TryRuns settings D live (m >>= k) new live₂ fuel s post' (o.andThen next) := by
  have hboth := h.bind hk.builds hnext
  rwa [List.append_nil] at hboth

/-- A step that declares nothing and cannot get stuck comes last. -/
theorem TryRuns.andTakes (h : TryRuns settings D live m new live₁ fuel s post o)
    (hk : TryLeaves (D ++ new) live₁ (k ()) () live₂)
    (hnext : ∀ ρ s₁, post ρ s₁ →
      ∃ s₂, TryTakes settings (D ++ new) live₁ (k ()) () live₂ s₁ s₂ ∧ post' ρ s₂) :
    TryRuns settings D live (m >>= k) new live₂ fuel s post' o := by
  rw [← Outcome.andThen_done o]
  refine h.andThen hk fun ρ s₁ hs₁ => ?_
  obtain ⟨s₂, ht, hs₂⟩ := hnext ρ s₁ hs₁
  exact ⟨s₂, ht.transforms, hs₂⟩

/-- A step that yields a value comes first. -/
theorem TryTakes.andRuns {m : TryEmit α} {a : α} {k : α → TryEmit Unit}
    (h : TryTakes settings D live m a live₁ s s₁)
    (hk : TryRuns settings D live₁ (k a) new live₂ fuel s₁ post o) :
    TryRuns settings D live (m >>= k) new live₂ fuel s post o := by
  cases o with
  | done ρ =>
    obtain ⟨s', ht, hs'⟩ := hk
    exact ⟨s', h.andTransforms ht, hs'⟩
  | stuck reason => exact hk
  | outOfFuel ρ => exact h.andDelays hk

/-- One more round of a loop. -/
theorem TryRuns.loop {c : Cell} {round : TryEmit Unit} {n : Nat} {next : State → Outcome}
    (hround : TryBuilds D live round new live₁) (hc : Owned live c.address)
    (hc₁ : Owned live₁ c.address)
    (h : Rounds (Contents.Enters c.address) (TryTransforms settings D live round new live₁) n s s₁)
    (hs : s₁.cells c.address ≠ 0) (hruns : TryRuns settings D live round new live₁ fuel s₁ post o)
    (hnext : ∀ ρ s₂, post ρ s₂ →
      Rounds (Contents.Enters c.address)
          (TryTransforms settings D live round new live₁) (n + 1) s s₂ →
        TryRuns settings D live (c.tryLoop round) new live₁ fuel s post' (next ρ)) :
    TryRuns settings D live (c.tryLoop round) new live₁ fuel s post' (o.andThen next) := by
  cases o with
  | done ρ =>
    obtain ⟨s₂, ht, hs₂⟩ := hruns
    exact hnext ρ s₂ hs₂ (h.snoc hs ht)
  | stuck reason => exact hruns
  | outOfFuel ρ => exact tryDelays_body hround hc hc₁ h hs hruns

/-- A loop that is not entered. -/
theorem TryRuns.skip {c : Cell} {round : TryEmit Unit} {ρ : State}
    (hround : TryBuilds D live round new live₁) (hc : Owned live c.address)
    (hc₁ : Owned live₁ c.address) (hs : s.cells c.address = 0) (hpost : post ρ s) :
    TryRuns settings D live (c.tryLoop round) new live₁ fuel s post (.done ρ) :=
  ⟨s, tryTransforms_loop hround hc hc₁ (.zero s) hs, hpost⟩

/-- A loop of one round. -/
theorem TryRuns.once {c : Cell} {round : TryEmit Unit} (hround : TryBuilds D live round new live₁)
    (hc : Owned live c.address) (hc₁ : Owned live₁ c.address) (hs : s.cells c.address ≠ 0)
    (h : TryRuns settings D live round new live₁ fuel s
      (fun ρ s' => post ρ s' ∧ s'.cells c.address = 0) o) :
    TryRuns settings D live (c.tryLoop round) new live₁ fuel s post o := by
  rw [← Outcome.andThen_done o]
  refine .loop hround hc hc₁ (.zero s) hs h fun ρ s' hs' hrounds => ?_
  exact ⟨s', tryTransforms_loop hround hc hc₁ hrounds hs'.2, hs'.1⟩

/-- Steps in a row can be taken together. -/
theorem TryRuns.assoc {k' : Unit → TryEmit Unit}
    (h : TryRuns settings D live (m >>= k >>= k') new live₁ fuel s post o) :
    TryRuns settings D live (m >>= fun a => k a >>= k') new live₁ fuel s post o := by
  rwa [bind_assoc] at h

end Runs

end Goat
