import Goat.Proofs.Variables

/-!
# Steps that may reject the program

The judgements on emission steps, for steps that look up variables and may fail. What such a
step does depends on the declared variables and the regions in use only.
-/

namespace Goat

open Plain (Settings Contents)

section Running

variable {α β : Type} {e e₁ : Emitter} {a : α}

/-- The step rejects the program. -/
def Rejects (e : Emitter) (m : TryEmit α) : Prop := ∃ f e', e.run m = (.error f, e')

theorem Emitter.run_bind {m : TryEmit α} {k : α → TryEmit β} (h : e.run m = (.ok a, e₁)) :
    e.run (m >>= k) = e₁.run (k a) := by
  rw [Emitter.run] at h ⊢
  rw [ExceptT.run_bind, StateT.run_bind, h]
  rfl

theorem Emitter.run_bind_of_error {m : TryEmit α} {k : α → TryEmit β} {f : Failure}
    (h : e.run m = (.error f, e₁)) : e.run (m >>= k) = (.error f, e₁) := by
  rw [Emitter.run] at h ⊢
  rw [ExceptT.run_bind, StateT.run_bind, h]
  rfl

theorem Rejects.bind {m : TryEmit α} (h : Rejects e m) (k : α → TryEmit β) :
    Rejects e (m >>= k) := by
  obtain ⟨f, e', h⟩ := h
  exact ⟨f, e', Emitter.run_bind_of_error h⟩

theorem Rejects.after {m : TryEmit α} {k : α → TryEmit β} (h : e.run m = (.ok a, e₁))
    (hk : Rejects e₁ (k a)) : Rejects e (m >>= k) := by
  obtain ⟨f, e', hrun⟩ := hk
  exact ⟨f, e', (Emitter.run_bind h).trans hrun⟩

theorem rejects_reject (e : Emitter) (cause : Diagnostic.Cause) (span : Span) :
    Rejects e (reject cause span : TryEmit α) := ⟨_, _, rfl⟩

/-- A step that cannot fail. -/
theorem Emitter.run_lift {m : Emit α} (h : m.run e = (a, e₁)) :
    e.run (liftM m : TryEmit α) = (.ok a, e₁) := by
  have hlift : e.run (liftM m : TryEmit α) = (.ok (m.run e).1, (m.run e).2) := rfl
  rw [hlift, h]

end Running

/-- With the variables `D` and the regions `live`, the step yields `a`, declares nothing and
    leaves `live'` in use. -/
def TryLeaves {α : Type} (D : Declared) (live : List Region) (m : TryEmit α) (a : α)
    (live' : List Region) : Prop :=
  ∀ e : Emitter, e.layout.Sound → e.layout.live = live → e.declared = D →
    ∃ e', e.run m = (.ok a, e') ∧ Emitted e e' live'

/-- With the variables `D` and the regions `live`, the step yields `a`, declares nothing and
    leaves `live'` in use, and its code takes the tape from `s` to `s'`. -/
def TryTakes {α : Type} (settings : Settings) (D : Declared) (live : List Region) (m : TryEmit α)
    (a : α) (live' : List Region) (s s' : Contents) : Prop :=
  ∀ e : Emitter, e.layout.Sound → e.layout.live = live → e.declared = D →
    ∃ e', e.run m = (.ok a, e') ∧ Emitted e e' live' ∧ Transforms settings e e' s s'

/-- With the variables `D` and the regions `live`, the step rejects the program. -/
def TryRejects {α : Type} (D : Declared) (live : List Region) (m : TryEmit α) : Prop :=
  ∀ e : Emitter, e.layout.Sound → e.layout.live = live → e.declared = D → Rejects e m

section Judgement

variable {α β : Type} {settings : Settings} {D : Declared} {live live₁ live₂ : List Region}
  {m : TryEmit α} {k : α → TryEmit β} {a : α} {b : β} {s s₁ s₂ : Contents}

theorem TryLeaves.pure (a : α) : TryLeaves D live (pure a) a live :=
  fun e he hlive _ => ⟨e, rfl, ⟨.refl he, hlive, rfl⟩⟩

theorem TryTakes.pure (a : α) (s : Contents) : TryTakes settings D live (pure a) a live s s :=
  fun e he hlive _ => ⟨e, rfl, ⟨.refl he, hlive, rfl⟩, .refl e s⟩

theorem TryLeaves.bind (h : TryLeaves D live m a live₁) (hk : TryLeaves D live₁ (k a) b live₂) :
    TryLeaves D live (m >>= k) b live₂ := by
  intro e he hlive hdeclared
  obtain ⟨e₁, hrun₁, hstep₁⟩ := h e he hlive hdeclared
  obtain ⟨e₂, hrun₂, hstep₂⟩ :=
    hk e₁ hstep₁.grows.sound hstep₁.live (hstep₁.declared.trans hdeclared)
  exact ⟨e₂, (Emitter.run_bind hrun₁).trans hrun₂, hstep₁.trans hstep₂⟩

theorem TryTakes.bind (h : TryTakes settings D live m a live₁ s s₁)
    (hk : TryTakes settings D live₁ (k a) b live₂ s₁ s₂) :
    TryTakes settings D live (m >>= k) b live₂ s s₂ := by
  intro e he hlive hdeclared
  obtain ⟨e₁, hrun₁, hstep₁, ht₁⟩ := h e he hlive hdeclared
  obtain ⟨e₂, hrun₂, hstep₂, ht₂⟩ :=
    hk e₁ hstep₁.grows.sound hstep₁.live (hstep₁.declared.trans hdeclared)
  exact ⟨e₂, (Emitter.run_bind hrun₁).trans hrun₂, hstep₁.trans hstep₂,
    .trans hstep₁.grows hstep₂.grows ht₁ ht₂⟩

theorem TryTakes.leaves (h : TryTakes settings D live m a live₁ s s₁) :
    TryLeaves D live m a live₁ := by
  intro e he hlive hdeclared
  obtain ⟨e₁, hrun, hstep, -⟩ := h e he hlive hdeclared
  exact ⟨e₁, hrun, hstep⟩

theorem TryTakes.to (h : TryTakes settings D live m a live₁ s s₁) (hs : s₁ = s₂) :
    TryTakes settings D live m a live₁ s s₂ := hs ▸ h

theorem TryRejects.bind (h : TryRejects D live m) (k : α → TryEmit β) :
    TryRejects D live (m >>= k) :=
  fun e he hlive hdeclared => (h e he hlive hdeclared).bind k

theorem TryRejects.after (h : TryLeaves D live m a live₁) (hk : TryRejects D live₁ (k a)) :
    TryRejects D live (m >>= k) := by
  intro e he hlive hdeclared
  obtain ⟨e₁, hrun₁, hstep₁⟩ := h e he hlive hdeclared
  exact .after hrun₁ (hk e₁ hstep₁.grows.sound hstep₁.live (hstep₁.declared.trans hdeclared))

theorem tryRejects_reject (cause : Diagnostic.Cause) (span : Span) :
    TryRejects D live (reject cause span : TryEmit α) :=
  fun e _ _ _ => rejects_reject e cause span

theorem Leaves.lift {m : Emit α} (h : Leaves live m a live₁) :
    TryLeaves D live (liftM m : TryEmit α) a live₁ := by
  intro e he hlive _
  obtain ⟨e₁, hrun, hstep⟩ := h e he hlive
  exact ⟨e₁, Emitter.run_lift hrun, hstep⟩

theorem Takes.lift {m : Emit α} (h : Takes settings live m a live₁ s s₁) :
    TryTakes settings D live (liftM m : TryEmit α) a live₁ s s₁ := by
  intro e he hlive _
  obtain ⟨e₁, hrun, hstep, ht⟩ := h e he hlive
  exact ⟨e₁, Emitter.run_lift hrun, hstep, ht⟩

end Judgement

section Lookup

variable {settings : Settings} {D : Declared} {live : List Region} {name : Text} {v : Variable}

theorem run_lookup (e : Emitter) (name : Text) (span : Span) :
    e.run (lookup name span) =
      ((e.find? name).elim (.error ((Failure.ofCause (.undefinedVariable name) span).suggesting name
        (e.declared.map Prod.fst))) .ok, e) := by
  rw [lookup, Emitter.run_bind (rfl : e.run get = (.ok e, e))]
  cases e.find? name <;> rfl

theorem tryTakes_lookup (h : D.find? name = some v) (span : Span) (s : Contents) :
    TryTakes settings D live (lookup name span) v live s s := by
  intro e he hlive hdeclared
  have hfind : e.find? name = some v := by
    rw [← h, ← hdeclared]
    rfl
  have hrun : e.run (lookup name span) = (.ok v, e) := by
    rw [run_lookup, hfind, Option.elim_some]
  exact ⟨e, hrun, ⟨.refl he, hlive, rfl⟩, .refl e s⟩

theorem tryRejects_lookup (h : D.find? name = none) (span : Span) :
    TryRejects D live (lookup name span) := by
  intro e _ _ hdeclared
  have hfind : e.find? name = none := by
    rw [← h, ← hdeclared]
    rfl
  have hrun : e.run (lookup name span) = (.error ((Failure.ofCause (.undefinedVariable name)
      span).suggesting name (e.declared.map Prod.fst)), e) := by
    rw [run_lookup, hfind, Option.elim_none]
  exact ⟨_, e, hrun⟩

end Lookup

end Goat
