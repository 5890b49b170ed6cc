import Goat.Proofs.Emission

/-!
# Steps of emission

The judgement `Takes` says what an emission step does to the regions in use and what its
code does to the contents of the tape. Every operation on cells has one lemma of this
form; lemmas about larger operations are put together from those of their parts.
-/

namespace Goat

open Plain (Settings Contents Runs Closed)

/-- `e'` is reached from `e` by a step that declares nothing and leaves `live'` in use. -/
structure Emitted (e e' : Emitter) (live' : List Region) : Prop where
  grows : Extends e e'
  live : e'.layout.live = live'
  declared : e'.declared = e.declared

theorem ofInt_natCast (n : Nat) : UInt8.ofInt n = UInt8.ofNat n := by
  induction n with
  | zero => rfl
  | succ n ih =>
    rw [Int.natCast_add, UInt8.ofInt_add, ih, UInt8.ofNat_add]
    rfl

/-- With `live` in use, the step yields `a` and leaves `live'` in use. -/
def Leaves {α : Type} (live : List Region) (m : Emit α) (a : α) (live' : List Region) : Prop :=
  ∀ e : Emitter, e.layout.Sound → e.layout.live = live →
    ∃ e', m.run e = (a, e') ∧ Emitted e e' live'

/-- With `live` in use, the step yields `a` and leaves `live'` in use, and its code takes
    the tape from `s` to `s'`. -/
def Takes {α : Type} (settings : Settings) (live : List Region) (m : Emit α) (a : α)
    (live' : List Region) (s s' : Contents) : Prop :=
  ∀ e : Emitter, e.layout.Sound → e.layout.live = live →
    ∃ e', m.run e = (a, e') ∧ Emitted e e' live' ∧ Transforms settings e e' s s'

/-- Cells that are not in use are zero. -/
def Clean (live : List Region) (s : Contents) : Prop := ∀ x, ¬ Owned live x → s.cells x = 0

/-- The regions in use are packed, and all other cells are zero. -/
structure Ready (live : List Region) (s : Contents) : Prop where
  packed : Packed live
  clean : Clean live s

namespace Ready

variable {live live' : List Region} {s : Contents} {r : Region}

theorem set (h : Ready live s) {x : Int} (hx : Owned live x) (v : UInt8) :
    Ready live (s.set x v) where
  packed := h.packed
  clean y hy := by
    have hne : y ≠ x := fun heq => hy (heq ▸ hx)
    rw [s.set_cells_of_ne v hne]
    exact h.clean y hy

/-- There is nothing left of the first cell. -/
theorem cells_of_neg (h : Ready live s) {x : Int} (hx : x < 0) : s.cells x = 0 := by
  refine h.clean x fun howned => ?_
  have := h.packed.owned_nonneg howned
  omega

theorem write (h : Ready live s) (text : List UInt8) : Ready live (s.write text) :=
  ⟨h.packed, h.clean⟩

theorem withInput (h : Ready live s) (input : List UInt8) : Ready live (s.withInput input) :=
  ⟨h.packed, h.clean⟩

theorem ite {s' : Contents} {p : Prop} [Decidable p] (h : Ready live s) (h' : Ready live s') :
    Ready live (if p then s else s') := by
  split
  · exact h
  · exact h'

theorem mono (h : Ready live s) (hpacked : Packed live')
    (hsub : ∀ x, Owned live x → Owned live' x) : Ready live' s :=
  ⟨hpacked, fun x hx => h.clean x fun hold => hx (hsub x hold)⟩

theorem fresh (h : Ready live s) (hr : Fresh live r live') : Ready live' s where
  packed := hr.packed
  clean x hx := h.clean x fun hold => hx (hr.owned hold)

/-- A cell that is given out is zero. -/
theorem zero (h : Ready live s) (hr : Fresh live r live') {x : Int} (hx : r.start ≤ x)
    (hx' : x ≤ r.stop) : s.cells x = 0 := h.clean x (hr.free x hx hx')

end Ready

/-- A tape that was not used yet. -/
def blank : Contents := ⟨fun _ => 0, [], []⟩

theorem ready_blank {live : List Region} (h : Packed live) : Ready live blank := ⟨h, fun _ _ => rfl⟩

theorem Emitted.trans {e e₁ e₂ : Emitter} {live₁ live₂ : List Region} (h₁ : Emitted e e₁ live₁)
    (h₂ : Emitted e₁ e₂ live₂) : Emitted e e₂ live₂ where
  grows := h₁.grows.trans h₂.grows
  live := h₂.live
  declared := h₂.declared.trans h₁.declared

section Judgement

variable {α β : Type} {settings : Settings} {live live₁ live₂ : List Region} {m : Emit α}
  {k : α → Emit β} {a : α} {b : β} {s s₁ s₂ : Contents}

theorem run_bind {e e₁ : Emitter} (h : m.run e = (a, e₁)) : (m >>= k).run e = (k a).run e₁ := by
  rw [StateT.run_bind, h]
  rfl

theorem Takes.leaves (h : Takes settings live m a live₁ s s₁) : Leaves live m a live₁ := by
  intro e he hlive
  obtain ⟨e₁, hrun, hemitted, -⟩ := h e he hlive
  exact ⟨e₁, hrun, hemitted⟩

theorem Takes.pure (a : α) (s : Contents) : Takes settings live (pure a : Emit α) a live s s :=
  fun e he hlive => ⟨e, rfl, ⟨.refl he, hlive, rfl⟩, .refl e s⟩

theorem Takes.bind (h : Takes settings live m a live₁ s s₁)
    (hk : Takes settings live₁ (k a) b live₂ s₁ s₂) :
    Takes settings live (m >>= k) b live₂ s s₂ := by
  intro e he hlive
  obtain ⟨e₁, hrun₁, hemitted₁, ht₁⟩ := h e he hlive
  obtain ⟨e₂, hrun₂, hemitted₂, ht₂⟩ := hk e₁ hemitted₁.grows.sound hemitted₁.live
  exact ⟨e₂, (run_bind hrun₁).trans hrun₂, hemitted₁.trans hemitted₂,
    .trans hemitted₁.grows hemitted₂.grows ht₁ ht₂⟩

/-- Steps in a row can be taken together. -/
theorem Takes.bind_bind {γ : Type} {n : α → Emit γ} {l : γ → Emit β} {c : γ}
    (h : Takes settings live (m >>= n) c live₁ s s₁)
    (hl : Takes settings live₁ (l c) b live₂ s₁ s₂) :
    Takes settings live (m >>= fun a => n a >>= l) b live₂ s s₂ := by
  rw [← bind_assoc]
  exact h.bind hl

theorem Leaves.bind (h : Leaves live m a live₁) (hk : Leaves live₁ (k a) b live₂) :
    Leaves live (m >>= k) b live₂ := by
  intro e he hlive
  obtain ⟨e₁, hrun₁, hemitted₁⟩ := h e he hlive
  obtain ⟨e₂, hrun₂, hemitted₂⟩ := hk e₁ hemitted₁.grows.sound hemitted₁.live
  exact ⟨e₂, (run_bind hrun₁).trans hrun₂, hemitted₁.trans hemitted₂⟩

/-- The contents reached can be written in another way. -/
theorem Takes.to (h : Takes settings live m a live₁ s s₁) (hs : s₁ = s₂) :
    Takes settings live m a live₁ s s₂ := hs ▸ h

/-- So can the contents at the start. -/
theorem Takes.start (h : Takes settings live m a live₁ s₁ s₂) (hs : s = s₁) :
    Takes settings live m a live₁ s s₂ := hs ▸ h

end Judgement

section Primitives

variable {settings : Settings} {live : List Region} {s s' : Contents}

/-- A step that goes to a cell in use and writes code that ends on a cell in use. -/
theorem takes_build {step : Builder → Builder} {piece : List Command} {x y : Int}
    (hstep : ∀ b, step b = (b.moveTo x).emitEndingAt piece y) (hx : Owned live x)
    (hy : Owned live y) (hclosed : Closed piece)
    (hrun : (∀ z, Owned live z → settings.HasCell z) →
      Runs settings piece (s.tape x) (s'.tape y)) :
    Takes settings live (Emit.build step) () live s s' := by
  intro e he hlive
  subst hlive
  have hlayout : (step e.toBuilder).layout = e.layout.assume y := by
    rw [hstep]
    rfl
  have hcode : (step e.toBuilder).code.toList =
      e.code.toList ++ (Layout.moves e.layout.pointer x ++ piece) := by
    simp [hstep, Builder.emitEndingAt, Builder.moveTo, Layout.moveTo]
  have hmoves := Plain.closed_moves e.layout.pointer x
  refine ⟨{ e with toBuilder := step e.toBuilder }, rfl,
    ⟨⟨⟨_, hcode, hmoves.append hclosed⟩, ?_, ?_⟩, ?_, rfl⟩, ?_⟩
  · rw [hlayout]
    exact Int.le_refl _
  · rw [hlayout]
    exact he.assume hy
  · rw [hlayout]
    rfl
  · intro written hwritten hfits
    rw [hcode] at hwritten
    obtain rfl := List.append_cancel_left hwritten
    have hfits : Fits settings e := by
      rw [Fits, hlayout] at hfits
      exact hfits
    have hcell : ∀ z, Owned e.layout.live z → settings.HasCell z := fun z hz => hfits.hasCell he hz
    rw [hlayout]
    exact (Plain.runs_moves s (hfits.hasCell_pointer he) (hcell x hx)).append (hrun hcell)

/-- Code that stays on the cell it goes to. -/
theorem takes_build_append {step : Builder → Builder} (piece : List Command) {x : Int}
    (hstep : ∀ b, step b = (b.moveTo x).append piece) (hx : Owned live x) (hclosed : Closed piece)
    (hrun : Runs settings piece (s.tape x) (s'.tape x)) :
    Takes settings live (Emit.build step) () live s s' :=
  takes_build hstep hx hx hclosed fun _ => hrun

theorem Takes.trace (line : Text) (s : Contents) :
    Takes settings live (Emit.trace line) () live s s := by
  intro e he hlive
  refine ⟨_, rfl, ⟨⟨⟨[], by simp, .nil⟩, Int.le_refl _, he⟩, hlive, rfl⟩, ?_⟩
  intro piece hpiece _
  obtain rfl : piece = [] := by simpa using hpiece
  exact .nil _

/-- Cells can be reserved, where only depends on the regions in use. -/
theorem exists_takes_allocate (settings : Settings) (h : Packed live) {length : Int}
    (hlength : 1 ≤ length) :
    ∃ r live', Fresh live r live' ∧ r.stop = r.start + length - 1 ∧
      ∀ s, Takes settings live (Emit.allocate length) r live' s s := by
  obtain ⟨r, live', hplace⟩ : ∃ r live', Layout.place id length live = (r, live') := ⟨_, _, rfl⟩
  obtain ⟨hfresh, hstop⟩ := Layout.place_fresh hlength h hplace
  refine ⟨r, live', hfresh, hstop, fun s e he hlive => ?_⟩
  obtain ⟨r', l', hallocate⟩ : ∃ r' l', e.layout.allocate length = (r', l') := ⟨_, _, rfl⟩
  obtain ⟨-, hsound, -, hpeak, hpointer⟩ := he.allocate hlength hallocate
  have hmax : max length 1 = length := by omega
  have hallocated := hallocate
  simp only [Layout.allocate, Layout.allocateBy, hmax, hlive, hplace, Prod.mk.injEq] at hallocated
  obtain ⟨rfl, rfl⟩ := hallocated
  refine ⟨{ e with layout := _ }, ?_, ⟨⟨⟨[], by simp, .nil⟩, hpeak, hsound⟩, rfl, rfl⟩, ?_⟩
  · show ((e.layout.allocate length).1, { e with layout := (e.layout.allocate length).2 }) = _
    rw [hallocate]
  · intro piece hpiece _
    obtain rfl : piece = [] := by simpa using hpiece
    exact .nil _

/-- A region can be given back. -/
theorem Takes.release (r : Region) (s : Contents) :
    Takes settings live (Emit.release r) () (live.erase r) s s := by
  intro e he hlive
  subst hlive
  have hlayout := Layout.release_eq e.layout r
  have hpeak : e.layout.peak ≤ (e.layout.release r).2.peak := by
    simp only [hlayout, Int.le_refl]
  refine ⟨{ e with layout := (e.layout.release r).2 }, rfl,
    ⟨⟨⟨[], by simp, .nil⟩, hpeak, he.release r⟩, ?_, rfl⟩, ?_⟩
  · rw [hlayout]
  · intro piece hpiece _
    obtain rfl : piece = [] := by simpa using hpiece
    rw [hlayout]
    exact .nil _

end Primitives

namespace Cell

variable {settings : Settings} {live live' : List Region} {s s' : Contents} {c : Cell}

/-- The cell is in use by itself. -/
structure Taken (live : List Region) (c : Cell) (live' : List Region) : Prop where
  fresh : Fresh live c.region live'
  owned : c.owned = true

theorem Taken.owned_iff (h : c.Taken live live') (x : Int) :
    Owned live' x ↔ x = c.address ∨ Owned live x := by
  rw [h.fresh.owned_iff]
  simp only [region]
  constructor
  · rintro (hx | hx)
    · exact .inl (by omega)
    · exact .inr hx
  · rintro (hx | hx)
    · exact .inl (by omega)
    · exact .inr hx

theorem Taken.self (h : c.Taken live live') : Owned live' c.address := (h.owned_iff _).2 (.inl rfl)

theorem Taken.old (h : c.Taken live live') {x : Int} (hx : Owned live x) : Owned live' x :=
  (h.owned_iff _).2 (.inr hx)

theorem Taken.ne (h : c.Taken live live') {x : Int} (hx : Owned live x) : x ≠ c.address := by
  rintro rfl
  exact h.fresh.free _ (Int.le_refl _) (Int.le_refl _) hx

theorem Taken.zero (h : c.Taken live live') (hs : Ready live s) : s.cells c.address = 0 :=
  hs.zero h.fresh (Int.le_refl _) (Int.le_refl _)

theorem Taken.ready (h : c.Taken live live') (hs : Ready live s) : Ready live' s := hs.fresh h.fresh

/-- A fresh cell can be taken. -/
theorem exists_taken_new (settings : Settings) (h : Packed live) (name : Text) :
    ∃ c live', c.Taken live live' ∧ c.name = name ∧
      ∀ s, Takes settings live (Cell.new name) c live' s s := by
  obtain ⟨r, live', hfresh, hstop, htakes⟩ := exists_takes_allocate settings h (Int.le_refl 1)
  have hregion : (⟨name, r.start, true⟩ : Cell).region = r := by
    have : r.stop = r.start := by omega
    cases r
    simp_all [region]
  refine ⟨⟨name, r.start, true⟩, live', ⟨hregion ▸ hfresh, rfl⟩, rfl, fun s => ?_⟩
  exact .bind (htakes s) (.bind (.trace _ s) (.pure _ s))

theorem exists_taken_temporary (settings : Settings) (h : Packed live) :
    ∃ c live', c.Taken live live' ∧ ∀ s, Takes settings live Cell.temporary c live' s s := by
  obtain ⟨c, live', htaken, -, htakes⟩ := exists_taken_new settings h []
  exact ⟨c, live', htaken, htakes⟩

theorem takes_add (hc : Owned live c.address) (n : Int) (s : Contents) :
    Takes settings live (c.add n) () live s
      (s.set c.address (s.cells c.address + UInt8.ofInt n)) := by
  rcases Int.lt_trichotomy n 0 with hn | rfl | hn
  · have hcast : n = -((-n).toNat : Int) := by omega
    have heq : s.cells c.address + UInt8.ofInt n =
        s.cells c.address - UInt8.ofNat (-n).toNat := by
      rw [hcast, UInt8.ofInt_neg, ofInt_natCast, ← hcast, UInt8.sub_eq_add_neg]
    refine takes_build_append (List.replicate (-n).toNat .decrement) ?_ hc
      (.replicate (by decide) (by decide) _) ?_
    · intro b
      rw [Builder.add, if_neg (by omega), if_neg (by omega)]
    · rw [heq]
      exact Plain.runs_decrement s c.address (-n).toNat
  · have hsame : s.set c.address (s.cells c.address + UInt8.ofInt 0) = s :=
      Contents.set_eq_self (UInt8.add_zero _).symm
    rw [hsame]
    exact fun e he hlive => ⟨e, rfl, ⟨.refl he, hlive, rfl⟩, .refl e s⟩
  · have hcast : n = (n.toNat : Int) := by omega
    refine takes_build_append (List.replicate n.toNat .increment) ?_ hc
      (.replicate (by decide) (by decide) _) ?_
    · intro b
      rw [Builder.add, if_neg (by omega), if_pos hn]
    · rw [hcast, ofInt_natCast, ← hcast]
      exact Plain.runs_increment s c.address n.toNat

theorem takes_reset (hc : Owned live c.address) (s : Contents) :
    Takes settings live c.reset () live s (s.set c.address 0) := by
  refine takes_build_append [.loopStart, .decrement, .loopEnd] (fun _ => rfl) hc
    (Closed.loop (.single (by decide) (by decide))) ?_
  exact Plain.runs_clear s c.address

theorem run_loop {e e₂ : Emitter} {body : Emit Unit}
    (hrun : body.run (e.opened c.address) = ((), e₂)) :
    (c.loop body).run e = ((), e₂.closed c.address) := by
  show (body >>= fun _ => Emit.build (·.closeLoop c.address)).run (e.opened c.address) = _
  rw [run_bind hrun]
  rfl

theorem leaves_loop (hc : Owned live c.address) {body : Emit Unit}
    (hbody : Leaves live body () live) : Leaves live (c.loop body) () live := by
  intro e he hlive
  subst hlive
  obtain ⟨e₂, hrun, hemitted⟩ := hbody (e.opened c.address) (Emitter.opened_sound he hc) rfl
  have hc₂ : Owned e₂.layout.live c.address := by
    rw [hemitted.live]
    exact hc
  exact ⟨e₂.closed c.address, run_loop hrun,
    ⟨hemitted.grows.loop hc₂, hemitted.live, hemitted.declared⟩⟩

/-- A loop takes the tape where its rounds take it. -/
theorem takes_loop (hc : Owned live c.address) {body : Emit Unit}
    (hbody : Leaves live body () live) {n : Nat}
    (hrounds : Rounds (Contents.Enters c.address) (Takes settings live body () live) n s s')
    (hzero : s'.cells c.address = 0) : Takes settings live (c.loop body) () live s s' := by
  intro e he hlive
  obtain ⟨e₃, hloop, hemitted⟩ := leaves_loop hc hbody e he hlive
  subst hlive
  have hopened := Emitter.opened_sound he hc
  obtain ⟨e₂, hrun, hround⟩ := hbody (e.opened c.address) hopened rfl
  obtain rfl : e₃ = e₂.closed c.address := congrArg Prod.snd (hloop.symm.trans (run_loop hrun))
  have hplain :
      Rounds (Contents.Enters c.address) (Transforms settings (e.opened c.address) e₂) n s s' := by
    clear hzero
    induction hrounds with
    | zero s => exact .zero s
    | succ hs hround _ ih =>
      obtain ⟨e₂', hrun', -, ht⟩ := hround (e.opened c.address) hopened rfl
      obtain rfl : e₂' = e₂ := congrArg Prod.snd (hrun'.symm.trans hrun)
      exact .succ hs ht ih
  exact ⟨_, hloop, hemitted, .loop he hc hround.grows hplain hzero⟩

/-- A cell of its own is given back. -/
theorem takes_destroy (hc : Owned live c.address) (hown : c.owned = true) (s : Contents) :
    Takes settings live c.destroy () (live.erase c.region) s (s.set c.address 0) := by
  refine .bind (takes_reset hc s) ?_
  rw [if_pos hown]
  exact .bind (.release c.region _) (.trace _ _)

/-- A cell that was taken is given back: the regions in use are again those from before. -/
theorem Taken.takes_destroy (h : c.Taken live live') (s : Contents) :
    Takes settings live' c.destroy () live s (s.set c.address 0) := by
  have htakes : Takes settings live' c.destroy () _ s _ := Cell.takes_destroy h.self h.owned s
  rwa [h.fresh.erase] at htakes

end Cell

end Goat
