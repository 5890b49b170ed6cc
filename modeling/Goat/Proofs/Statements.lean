import Goat.Proofs.Control

/-!
# Statements do what the semantics says

The code of conditions and loops realizes their runs if that of their blocks does.
-/

namespace Goat

open Plain (Settings Contents)
open Reference (Store State Outcome Stuck eval repeatWhile forEach elementAt)

section Temporaries

variable {settings : Settings} {initial : Store} {D new : Declared}
  {live live' live₁ live₂ live₃ : List Region} {c : Cell} {m : TryEmit Unit} {fuel : Nat}
  {s s₁ : Contents} {ρ : State} {o : Outcome}

/-- A cell that was just taken was not in use. -/
theorem Cell.Taken.not_owned (hc : c.Taken live live₁) : ¬Owned live c.address :=
  fun hown => hc.ne hown rfl

theorem Keeps.set (h : Keeps D live s s₁) {x : Int} (hx : ¬Owned live x) (b : UInt8) :
    Keeps D live s (s₁.set x b) := by
  intro y hy hyD
  have hne : y ≠ x := by
    rintro rfl
    exact hx hy
  rw [Contents.set_cells_of_ne _ _ hne]
  exact h y hy hyD

/-- A temporary, taken before or during a step, is given back after it. -/
theorem TryRuns.release (hD : Arranged D live₁) (hc : c.Taken live₁ live₂)
    (hgrown : Grown D live₂ new live₃) (hlive : ¬Owned live c.address)
    (h : TryRuns settings D live' m new live₃ fuel s₁
      (fun ρ' s' => Agrees initial (D ++ new) live₃ ρ' s' ∧ Keeps D live s s') o) :
    TryRuns settings D live' (do m; c.destroy) new (live₃.erase c.region) fuel s₁
      (fun ρ' s' => Agrees initial (D ++ new) (live₃.erase c.region) ρ' s' ∧ Keeps D live s s')
      o := by
  refine h.andTakes (tryLeaves_destroy hc hgrown) fun ρ' s' hs' => ?_
  have hcD := hgrown.not_owned hc.self (hD.not_owned hc)
  exact ⟨_, (Cell.takes_destroy (hgrown.owned hc.self) hc.owned s').lift,
    hs'.1.release hgrown.arranged hcD, hs'.2.set hlive 0⟩

/-- What a step keeps while a temporary is in use is kept without it. -/
theorem Keeps.of_taken {b : UInt8} (h : Keeps D live₁ (s.set c.address b) s₁)
    (hc : c.Taken live live₁) : Keeps D live s s₁ := by
  intro x hx hxD
  rw [h x (hc.old hx) hxD, Contents.set_cells_of_ne _ _ (hc.ne hx)]

/-- The value of an expression in a temporary does not disturb the agreement. -/
theorem Agrees.evaluated (h : Agrees initial D live ρ s) (hD : Arranged D live)
    (hc : c.Taken live live₁) (b : UInt8) : Agrees initial D live₁ ρ (s.set c.address b) :=
  (h.taken hc).set (hD.taken hc) hc.self (hD.not_owned hc) b

end Temporaries

section If

variable {settings : Settings} {initial : Store} {D new new' : Declared}
  {live live₁ live₂ live₃ live₄ : List Region} {condition : Expr} {c other : Cell}
  {body otherwise : TryEmit Unit} {run run' : Nat → State → Outcome}

theorem realizes_if (hD : Arranged D live) (hc : Evaluated settings D live condition c live₁)
    (hfits : condition.fits D.scope .int = true)
    (h : Realizes settings initial D live₁ body new live₂ run) :
    Realizes settings initial D live (emitIf condition body) new (live₂.erase c.region)
      fun fuel ρ => .withValue (eval ρ.store condition) fun b =>
        if b = 0 then .done ρ else run fuel ρ where
  builds := builds_if hc h.builds h.grown
  grown := h.grown.release hD hc.taken
  runs hzero fuel ρ s hs := by
    have hc₂ := h.grown.owned hc.taken.self
    have hround : TryBuilds D live₁ (do body; c.reset) new live₂ :=
      h.builds.andLeaves (tryLeaves_reset hc₂)
    cases hb : eval ρ.store condition with
    | error reason => exact Reference.eval_stuck hs.holds.fills condition hfits hb
    | ok b =>
      have hs₁ := hs.evaluated hD hc.taken b
      have hcell : (s.set c.address b).cells c.address = b := Contents.set_cells_self _ _ _
      refine (hc.takes ρ.store s b hs.ready hs.holds hb).andRuns
        (.release hD hc.taken h.grown hc.taken.not_owned ?_)
      show TryRuns _ _ _ _ _ _ _ _ _ (if b = 0 then _ else _)
      by_cases hzero' : b = 0
      · rw [if_pos hzero']
        refine .skip hround hc.taken.self hc₂ (hcell.trans hzero') ⟨hs₁.grow h.grown hzero, ?_⟩
        exact (Keeps.refl D live s).set hc.taken.not_owned b
      · rw [if_neg hzero']
        refine .once hround hc.taken.self hc₂ (by rwa [hcell]) ?_
        refine (h.runs hzero fuel ρ _ hs₁).andTakes (tryLeaves_reset hc₂) fun ρ' s' hs' => ?_
        have hcD := h.grown.not_owned hc.taken.self (hD.not_owned hc.taken)
        refine ⟨_, (Cell.takes_reset hc₂ s').lift, ⟨hs'.1.set h.grown.arranged hc₂ hcD 0, ?_⟩,
          Contents.set_cells_self _ _ _⟩
        exact (hs'.2.of_taken hc.taken).set hc.taken.not_owned 0

/-- Two blocks, of which one is run: the first one if `c` is not zero. -/
theorem runs_blocks (h : Realizes settings initial D live₂ body new live₃ run)
    (h' : Realizes settings initial (D ++ new) live₃ otherwise new' live₄ run')
    (hzero : Zeroed initial (D ++ (new ++ new'))) (hc : Owned live₂ c.address)
    (hother : Owned live₂ other.address) (hcD : ¬Owned D.regions c.address)
    (hotherD : ¬Owned D.regions other.address) (hne : c.address ≠ other.address)
    (hlive : ∀ x, Owned live x → Owned live₂ x) (hclive : ¬Owned live c.address)
    (hotherlive : ¬Owned live other.address) {ρ : State} {s : Contents} (fuel : Nat)
    (hs : Agrees initial D live₂ ρ s) (hone : s.cells other.address = 1) :
    TryRuns settings D live₂ (do
        c.tryLoop do body; c.reset; other.reset
        other.tryLoop do otherwise; other.reset) (new ++ new') live₄ fuel s
      (fun ρ' s' => Agrees initial (D ++ (new ++ new')) live₄ ρ' s' ∧ Keeps D live s s')
      (if s.cells c.address = 0 then run' fuel ρ else run fuel ρ) := by
  have hzero₁ : Zeroed initial (D ++ new) := fun name v hv =>
    hzero name v (by rw [← List.append_assoc]; exact List.mem_append_left _ hv)
  rw [← List.append_assoc] at hzero ⊢
  have hc₃ := h.grown.owned hc
  have hother₃ := h.grown.owned hother
  have hother₄ := h'.grown.owned hother₃
  have hcD₃ := h.grown.not_owned hc hcD
  have hotherD₃ := h.grown.not_owned hother hotherD
  have hotherD₄ := h'.grown.not_owned hother₃ hotherD₃
  have hround : TryBuilds D live₂ (do body; c.reset; other.reset) new live₃ :=
    h.builds.andLeaves (.bind (tryLeaves_reset hc₃) (tryLeaves_reset hother₃))
  have hround' : TryBuilds (D ++ new) live₃ (do otherwise; other.reset) new' live₄ :=
    h'.builds.andLeaves (tryLeaves_reset hother₄)
  have hsecond := hround'.loop hother₃ hother₄
  by_cases hcell : s.cells c.address = 0
  · rw [if_pos hcell]
    have hfirst : TryRuns settings D live₂ (c.tryLoop do body; c.reset; other.reset) new live₃
        fuel s (fun ρ' s' => ρ' = ρ ∧ s' = s) (.done ρ) := .skip hround hc hc₃ hcell ⟨rfl, rfl⟩
    refine hfirst.bind hsecond fun ρ' s' hsame => ?_
    obtain ⟨rfl, rfl⟩ := hsame
    refine .once hround' hother₃ hother₄ (by rw [hone]; decide) ?_
    refine (h'.runs hzero fuel _ _ (hs.grow h.grown hzero₁)).andTakes (tryLeaves_reset hother₄)
      fun ρ₁ s₁ hs₁ => ?_
    refine ⟨_, (Cell.takes_reset hother₄ s₁).lift,
      ⟨hs₁.1.set h'.grown.arranged hother₄ hotherD₄ 0, ?_⟩, Contents.set_cells_self _ _ _⟩
    refine Keeps.set (fun x hx hxD => ?_) hotherlive 0
    exact hs₁.2 x (h.grown.owned (hlive x hx)) (h.grown.not_owned (hlive x hx) hxD)
  · rw [if_neg hcell, ← Outcome.andThen_done (run fuel ρ)]
    have hfirst : TryRuns settings D live₂ (c.tryLoop do body; c.reset; other.reset) new live₃
        fuel s (fun ρ' s' => (Agrees initial (D ++ new) live₃ ρ' s' ∧ Keeps D live s s') ∧
          s'.cells other.address = 0) (run fuel ρ) := by
      refine .once hround hc hc₃ hcell ?_
      refine (h.runs hzero₁ fuel ρ s hs).andTakes
        (.bind (tryLeaves_reset hc₃) (tryLeaves_reset hother₃)) fun ρ₁ s₁ hs₁ => ?_
      have hs₂ := hs₁.1.set h.grown.arranged hc₃ hcD₃ 0
      refine ⟨_, .bind (Cell.takes_reset hc₃ s₁).lift (Cell.takes_reset hother₃ _).lift,
        ⟨⟨hs₂.set h.grown.arranged hother₃ hotherD₃ 0, ?_⟩, Contents.set_cells_self _ _ _⟩, ?_⟩
      · refine Keeps.set (Keeps.set (fun x hx hxD => ?_) hclive 0) hotherlive 0
        exact hs₁.2 x (hlive x hx) hxD
      · rw [Contents.set_cells_of_ne _ _ hne, Contents.set_cells_self]
    refine hfirst.bind hsecond fun ρ' s' hs' => ?_
    exact .skip hround' hother₃ hother₄ hs'.2 ⟨hs'.1.1.grow h'.grown hzero, hs'.1.2⟩

theorem realizes_ifElse (hD : Arranged D live) (hc : Evaluated settings D live condition c live₁)
    (hfits : condition.fits D.scope .int = true) (hother : other.Taken live₁ live₂)
    (hnew : ∀ s, Takes settings live₁ Cell.temporary other live₂ s s)
    (h : Realizes settings initial D live₂ body new live₃ run)
    (h' : Realizes settings initial (D ++ new) live₃ otherwise new' live₄ run') :
    Realizes settings initial D live (emitIfElse condition body otherwise) (new ++ new')
      ((live₄.erase other.region).erase c.region)
      fun fuel ρ => .withValue (eval ρ.store condition) fun b =>
        if b = 0 then run' fuel ρ else run fuel ρ where
  builds := builds_ifElse hc hD hother (hnew blank) h.builds h.grown h'.builds h'.grown
  grown := ((h.grown.trans h'.grown).release (hD.taken hc.taken) hother).release hD hc.taken
  runs hzero fuel ρ s hs := by
    have hD₁ := hD.taken hc.taken
    have hall := h.grown.trans h'.grown
    have hne : c.address ≠ other.address := hother.ne hc.taken.self
    have hotherlive : ¬Owned live other.address := fun hown =>
      hother.not_owned (hc.taken.old hown)
    cases hb : eval ρ.store condition with
    | error reason => exact Reference.eval_stuck hs.holds.fills condition hfits hb
    | ok b =>
      let s₂ := (s.set c.address b).set other.address 1
      have hs₂ : Agrees initial D live₂ ρ s₂ := (hs.evaluated hD hc.taken b).evaluated hD₁ hother 1
      have hcell : s₂.cells c.address = b := by
        rw [Contents.set_cells_of_ne _ _ hne, Contents.set_cells_self]
      have hadd :
          TryTakes settings D live₂ (liftM (other.add 1)) () live₂ (s.set c.address b) s₂ := by
        refine (Cell.takes_add hother.self 1 _).lift.to ?_
        have hfresh : (s.set c.address b).cells other.address = 0 :=
          hother.zero (hs.evaluated hD hc.taken b).ready
        rw [hfresh]
        rfl
      refine (hc.takes ρ.store s b hs.ready hs.holds hb).andRuns ?_
      refine (hnew _).lift.andRuns (hadd.andRuns (.assoc (.assoc ?_)))
      refine .release hD hc.taken (hall.release hD₁ hother) hc.taken.not_owned ?_
      refine .release hD₁ hother hall hotherlive ?_
      have hblocks := runs_blocks h h' hzero (hother.old hc.taken.self) hother.self
        (hD.not_owned hc.taken) (hD₁.not_owned hother) hne
        (fun x hx => hother.old (hc.taken.old hx)) hc.taken.not_owned hotherlive fuel hs₂
        (Contents.set_cells_self _ _ _)
      rw [hcell] at hblocks
      refine hblocks.mono fun ρ' s' hs' => ⟨hs'.1, fun x hx hxD => ?_⟩
      rw [hs'.2 x hx hxD]
      exact ((Keeps.refl D live s).set hc.taken.not_owned b).set hotherlive 1 x hx hxD

end If

section While

variable {settings : Settings} {initial : Store} {D new : Declared}
  {live live₁ live₂ : List Region} {condition : Expr} {c : Cell} {body : TryEmit Unit}
  {run : Nat → State → Outcome}

/-- A round of a loop: its block, and the condition again. -/
theorem runs_round (h : Repeats settings initial D live₁ body new live₂ run)
    (hc : c.Taken live live₁) (hD : Arranged D live) (hfits : condition.fits D.scope .int = true)
    (hzero : Zeroed initial (D ++ new)) {s s' : Contents} {ρ : State} (fuel : Nat)
    (hs : Agrees initial (D ++ new) live₂ ρ s') (hkeeps : Keeps D live s s') :
    TryRuns settings D live₁ (do body; emitExpr (.int c) condition) new live₂ fuel s'
      (fun ρ' s' => (Agrees initial (D ++ new) live₂ ρ' s' ∧ Keeps D live s s') ∧
        eval ρ'.store condition = .ok (s'.cells c.address))
      ((run fuel ρ).andThen fun ρ' => .withValue (eval ρ'.store condition) fun _ => .done ρ') := by
  have hfits₂ := Expr.fits_mono h.grown.within condition hfits
  have hc₂ := h.grown.owned hc.self
  have hvalue : Evaluates settings (D ++ new) live₂ c condition :=
    evaluates condition h.grown.arranged hc₂ hfits₂
  refine (h.runs hzero fuel ρ s' hs).andThen hvalue.leaves fun ρ₁ s₁ hs₁ => ?_
  cases hb : eval ρ₁.store condition with
  | error reason => exact Reference.eval_stuck hs₁.1.holds.fills condition hfits₂ hb
  | ok b =>
    have hcD := h.grown.not_owned hc.self (hD.not_owned hc)
    refine ⟨_, (hvalue.takes _ s₁ b hs₁.1.ready hs₁.1.holds hb).transforms,
      ⟨hs₁.1.set h.grown.arranged hc₂ hcD b, ?_⟩, ?_⟩
    · refine Keeps.set (fun x hx hxD => ?_) hc.not_owned b
      rw [hs₁.2 x (hc.old hx) hxD, hkeeps x hx hxD]
    · rw [Contents.set_cells_self, hb]

/-- What is left of a loop after some rounds. -/
theorem runs_rest (h : Repeats settings initial D live₁ body new live₂ run)
    (hc : c.Taken live live₁) (hD : Arranged D live) (hfits : condition.fits D.scope .int = true)
    (hzero : Zeroed initial (D ++ new)) {fuel : Nat} {s s₁ : Contents}
    (hround : TryBuilds D live₁ (do body; emitExpr (.int c) condition) new live₂) :
    ∀ (n : Nat) {k : Nat} {ρ : State} {s' : Contents}, k + n = fuel →
      Rounds (Contents.Enters c.address) (TryTransforms settings D live₁
        (do body; emitExpr (.int c) condition) new live₂) k s₁ s' →
      Agrees initial (D ++ new) live₂ ρ s' → Keeps D live s s' →
      eval ρ.store condition = .ok (s'.cells c.address) →
      TryRuns settings D live₁ (c.tryLoop do body; emitExpr (.int c) condition) new live₂ fuel s₁
        (fun ρ' s' => Agrees initial (D ++ new) live₂ ρ' s' ∧ Keeps D live s s')
        (repeatWhile (fun σ => eval σ condition) (run fuel) n ρ) := by
  have hc₂ := h.grown.owned hc.self
  intro n
  induction n with
  | zero =>
    intro k ρ s' hk hrounds hs hkeeps hvalue
    by_cases hcell : s'.cells c.address = 0
    · rw [Reference.repeatWhile_done (hvalue.trans (congrArg _ hcell))]
      exact ⟨s', tryTransforms_loop hround hc.self hc₂ hrounds hcell, hs, hkeeps⟩
    · rw [Reference.repeatWhile_zero hvalue hcell]
      obtain rfl : k = fuel := hk
      have hdelays := tryDelays_rounds hround hc.self hc₂ hrounds
      rwa [hs.output] at hdelays
  | succ n ih =>
    intro k ρ s' hk hrounds hs hkeeps hvalue
    by_cases hcell : s'.cells c.address = 0
    · rw [Reference.repeatWhile_done (hvalue.trans (congrArg _ hcell))]
      exact ⟨s', tryTransforms_loop hround hc.self hc₂ hrounds hcell, hs, hkeeps⟩
    · rw [Reference.repeatWhile_succ hvalue hcell, ← Reference.repeatWhile_checked]
      refine .loop hround hc.self hc₂ hrounds hcell
        (runs_round h hc hD hfits hzero fuel hs hkeeps) ?_
      intro ρ' s'' hs'' hrounds'
      exact ih (by omega) hrounds' hs''.1.1 hs''.1.2 hs''.2

theorem realizes_while (hD : Arranged D live) (hc : Evaluated settings D live condition c live₁)
    (hfits : condition.fits D.scope .int = true)
    (h : Repeats settings initial D live₁ body new live₂ run) :
    Realizes settings initial D live (emitWhile condition body) new (live₂.erase c.region)
      fun fuel => repeatWhile (fun σ => eval σ condition) (run fuel) fuel where
  builds := builds_while hc h.builds h.grown hfits
  grown := h.grown.release hD hc.taken
  runs hzero fuel ρ s hs := by
    have hvalue : Evaluates settings (D ++ new) live₂ c condition :=
      evaluates condition h.grown.arranged (h.grown.owned hc.taken.self)
        (Expr.fits_mono h.grown.within condition hfits)
    have hround : TryBuilds D live₁ (do body; emitExpr (.int c) condition) new live₂ :=
      h.builds.andLeaves hvalue.leaves
    cases hb : eval ρ.store condition with
    | error reason =>
      rw [Reference.repeatWhile_stuck hb]
      exact Reference.eval_stuck hs.holds.fills condition hfits hb
    | ok b =>
      have hs₁ := (hs.evaluated hD hc.taken b).grow h.grown hzero
      refine (hc.takes ρ.store s b hs.ready hs.holds hb).andRuns
        (.release hD hc.taken h.grown hc.taken.not_owned ?_)
      refine runs_rest h hc.taken hD hfits hzero hround fuel (Nat.zero_add fuel) (.zero _) hs₁ ?_ ?_
      · exact (Keeps.refl D live s).set hc.taken.not_owned b
      · rw [Contents.set_cells_self, hb]

end While

section For

variable {settings : Settings} {initial : Store} {D new : Declared}
  {live live₁ live₂ live₃ live₄ : List Region} {element list : Text} {el index limit more : Cell}
  {cells : CellList} {prepare body : TryEmit Unit} {run : Nat → State → Outcome}

/-- The step writes no code. -/
def Prepares (settings : Settings) (D : Declared) (live : List Region) (m : TryEmit Unit)
    (new : Declared) (live' : List Region) : Prop :=
  ∀ s, TryTransforms settings D live m new live' s s

theorem TryTransforms.builds {m : TryEmit Unit} {s s' : Contents}
    (h : TryTransforms settings D live m new live₁ s s') : TryBuilds D live m new live₁ := by
  intro e he hlive hdeclared
  obtain ⟨e', hrun, hbuilt, -⟩ := h e he hlive hdeclared
  exact ⟨e', hrun, hbuilt⟩

/-- The cells of a counting loop after `k` rounds. -/
structure Counts (index limit more : Cell) (n k : Nat) (s : Contents) : Prop where
  index : s.cells index.address = UInt8.ofNat k
  limit : s.cells limit.address = UInt8.ofNat n
  more : s.cells more.address = truth (UInt8.ofNat k < UInt8.ofNat n)

theorem Counts.more_eq_zero {n k : Nat} {s : Contents} (h : Counts index limit more n k s)
    (hn : n < 256) (hk : k ≤ n) : s.cells more.address = 0 ↔ k = n := by
  have hlt : UInt8.ofNat k < UInt8.ofNat n ↔ k < n := by
    rw [UInt8.lt_iff_toNat_lt, UInt8.toNat_ofNat', UInt8.toNat_ofNat']
    omega
  rw [h.more, Cell.truth_congr hlt, truth]
  by_cases hless : k < n
  · rw [if_pos hless]
    exact ⟨fun hone => absurd hone (by decide), fun heq => by omega⟩
  · rw [if_neg hless]
    exact ⟨fun _ => by omega, fun _ => rfl⟩

theorem Counter.free_limit (h : Counter settings live index limit more live₁ live₂ live₃) :
    ¬Owned live limit.address :=
  fun hown => h.takenLimit.not_owned (h.takenIndex.old hown)

theorem Counter.free_more (h : Counter settings live index limit more live₁ live₂ live₃) :
    ¬Owned live more.address :=
  fun hown => h.takenMore.not_owned (h.takenLimit.old (h.takenIndex.old hown))

theorem Counter.index_ne_limit (h : Counter settings live index limit more live₁ live₂ live₃) :
    index.address ≠ limit.address :=
  h.takenLimit.ne h.takenIndex.self

theorem Counter.index_ne_more (h : Counter settings live index limit more live₁ live₂ live₃) :
    index.address ≠ more.address :=
  h.takenMore.ne (h.takenLimit.old h.takenIndex.self)

theorem Counter.limit_ne_more (h : Counter settings live index limit more live₁ live₂ live₃) :
    limit.address ≠ more.address :=
  h.takenMore.ne h.takenLimit.self

/-- What the tape holds once the index is `k` and compared with the limit `n`. -/
def counting (s : Contents) (index more : Cell) (n k : Nat) : Contents :=
  (s.set index.address (UInt8.ofNat k)).set more.address (truth (UInt8.ofNat k < UInt8.ofNat n))

theorem Counter.counts (h : Counter settings live index limit more live₁ live₂ live₃)
    {s : Contents} {n : Nat} (hlimit : s.cells limit.address = UInt8.ofNat n) (k : Nat) :
    Counts index limit more n k (counting s index more n k) := by
  refine ⟨?_, ?_, Contents.set_cells_self _ _ _⟩
  · rw [counting, Contents.set_cells_of_ne _ _ h.index_ne_more, Contents.set_cells_self]
  · rw [counting, Contents.set_cells_of_ne _ _ h.limit_ne_more,
      Contents.set_cells_of_ne _ _ h.index_ne_limit.symm, hlimit]

/-- At the end of a round the counter goes on to the next index. -/
theorem Counter.takes_advance (h : Counter settings live index limit more live₁ live₂ live₃)
    (hgrown : Grown D live₃ new live₄) {s : Contents} {n k : Nat} (hs : Ready live₄ s)
    (hindex : s.cells index.address = UInt8.ofNat k)
    (hlimit : s.cells limit.address = UInt8.ofNat n) :
    TryTakes settings (D ++ new) live₄ (do index.add 1; more.lessThan index limit) () live₄ s
      (counting s index more n (k + 1)) := by
  have hi := hgrown.owned h.owned_index
  have hnext : s.cells index.address + UInt8.ofInt 1 = UInt8.ofNat (k + 1) := by
    rw [hindex, UInt8.ofNat_add]
    rfl
  refine .bind ((Cell.takes_add hi 1 s).lift.to (by rw [hnext])) ((Cell.takes_lessThan
    (hs.set hi _) (hgrown.owned h.takenMore.self) hi (hgrown.owned h.owned_limit)).lift.to ?_)
  rw [counting, Contents.set_cells_self, Contents.set_cells_of_ne _ _ h.index_ne_limit.symm, hlimit]

/-- A cell that was not in use when the variables were declared belongs to none of them. -/
theorem Grown.not_owned_of_free (hgrown : Grown D live₃ new live₄) (hD : Arranged D live) {x : Int}
    (hx : Owned live₃ x) (hfree : ¬Owned live x) : ¬Owned (Declared.regions (D ++ new)) x :=
  hgrown.not_owned hx fun hown => hfree (hD.owned hown)

/-- A round of a loop over a list. -/
theorem runs_forRound (h : Counter settings live index limit more live₁ live₂ live₃)
    (hD : Arranged D live) (hel : D.find? element = some (.int el))
    (hcells : D.find? list = some (.list cells))
    (hprepare : Prepares settings D live₃ prepare new live₄) (hgrown : Grown D live₃ new live₄)
    (hbody : Realizes settings initial (D ++ new) live₄ body [] live₄ run)
    (hzero : Zeroed initial (D ++ new)) {ρ : State} {s s' : Contents} (fuel : Nat) {k : Nat}
    {b : UInt8} (hs : Agrees initial (D ++ new) live₄ ρ s') (hk : k < cells.length)
    (hb : s'.cells (cells.element k).address = b)
    (hcounts : Counts index limit more cells.length k s') (hkeeps : Keeps D live s s') :
    TryRuns settings D live₃ (do prepare; forRound el cells body index limit more) new live₄ fuel s'
      (fun ρ₁ s₁ => (Agrees initial (D ++ new) live₄ ρ₁ s₁ ∧ Keeps D live s s₁) ∧
        Counts index limit more cells.length (k + 1) s₁)
      (run fuel { ρ with store := ρ.store.set element (.int b) }) := by
  have hD₄ := hgrown.arranged
  have hel₄ := hD₄.find_of_mem (List.mem_append_left new (Declared.mem_of_find hel))
  have hcells₄ := hD₄.find_of_mem (List.mem_append_left new (Declared.mem_of_find hcells))
  have hplaced := hD₄.placed_list hcells₄
  have hi₄ := hgrown.owned h.owned_index
  have hl₄ := hgrown.owned h.owned_limit
  have hm₄ := hgrown.owned h.takenMore.self
  have hiD := hgrown.not_owned_of_free hD h.owned_index h.takenIndex.not_owned
  have hlD := hgrown.not_owned_of_free hD h.owned_limit h.free_limit
  have hmD := hgrown.not_owned_of_free hD h.takenMore.self h.free_more
  have hround := builds_forRound hD₄ hel₄ hcells₄ hi₄ hl₄ hm₄ hbody.builds hbody.grown
  have hfirst : TryRuns settings D live₃ prepare new live₄ fuel s'
      (fun ρ' s'' => ρ' = ρ ∧ s'' = s') (.done ρ) := ⟨s', hprepare s', rfl, rfl⟩
  show TryRuns _ _ _ _ _ _ _ _ _ ((Outcome.done ρ).andThen fun ρ =>
    run fuel { ρ with store := ρ.store.set element (.int b) })
  refine hfirst.andThen hround.leaves ?_
  rintro ρ s' ⟨rfl, rfl⟩
  have hindex : (s'.cells index.address).toNat = k := by
    have := hplaced.length_lt
    rw [hcounts.index, UInt8.toNat_ofNat']
    omega
  obtain ⟨hs₁, hkeeps₁⟩ := hs.store_int hD₄ hel₄ b
  refine runs_load hD₄.packed hplaced (hD₄.owned_int hel₄) hi₄ hs.ready
    (hs.holds.quiet_list hcells₄) (by rwa [hindex]) ?_
  rw [hindex, hb]
  have hzero' : Zeroed initial (D ++ new ++ []) := by rwa [List.append_nil]
  refine (hbody.runs hzero' fuel _ _ hs₁).andTakes ?_ fun ρ₂ s₂ hs₂ => ?_
  · exact tryLeaves_advance hD₄.packed hi₄ hl₄ hm₄
  · rw [List.append_nil] at hs₂ ⊢
    have hi₂ : s₂.cells index.address = UInt8.ofNat k := by
      rw [hs₂.2 _ hi₄ hiD, hkeeps₁ _ hi₄ hiD, hcounts.index]
    have hl₂ : s₂.cells limit.address = UInt8.ofNat cells.length := by
      rw [hs₂.2 _ hl₄ hlD, hkeeps₁ _ hl₄ hlD, hcounts.limit]
    refine ⟨_, h.takes_advance hgrown hs₂.1.ready hi₂ hl₂,
      ⟨(hs₂.1.set hD₄ hi₄ hiD _).set hD₄ hm₄ hmD _, ?_⟩, h.counts hl₂ (k + 1)⟩
    refine Keeps.set (Keeps.set (fun x hx hxD => ?_) h.takenIndex.not_owned _) h.free_more _
    have hx₄ := hgrown.owned (h.owned hx)
    have hxD₄ := hgrown.not_owned (h.owned hx) hxD
    rw [hs₂.2 x hx₄ hxD₄, hkeeps₁ x hx₄ hxD₄, hkeeps x hx hxD]

theorem forEach_cons {body : State → Outcome} {k : Nat} {rest : List Nat} {ρ : State} {s : Contents}
    (hs : Represents D ρ.store s) (hcells : D.find? list = some (.list cells))
    (hk : k < cells.length) :
    forEach element list body (k :: rest) ρ =
      (body { ρ with
        store := ρ.store.set element (.int (s.cells (cells.element k).address)) }).andThen
        (forEach element list body rest) := by
  have hvalue :
      elementAt (cells.values s) k .invalid = .ok (s.cells (cells.element k).address) := by
    rw [elementAt, cells.getElem?_values s hk]
    rfl
  have hread : (do let bytes ← ρ.store.bytes list; elementAt bytes k .invalid) =
      .ok (s.cells (cells.element k).address) := by
    rw [hs.bytes hcells]
    exact hvalue
  rw [forEach, hread]
  rfl

section Rest

variable (h : Counter settings live index limit more live₁ live₂ live₃) (hD : Arranged D live)
  (hel : D.find? element = some (.int el)) (hcells : D.find? list = some (.list cells))
  (hprepare : Prepares settings D live₃ prepare new live₄) (hgrown : Grown D live₃ new live₄)
  (hbody : Realizes settings initial (D ++ new) live₄ body [] live₄ run)

include h hD hel hcells hprepare hgrown hbody

omit hD in
theorem builds_prepared :
    TryBuilds D live₃ (do prepare; forRound el cells body index limit more) new live₄ := by
  have hD₄ := hgrown.arranged
  have hel₄ := hD₄.find_of_mem (List.mem_append_left new (Declared.mem_of_find hel))
  have hcells₄ := hD₄.find_of_mem (List.mem_append_left new (Declared.mem_of_find hcells))
  have hround := builds_forRound hD₄ hel₄ hcells₄ (hgrown.owned h.owned_index)
    (hgrown.owned h.owned_limit) (hgrown.owned h.takenMore.self) hbody.builds hbody.grown
  exact (hprepare blank).builds.andLeaves hround.leaves

/-- What is left of a loop over a list after some rounds. -/
theorem runs_forRest (hzero : Zeroed initial (D ++ new)) {fuel : Nat} {s s₁ : Contents} :
    ∀ (n : Nat) {k : Nat} {ρ : State} {s' : Contents}, k + n = cells.length →
      Rounds (Contents.Enters more.address) (TryTransforms settings D live₃
        (do prepare; forRound el cells body index limit more) new live₄) k s₁ s' →
      Agrees initial (D ++ new) live₄ ρ s' → Keeps D live s s' →
      Counts index limit more cells.length k s' →
      TryRuns settings D live₃
        (more.tryLoop do prepare; forRound el cells body index limit more) new live₄ fuel s₁
        (fun ρ' s' => Agrees initial (D ++ new) live₄ ρ' s' ∧ Keeps D live s s')
        (forEach element list (run fuel) (List.range' k n) ρ) := by
  have hround := builds_prepared h hel hcells hprepare hgrown hbody
  have hm₄ := hgrown.owned h.takenMore.self
  have hlength := (hD.placed_list hcells).length_lt
  intro n
  induction n with
  | zero =>
    intro k ρ s' hk hrounds hs hkeeps hcounts
    have hstop := (hcounts.more_eq_zero hlength (by omega)).2 (by omega)
    exact ⟨s', tryTransforms_loop hround h.takenMore.self hm₄ hrounds hstop, hs, hkeeps⟩
  | succ n ih =>
    intro k ρ s' hk hrounds hs hkeeps hcounts
    have hgoes : s'.cells more.address ≠ 0 := by
      rw [Ne, hcounts.more_eq_zero hlength (by omega)]
      omega
    have hcells₄ := hgrown.arranged.find_of_mem
      (List.mem_append_left new (Declared.mem_of_find hcells))
    rw [List.range'_succ, forEach_cons hs.holds hcells₄ (by omega)]
    refine .loop hround h.takenMore.self hm₄ hrounds hgoes (runs_forRound h hD hel hcells hprepare
      hgrown hbody hzero fuel hs (by omega) rfl hcounts hkeeps) ?_
    intro ρ' s'' hs'' hrounds'
    exact ih (by omega) hrounds' hs''.1.1 hs''.1.2 hs''.2

theorem realizes_forEach :
    Realizes settings initial D live
      (emitCounting cells fun index limit more => do
        prepare
        forRound el cells body index limit more)
      new (((live₄.erase more.region).erase limit.region).erase index.region)
      fun fuel ρ => .withValue (ρ.store.bytes list) fun bytes =>
        forEach element list (run fuel) (List.range bytes.length) ρ where
  builds := h.builds_counting hD (builds_prepared h hel hcells hprepare hgrown hbody) hgrown
  grown := h.release hD hgrown
  runs hzero fuel ρ s hs := by
    have hD₁ := hD.taken h.takenIndex
    have hD₂ := hD₁.taken h.takenLimit
    let n := cells.length
    have hs₂ := (hs.taken h.takenIndex).evaluated hD₁ h.takenLimit (UInt8.ofNat n)
    let start := (s.set limit.address (UInt8.ofNat n)).set more.address
      (truth (UInt8.ofNat 0 < UInt8.ofNat n))
    have hs₃ : Agrees initial D live₃ ρ start := hs₂.evaluated hD₂ h.takenMore _
    have hindex : (s.set limit.address (UInt8.ofNat n)).cells index.address = UInt8.ofNat 0 := by
      rw [Contents.set_cells_of_ne _ _ h.index_ne_limit, h.takenIndex.zero hs.ready]
      rfl
    have hcounts : Counts index limit more n 0 start := by
      have hcounting := h.counts (Contents.set_cells_self s limit.address (UInt8.ofNat n)) 0
      rwa [counting, Contents.set_eq_self hindex] at hcounting
    have hkeeps : Keeps D live s start :=
      ((Keeps.refl D live s).set h.free_limit _).set h.free_more _
    rw [hs.holds.bytes hcells]
    show TryRuns _ _ _ _ _ _ _ _ _
      (forEach element list (run fuel) (List.range (cells.values s).length) ρ)
    rw [CellList.length_values, List.range_eq_range']
    refine (h.newIndex s).lift.andRuns ((h.newLimit s).lift.andRuns ?_)
    have hlimit : TryTakes settings D live₂ (liftM (limit.setConst cells.length)) () live₂ s
        (s.set limit.address (UInt8.ofNat n)) := by
      rw [← ofInt_natCast]
      exact (Cell.takes_setConst h.takenLimit.self n s).lift
    have hless : TryTakes settings D live₃ (liftM (more.lessThan index limit)) () live₃
        (s.set limit.address (UInt8.ofNat n)) start := by
      refine (Cell.takes_lessThan (h.takenMore.ready hs₂.ready) h.takenMore.self h.owned_index
        h.owned_limit).lift.to ?_
      rw [hindex, Contents.set_cells_self]
    refine hlimit.andRuns ((h.newMore _).lift.andRuns (hless.andRuns (.assoc (.assoc ?_))))
    refine .release hD h.takenIndex ((hgrown.release hD₂ h.takenMore).release hD₁ h.takenLimit)
      h.takenIndex.not_owned ?_
    refine .release hD₁ h.takenLimit (hgrown.release hD₂ h.takenMore) h.free_limit ?_
    refine .release hD₂ h.takenMore hgrown h.free_more ?_
    exact runs_forRest h hD hel hcells hprepare hgrown hbody hzero n (Nat.zero_add n) (.zero _)
      (hs₃.grow hgrown hzero) hkeeps hcounts

end Rest

end For

end Goat
