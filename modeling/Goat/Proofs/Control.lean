import Goat.Proofs.Acceptance
import Goat.Proofs.Comparison

/-!
# Calls with blocks

What conditions and loops declare and keep in use, for any code of their blocks. A call is
accepted if its arguments fit and its blocks are accepted.
-/

namespace Goat

open Plain (Settings Contents)

theorem Grown.within {D new : Declared} {live live' : List Region} (h : Grown D live new live') :
    D.scope.Within (Declared.scope (D ++ new)) := by
  intro name kind hname
  obtain ⟨v, hv, rfl⟩ := Option.map_eq_some_iff.1 hname
  have hmem := List.mem_append_left new (Declared.mem_of_find hv)
  exact Declared.scope_of_find (h.arranged.find_of_mem hmem)

section Conditions

variable {settings : Settings} {D new new' : Declared} {live live₁ live₂ live₃ live₄ : List Region}
  {condition : Expr} {c other : Cell} {body otherwise : TryEmit Unit}

/-- A temporary that was taken before a step is given back after it. -/
theorem tryLeaves_destroy (hc : c.Taken live live₁) (hgrown : Grown D live₁ new live₂) :
    TryLeaves (D ++ new) live₂ c.destroy () (live₂.erase c.region) := by
  have htakes : Takes {} live₂ c.destroy () (live₂.erase c.region) blank _ :=
    Cell.takes_destroy (hgrown.owned hc.self) hc.owned blank
  exact htakes.leaves.lift

theorem tryLeaves_reset (hc : Owned live c.address) : TryLeaves D live c.reset () live := by
  have htakes : Takes {} live c.reset () live blank _ := Cell.takes_reset hc blank
  exact htakes.leaves.lift

section If

variable (hc : Evaluated settings D live condition c live₁)

include hc

theorem builds_if (hbody : TryBuilds D live₁ body new live₂) (hgrown : Grown D live₁ new live₂) :
    TryBuilds D live (emitIf condition body) new (live₂.erase c.region) := by
  have hc₂ := hgrown.owned hc.taken.self
  have hround : TryBuilds D live₁ (do body; c.reset) new live₂ :=
    hbody.andLeaves (tryLeaves_reset hc₂)
  exact hc.leaves.andBuilds ((hround.loop hc.taken.self hc₂).andLeaves
    (tryLeaves_destroy hc.taken hgrown))

theorem builds_while (hbody : TryBuilds D live₁ body new live₂) (hgrown : Grown D live₁ new live₂)
    (hfits : condition.fits D.scope .int = true) :
    TryBuilds D live (emitWhile condition body) new (live₂.erase c.region) := by
  have hc₂ := hgrown.owned hc.taken.self
  have hvalue : Evaluates settings (D ++ new) live₂ c condition :=
    evaluates condition hgrown.arranged hc₂ (Expr.fits_mono hgrown.within condition hfits)
  have hround : TryBuilds D live₁ (do body; emitExpr (.int c) condition) new live₂ :=
    hbody.andLeaves hvalue.leaves
  exact hc.leaves.andBuilds ((hround.loop hc.taken.self hc₂).andLeaves
    (tryLeaves_destroy hc.taken hgrown))

omit hc in
/-- The first of two blocks. -/
theorem builds_first (hc : Owned live₂ c.address) (hother : Owned live₂ other.address)
    (hbody : TryBuilds D live₂ body new live₃) (hgrown : Grown D live₂ new live₃) :
    TryBuilds D live₂ (c.tryLoop do body; c.reset; other.reset) new live₃ := by
  have hc₃ := hgrown.owned hc
  refine TryBuilds.loop (hbody.andLeaves ?_) hc hc₃
  exact .bind (tryLeaves_reset hc₃) (tryLeaves_reset (hgrown.owned hother))

theorem builds_ifElse (hD : Arranged D live) (hother : other.Taken live₁ live₂)
    (hnew : Takes settings live₁ Cell.temporary other live₂ blank blank)
    (hbody : TryBuilds D live₂ body new live₃) (hgrown : Grown D live₂ new live₃)
    (hotherwise : TryBuilds (D ++ new) live₃ otherwise new' live₄)
    (hgrown' : Grown (D ++ new) live₃ new' live₄) :
    TryBuilds D live (emitIfElse condition body otherwise) (new ++ new')
      ((live₄.erase other.region).erase c.region) := by
  have hD₁ := hD.taken hc.taken
  have hall := hgrown.trans hgrown'
  have hc₂ := hother.old hc.taken.self
  have hother₃ := hgrown.owned hother.self
  have hother₄ := hgrown'.owned hother₃
  have hadd : Takes {} live₂ (other.add 1) () live₂ blank _ := Cell.takes_add hother.self 1 blank
  have hfirst := builds_first hc₂ hother.self hbody hgrown
  have hsecond : TryBuilds (D ++ new) live₃ (other.tryLoop do otherwise; other.reset) new' live₄ :=
    (hotherwise.andLeaves (tryLeaves_reset hother₄)).loop hother₃ hother₄
  have hdestroy := tryLeaves_destroy hother hall
  have hdestroy' := tryLeaves_destroy hc.taken (hall.release hD₁ hother)
  refine hc.leaves.andBuilds (TryLeaves.andBuilds hnew.leaves.lift ?_)
  refine TryLeaves.andBuilds hadd.leaves.lift (hfirst.bind (hsecond.andLeaves ?_))
  rw [List.append_assoc]
  exact .bind hdestroy hdestroy'

end If

end Conditions

section For

variable {settings : Settings} {D new : Declared} {live live' : List Region} {el index : Cell}
  {cells : CellList} {k : TryEmit Unit}

/-- The code that copies the element at an index into a cell, and what comes after it. -/
def loadThen (el : Cell) (cells : CellList) (index : Cell) (k : TryEmit Unit) : TryEmit Unit := do
  let value ← cells.get index
  el.take value
  value.destroy
  k

variable (hlive : Packed live) (hcells : cells.Placed live) (hel : Owned live el.address)
  (hindex : Owned live index.address)

include hlive hcells hel hindex

theorem runs_load {fuel : Nat} {post : Reference.State → Contents → Prop} {o : Reference.Outcome}
    {s : Contents} (hs : Ready live s) (hquiet : cells.Quiet s)
    (hrange : (s.cells index.address).toNat < cells.length)
    (hk : TryRuns settings D live k new live' fuel (s.set el.address
      (s.cells (cells.element (s.cells index.address).toNat).address)) post o) :
    TryRuns settings D live (loadThen el cells index k) new live' fuel s post o := by
  obtain ⟨found, live₁, hfound, hget⟩ :=
    CellList.exists_taken_get settings hlive hcells hindex
  have htake (s : Contents) : Takes settings live₁ (el.take found) () live₁ s _ :=
    Cell.takes_take (hfound.old hel) hfound.self (hfound.ne hel) s
  refine TryTakes.andRuns (hget s hs hquiet hrange).lift (TryTakes.andRuns (htake _).lift
    (TryTakes.andRuns ((hfound.takes_destroy _).lift.to ?_) hk))
  have hz := hfound.zero hs
  have hne := hfound.ne hel
  rw [Contents.set_cells_self]
  refine Contents.ext (funext fun z => ?_) rfl rfl
  simp only [Contents.set_cells]
  grind

/-- The three steps of loading an element can be emitted. -/
theorem exists_leaves_load : ∃ found live₁, TryLeaves D live (cells.get index) found live₁ ∧
    TryLeaves D live₁ (el.take found) () live₁ ∧ TryLeaves D live₁ found.destroy () live := by
  obtain ⟨found, live₁, hfound, hget⟩ := CellList.exists_taken_get {} hlive hcells hindex
  have hfirst := hget blank (ready_blank hlive) (fun _ _ => rfl) hcells.length_pos
  have htake : Takes {} live₁ (el.take found) () live₁ blank _ :=
    Cell.takes_take (hfound.old hel) hfound.self (hfound.ne hel) _
  have hdestroy : Takes {} live₁ found.destroy () live blank _ := hfound.takes_destroy blank
  exact ⟨found, live₁, hfirst.leaves.lift, htake.leaves.lift, hdestroy.leaves.lift⟩

theorem builds_load (hk : TryBuilds D live k new live') :
    TryBuilds D live (loadThen el cells index k) new live' := by
  obtain ⟨found, live₁, hget, htake, hdestroy⟩ := exists_leaves_load hlive hcells hel hindex
  exact hget.andBuilds (htake.andBuilds (hdestroy.andBuilds hk))

theorem rejects_load (hk : TryRejects D live k) :
    TryRejects D live (loadThen el cells index k) := by
  obtain ⟨found, live₁, hget, htake, hdestroy⟩ := exists_leaves_load hlive hcells hel hindex
  exact .after hget (.after htake (.after hdestroy hk))

omit hlive hcells hel hindex

/-- Runs `round` for every index of a list. -/
def emitCounting (cells : CellList) (round : Cell → Cell → Cell → TryEmit Unit) : TryEmit Unit := do
  let index ← Cell.temporary
  let limit ← Cell.temporary
  limit.setConst cells.length
  let more ← Cell.temporary
  more.lessThan index limit
  more.tryLoop (round index limit more)
  more.destroy
  limit.destroy
  index.destroy

/-- A round of a loop over a list. -/
def forRound (el : Cell) (cells : CellList) (body : TryEmit Unit) (index limit more : Cell) :
    TryEmit Unit :=
  loadThen el cells index do body; index.add 1; more.lessThan index limit

theorem emitForEach_eq (el : Cell) (cells : CellList) (body : TryEmit Unit) :
    emitForEach el cells body = emitCounting cells (forRound el cells body) := rfl

/-- The end of a round: the index goes up and is compared with its limit again. -/
theorem tryLeaves_advance {limit more : Cell} (hlive : Packed live)
    (hindex : Owned live index.address) (hlimit : Owned live limit.address)
    (hmore : Owned live more.address) :
    TryLeaves D live (do index.add 1; more.lessThan index limit) () live := by
  have hadd : Takes {} live (index.add 1) () live blank _ := Cell.takes_add hindex 1 blank
  have hless : Takes {} live (more.lessThan index limit) () live blank _ :=
    Cell.takes_lessThan (ready_blank hlive) hmore hindex hlimit
  exact .bind hadd.leaves.lift hless.leaves.lift

theorem builds_forRound {limit more : Cell} {element list : Text} {body : TryEmit Unit}
    (hD : Arranged D live) (hel : D.find? element = some (.int el))
    (hcells : D.find? list = some (.list cells)) (hindex : Owned live index.address)
    (hlimit : Owned live limit.address) (hmore : Owned live more.address)
    (hbody : TryBuilds D live body new live') (hgrown : Grown D live new live') :
    TryBuilds D live (forRound el cells body index limit more) new live' := by
  have hadvance : TryLeaves (D ++ new) live' (do index.add 1; more.lessThan index limit) () live' :=
    tryLeaves_advance hgrown.arranged.packed (hgrown.owned hindex) (hgrown.owned hlimit)
      (hgrown.owned hmore)
  exact builds_load hD.packed (hD.placed_list hcells) (hD.owned_int hel) hindex
    (hbody.andLeaves hadvance)

/-- The temporaries of a loop over a list: the index, its limit, and whether it is below it. -/
structure Counter (settings : Settings) (live : List Region) (index limit more : Cell)
    (live₁ live₂ live₃ : List Region) : Prop where
  takenIndex : index.Taken live live₁
  takenLimit : limit.Taken live₁ live₂
  takenMore : more.Taken live₂ live₃
  newIndex : ∀ s, Takes settings live Cell.temporary index live₁ s s
  newLimit : ∀ s, Takes settings live₁ Cell.temporary limit live₂ s s
  newMore : ∀ s, Takes settings live₂ Cell.temporary more live₃ s s

theorem exists_counter (settings : Settings) (h : Packed live) :
    ∃ index limit more live₁ live₂ live₃,
      Counter settings live index limit more live₁ live₂ live₃ := by
  obtain ⟨index, live₁, hindex, hnew₁⟩ := Cell.exists_taken_temporary settings h
  obtain ⟨limit, live₂, hlimit, hnew₂⟩ := Cell.exists_taken_temporary settings hindex.fresh.packed
  obtain ⟨more, live₃, hmore, hnew₃⟩ := Cell.exists_taken_temporary settings hlimit.fresh.packed
  exact ⟨index, limit, more, live₁, live₂, live₃, hindex, hlimit, hmore, hnew₁, hnew₂, hnew₃⟩

namespace Counter

variable {limit more : Cell} {live₁ live₂ live₃ live₄ : List Region}
  (h : Counter settings live index limit more live₁ live₂ live₃)

include h

theorem owned {x : Int} (hx : Owned live x) : Owned live₃ x :=
  h.takenMore.old (h.takenLimit.old (h.takenIndex.old hx))

theorem owned_index : Owned live₃ index.address :=
  h.takenMore.old (h.takenLimit.old h.takenIndex.self)

theorem owned_limit : Owned live₃ limit.address := h.takenMore.old h.takenLimit.self

theorem arranged (hD : Arranged D live) : Arranged D live₃ :=
  ((hD.taken h.takenIndex).taken h.takenLimit).taken h.takenMore

/-- The temporaries are given back after the loop. -/
theorem release (hD : Arranged D live) (hgrown : Grown D live₃ new live₄) :
    Grown D live new (((live₄.erase more.region).erase limit.region).erase index.region) :=
  have hD₁ := hD.taken h.takenIndex
  have hgrown₁ := (hgrown.release (hD₁.taken h.takenLimit) h.takenMore).release hD₁ h.takenLimit
  hgrown₁.release hD h.takenIndex

/-- A loop that counts up to the length of a list. -/
theorem builds_counting (hD : Arranged D live) {round : Cell → Cell → Cell → TryEmit Unit}
    (hround : TryBuilds D live₃ (round index limit more) new live₄)
    (hgrown : Grown D live₃ new live₄) :
    TryBuilds D live (emitCounting cells round) new
      (((live₄.erase more.region).erase limit.region).erase index.region) := by
  have hD₁ := hD.taken h.takenIndex
  have hD₂ := hD₁.taken h.takenLimit
  have hloop := hround.loop h.takenMore.self (hgrown.owned h.takenMore.self)
  have hlimit : Takes {} live₂ (limit.setConst cells.length) () live₂ blank _ :=
    Cell.takes_setConst h.takenLimit.self cells.length blank
  have hless : Takes {} live₃ (more.lessThan index limit) () live₃ blank _ :=
    Cell.takes_lessThan (ready_blank (h.arranged hD).packed) h.takenMore.self h.owned_index
      h.owned_limit
  have hdestroy := tryLeaves_destroy h.takenMore hgrown
  have hdestroy' := tryLeaves_destroy h.takenLimit (hgrown.release hD₂ h.takenMore)
  have hdestroy'' := tryLeaves_destroy h.takenIndex
    ((hgrown.release hD₂ h.takenMore).release hD₁ h.takenLimit)
  refine TryLeaves.andBuilds (h.newIndex blank).leaves.lift ?_
  refine TryLeaves.andBuilds (h.newLimit blank).leaves.lift ?_
  refine TryLeaves.andBuilds hlimit.leaves.lift ?_
  refine TryLeaves.andBuilds (h.newMore blank).leaves.lift ?_
  refine TryLeaves.andBuilds hless.leaves.lift ?_
  exact hloop.andLeaves (.bind hdestroy (.bind hdestroy' hdestroy''))

end Counter

end For

section Calls

variable {D : Declared} {live : List Region} {name : Text} {body otherwise : TryEmit Unit}
  {condition : Expr} {Γ : Option Scope}

theorem accepts_if (hD : Arranged D live) (hfits : condition.fits D.scope .int = true)
    (hbody : ∀ {live'}, Arranged D live' → Accepts D live' body Γ) :
    Accepts D live (emitIf condition body) Γ := by
  obtain ⟨c, live₁, hc⟩ := exists_evaluated {} hD hfits
  have haccepts := hbody (hD.taken hc.taken)
  cases Γ with
  | none => exact .after hc.leaves (((haccepts.bind _).loop hc.taken.self).bind _)
  | some Γ =>
    obtain ⟨new, live₂, hbuilds, hgrown, hscope⟩ := haccepts
    exact ⟨new, _, builds_if hc hbuilds hgrown, hgrown.release hD hc.taken, hscope⟩

theorem accepts_while (hD : Arranged D live) (hfits : condition.fits D.scope .int = true)
    (hbody : ∀ {live'}, Arranged D live' → Accepts D live' body Γ) :
    Accepts D live (emitWhile condition body) Γ := by
  obtain ⟨c, live₁, hc⟩ := exists_evaluated {} hD hfits
  have haccepts := hbody (hD.taken hc.taken)
  cases Γ with
  | none => exact .after hc.leaves (((haccepts.bind _).loop hc.taken.self).bind _)
  | some Γ =>
    obtain ⟨new, live₂, hbuilds, hgrown, hscope⟩ := haccepts
    exact ⟨new, _, builds_while hc hbuilds hgrown hfits, hgrown.release hD hc.taken, hscope⟩

theorem accepts_ifElse {scope? : Scope → Option Scope} (hD : Arranged D live)
    (hfits : condition.fits D.scope .int = true)
    (hbody : ∀ {live'}, Arranged D live' → Accepts D live' body Γ)
    (hotherwise : ∀ {D' live'}, Arranged D' live' →
      Accepts D' live' otherwise (scope? (Declared.scope D'))) :
    Accepts D live (emitIfElse condition body otherwise) (Γ.bind scope?) := by
  obtain ⟨c, live₁, hc⟩ := exists_evaluated {} hD hfits
  have hD₁ := hD.taken hc.taken
  obtain ⟨other, live₂, hother, hnew⟩ := Cell.exists_taken_temporary {} hD₁.packed
  have hadd : Takes {} live₂ (other.add 1) () live₂ blank _ := Cell.takes_add hother.self 1 blank
  have haccepts := hbody (hD₁.taken hother)
  have hc₂ := hother.old hc.taken.self
  cases Γ with
  | none =>
    exact .after hc.leaves (.after (hnew blank).leaves.lift (.after hadd.leaves.lift
      (((haccepts.bind _).loop hc₂).bind _)))
  | some Γ =>
    obtain ⟨new, live₃, hbuilds, hgrown, rfl⟩ := haccepts
    have haccepts' := hotherwise hgrown.arranged
    show Accepts D live _ (scope? (Declared.scope (D ++ new)))
    cases hscope : scope? (Declared.scope (D ++ new)) with
    | none =>
      rw [hscope] at haccepts'
      have hfirst := builds_first hc₂ hother.self hbuilds hgrown
      refine .after hc.leaves (.after (hnew blank).leaves.lift (.after hadd.leaves.lift ?_))
      exact hfirst.andRejects (((haccepts'.bind _).loop (hgrown.owned hother.self)).bind _)
    | some Γ' =>
      rw [hscope] at haccepts'
      obtain ⟨new', live₄, hbuilds', hgrown', rfl⟩ := haccepts'
      refine ⟨new ++ new', _, builds_ifElse hc hD hother (hnew blank) hbuilds hgrown hbuilds'
        hgrown', ?_, by rw [List.append_assoc]⟩
      exact ((hgrown.trans hgrown').release hD₁ hother).release hD hc.taken

theorem accepts_forEach (hD : Arranged D live) {element list : Text} {el : Cell} {cells : CellList}
    (hel : D.find? element = some (.int el)) (hcells : D.find? list = some (.list cells))
    (hbody : ∀ {live'}, Arranged D live' → Accepts D live' body Γ) :
    Accepts D live (emitForEach el cells body) Γ := by
  rw [emitForEach_eq]
  obtain ⟨index, limit, more, live₁, live₂, live₃, h⟩ := exists_counter {} hD.packed
  have hD₃ := h.arranged hD
  have haccepts := hbody hD₃
  cases Γ with
  | none =>
    have hlimit : Takes {} live₂ (limit.setConst cells.length) () live₂ blank _ :=
      Cell.takes_setConst h.takenLimit.self cells.length blank
    have hless : Takes {} live₃ (more.lessThan index limit) () live₃ blank _ :=
      Cell.takes_lessThan (ready_blank hD₃.packed) h.takenMore.self h.owned_index h.owned_limit
    have hload {k : Unit → TryEmit Unit} :
        TryRejects D live₃ (loadThen el cells index (body >>= k)) :=
      rejects_load hD₃.packed (hD₃.placed_list hcells) (hD₃.owned_int hel) h.owned_index
        (haccepts.bind k)
    refine .after (h.newIndex blank).leaves.lift (.after (h.newLimit blank).leaves.lift ?_)
    refine .after hlimit.leaves.lift (.after (h.newMore blank).leaves.lift ?_)
    exact .after hless.leaves.lift ((hload.loop h.takenMore.self).bind _)
  | some Γ =>
    obtain ⟨new, live₄, hbuilds, hgrown, hscope⟩ := haccepts
    have hround := builds_forRound hD₃ hel hcells h.owned_index h.owned_limit h.takenMore.self
      hbuilds hgrown
    exact ⟨new, _, h.builds_counting hD hround hgrown, h.release hD hgrown, hscope⟩

/-- The variables of a loop over a list. -/
theorem tryLeaves_loopVariables {element list : Text} {el : Cell} {cells : CellList}
    (hel : D.find? element = some (.int el)) (hcells : D.find? list = some (.list cells))
    (espan lspan : Span) :
    TryLeaves D live (loopVariables name (.var element espan) (.var list lspan)) (el, cells) live :=
  .bind (tryLeaves_lookup hel espan) (.bind (tryLeaves_lookup hcells lspan) (.pure (el, cells)))

theorem tryRejects_loopVariables {element list : Expr}
    (h : ∀ e espan l lspan, element = .var e espan → list = .var l lspan → ∀ n,
      ¬(D.scope e = some .int ∧ D.scope l = some (.list n))) :
    TryRejects D live (loopVariables name element list) := by
  cases element with
  | var e espan =>
    cases hfind : D.find? e with
    | none => exact (tryRejects_lookup hfind espan).bind _
    | some v =>
      refine .after (tryLeaves_lookup hfind espan) ?_
      cases list with
      | var l lspan =>
        cases hfind' : D.find? l with
        | none => exact (tryRejects_lookup hfind' lspan).bind _
        | some w =>
          refine .after (tryLeaves_lookup hfind' lspan) ?_
          cases v with
          | list cells => exact tryRejects_reject _ _
          | int c =>
            cases w with
            | int c' => exact tryRejects_reject _ _
            | list cells =>
              exact absurd ⟨Declared.scope_of_find hfind, Declared.scope_of_find hfind'⟩
                (h e espan l lspan rfl rfl cells.length)
      | _ => exact (tryRejects_reject _ _).bind _
  | _ => exact (tryRejects_reject _ _).bind _

/-- The code of a block is accepted in the same scopes as the block. -/
structure BlockAccepts (code : BlockCode) (block : BlockScope) : Prop where
  label : code.label = block.label
  accepts : ∀ {D live}, Arranged D live → Accepts D live code.body (block.scope? (Declared.scope D))

theorem accepts_output (hD : Arranged D live) {op : Cell → Emit Unit} {form : UInt8 → List UInt8}
    (hop : Writes {} op form) (value : Expr) :
    Accepts D live (emitOutput op (fun l => l.elements.forM op) value)
      (if value.printable D.scope = true then some D.scope else none) := by
  split
  · rename_i hfits
    have hperforms : Performs {} (fun _ => none) D live _ _ := performs_output hop hD hfits
    exact hperforms.leaves.accepts hD
  · rename_i hfits
    exact tryRejects_output hD (by simpa using hfits)

theorem accepts_input (hD : Arranged D live) {read : Cell → Emit Unit}
    {next : List UInt8 → UInt8 × List UInt8} (hread : Reads {} read next) (target : Expr) :
    Accepts D live (emitInput name read target)
      (if target.readable D.scope = true then some D.scope else none) := by
  split
  · rename_i hfits
    have hperforms : Performs {} (fun _ => none) D live _ _ := performs_input name hread hD hfits
    exact hperforms.leaves.accepts hD
  · rename_i hfits
    exact tryRejects_input name hD (by simpa using hfits)

theorem accepts_for (hD : Arranged D live) (element list : Text) (espan lspan : Span)
    (hbody : ∀ {live'}, Arranged D live' → Accepts D live' body Γ) :
    Accepts D live (do
        let (el, cells) ← loopVariables name (.var element espan) (.var list lspan)
        emitForEach el cells body)
      (match D.scope element, D.scope list with
        | some .int, some (.list _) => Γ
        | _, _ => none) := by
  split
  · rename_i n hscope hscope'
    obtain ⟨el, hel⟩ := Declared.exists_int hscope
    obtain ⟨cells, hcells, -⟩ := Declared.exists_list hscope'
    have haccepts := accepts_forEach hD hel hcells hbody
    have hleaves : TryLeaves D live (loopVariables name (.var element espan) (.var list lspan))
      (el, cells) live := tryLeaves_loopVariables hel hcells espan lspan
    cases Γ with
    | none => exact .after hleaves haccepts
    | some Γ =>
      obtain ⟨new, live', hbuilds, hgrown⟩ := haccepts
      exact ⟨new, live', hleaves.andBuilds hbuilds, hgrown⟩
  · rename_i hnone
    refine (tryRejects_loopVariables ?_).bind _
    rintro _ _ _ _ ⟨⟩ ⟨⟩ n ⟨he, hl⟩
    exact hnone n he hl

theorem emitBuiltin_ifElse {block other : BlockCode} (h : other.label = "else") :
    emitBuiltin name .if_ [condition] [block, other] =
      emitIfElse condition block.body other.body := by
  show (if other.label ≠ "else" then _ else _) = _
  rw [if_neg (not_not.2 h)]

theorem tryRejects_label {block other : BlockCode} (h : ¬other.label = "else") :
    TryRejects D live (emitBuiltin name .if_ [condition] [block, other]) := by
  show TryRejects D live (if other.label ≠ "else" then _ else _)
  rw [if_pos h]
  exact (tryRejects_reject _ other.span).bind _

theorem accepts_ifElse_call (hD : Arranged D live) {code otherCode : BlockCode}
    {block other : BlockScope} (h : BlockAccepts code block)
    (hother : BlockAccepts otherCode other) :
    Accepts D live (emitBuiltin name .if_ [condition] [code, otherCode])
      (callScope? D.scope .if_ [condition] [block, other]) := by
  rw [callScope?, ← hother.label]
  by_cases hlabel : otherCode.label = "else"
  · rw [emitBuiltin_ifElse hlabel]
    by_cases hfits : condition.fits D.scope .int = true
    · rw [if_pos ⟨hlabel, hfits⟩]
      exact accepts_ifElse hD hfits h.accepts hother.accepts
    · rw [if_neg fun hboth => hfits hboth.2]
      exact (tryRejects_evaluate hD (by simpa using hfits)).bind _
  · rw [if_neg fun hboth => hlabel hboth.1]
    exact tryRejects_label hlabel

theorem accepts_builtin (hD : Arranged D live) {b : Builtin} {arguments : List Expr}
    {codes : List BlockCode} {blocks : List BlockScope} (h : List.Forall₂ BlockAccepts codes blocks)
    (hcounts : b.Takes arguments.length codes.length) :
    Accepts D live (emitBuiltin name b arguments codes)
      (callScope? D.scope b arguments blocks) := by
  obtain ⟨hcount, hmin, hmax⟩ := hcounts
  cases b with
  | print =>
    obtain ⟨value, rfl⟩ := List.length_eq_one_iff.1 hcount
    obtain rfl := List.length_eq_zero_iff.1 (Nat.le_zero.1 hmax)
    cases h
    exact accepts_output hD (writes_print {}) value
  | printDecimal =>
    obtain ⟨value, rfl⟩ := List.length_eq_one_iff.1 hcount
    obtain rfl := List.length_eq_zero_iff.1 (Nat.le_zero.1 hmax)
    cases h
    exact accepts_output hD (writes_printDecimal {}) value
  | input =>
    obtain ⟨target, rfl⟩ := List.length_eq_one_iff.1 hcount
    obtain rfl := List.length_eq_zero_iff.1 (Nat.le_zero.1 hmax)
    cases h
    exact accepts_input hD (reads_input {}) target
  | inputDecimal =>
    obtain ⟨target, rfl⟩ := List.length_eq_one_iff.1 hcount
    obtain rfl := List.length_eq_zero_iff.1 (Nat.le_zero.1 hmax)
    cases h
    exact accepts_input hD (reads_inputDecimal {}) target
  | while_ =>
    obtain ⟨condition, rfl⟩ := List.length_eq_one_iff.1 hcount
    obtain ⟨code, rfl⟩ := List.length_eq_one_iff.1 (Nat.le_antisymm hmax hmin)
    cases h with
    | cons hblock hrest =>
      cases hrest
      rw [callScope?]
      split
      · rename_i hfits
        exact accepts_while hD hfits hblock.accepts
      · rename_i hfits
        exact (tryRejects_evaluate hD (by simpa using hfits)).bind _
  | for_ =>
    obtain ⟨element, list, rfl⟩ := List.length_eq_two.1 hcount
    obtain ⟨code, rfl⟩ := List.length_eq_one_iff.1 (Nat.le_antisymm hmax hmin)
    cases h with
    | cons hblock hrest =>
      cases hrest
      cases element with
      | var e espan =>
        cases list with
        | var l lspan => exact accepts_for hD e l espan lspan hblock.accepts
        | _ => exact (tryRejects_loopVariables (by rintro _ _ _ _ - ⟨⟩)).bind _
      | _ => exact (tryRejects_loopVariables (by rintro _ _ _ _ ⟨⟩)).bind _
  | if_ =>
    obtain ⟨condition, rfl⟩ := List.length_eq_one_iff.1 hcount
    have hcondition (hfits : ¬condition.fits D.scope .int = true) :
        TryRejects D live (evaluate condition) := tryRejects_evaluate hD (by simpa using hfits)
    cases h with
    | nil => exact absurd hmin (by decide)
    | cons hblock hrest =>
      cases hrest with
      | nil =>
        rw [callScope?]
        split
        · rename_i hfits
          exact accepts_if hD hfits hblock.accepts
        · rename_i hfits
          exact (hcondition hfits).bind _
      | cons hother hrest =>
        cases hrest with
        | cons _ _ =>
          simp only [List.length_cons, Builtin.info] at hmax
          omega
        | nil =>
          exact accepts_ifElse_call hD hblock hother

/-- A call that is well-formed has the right number of arguments and blocks. -/
theorem takes_of_callScope {Γ Γ' : Scope} {b : Builtin} {arguments : List Expr}
    {blocks : List BlockScope} (h : callScope? Γ b arguments blocks = some Γ') :
    b.Takes arguments.length blocks.length := by
  unfold callScope? at h
  split at h
  all_goals first
    | exact ⟨rfl, by simp [Builtin.info], by simp [Builtin.info]⟩
    | cases h

end Calls

theorem length_emitBlocks (blocks : List Block) : (emitBlocks blocks).length = blocks.length := by
  induction blocks with
  | nil => rfl
  | cons block rest ih => rw [emitBlocks, List.length_cons, List.length_cons, ih]

theorem Accepts.after {D : Declared} {live : List Region} {α : Type} {m : TryEmit α} {a : α}
    {k : α → TryEmit Unit} {Γ : Option Scope} (h : TryLeaves D live m a live)
    (hk : Accepts D live (k a) Γ) : Accepts D live (m >>= k) Γ := by
  cases Γ with
  | none => exact TryRejects.after h hk
  | some Γ =>
    obtain ⟨new, live', hbuilds, hrest⟩ := hk
    exact ⟨new, live', h.andBuilds hbuilds, hrest⟩

theorem Accepts.andThen {D : Declared} {live : List Region} {m k : TryEmit Unit} {Γ : Option Scope}
    {scope? : Scope → Option Scope} (h : Accepts D live m Γ)
    (hk : ∀ {D' live'}, Arranged D' live' → Accepts D' live' k (scope? (Declared.scope D'))) :
    Accepts D live (do m; k) (Γ.bind scope?) := by
  cases Γ with
  | none => exact h.bind _
  | some Γ =>
    obtain ⟨new, live', hbuilds, hgrown, rfl⟩ := h
    have hrest := hk hgrown.arranged
    show Accepts D live _ (scope? (Declared.scope (D ++ new)))
    cases hscope : scope? (Declared.scope (D ++ new)) with
    | none =>
      rw [hscope] at hrest
      exact hbuilds.andRejects hrest
    | some Γ' =>
      rw [hscope] at hrest
      obtain ⟨new', live'', hbuilds', hgrown', rfl⟩ := hrest
      exact ⟨new ++ new', live'', hbuilds.bind hbuilds', hgrown.trans hgrown',
        by rw [List.append_assoc]⟩

mutual

theorem accepts_stmt : (s : Stmt) → {D : Declared} → {live : List Region} → Arranged D live →
    Accepts D live (emitStmt s) (s.scope? Declaration.allocatedKind? D.scope)
  | .declaration d, D, live, hD => by
    rw [emitStmt]
    exact accepts_declaration hD d
  | .assignment a, D, live, hD => by
    rw [emitStmt]
    exact accepts_assignment hD a
  | .call name arguments blocks span, D, live, hD => by
    rw [emitStmt, Stmt.scope?]
    have hblocks := accepts_blocks blocks
    have hlength := length_emitBlocks blocks
    by_cases hcounts : ∃ b, Builtin.ofName? name = some b ∧ b.Takes arguments.length blocks.length
    · obtain ⟨b, hname, htakes⟩ := hcounts
      have hcheck : TryTakes {} D live _ b live blank blank :=
        tryTakes_checkCall hname htakes span blank
      rw [hname]
      exact .after hcheck.leaves (accepts_builtin hD hblocks (hlength ▸ htakes))
    · have hnone : (Builtin.ofName? name).bind
          (fun b => callScope? D.scope b arguments
            (Block.scopes Declaration.allocatedKind? blocks)) = none := by
        rw [Option.bind_eq_none_iff]
        intro b hname
        by_contra hsome
        obtain ⟨Γ, hΓ⟩ := Option.ne_none_iff_exists'.1 hsome
        have htakes := takes_of_callScope hΓ
        rw [← hblocks.length_eq, hlength] at htakes
        exact hcounts ⟨b, hname, htakes⟩
      rw [hnone]
      exact (tryRejects_checkCall fun b hname htakes => hcounts ⟨b, hname, htakes⟩).bind _

theorem accepts_stmts : (body : List Stmt) → {D : Declared} → {live : List Region} →
    Arranged D live →
      Accepts D live (emitStmts body) (Stmt.scopeAll? Declaration.allocatedKind? body D.scope)
  | [], D, live, hD => by
    rw [emitStmts, Stmt.scopeAll?]
    exact TryLeaves.accepts (.pure ()) hD
  | s :: rest, D, live, hD => by
    rw [emitStmts, Stmt.scopeAll?]
    exact (accepts_stmt s hD).andThen fun hD' => accepts_stmts rest hD'

theorem accepts_block :
    (block : Block) → BlockAccepts (emitBlock block) (block.scope Declaration.allocatedKind?)
  | .mk label body span => by
    rw [emitBlock, Block.scope]
    exact ⟨rfl, fun hD => accepts_stmts body hD⟩

theorem accepts_blocks : (blocks : List Block) →
    List.Forall₂ BlockAccepts (emitBlocks blocks) (Block.scopes Declaration.allocatedKind? blocks)
  | [] => by
    rw [emitBlocks, Block.scopes]
    exact .nil
  | block :: rest => by
    rw [emitBlocks, Block.scopes]
    exact .cons (accepts_block block) (accepts_blocks rest)

end

end Goat
