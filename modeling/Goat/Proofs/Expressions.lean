import Goat.Proofs.TrySteps

/-!
# Expressions

The code for an expression that fits stores its value in the target and changes nothing
else. An expression that does not fit is rejected.
-/

namespace Goat

open Plain (Settings Contents)
open Reference (Store eval elementAt eval_element_computed)

/-- The code for an expression stores its value in the cell `t`. -/
structure Evaluates (settings : Settings) (D : Declared) (live : List Region) (t : Cell)
    (x : Expr) : Prop where
  leaves : TryLeaves D live (emitExpr (.int t) x) () live
  takes : ∀ σ s b, Ready live s → Represents D σ s → eval σ x = .ok b →
    TryTakes settings D live (emitExpr (.int t) x) () live s (s.set t.address b)

section Cases

variable {settings : Settings} {D : Declared} {live live' : List Region} {t : Cell} {name : Text}
  (hD : Arranged D live) (ht : Owned live t.address)

include hD ht

omit hD in
theorem evaluates_number (value : Nat) (span : Span) :
    Evaluates settings D live t (.number value span) := by
  have htakes (s : Contents) : TryTakes settings D live (emitExpr (.int t) (.number value span)) ()
      live s (s.set t.address (UInt8.ofNat value)) := by
    rw [← ofInt_natCast]
    exact (Cell.takes_setConst ht value s).lift
  refine ⟨(htakes blank).leaves, fun σ s b _ _ hb => ?_⟩
  cases hb
  exact htakes s

theorem evaluates_var {c : Cell} (hc : D.find? name = some (.int c)) (span : Span) :
    Evaluates settings D live t (.var name span) := by
  have htakes (s : Contents) (hs : Ready live s) : TryTakes settings D live
      (emitExpr (.int t) (.var name span)) () live s (s.set t.address (s.cells c.address)) := by
    have hset : TryTakes settings D live (copyVariable (.int t) (.int c) span) () live s _ :=
      (Cell.takes_set hs ht (hD.owned_int hc)).lift
    exact .bind (tryTakes_lookup hc span s) hset
  refine ⟨(htakes blank (ready_blank hD.packed)).leaves, fun σ s b hs hσ hb => ?_⟩
  rw [eval, hσ.byte hc] at hb
  cases hb
  exact htakes s hs

theorem evaluates_constant {l : CellList} (hl : D.find? name = some (.list l)) {k : Nat}
    (hk : k < l.length) (kspan span : Span) :
    Evaluates settings D live t (.element name (.number k kspan) span) := by
  have htakes (s : Contents) (hs : Ready live s) : TryTakes settings D live
      (emitExpr (.int t) (.element name (.number k kspan) span)) () live s
        (s.set t.address (s.cells (l.element k).address)) := by
    have hindexable : TryTakes settings D live (indexable (.list l) span) l live s s := .pure l s
    have helement : TryTakes settings D live (l.elementAt k kspan) (l.element k) live s s := by
      rw [CellList.elementAt, if_pos hk]
      exact .pure _ s
    have hset : TryTakes settings D live (liftM (t.set (l.element k))) () live s _ :=
      (Cell.takes_set hs ht ((hD.placed_list hl).owned_element hk)).lift
    have htarget : TryTakes settings D live (expectInt (.int t) Cell.typeName span) t live s s :=
      .pure t s
    exact .bind (tryTakes_lookup hl span s) (.bind hindexable (.bind htarget
      (.bind helement hset)))
  refine ⟨(htakes blank (ready_blank hD.packed)).leaves, fun σ s b hs hσ hb => ?_⟩
  have hvalue : elementAt (l.values s) k .invalid = .ok (s.cells (l.element k).address) := by
    rw [elementAt, l.getElem?_values s hk]
    rfl
  rw [eval, hσ.bytes hl] at hb
  cases hvalue.symm.trans hb
  exact htakes s hs

omit hD ht in
theorem emitExpr_element_computed {index : Expr} (h : index.Computed) (span : Span)
    (target : Variable) :
    emitExpr target (.element name index span) = (do
      let source ← lookup name span
      let list ← indexable source span
      let t ← expectInt target Cell.typeName span
      let position ← Cell.temporary
      emitExpr (.int position) index
      let value ← list.get position
      t.take value
      value.destroy
      position.destroy) := by
  cases index with
  | number k span => exact absurd rfl (h k span)
  | _ => rfl

theorem evaluates_computed {l : CellList} (hl : D.find? name = some (.list l)) {index : Expr}
    (hcomputed : index.Computed) (span : Span)
    (hindex : ∀ {live' : List Region} {p : Cell}, Arranged D live' → Owned live' p.address →
      Evaluates settings D live' p index) :
    Evaluates settings D live t (.element name index span) := by
  have hplaced := hD.placed_list hl
  obtain ⟨position, live₁, hposition, hnew⟩ := Cell.exists_taken_temporary settings hD.packed
  have hD₁ := hD.taken hposition
  have hplaced₁ := hD₁.placed_list hl
  have hvalue := hindex hD₁ hposition.self
  obtain ⟨found, live₂, hfound, hget⟩ :=
    CellList.exists_taken_get settings hD₁.packed hplaced₁ hposition.self
  have htp := hposition.ne ht
  have htf := hfound.ne (hposition.old ht)
  have hpf := hfound.ne hposition.self
  have hp₂ := hfound.old hposition.self
  have hfinish (s : Contents) : TryTakes settings D live₂ (do
      t.take found
      found.destroy
      position.destroy) () live s
      (((s.set t.address (s.cells found.address)).set found.address 0).set position.address 0) := by
    refine .bind (Cell.takes_take (hfound.old (hposition.old ht)) hfound.self htf _).lift ?_
    refine .bind (hfound.takes_destroy _).lift ?_
    refine (hposition.takes_destroy _).lift.to ?_
    refine Contents.ext (funext fun z => ?_) rfl rfl
    simp only [Contents.set_cells]
    grind
  have hblank : TryTakes settings D live₁ (liftM (l.get position)) found live₂ blank _ :=
    (hget blank (ready_blank hD₁.packed) (fun _ _ => rfl) hplaced₁.length_pos).lift
  have hlookup (s : Contents) : TryTakes settings D live (lookup name span) (.list l) live s s :=
    tryTakes_lookup hl span s
  constructor
  · rw [emitExpr_element_computed hcomputed]
    refine .bind (hlookup blank).leaves (.bind (.pure l) (.bind (.pure t) ?_))
    refine .bind (hnew blank).leaves.lift (.bind hvalue.leaves (.bind hblank.leaves ?_))
    exact (hfinish blank).leaves
  · intro σ s b hs hσ hb
    rw [eval_element_computed hcomputed, hσ.bytes hl] at hb
    obtain ⟨k, hk, hread⟩ := exists_of_bind_eq_ok (x := eval σ index) hb
    have hrange : k.toNat < l.length := by
      by_contra hout
      rw [elementAt, List.getElem?_eq_none (by simpa using hout)] at hread
      cases hread
    rw [elementAt, l.getElem?_values s hrange] at hread
    cases hread
    have hs₁ := (hposition.ready hs).set hposition.self k
    have hσ₁ := hσ.set hD (hD.not_owned hposition) k
    have hcell : (s.set position.address k).cells position.address = k :=
      Contents.set_cells_self _ _ _
    have hstep := hget _ hs₁ (hσ₁.quiet_list hl) (by rw [hcell]; exact hrange)
    rw [hcell] at hstep
    have hne : l.region.start + 4 + k.toNat ≠ position.address :=
      hposition.ne (hplaced.owned_element hrange)
    rw [emitExpr_element_computed hcomputed]
    refine .bind (hlookup s) (.bind (.pure l s) (.bind (.pure t s) (.bind (hnew s).lift ?_)))
    refine .bind (hvalue.takes σ s k (hposition.ready hs) hσ hk) (.bind hstep.lift ?_)
    refine (hfinish _).to ?_
    have hpz := hposition.zero hs
    have hfz := hfound.zero (hposition.ready hs)
    refine Contents.ext (funext fun z => ?_) rfl rfl
    simp only [Contents.set_cells, CellList.element_address, if_neg hne]
    grind

theorem evaluates_binary {left right : Expr} (op : Operator) (span : Span)
    (hleft : ∀ {live' : List Region} {p : Cell}, Arranged D live' → Owned live' p.address →
      Evaluates settings D live' p left)
    (hright : ∀ {live' : List Region} {p : Cell}, Arranged D live' → Owned live' p.address →
      Evaluates settings D live' p right) :
    Evaluates settings D live t (.binary op left right span) := by
  obtain ⟨l, live₁, hl, hnew₁⟩ := Cell.exists_taken_temporary settings hD.packed
  have hD₁ := hD.taken hl
  obtain ⟨r, live₂, hr, hnew₂⟩ := Cell.exists_taken_temporary settings hD₁.packed
  have hD₂ := hD₁.taken hr
  have hvalue₁ := hleft hD₁ hl.self
  have hvalue₂ := hright hD₂ hr.self
  have hlr := hr.ne hl.self
  have htl := hl.ne ht
  have htr := hr.ne (hl.old ht)
  have ht₂ := hr.old (hl.old ht)
  have hl₂ := hr.old hl.self
  -- the operator, once both operands are in their cells
  have hfinish (s : Contents) (hs : Ready live₂ s) : TryTakes settings D live₂ (do
      Emit.trace (Text.join ["apply ", op.symbol])
      l.apply op r
      t.take l
      r.destroy
      l.destroy) () live s
      (((s.set t.address (op.eval (s.cells l.address) (s.cells r.address))).set l.address 0).set
        r.address 0) := by
    refine .bind (Takes.trace _ s).lift (.bind (Cell.takes_apply hs hl₂ hr.self op).lift ?_)
    refine .bind (Cell.takes_take ht₂ hl₂ htl _).lift ?_
    refine .bind (hr.takes_destroy _).lift ?_
    refine (hl.takes_destroy _).lift.to ?_
    refine Contents.ext (funext fun z => ?_) rfl rfl
    simp only [Contents.set_cells]
    grind
  constructor
  · refine .bind (.pure t) (.bind (hnew₁ blank).leaves.lift (.bind hvalue₁.leaves ?_))
    refine .bind (hnew₂ blank).leaves.lift (.bind hvalue₂.leaves ?_)
    exact (hfinish blank (ready_blank hD₂.packed)).leaves
  · intro σ s b hs hσ hb
    rw [eval] at hb
    obtain ⟨a, ha, hb⟩ := exists_of_bind_eq_ok hb
    obtain ⟨c, hc, hb⟩ := exists_of_bind_eq_ok hb
    cases hb
    have hs₁ := (hl.ready hs).set hl.self a
    have hσ₁ := hσ.set hD (hD.not_owned hl) a
    refine .bind (.pure t s) (.bind (hnew₁ s).lift ?_)
    refine .bind (hvalue₁.takes σ s a (hl.ready hs) hσ ha) (.bind (hnew₂ _).lift ?_)
    refine .bind (hvalue₂.takes σ _ c (hr.ready hs₁) hσ₁ hc) ?_
    refine (hfinish _ ((hr.ready hs₁).set hr.self c)).to ?_
    have hlz := hl.zero hs
    have hrz := hr.zero (hl.ready hs)
    refine Contents.ext (funext fun z => ?_) rfl rfl
    simp only [Contents.set_cells]
    grind

end Cases

theorem evaluates {settings : Settings} {D : Declared} : (x : Expr) → {live : List Region} →
    {t : Cell} → Arranged D live → Owned live t.address → x.fits D.scope .int = true →
      Evaluates settings D live t x
  | .number value span, _, _, _, ht, _ => evaluates_number ht value span
  | .list items span, _, _, _, _, hfits => by simp [Expr.fits] at hfits
  | .var name span, _, _, hD, ht, hfits => by
    obtain ⟨c, hc⟩ := Declared.exists_int (by simpa [Expr.fits] using hfits)
    exact evaluates_var hD ht hc span
  | .element name index span, _, _, hD, ht, hfits => by
    rw [Expr.fits_element] at hfits
    split at hfits
    · rename_i n hlist
      rw [decide_eq_true rfl, Bool.true_and] at hfits
      obtain ⟨l, hl, rfl⟩ := Declared.exists_list hlist
      rcases index.number_or_computed with ⟨k, kspan, rfl⟩ | hcomputed
      · exact evaluates_constant hD ht hl (by simpa [Expr.fitsIndex] using hfits) kspan span
      · rw [Expr.fitsIndex_computed hcomputed] at hfits
        exact evaluates_computed hD ht hl hcomputed span
          fun hD' hp => evaluates index hD' hp hfits
    · cases hfits
  | .binary op left right span, _, _, hD, ht, hfits => by
    simp only [Expr.fits, decide_true, Bool.true_and, Bool.and_eq_true] at hfits
    exact evaluates_binary hD ht op span (fun hD' hp => evaluates left hD' hp hfits.1)
      fun hD' hp => evaluates right hD' hp hfits.2

end Goat
