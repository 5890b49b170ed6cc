import Goat.Proofs.Expressions

/-!
# Assignments

Storing the value of an expression in a variable, whole lists included. What does not fit is
rejected.
-/

namespace Goat

open Plain (Settings Contents)
open Reference (Store eval elementAt assign assignItems)

/-- Only cells of the variable change. -/
structure Changes (v : Variable) (s s' : Contents) : Prop where
  cells : ∀ x, ¬(v.region.start ≤ x ∧ x ≤ v.region.stop) → s'.cells x = s.cells x
  input : s'.input = s.input
  output : s'.output = s.output

namespace Changes

variable {v : Variable} {s s₁ s₂ : Contents}

theorem refl (v : Variable) (s : Contents) : Changes v s s := ⟨fun _ _ => rfl, rfl, rfl⟩

theorem trans (h₁ : Changes v s s₁) (h₂ : Changes v s₁ s₂) : Changes v s s₂ where
  cells x hx := (h₂.cells x hx).trans (h₁.cells x hx)
  input := h₂.input.trans h₁.input
  output := h₂.output.trans h₁.output

theorem set {x : Int} (hx : v.region.start ≤ x) (hx' : x ≤ v.region.stop) (s : Contents)
    (b : UInt8) : Changes v s (s.set x b) where
  cells y hy := by
    refine Contents.set_cells_of_ne s b ?_
    rintro rfl
    exact hy ⟨hx, hx'⟩
  input := rfl
  output := rfl

end Changes

/-- The code for an expression stores its value in the variable `v` of a name. -/
structure Assigns (settings : Settings) (D : Declared) (live : List Region) (name : Text)
    (v : Variable) (x : Expr) : Prop where
  leaves : TryLeaves D live (emitExpr v x) () live
  takes : ∀ σ s σ', Ready live s → Represents D σ s → assign σ name x = .ok σ' →
    ∃ s', TryTakes settings D live (emitExpr v x) () live s s' ∧ Represents D σ' s' ∧
      Changes v s s'

section Accepted

variable {settings : Settings} {D : Declared} {live : List Region} {name : Text}
  (hD : Arranged D live)

include hD

theorem assigns_int {c : Cell} (hc : D.find? name = some (.int c)) {x : Expr}
    (hfits : x.fits D.scope .int = true) : Assigns settings D live name (.int c) x := by
  have hmem := Declared.mem_of_find hc
  have hvalue : Evaluates settings D live c x := evaluates x hD (hD.owned_int hc) hfits
  refine ⟨hvalue.leaves, fun σ s σ' hs hσ hassign => ?_⟩
  rw [assign, hσ.holds name _ hmem] at hassign
  obtain ⟨b, hb, hassign⟩ := exists_of_bind_eq_ok (x := eval σ x) hassign
  cases hassign
  exact ⟨_, hvalue.takes σ s b hs hσ hb, hσ.store_int hD hmem b,
    .set (Int.le_refl _) (Int.le_refl _) s b⟩

theorem leaves_emitItems {l : CellList} (hl : D.find? name = some (.list l)) (items : List Expr)
    {k : Nat} (hk : k + items.length ≤ l.length) (hfits : Expr.allFit D.scope items = true) :
    TryLeaves D live (emitItems l k items) () live := by
  induction items generalizing k with
  | nil => exact .pure ()
  | cons item rest ih =>
    rw [Expr.allFit, Bool.and_eq_true] at hfits
    rw [List.length_cons] at hk
    have hown := (hD.placed_list hl).owned_element (k := k) (by omega)
    have hitem : Evaluates {} D live (l.element k) item := evaluates item hD hown hfits.1
    exact .bind hitem.leaves (ih (by omega) hfits.2)

theorem takes_emitItems {l : CellList} (hl : D.find? name = some (.list l)) (items : List Expr)
    {k : Nat} (hk : k + items.length ≤ l.length) (hfits : Expr.allFit D.scope items = true)
    {σ σ' : Store} {s : Contents} (hs : Ready live s) (hσ : Represents D σ s)
    (hassign : assignItems name k items σ = .ok σ') :
    ∃ s', TryTakes settings D live (emitItems l k items) () live s s' ∧ Represents D σ' s' ∧
      Changes (.list l) s s' := by
  induction items generalizing k σ s with
  | nil =>
    cases hassign
    exact ⟨s, .pure () s, hσ, .refl _ s⟩
  | cons item rest ih =>
    rw [Expr.allFit, Bool.and_eq_true] at hfits
    rw [List.length_cons] at hk
    have hplaced := hD.placed_list hl
    have hown := hplaced.owned_element (k := k) (by omega)
    have hitem : Evaluates settings D live (l.element k) item := evaluates item hD hown hfits.1
    obtain ⟨b, bytes, hb, hbytes, hassign⟩ := Reference.exists_of_assignItems_cons hassign
    rw [hσ.bytes hl] at hbytes
    cases hbytes
    have hσ₁ := hσ.store_element hD (Declared.mem_of_find hl) (k := k) (by omega) b
    obtain ⟨s', htakes, hσ', hchanges⟩ := ih (by omega) hfits.2 (hs.set hown b) hσ₁ hassign
    have hstop := hplaced.stop
    have hfirst : Changes (.list l) s (s.set (l.element k).address b) := by
      refine .set ?_ ?_ s b
      · simp only [Variable.region, CellList.element_address]
        omega
      · simp only [Variable.region, CellList.element_address]
        omega
    exact ⟨s', .bind (hitem.takes σ s b hs hσ hb) htakes, hσ', hfirst.trans hchanges⟩

omit hD in
theorem emitExpr_list {l : CellList} {items : List Expr} (h : items.length = l.length)
    (span : Span) : emitExpr (.list l) (.list items span) = emitItems l 0 items := by
  rw [emitExpr]
  show (if items.length ≠ l.length then _ else _) = _
  rw [if_neg (not_not.2 h)]

theorem assigns_items {l : CellList} (hl : D.find? name = some (.list l)) {items : List Expr}
    (hlength : items.length = l.length) (hfits : Expr.allFit D.scope items = true) (span : Span) :
    Assigns settings D live name (.list l) (.list items span) := by
  refine ⟨?_, fun σ s σ' hs hσ hassign => ?_⟩
  · rw [emitExpr_list hlength]
    exact leaves_emitItems hD hl items (by omega) hfits
  · rw [emitExpr_list hlength]
    rw [assign, hσ.holds name _ (Declared.mem_of_find hl)] at hassign
    simp only [Variable.value, CellList.length_values] at hassign
    rw [if_pos hlength] at hassign
    exact takes_emitItems hD hl items (by omega) hfits hs hσ hassign

theorem assigns_copy {l source : CellList} {other : Text} (hl : D.find? name = some (.list l))
    (hsource : D.find? other = some (.list source)) (hlength : source.length = l.length)
    (span : Span) : Assigns settings D live name (.list l) (.var other span) := by
  have hplaced := hD.placed_list hl
  have hplaced' := hD.placed_list hsource
  have htakes (s : Contents) (hs : Ready live s) : TryTakes settings D live
      (emitExpr (.list l) (.var other span)) () live s (l.copied s source l.length) := by
    have hcopy : TryTakes settings D live (copyVariable (.list l) (.list source) span) () live s
        (l.copied s source l.length) := by
      rw [copyVariable, if_pos hlength]
      exact (CellList.takes_set hs hplaced hplaced' hlength).lift
    exact .bind (tryTakes_lookup hsource span s) hcopy
  have hout {s : Contents} {x : Int}
      (hx : ¬(l.region.start + 4 ≤ x ∧ x < l.region.start + 4 + l.length)) :
      (l.copied s source l.length).cells x = s.cells x := by
    rw [CellList.copied_cells, if_neg hx]
  refine ⟨(htakes blank (ready_blank hD.packed)).leaves, fun σ s σ' hs hσ hassign => ?_⟩
  have hbytes : assign σ name (.var other span) = .ok (σ.set name (.list (source.values s))) := by
    rw [assign, hσ.holds name _ (Declared.mem_of_find hl)]
    simp only [Variable.value, hσ.bytes hsource]
    show (if (source.values s).length = (l.values s).length then _ else _) = _
    rw [if_pos (by rw [CellList.length_values, CellList.length_values, hlength])]
  rw [hbytes] at hassign
  cases hassign
  have hquiet : l.Quiet (l.copied s source l.length) := by
    intro k hk
    rw [hout (by omega)]
    exact hσ.quiet_list hl k hk
  have hstop := hplaced.stop
  have hchanges : Changes (.list l) s (l.copied s source l.length) := by
    refine ⟨fun x hx => hout fun hin => hx ?_, rfl, rfl⟩
    simp only [Variable.region]
    omega
  refine ⟨_, htakes s hs, ?_, hchanges⟩
  rw [← CellList.values_copied s l source hlength]
  exact hσ.store hD (Declared.mem_of_find hl) hquiet fun x _ hx => hchanges.cells x hx

theorem assigns {v : Variable} (hv : D.find? name = some v) {x : Expr}
    (hfits : x.fits D.scope v.kind = true) : Assigns settings D live name v x := by
  cases v with
  | int c => exact assigns_int hD hv hfits
  | list l =>
    rcases Expr.cases_of_fits_list hfits with
      ⟨items, span, rfl, hlength, hitems⟩ | ⟨other, span, rfl, hother⟩
    · exact assigns_items hD hv hlength hitems span
    · obtain ⟨source, hsource, hlength⟩ := Declared.exists_list hother
      exact assigns_copy hD hv hsource hlength span

end Accepted

/-- The cells of the variable are in use. -/
def Variable.Usable (live : List Region) : Variable → Prop
  | int c => Owned live c.address
  | list l => l.Placed live

section Rejected

variable {D : Declared} {live : List Region} {v : Variable}

theorem tryRejects_copyVariable {source : Variable} (h : source.kind ≠ v.kind) (span : Span) :
    TryRejects D live (copyVariable v source span) := by
  cases v with
  | int t =>
    cases source with
    | int c => exact absurd rfl h
    | list l => exact tryRejects_reject _ span
  | list t =>
    cases source with
    | int c => exact tryRejects_reject _ span
    | list l =>
      rw [copyVariable, if_neg fun hlength => h (congrArg Kind.list hlength)]
      exact tryRejects_reject _ span

theorem tryLeaves_lookup {name : Text} {source : Variable} (h : D.find? name = some source)
    (span : Span) : TryLeaves D live (lookup name span) source live := by
  have htakes : TryTakes {} D live (lookup name span) source live blank blank :=
    tryTakes_lookup h span blank
  exact htakes.leaves

theorem tryRejects_var {name : Text} (span : Span)
    (hfits : (Expr.var name span).fits D.scope v.kind = false) :
    TryRejects D live (emitExpr v (.var name span)) := by
  rw [Expr.fits, decide_eq_false_iff_not] at hfits
  cases hfind : D.find? name with
  | none => exact (tryRejects_lookup hfind span).bind _
  | some source =>
    refine .after (tryLeaves_lookup hfind span) (tryRejects_copyVariable (fun hkind => ?_) span)
    exact hfits (by rw [Declared.scope, hfind, ← hkind]; rfl)

theorem tryRejects_number (value : Nat) (span : Span)
    (hfits : (Expr.number value span).fits D.scope v.kind = false) :
    TryRejects D live (emitExpr v (.number value span)) := by
  cases v with
  | int t => simp [Expr.fits, Variable.kind] at hfits
  | list l => exact (tryRejects_reject _ span).bind _

/-- An operand that does not fit. -/
theorem tryRejects_binary (hD : Arranged D live) {op : Operator} {left right : Expr} (span : Span)
    (hleft : ∀ {live' : List Region} {p : Cell}, Arranged D live' → Owned live' p.address →
      left.fits D.scope .int = false → TryRejects D live' (emitExpr (.int p) left))
    (hright : ∀ {live' : List Region} {p : Cell}, Arranged D live' → Owned live' p.address →
      right.fits D.scope .int = false → TryRejects D live' (emitExpr (.int p) right))
    (hfits : (Expr.binary op left right span).fits D.scope v.kind = false) :
    TryRejects D live (emitExpr v (.binary op left right span)) := by
  cases v with
  | list l => exact (tryRejects_reject _ span).bind _
  | int t =>
    obtain ⟨l, live₁, hl, hnew₁⟩ := Cell.exists_taken_temporary {} hD.packed
    have hD₁ := hD.taken hl
    refine .after (.pure t) (.after (hnew₁ blank).leaves.lift ?_)
    by_cases hfitsLeft : left.fits D.scope .int = true
    · obtain ⟨r, live₂, hr, hnew₂⟩ := Cell.exists_taken_temporary {} hD₁.packed
      have hvalue : Evaluates {} D live₁ l left := evaluates left hD₁ hl.self hfitsLeft
      have hfitsRight : right.fits D.scope .int = false := by
        simpa [Expr.fits, Variable.kind, hfitsLeft] using hfits
      refine .after hvalue.leaves (.after (hnew₂ blank).leaves.lift ?_)
      exact (hright (hD₁.taken hr) hr.self hfitsRight).bind _
    · exact (hleft hD₁ hl.self (by simpa using hfitsLeft)).bind _

/-- An index that is too large or does not fit. -/
theorem tryRejects_index (hD : Arranged D live) {name : Text} {index : Expr} {l : CellList}
    {t : Cell} (hl : D.find? name = some (.list l)) (span : Span)
    (hindex : ∀ {live' : List Region} {p : Cell}, Arranged D live' → Owned live' p.address →
      index.fits D.scope .int = false → TryRejects D live' (emitExpr (.int p) index))
    (hfits : index.fitsIndex D.scope l.length = false) :
    TryRejects D live (emitExpr (.int t) (.element name index span)) := by
  rcases index.number_or_computed with ⟨k, kspan, rfl⟩ | hcomputed
  · have hk : ¬ k < l.length := by simpa [Expr.fitsIndex] using hfits
    have helement : TryRejects D live (l.elementAt k kspan) := by
      rw [CellList.elementAt, if_neg hk]
      exact tryRejects_reject _ kspan
    exact .after (tryLeaves_lookup hl span) (.after (.pure l) (.after (.pure t)
      (helement.bind _)))
  · obtain ⟨position, live₁, hposition, hnew⟩ := Cell.exists_taken_temporary {} hD.packed
    rw [Expr.fitsIndex_computed hcomputed] at hfits
    rw [emitExpr_element_computed hcomputed]
    refine .after (tryLeaves_lookup hl span) (.after (.pure l) (.after (.pure t) ?_))
    refine .after (hnew blank).leaves.lift ?_
    exact (hindex (hD.taken hposition) hposition.self hfits).bind _

theorem tryRejects_element (hD : Arranged D live) {name : Text} {index : Expr} (span : Span)
    (hindex : ∀ {live' : List Region} {p : Cell}, Arranged D live' → Owned live' p.address →
      index.fits D.scope .int = false → TryRejects D live' (emitExpr (.int p) index))
    (hfits : (Expr.element name index span).fits D.scope v.kind = false) :
    TryRejects D live (emitExpr v (.element name index span)) := by
  have hlookup {source : Variable} (h : D.find? name = some source) :
      TryLeaves D live (lookup name span) source live := tryLeaves_lookup h span
  have hindexable {c : Cell} : TryRejects D live (indexable (.int c) span) :=
    tryRejects_reject _ span
  cases hfind : D.find? name with
  | none =>
    rcases index.number_or_computed with ⟨k, kspan, rfl⟩ | hcomputed
    · exact (tryRejects_lookup hfind span).bind _
    · rw [emitExpr_element_computed hcomputed]
      exact (tryRejects_lookup hfind span).bind _
  | some source =>
    cases source with
    | int c =>
      rcases index.number_or_computed with ⟨k, kspan, rfl⟩ | hcomputed
      · exact .after (hlookup hfind) (hindexable.bind _)
      · rw [emitExpr_element_computed hcomputed]
        exact .after (hlookup hfind) (hindexable.bind _)
    | list l =>
      cases v with
      | list t =>
        have htarget : TryRejects D live (expectInt (.list t) Cell.typeName span) :=
          tryRejects_reject _ span
        rcases index.number_or_computed with ⟨k, kspan, rfl⟩ | hcomputed
        · exact .after (hlookup hfind) (.after (.pure l) (htarget.bind _))
        · rw [emitExpr_element_computed hcomputed]
          exact .after (hlookup hfind) (.after (.pure l) (htarget.bind _))
      | int t =>
        have hscope : D.scope name = some (.list l.length) := by
          rw [Declared.scope, hfind]
          rfl
        refine tryRejects_index hD hfind span hindex ?_
        simpa [Expr.fits_element, hscope, Variable.kind] using hfits

mutual

theorem tryRejects_emitExpr : (x : Expr) → {live : List Region} → {v : Variable} →
    Arranged D live → v.Usable live → x.fits D.scope v.kind = false →
      TryRejects D live (emitExpr v x)
  | .number value span, _, _, _, _, hfits => tryRejects_number value span hfits
  | .var name span, _, _, _, _, hfits => tryRejects_var span hfits
  | .element name index span, _, _, hD, _, hfits =>
    tryRejects_element hD span
      (fun hD' hp hindex => tryRejects_emitExpr index hD' (v := .int _) hp hindex) hfits
  | .binary op left right span, _, _, hD, _, hfits =>
    tryRejects_binary hD span
      (fun hD' hp hleft => tryRejects_emitExpr left hD' (v := .int _) hp hleft)
      (fun hD' hp hright => tryRejects_emitExpr right hD' (v := .int _) hp hright) hfits
  | .list items span, _, .int t, _, _, _ => (tryRejects_reject _ span).bind _
  | .list items span, _, .list l, hD, hl, hfits => by
    by_cases hlength : items.length = l.length
    · rw [emitExpr_list hlength]
      exact tryRejects_emitItems items hD hl (by omega)
        (by simpa [Expr.fits, Variable.kind, hlength] using hfits)
    · rw [emitExpr]
      show TryRejects D _ (if items.length ≠ l.length then _ else _)
      rw [if_pos hlength]
      exact (tryRejects_reject _ span).bind _

theorem tryRejects_emitItems : (items : List Expr) → {live : List Region} → {l : CellList} →
    {k : Nat} → Arranged D live → l.Placed live → k + items.length ≤ l.length →
      Expr.allFit D.scope items = false → TryRejects D live (emitItems l k items)
  | [], _, _, _, _, _, _, hfits => by cases hfits
  | item :: rest, live, l, k, hD, hl, hk, hfits => by
    rw [List.length_cons] at hk
    have hown := hl.owned_element (k := k) (by omega)
    by_cases hitem : item.fits D.scope .int = true
    · have hvalue : Evaluates {} D live (l.element k) item := evaluates item hD hown hitem
      refine .after hvalue.leaves (tryRejects_emitItems rest hD hl (by omega) ?_)
      simpa [Expr.allFit, hitem] using hfits
    · rw [Bool.not_eq_true] at hitem
      exact (tryRejects_emitExpr item (v := .int (l.element k)) hD hown hitem).bind _

end

end Rejected

end Goat
