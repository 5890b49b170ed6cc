import Goat.Proofs.Agreement
import Goat.Proofs.InputOutput

/-!
# Statements without blocks

Assignments, output and input: their code does what the semantics says, unless an index is
out of range, and what is not well-formed is rejected.
-/

namespace Goat

open Plain (Settings Contents)
open Reference (Store State Outcome Stuck eval assign assignElement position elementAt)

/-- The value of an expression is in a new temporary. -/
structure Evaluated (settings : Settings) (D : Declared) (live : List Region) (x : Expr) (t : Cell)
    (live' : List Region) : Prop where
  taken : t.Taken live live'
  leaves : TryLeaves D live (evaluate x) t live'
  takes : ∀ σ s b, Ready live s → Represents D σ s → eval σ x = .ok b →
    TryTakes settings D live (evaluate x) t live' s (s.set t.address b)

theorem exists_evaluated (settings : Settings) {D : Declared} {live : List Region}
    (hD : Arranged D live) {x : Expr} (hfits : x.fits D.scope .int = true) :
    ∃ t live', Evaluated settings D live x t live' := by
  obtain ⟨t, live', ht, hnew⟩ := Cell.exists_taken_temporary settings hD.packed
  have hvalue : Evaluates settings D live' t x := evaluates x (hD.taken ht) ht.self hfits
  refine ⟨t, live', ht, ?_, fun σ s b hs hσ hb => ?_⟩
  · exact .bind (hnew blank).leaves.lift (.bind hvalue.leaves (.pure t))
  · exact .bind (hnew s).lift (.bind (hvalue.takes σ s b (ht.ready hs) hσ hb) (.pure t _))

theorem tryRejects_evaluate {D : Declared} {live : List Region} (hD : Arranged D live) {x : Expr}
    (hfits : x.fits D.scope .int = false) : TryRejects D live (evaluate x) := by
  obtain ⟨t, live', ht, hnew⟩ := Cell.exists_taken_temporary {} hD.packed
  refine .after (hnew blank).leaves.lift ?_
  exact (tryRejects_emitExpr x (v := .int t) (hD.taken ht) ht.self hfits).bind _

/-- The step declares nothing, and its code does what the semantics says, unless an index is
    out of range. -/
structure Performs (settings : Settings) (initial : Store) (D : Declared) (live : List Region)
    (m : TryEmit Unit) (run : State → Outcome) : Prop where
  leaves : TryLeaves D live m () live
  takes : ∀ ρ s, Agrees initial D live ρ s → run ρ = .stuck .outOfRange ∨
    ∃ ρ' s', run ρ = .done ρ' ∧ TryTakes settings D live m () live s s' ∧
      Agrees initial D live ρ' s' ∧ Keeps D live s s'

theorem Performs.realizes {settings : Settings} {initial : Store} {D : Declared}
    {live : List Region} {m : TryEmit Unit} {run : State → Outcome}
    (h : Performs settings initial D live m run) (hD : Arranged D live) :
    Realizes settings initial D live m [] live fun _ => run where
  builds := h.leaves.builds
  grown := .refl hD
  runs hzero fuel ρ s hs := by
    rcases h.takes ρ s hs with hstuck | ⟨ρ', s', hdone, ht, hs', hkeeps⟩
    · rw [hstuck]
      rfl
    · rw [hdone]
      exact ⟨s', ht.transforms, hs'.grow (.refl hD) hzero, hkeeps⟩

section Assignment

variable {settings : Settings} {initial : Store} {D : Declared} {live live₁ live₂ : List Region}
  {name : Text}

theorem performs_assign (hD : Arranged D live) {v : Variable} (hv : D.find? name = some v)
    {x : Expr} (hfits : x.fits D.scope v.kind = true) :
    Performs settings initial D live (emitExpr v x)
      fun ρ => ρ.update (assign ρ.store name x) := by
  have hassigns : Assigns settings D live name v x := assigns hD hv hfits
  have hscope : D.scope name = some v.kind := by
    rw [Declared.scope, hv]
    rfl
  refine ⟨hassigns.leaves, fun ρ s hs => ?_⟩
  cases hassign : assign ρ.store name x with
  | error reason =>
    rw [Reference.assign_stuck hs.holds.fills hscope hfits hassign]
    exact .inl rfl
  | ok σ' =>
    obtain ⟨s', ht, hσ', hchanges⟩ := hassigns.takes ρ.store s σ' hs.ready hs.holds hassign
    obtain ⟨hs', hkeeps⟩ :=
      hs.store hD hv hσ' (fun other hne => Reference.assign_other hassign hne) hchanges
    exact .inr ⟨_, s', rfl, ht, hs', hkeeps⟩

/-- A value is stored at a computed index and the two temporaries are given back. -/
theorem takes_putAt {l : CellList} (hl : l.Placed live) {place value : Cell}
    (hplace : place.Taken live live₁) (hvalue : value.Taken live₁ live₂) {s : Contents}
    (hs : Ready live s) (hquiet : l.Quiet s) {k : UInt8} (hk : k.toNat < l.length) (b : UInt8) :
    Takes settings live₂ (do
      l.put place value
      value.destroy
      place.destroy) () live ((s.set place.address k).set value.address b)
      (s.set (l.element k.toNat).address b) := by
  have hmem (r : Region) (hr : r ∈ live) : r ∈ live₂ :=
    (hvalue.fresh.mem_iff r).2 (.inr ((hplace.fresh.mem_iff r).2 (.inr hr)))
  have hl₂ : l.Placed live₂ := hl.mono hmem
  have hpv := hvalue.ne hplace.self
  have hstart : l.region.start ≠ place.address :=
    hplace.ne (hl.owned (Int.le_refl _) (by omega))
  have helement : (l.element k.toNat).address ≠ place.address :=
    hplace.ne (hl.owned_element hk)
  have helement' : (l.element k.toNat).address ≠ value.address :=
    hvalue.ne (hplace.old (hl.owned_element hk))
  have hready : Ready live₂ ((s.set place.address k).set value.address b) :=
    (hvalue.ready ((hplace.ready hs).set hplace.self k)).set hvalue.self b
  have hquiet' : l.Quiet ((s.set place.address k).set value.address b) := by
    intro j hj
    have hown : Owned live (l.region.start + j) := hl.owned (by omega) (by omega)
    rw [Contents.set_cells_of_ne _ _ (hvalue.ne (hplace.old hown)),
      Contents.set_cells_of_ne _ _ (hplace.ne hown)]
    exact hquiet j hj
  have hindex : ((s.set place.address k).set value.address b).cells place.address = k := by
    rw [Contents.set_cells_of_ne _ _ hpv, Contents.set_cells_self]
  have hput : Takes settings live₂ (l.put place value) () live₂ _ _ :=
    CellList.takes_put hready hl₂ hquiet' (hvalue.old hplace.self) hvalue.self hstart.symm
      (by rwa [hindex])
  rw [hindex, Contents.set_cells_self] at hput
  refine .bind hput (.bind (hvalue.takes_destroy _) ((hplace.takes_destroy _).to ?_))
  have hpz := hplace.zero hs
  have hvz := hvalue.zero (hplace.ready hs)
  refine Contents.ext (funext fun z => ?_) rfl rfl
  simp only [Contents.set_cells]
  grind

theorem leaves_putAt {l : CellList} (hD : Arranged D live) (hl : l.Placed live)
    {place value : Cell} (hplace : place.Taken live live₁) (hvalue : value.Taken live₁ live₂) :
    Leaves live₂ (do
      l.put place value
      value.destroy
      place.destroy) () live := by
  have htakes : Takes {} live₂ (do
      l.put place value
      value.destroy
      place.destroy) () live _ _ :=
    takes_putAt hl hplace hvalue (ready_blank hD.packed) (fun _ _ => rfl) (k := 0) hl.length_pos 0
  exact htakes.leaves

variable (nameSpan kspan span : Span)

theorem emitAssignment_computed {index : Expr} (h : index.Computed) (value : Expr) :
    emitAssignment ⟨name, nameSpan, some index, value, span⟩ = (do
      let v ← lookup name nameSpan
      let list ← indexable v nameSpan
      let place ← evaluate index
      let found ← evaluate value
      list.put place found
      found.destroy
      place.destroy) := by
  cases index with
  | number k kspan => exact absurd rfl (h k kspan)
  | _ => rfl

/-- Stores the value of an expression in an element of a list. -/
def storeElement (name : Text) (index value : Expr) (ρ : State) : Outcome :=
  .withValue (eval ρ.store value) fun b => ρ.update (assignElement ρ.store name index b)

/-- What storing in an element comes to, once the place and the byte are known. -/
theorem assignElement_eq {σ : Store} {bytes : List UInt8} (hbytes : σ.bytes name = .ok bytes)
    {index : Expr} {k : Nat} (hk : position σ bytes index = .ok k) (b : UInt8) :
    assignElement σ name index b = .ok (σ.set name (.list (bytes.set k b))) := by
  rw [assignElement, hbytes]
  show (position σ bytes index >>= _) = _
  rw [hk]
  rfl

theorem assignElement_stuck {σ : Store} {bytes : List UInt8} (hbytes : σ.bytes name = .ok bytes)
    {index : Expr} (hk : position σ bytes index = .error .outOfRange) (b : UInt8) :
    assignElement σ name index b = .error .outOfRange := by
  rw [assignElement, hbytes]
  show (position σ bytes index >>= _) = _
  rw [hk]
  rfl

/-- A computed index is in range or the run is stuck on it. -/
theorem position_cases {Γ : Scope} {σ : Store} (hσ : σ.Fills Γ) {index : Expr}
    (hcomputed : index.Computed) (hfits : index.fits Γ .int = true) (bytes : List UInt8) :
    (∃ k, eval σ index = .ok k ∧ k.toNat < bytes.length ∧ position σ bytes index = .ok k.toNat) ∨
      position σ bytes index = .error .outOfRange := by
  rw [Reference.position_computed hcomputed]
  cases hk : eval σ index with
  | error reason =>
    rw [Reference.eval_stuck hσ index hfits hk]
    exact .inr rfl
  | ok k =>
    by_cases hrange : k.toNat < bytes.length
    · exact .inl ⟨k, rfl, hrange, if_pos hrange⟩
    · exact .inr (if_neg hrange)

theorem performs_element_constant (hD : Arranged D live) {l : CellList}
    (hl : D.find? name = some (.list l)) {k : Nat} (hk : k < l.length) {value : Expr}
    (hfits : value.fits D.scope .int = true) :
    Performs settings initial D live
      (emitAssignment ⟨name, nameSpan, some (.number k kspan), value, span⟩)
      (storeElement name (.number k kspan) value) := by
  have hplaced := hD.placed_list hl
  have hvalue : Evaluates settings D live (l.element k) value :=
    evaluates value hD (hplaced.owned_element hk) hfits
  have helement (s : Contents) :
      TryTakes settings D live (l.elementAt k kspan) (l.element k) live s s := by
    rw [CellList.elementAt, if_pos hk]
    exact .pure _ s
  constructor
  · exact .bind (tryLeaves_lookup hl nameSpan) (.bind (.pure l)
      (.bind (helement blank).leaves hvalue.leaves))
  · intro ρ s hs
    rw [storeElement]
    cases hb : eval ρ.store value with
    | error reason =>
      rw [Reference.eval_stuck hs.holds.fills value hfits hb]
      exact .inl rfl
    | ok b =>
      have hposition : position ρ.store (l.values s) (.number k kspan) = .ok k :=
        if_pos (by rwa [CellList.length_values])
      have hstore := assignElement_eq (hs.holds.bytes hl) hposition b
      obtain ⟨hs', hkeeps⟩ := hs.store_element hD hl hk b
      right
      refine ⟨_, s.set (l.element k).address b, congrArg ρ.update hstore, ?_, hs', hkeeps⟩
      exact .bind (tryTakes_lookup hl nameSpan s) (.bind (.pure l s) (.bind (helement s)
        (hvalue.takes ρ.store s b hs.ready hs.holds hb)))

theorem performs_element_computed (hD : Arranged D live) {l : CellList}
    (hl : D.find? name = some (.list l)) {index value : Expr} (hcomputed : index.Computed)
    (hindex : index.fits D.scope .int = true) (hfits : value.fits D.scope .int = true) :
    Performs settings initial D live
      (emitAssignment ⟨name, nameSpan, some index, value, span⟩)
      (storeElement name index value) := by
  have hplaced := hD.placed_list hl
  obtain ⟨place, live₁, hplace⟩ := exists_evaluated settings hD hindex
  have hD₁ := hD.taken hplace.taken
  obtain ⟨found, live₂, hfound⟩ := exists_evaluated settings hD₁ hfits
  rw [emitAssignment_computed nameSpan span hcomputed]
  constructor
  · refine .bind (tryLeaves_lookup hl nameSpan) (.bind (.pure l) (.bind hplace.leaves ?_))
    exact .bind hfound.leaves (leaves_putAt hD hplaced hplace.taken hfound.taken).lift
  · intro ρ s hs
    rw [storeElement]
    cases hb : eval ρ.store value with
    | error reason =>
      rw [Reference.eval_stuck hs.holds.fills value hfits hb]
      exact .inl rfl
    | ok b =>
      rcases position_cases hs.holds.fills hcomputed hindex (l.values s) with
        ⟨k, hk, hrange, hposition⟩ | hout
      · rw [CellList.length_values] at hrange
        have hstore := assignElement_eq (hs.holds.bytes hl) hposition b
        obtain ⟨hs', hkeeps⟩ := hs.store_element hD hl hrange b
        have hs₁ := (hs.taken hplace.taken).set hD₁ hplace.taken.self (hD.not_owned hplace.taken) k
        right
        refine ⟨_, s.set (l.element k.toNat).address b, congrArg ρ.update hstore, ?_, hs', hkeeps⟩
        refine .bind (tryTakes_lookup hl nameSpan s) (.bind (.pure l s) ?_)
        refine .bind (hplace.takes ρ.store s k hs.ready hs.holds hk) ?_
        refine .bind (hfound.takes ρ.store _ b hs₁.ready hs₁.holds hb) ?_
        exact (takes_putAt hplaced hplace.taken hfound.taken hs.ready (hs.holds.quiet_list hl)
          hrange b).lift
      · left
        exact congrArg ρ.update (assignElement_stuck (hs.holds.bytes hl) hout b)

end Assignment

section Output

variable {settings : Settings} {initial : Store} {D : Declared} {live : List Region}
  {op : Cell → Emit Unit} {form : UInt8 → List UInt8}

/-- The operation writes the byte of a cell in some form. -/
def Writes (settings : Settings) (op : Cell → Emit Unit) (form : UInt8 → List UInt8) : Prop :=
  ∀ (live : List Region) (c : Cell) (s : Contents), Ready live s → Owned live c.address →
    Takes settings live (op c) () live s (s.write (form (s.cells c.address)))

theorem writes_print (settings : Settings) : Writes settings Cell.print fun b => [b] :=
  fun _ _ _ _ hc => Cell.takes_print hc _

theorem writes_printDecimal (settings : Settings) :
    Writes settings Cell.printDecimal fun b => Text.ofNat b.toNat :=
  fun _ _ _ hs hc => Cell.takes_printDecimal hs hc

/-- Writing the value of an expression that is no variable. -/
def emitValue (op : Cell → Emit Unit) (x : Expr) : TryEmit Unit := do
  let t ← evaluate x
  op t
  t.destroy

variable (hop : Writes settings op form)

include hop

theorem performs_value (hD : Arranged D live) {x : Expr} (hfits : x.fits D.scope .int = true) :
    Performs settings initial D live (emitValue op x) fun ρ =>
      .withValue (eval ρ.store x) fun b => .done (ρ.write (form b)) := by
  obtain ⟨t, live₁, ht⟩ := exists_evaluated settings hD hfits
  have hD₁ := hD.taken ht.taken
  have hrest (s : Contents) (hs : Ready live₁ s) : Takes settings live₁ (do op t; t.destroy) ()
      live s ((s.write (form (s.cells t.address))).set t.address 0) :=
    .bind (hop _ _ _ hs ht.taken.self) (ht.taken.takes_destroy _)
  constructor
  · exact .bind ht.leaves (hrest blank (ready_blank hD₁.packed)).leaves.lift
  · intro ρ s hs
    cases hb : eval ρ.store x with
    | error reason =>
      rw [Reference.eval_stuck hs.holds.fills x hfits hb]
      exact .inl rfl
    | ok b =>
      right
      refine ⟨_, s.write (form b), rfl, ?_, hs.write _, fun _ _ _ => rfl⟩
      refine .bind (ht.takes ρ.store s b hs.ready hs.holds hb) ((hrest _ ?_).lift.to ?_)
      · exact (ht.taken.ready hs.ready).set ht.taken.self b
      · have hz := ht.taken.zero hs.ready
        rw [Contents.set_cells_self]
        refine Contents.ext (funext fun z => ?_) rfl rfl
        show (((s.set t.address b).set t.address 0).cells z) = s.cells z
        simp only [Contents.set_cells]
        grind

theorem performs_output (hD : Arranged D live) {x : Expr} (hfits : x.printable D.scope = true) :
    Performs settings initial D live (emitOutput op (fun l => l.elements.forM op) x)
      fun ρ => ρ.print form x := by
  cases x with
  | var name span =>
    obtain ⟨kind, hkind⟩ := Option.isSome_iff_exists.1 hfits
    obtain ⟨v, hv, -⟩ := Option.map_eq_some_iff.1 hkind
    cases v with
    | int c =>
      have htakes (s : Contents) (hs : Ready live s) : TryTakes settings D live
          (emitOutput op (fun l => l.elements.forM op) (.var name span)) () live s
            (s.write (form (s.cells c.address))) :=
        .bind (tryTakes_lookup hv span s) (hop _ _ _ hs (hD.owned_int hv)).lift
      refine ⟨(htakes blank (ready_blank hD.packed)).leaves, fun ρ s hs => .inr ?_⟩
      refine ⟨_, _, ?_, htakes s hs.ready, hs.write _, fun _ _ _ => rfl⟩
      simp only [State.print, hs.holds.holds name _ (Declared.mem_of_find hv)]
      rfl
    | list l =>
      have htakes (s : Contents) (hs : Ready live s) : TryTakes settings D live
          (emitOutput op (fun l => l.elements.forM op) (.var name span)) () live s
            (s.write ((l.values s).flatMap form)) :=
        .bind (tryTakes_lookup hv span s) (CellList.takes_printWith (hop live) hs
          fun _ => (hD.placed_list hv).owned_element).lift
      refine ⟨(htakes blank (ready_blank hD.packed)).leaves, fun ρ s hs => .inr ?_⟩
      refine ⟨_, _, ?_, htakes s hs.ready, hs.write _, fun _ _ _ => rfl⟩
      simp only [State.print, hs.holds.holds name _ (Declared.mem_of_find hv)]
      rfl
  | number value span => exact performs_value hop hD hfits
  | list items span => exact performs_value hop hD hfits
  | element name index span => exact performs_value hop hD hfits
  | binary op left right span => exact performs_value hop hD hfits

omit hop in
theorem tryRejects_output (hD : Arranged D live) {list : CellList → Emit Unit} {x : Expr}
    (hfits : x.printable D.scope = false) : TryRejects D live (emitOutput op list x) := by
  cases x with
  | var name span =>
    have hfind : D.find? name = none := by
      simpa [Expr.printable, Declared.scope] using hfits
    exact (tryRejects_lookup hfind span).bind _
  | number value span => exact (tryRejects_evaluate hD hfits).bind _
  | list items span => exact (tryRejects_evaluate hD hfits).bind _
  | element name index span => exact (tryRejects_evaluate hD hfits).bind _
  | binary op left right span => exact (tryRejects_evaluate hD hfits).bind _

end Output

section Input

variable {settings : Settings} {initial : Store} {D : Declared} {live : List Region}
  {read : Cell → Emit Unit} {next : List UInt8 → UInt8 × List UInt8} {name : Text}
  (function : Text) (kspan span : Span)

/-- The operation reads what comes next in the input into a cell. -/
def Reads (settings : Settings) (read : Cell → Emit Unit)
    (next : List UInt8 → UInt8 × List UInt8) : Prop :=
  ∀ (live : List Region) (c : Cell) (s : Contents), Ready live s → Owned live c.address →
    Takes settings live (read c) () live s
      ((s.set c.address (next s.input).1).withInput (next s.input).2)

theorem reads_input (settings : Settings) :
    Reads settings Cell.input (Reference.readByte settings.endOfInput) :=
  fun _ _ _ _ hc => Cell.takes_input hc _

theorem reads_inputDecimal (settings : Settings) :
    Reads settings Cell.inputDecimal (Reference.readNumber 0) :=
  fun _ _ _ hs hc => Cell.takes_inputDecimal hs hc

theorem emitInput_computed {index : Expr} (h : index.Computed) :
    emitInput function read (.element name index span) = (do
      let v ← lookup name span
      let list ← indexable v span
      let place ← evaluate index
      let value ← Cell.temporary
      read value
      list.put place value
      value.destroy
      place.destroy) := by
  cases index with
  | number k kspan => exact absurd rfl (h k kspan)
  | _ => rfl

theorem receive_element {ρ : State} {index : Expr} {b : UInt8} {σ : Store}
    (h : assignElement ρ.store name index b = .ok σ) (rest : List UInt8) :
    ρ.receive b rest (.element name index span) = .done { ρ with store := σ, input := rest } := by
  rw [State.receive, h]
  rfl

variable (hread : Reads settings read next)

include hread

theorem performs_input_var (hD : Arranged D live) {c : Cell} (hc : D.find? name = some (.int c)) :
    Performs settings initial D live (emitInput function read (.var name span))
      fun ρ => ρ.receive (next ρ.input).1 (next ρ.input).2 (.var name span) := by
  have htakes (s : Contents) (hs : Ready live s) :
      TryTakes settings D live (emitInput function read (.var name span)) () live s _ :=
    .bind (tryTakes_lookup hc span s) (hread _ _ _ hs (hD.owned_int hc)).lift
  refine ⟨(htakes blank (ready_blank hD.packed)).leaves, fun ρ s hs => .inr ?_⟩
  obtain ⟨hs', hkeeps⟩ := hs.store_int hD hc (next ρ.input).1
  have hdone : ρ.receive (next ρ.input).1 (next ρ.input).2 (.var name span) =
      .done { ρ with
        store := ρ.store.set name (.int (next ρ.input).1), input := (next ρ.input).2 } := by
    rw [State.receive, hs.holds.byte hc]
    rfl
  refine ⟨_, _, hdone, htakes s hs.ready, ?_, ?_⟩
  · rw [hs.input]
    exact hs'.withInput _
  · rw [hs.input]
    exact hkeeps

theorem performs_input_constant (hD : Arranged D live) {l : CellList}
    (hl : D.find? name = some (.list l)) {k : Nat} (hk : k < l.length) :
    Performs settings initial D live
      (emitInput function read (.element name (.number k kspan) span))
      fun ρ =>
        ρ.receive (next ρ.input).1 (next ρ.input).2 (.element name (.number k kspan) span) := by
  have helement (s : Contents) :
      TryTakes settings D live (l.elementAt k kspan) (l.element k) live s s := by
    rw [CellList.elementAt, if_pos hk]
    exact .pure _ s
  have htakes (s : Contents) (hs : Ready live s) : TryTakes settings D live
      (emitInput function read (.element name (.number k kspan) span)) () live s _ :=
    .bind (tryTakes_lookup hl span s) (.bind (.pure l s) (.bind (helement s)
      (hread _ _ _ hs ((hD.placed_list hl).owned_element hk)).lift))
  refine ⟨(htakes blank (ready_blank hD.packed)).leaves, fun ρ s hs => .inr ?_⟩
  have hposition : position ρ.store (l.values s) (.number k kspan) = .ok k :=
    if_pos (by rwa [CellList.length_values])
  obtain ⟨hs', hkeeps⟩ := hs.store_element hD hl hk (next ρ.input).1
  have hdone := receive_element span
    (assignElement_eq (hs.holds.bytes hl) hposition (next ρ.input).1) (next ρ.input).2
  refine ⟨_, _, hdone, htakes s hs.ready, ?_, ?_⟩
  · rw [hs.input]
    exact hs'.withInput _
  · rw [hs.input]
    exact hkeeps

theorem performs_input_computed (hD : Arranged D live) {l : CellList}
    (hl : D.find? name = some (.list l)) {index : Expr} (hcomputed : index.Computed)
    (hindex : index.fits D.scope .int = true) :
    Performs settings initial D live (emitInput function read (.element name index span))
      fun ρ => ρ.receive (next ρ.input).1 (next ρ.input).2 (.element name index span) := by
  have hplaced := hD.placed_list hl
  obtain ⟨place, live₁, hplace⟩ := exists_evaluated settings hD hindex
  have hD₁ := hD.taken hplace.taken
  obtain ⟨value, live₂, hvalue, hnew⟩ := Cell.exists_taken_temporary settings hD₁.packed
  rw [emitInput_computed function span hcomputed]
  constructor
  · refine .bind (tryLeaves_lookup hl span) (.bind (.pure l) (.bind hplace.leaves ?_))
    refine .bind (hnew blank).leaves.lift ?_
    refine .bind (hread _ _ _ (ready_blank hvalue.fresh.packed) hvalue.self).leaves.lift ?_
    exact (leaves_putAt hD hplaced hplace.taken hvalue).lift
  · intro ρ s hs
    rcases position_cases hs.holds.fills hcomputed hindex (l.values s) with
      ⟨k, hk, hrange, hposition⟩ | hout
    · rw [CellList.length_values] at hrange
      obtain ⟨hs', hkeeps⟩ := hs.store_element hD hl hrange (next ρ.input).1
      have hs₁ := (hplace.taken.ready hs.ready).set hplace.taken.self k
      right
      have hdone := receive_element span
        (assignElement_eq (hs.holds.bytes hl) hposition (next ρ.input).1) (next ρ.input).2
      refine ⟨_, (s.withInput (next s.input).2).set (l.element k.toNat).address (next s.input).1,
        hdone, ?_, ?_, ?_⟩
      · refine .bind (tryTakes_lookup hl span s) (.bind (.pure l s) ?_)
        refine .bind (hplace.takes ρ.store s k hs.ready hs.holds hk) (.bind (hnew _).lift ?_)
        refine .bind (hread _ _ _ (hvalue.ready hs₁) hvalue.self).lift ?_
        exact (takes_putAt hplaced hplace.taken hvalue (hs.ready.withInput (next s.input).2)
          (hs.holds.quiet_list hl) hrange (next s.input).1).lift
      · rw [hs.input]
        exact hs'.withInput _
      · rw [hs.input]
        exact hkeeps
    · left
      simp only [State.receive, assignElement_stuck (hs.holds.bytes hl) hout]
      rfl

theorem performs_input (hD : Arranged D live) {target : Expr}
    (hfits : target.readable D.scope = true) :
    Performs settings initial D live (emitInput function read target)
      fun ρ => ρ.receive (next ρ.input).1 (next ρ.input).2 target := by
  cases target with
  | var name span =>
    obtain ⟨c, hc⟩ := Declared.exists_int (by simpa [Expr.readable] using hfits)
    exact performs_input_var function span hread hD hc
  | element name index span =>
    rw [Expr.readable] at hfits
    split at hfits
    · rename_i n hlist
      obtain ⟨l, hl, rfl⟩ := Declared.exists_list hlist
      rcases index.number_or_computed with ⟨k, kspan, rfl⟩ | hcomputed
      · exact performs_input_constant function kspan span hread hD hl
          (by simpa [Expr.fitsIndex] using hfits)
      · rw [Expr.fitsIndex_computed hcomputed] at hfits
        exact performs_input_computed function span hread hD hl hcomputed hfits
    · cases hfits
  | number value span => cases hfits
  | list items span => cases hfits
  | binary op left right span => cases hfits

omit hread

theorem tryRejects_elementAt {l : CellList} {k : Nat} (hk : ¬k < l.length) :
    TryRejects D live (l.elementAt k kspan) := by
  rw [CellList.elementAt, if_neg hk]
  exact tryRejects_reject _ kspan

theorem tryRejects_input (hD : Arranged D live) {target : Expr}
    (hfits : target.readable D.scope = false) :
    TryRejects D live (emitInput function read target) := by
  cases target with
  | number value span => exact tryRejects_reject _ _
  | list items span => exact tryRejects_reject _ _
  | binary op left right span => exact tryRejects_reject _ _
  | var name span =>
    cases hfind : D.find? name with
    | none => exact (tryRejects_lookup hfind span).bind _
    | some v =>
      cases v with
      | int c => simp [Expr.readable, Declared.scope, hfind, Variable.kind] at hfits
      | list l => exact .after (tryLeaves_lookup hfind span) (tryRejects_reject _ span)
  | element name index span =>
    cases hfind : D.find? name with
    | none =>
      rcases index.number_or_computed with ⟨k, kspan, rfl⟩ | hcomputed
      · exact (tryRejects_lookup hfind span).bind _
      · rw [emitInput_computed function span hcomputed]
        exact (tryRejects_lookup hfind span).bind _
    | some v =>
      have hlookup : TryLeaves D live (lookup name span) v live := tryLeaves_lookup hfind span
      cases v with
      | int c =>
        have hindexable : TryRejects D live (indexable (.int c) span) := tryRejects_reject _ span
        rcases index.number_or_computed with ⟨k, kspan, rfl⟩ | hcomputed
        · exact .after hlookup (hindexable.bind _)
        · rw [emitInput_computed function span hcomputed]
          exact .after hlookup (hindexable.bind _)
      | list l =>
        have hindex : index.fitsIndex D.scope l.length = false := by
          simpa [Expr.readable, Declared.scope, hfind, Variable.kind] using hfits
        rcases index.number_or_computed with ⟨k, kspan, rfl⟩ | hcomputed
        · have hk : ¬k < l.length := by simpa [Expr.fitsIndex] using hindex
          exact .after hlookup (.after (.pure l) ((tryRejects_elementAt kspan hk).bind _))
        · rw [Expr.fitsIndex_computed hcomputed] at hindex
          rw [emitInput_computed function span hcomputed]
          exact .after hlookup (.after (.pure l) ((tryRejects_evaluate hD hindex).bind _))

end Input

end Goat
