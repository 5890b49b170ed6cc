import Goat.Program.Parser
import Goat.Proofs.Reference

/-!
# Well-formed programs

A program is well-formed if every name is declared before it is used, and only once, and
every value fits what it is used for. The declarations that a statement makes stay in scope
after it, also those inside its blocks.
-/

namespace Goat

/-- The variables in scope. -/
abbrev Scope := Text → Option Kind

namespace Scope

/-- Adds a variable. -/
def declare (Γ : Scope) (name : Text) (kind : Kind) : Scope :=
  fun other => if other = name then some kind else Γ other

/-- Every variable of the first scope is in the second one. -/
def Within (Γ Δ : Scope) : Prop := ∀ name kind, Γ name = some kind → Δ name = some kind

theorem Within.refl (Γ : Scope) : Γ.Within Γ := fun _ _ h => h

theorem Within.trans {Γ Δ Θ : Scope} (h : Γ.Within Δ) (h' : Δ.Within Θ) : Γ.Within Θ :=
  fun name kind hname => h' name kind (h name kind hname)

theorem within_declare {Γ : Scope} {name : Text} (h : Γ name = none) (kind : Kind) :
    Γ.Within (Γ.declare name kind) := by
  intro other kind' hother
  have hne : other ≠ name := by
    rintro rfl
    rw [h] at hother
    cases hother
  rwa [declare, if_neg hne]

end Scope

mutual

/-- The expression has a value that fits a variable. -/
def Expr.fits (Γ : Scope) (kind : Kind) : Expr → Bool
  | .number _ _ => kind = .int
  | .list items _ => kind = .list items.length && Expr.allFit Γ items
  | .var name _ => Γ name = some kind
  | .element name index _ =>
    match Γ name with
    | some (.list n) =>
      kind = .int && match index with
        | .number k _ => decide (k < n)
        | index => index.fits Γ .int
    | _ => false
  | .binary _ left right _ => kind = .int && left.fits Γ .int && right.fits Γ .int

/-- Every item has a value that fits an element of a list. -/
def Expr.allFit (Γ : Scope) : List Expr → Bool
  | [] => true
  | item :: rest => item.fits Γ .int && Expr.allFit Γ rest

end

/-- The expression can be an index of a list of `n` elements: if it is a number, then one
    below `n`. -/
def Expr.fitsIndex (Γ : Scope) (n : Nat) : Expr → Bool
  | .number k _ => k < n
  | index => index.fits Γ .int

/-- The expression is no number, so that its value is only known when the program runs. -/
def Expr.Computed (e : Expr) : Prop := ∀ k span, e ≠ .number k span

theorem Expr.number_or_computed (e : Expr) : (∃ k span, e = .number k span) ∨ e.Computed := by
  cases e with
  | number k span => exact .inl ⟨k, span, rfl⟩
  | _ =>
    right
    intro k span h
    cases h

theorem Expr.fitsIndex_computed {Γ : Scope} {n : Nat} {index : Expr} (h : index.Computed) :
    index.fitsIndex Γ n = index.fits Γ .int := by
  cases index with
  | number k span => exact absurd rfl (h k span)
  | _ => rfl

theorem Expr.fits_element (Γ : Scope) (kind : Kind) (name : Text) (index : Expr) (span : Span) :
    (Expr.element name index span).fits Γ kind =
      match Γ name with
      | some (.list n) => kind = .int && index.fitsIndex Γ n
      | _ => false := by
  cases index <;> rw [Expr.fits] <;> rfl

/-- What fits a list is a list in brackets of as many items, or a variable of the same kind. -/
theorem Expr.cases_of_fits_list {Γ : Scope} {n : Nat} {x : Expr}
    (h : x.fits Γ (.list n) = true) :
    (∃ items span, x = .list items span ∧ items.length = n ∧ Expr.allFit Γ items = true) ∨
      ∃ source span, x = .var source span ∧ Γ source = some (.list n) := by
  cases x with
  | number value span => simp [Expr.fits] at h
  | list items span =>
    simp only [Expr.fits, Bool.and_eq_true, decide_eq_true_iff] at h
    exact .inl ⟨items, span, rfl, (Kind.list.inj h.1).symm, h.2⟩
  | var source span => exact .inr ⟨source, span, rfl, by simpa [Expr.fits] using h⟩
  | element name index span =>
    rw [Expr.fits_element] at h
    split at h
    · simp at h
    · cases h
  | binary op left right span => simp [Expr.fits] at h

mutual

/-- What fits still does with more variables in scope. -/
theorem Expr.fits_mono {Γ Δ : Scope} (h : Γ.Within Δ) : (x : Expr) → {kind : Kind} →
    x.fits Γ kind = true → x.fits Δ kind = true
  | .number value span, kind, hfits => by simpa [Expr.fits] using hfits
  | .list items span, kind, hfits => by
    simp only [Expr.fits, Bool.and_eq_true] at hfits ⊢
    exact ⟨hfits.1, Expr.allFit_mono h items hfits.2⟩
  | .var name span, kind, hfits => by
    simp only [Expr.fits, decide_eq_true_iff] at hfits ⊢
    exact h name kind hfits
  | .element name index span, kind, hfits => by
    rw [Expr.fits_element] at hfits ⊢
    split at hfits
    · rename_i n hlist
      rw [h name _ hlist]
      simp only [Bool.and_eq_true] at hfits ⊢
      refine ⟨hfits.1, ?_⟩
      rcases index.number_or_computed with ⟨k, kspan, rfl⟩ | hcomputed
      · simpa [Expr.fitsIndex] using hfits.2
      · rw [Expr.fitsIndex_computed hcomputed] at hfits ⊢
        exact Expr.fits_mono h index hfits.2
    · cases hfits
  | .binary op left right span, kind, hfits => by
    simp only [Expr.fits, Bool.and_eq_true] at hfits ⊢
    exact ⟨⟨hfits.1.1, Expr.fits_mono h left hfits.1.2⟩, Expr.fits_mono h right hfits.2⟩

theorem Expr.allFit_mono {Γ Δ : Scope} (h : Γ.Within Δ) : (items : List Expr) →
    Expr.allFit Γ items = true → Expr.allFit Δ items = true
  | [], _ => rfl
  | item :: rest, hfits => by
    rw [Expr.allFit, Bool.and_eq_true] at hfits ⊢
    exact ⟨Expr.fits_mono h item hfits.1, Expr.allFit_mono h rest hfits.2⟩

end

/-- The expression can be printed: it is a variable or its value is a byte. -/
def Expr.printable (Γ : Scope) : Expr → Bool
  | .var name _ => (Γ name).isSome
  | e => e.fits Γ .int

/-- A byte can be read into the expression: it is a variable or an element of a list. -/
def Expr.readable (Γ : Scope) : Expr → Bool
  | .var name _ => Γ name = some .int
  | .element name index _ =>
    match Γ name with
    | some (.list n) => index.fitsIndex Γ n
    | _ => false
  | _ => false

namespace Reference

/-- The kind of variable that can hold the value. -/
def Value.kind : Value → Kind
  | .int _ => .int
  | .list bytes => .list bytes.length

/-- Every variable in scope holds a value of its kind. -/
def Store.Fills (σ : Store) (Γ : Scope) : Prop :=
  ∀ name kind, Γ name = some kind → (σ name).map Value.kind = some kind

variable {σ : Store} {Γ : Scope} {name : Text}

theorem eval_element_computed {index : Expr} (h : index.Computed) (span : Span) :
    eval σ (.element name index span) = (do
      let bytes ← σ.bytes name
      let k ← eval σ index
      elementAt bytes k.toNat .outOfRange) := by
  cases index with
  | number k span => exact absurd rfl (h k span)
  | _ => rfl

theorem Store.Fills.exists_byte (hσ : σ.Fills Γ) (h : Γ name = some .int) :
    ∃ b, σ name = some (.int b) := by
  have hkind := hσ name _ h
  rw [Option.map_eq_some_iff] at hkind
  obtain ⟨value, hvalue, hkind⟩ := hkind
  cases value with
  | int b => exact ⟨b, hvalue⟩
  | list bytes => cases hkind

theorem Store.Fills.exists_bytes (hσ : σ.Fills Γ) {n : Nat} (h : Γ name = some (.list n)) :
    ∃ bytes, σ name = some (.list bytes) ∧ bytes.length = n := by
  have hkind := hσ name _ h
  rw [Option.map_eq_some_iff] at hkind
  obtain ⟨value, hvalue, hkind⟩ := hkind
  cases value with
  | int b => cases hkind
  | list bytes => exact ⟨bytes, hvalue, Kind.list.inj hkind⟩

/-- A step that fails does so in its first part or after it. -/
theorem cases_of_bind_eq_error {ε α β : Type} {x : Except ε α} {f : α → Except ε β} {e : ε}
    (h : (x >>= f) = .error e) : x = .error e ∨ ∃ a, x = .ok a ∧ f a = .error e := by
  cases x with
  | error e' =>
    cases h
    exact .inl rfl
  | ok a => exact .inr ⟨a, rfl, h⟩

/-- An expression that fits is stuck at most on an index that is out of range. -/
theorem eval_stuck (hσ : σ.Fills Γ) {reason : Stuck} :
    (x : Expr) → x.fits Γ .int = true → eval σ x = .error reason → reason = .outOfRange
  | .number value span, _, h => by cases h
  | .list items span, hfits, _ => by simp [Expr.fits] at hfits
  | .var name span, hfits, h => by
    obtain ⟨b, hb⟩ := hσ.exists_byte (by simpa [Expr.fits] using hfits)
    simp [eval, Store.byte, hb] at h
  | .element name index span, hfits, h => by
    rw [Expr.fits_element] at hfits
    split at hfits
    · rename_i n hlist
      obtain ⟨bytes, hbytes, hlength⟩ := hσ.exists_bytes hlist
      have hread : σ.bytes name = .ok bytes := by rw [Store.bytes, hbytes]
      rcases index.number_or_computed with ⟨k, kspan, rfl⟩ | hcomputed
      · have hk : k < bytes.length := by simpa [Expr.fitsIndex, hlength] using hfits
        have hvalue : eval σ (.element name (.number k kspan) span) = .ok bytes[k] := by
          show (σ.bytes name >>= fun bytes => elementAt bytes k .invalid) = _
          rw [hread]
          show elementAt bytes k .invalid = _
          rw [elementAt, List.getElem?_eq_getElem hk]
        rw [hvalue] at h
        cases h
      · rw [Expr.fitsIndex_computed hcomputed, decide_eq_true rfl, Bool.true_and] at hfits
        rw [eval_element_computed hcomputed, hread] at h
        rcases cases_of_bind_eq_error (x := eval σ index) h with hindex | ⟨k, -, h⟩
        · exact eval_stuck hσ index hfits hindex
        · rw [elementAt] at h
          split at h
          · cases h
          · cases h
            rfl
    · cases hfits
  | .binary op left right span, hfits, h => by
    simp only [Expr.fits, decide_true, Bool.true_and, Bool.and_eq_true] at hfits
    rw [eval] at h
    rcases cases_of_bind_eq_error h with hleft | ⟨a, -, h⟩
    · exact eval_stuck hσ left hfits.1 hleft
    · rcases cases_of_bind_eq_error h with hright | ⟨b, -, h⟩
      · exact eval_stuck hσ right hfits.2 hright
      · cases h

theorem Store.Fills.set (hσ : σ.Fills Γ) {value : Value} (hname : Γ name = some value.kind) :
    (σ.set name value).Fills Γ := by
  intro other kind hother
  by_cases hsame : other = name
  · subst hsame
    rw [hname] at hother
    rw [Store.set, if_pos rfl, Option.map_some, hother]
  · rw [Store.set, if_neg hsame]
    exact hσ other kind hother

theorem assignItems_stuck {n : Nat} (hname : Γ name = some (.list n)) {reason : Stuck}
    (items : List Expr) {k : Nat} (hσ : σ.Fills Γ) (hfits : Expr.allFit Γ items = true)
    (h : assignItems name k items σ = .error reason) : reason = .outOfRange := by
  induction items generalizing k σ with
  | nil => cases h
  | cons item rest ih =>
    rw [Expr.allFit, Bool.and_eq_true] at hfits
    obtain ⟨bytes, hbytes, hlength⟩ := hσ.exists_bytes hname
    rw [assignItems] at h
    rcases cases_of_bind_eq_error h with hitem | ⟨b, -, h⟩
    · exact eval_stuck hσ item hfits.1 hitem
    · rw [Store.bytes, hbytes] at h
      refine ih (hσ.set ?_) hfits.2 h
      rw [hname, Value.kind, List.length_set, hlength]

/-- Storing a value that fits is stuck at most on an index that is out of range. -/
theorem assign_stuck (hσ : σ.Fills Γ) {kind : Kind} (hname : Γ name = some kind) {x : Expr}
    (hfits : x.fits Γ kind = true) {reason : Stuck} (h : assign σ name x = .error reason) :
    reason = .outOfRange := by
  cases kind with
  | int =>
    obtain ⟨b, hb⟩ := hσ.exists_byte hname
    rw [assign, hb] at h
    rcases cases_of_bind_eq_error h with hvalue | ⟨b', -, h⟩
    · exact eval_stuck hσ x hfits hvalue
    · cases h
  | list n =>
    obtain ⟨bytes, hbytes, rfl⟩ := hσ.exists_bytes hname
    rw [assign, hbytes] at h
    rcases Expr.cases_of_fits_list hfits with
      ⟨items, span, rfl, hlength, hitems⟩ | ⟨source, span, rfl, hsource⟩
    · simp only [if_pos hlength] at h
      exact assignItems_stuck hname items hσ hitems h
    · obtain ⟨others, hothers, hlength⟩ := hσ.exists_bytes hsource
      simp only [Store.bytes, hothers] at h
      replace h : (if others.length = bytes.length then _ else _) = _ := h
      rw [if_pos hlength] at h
      cases h

/-- Items are stored by storing the first of them and then the others. -/
theorem exists_of_assignItems_cons {σ' : Store} {k : Nat} {item : Expr} {rest : List Expr}
    (h : assignItems name k (item :: rest) σ = .ok σ') :
    ∃ b bytes, eval σ item = .ok b ∧ σ.bytes name = .ok bytes ∧
      assignItems name (k + 1) rest (σ.set name (.list (bytes.set k b))) = .ok σ' := by
  rw [assignItems] at h
  obtain ⟨b, hb, h⟩ := exists_of_bind_eq_ok h
  obtain ⟨bytes, hbytes, h⟩ := exists_of_bind_eq_ok h
  exact ⟨b, bytes, hb, hbytes, h⟩

theorem assignItems_other {σ' : Store} (items : List Expr) {k : Nat}
    (h : assignItems name k items σ = .ok σ') {other : Text} (hother : other ≠ name) :
    σ' other = σ other := by
  induction items generalizing k σ with
  | nil =>
    cases h
    rfl
  | cons item rest ih =>
    obtain ⟨b, bytes, -, -, h⟩ := exists_of_assignItems_cons h
    rw [ih h, Store.set, if_neg hother]

/-- Storing a value changes one variable only. -/
theorem assign_other {σ' : Store} {x : Expr} (h : assign σ name x = .ok σ') {other : Text}
    (hother : other ≠ name) : σ' other = σ other := by
  have hset (value : Value) : σ.set name value other = σ other := by
    rw [Store.set, if_neg hother]
  rw [assign] at h
  split at h
  · cases h
  · obtain ⟨b, -, h⟩ := exists_of_bind_eq_ok h
    cases h
    exact hset _
  · split at h
    · split at h
      · exact assignItems_other _ h hother
      · cases h
    · obtain ⟨others, -, h⟩ := exists_of_bind_eq_ok h
      split at h
      · cases h
        exact hset _
      · cases h
    · cases h

theorem position_computed {bytes : List UInt8} {index : Expr} (h : index.Computed) :
    position σ bytes index = (do
      let k ← eval σ index
      if k.toNat < bytes.length then .ok k.toNat else .error .outOfRange) := by
  cases index with
  | number k span => exact absurd rfl (h k span)
  | _ => rfl

end Reference

/-- A block with a label, and how it changes the scope, if it is well-formed. -/
structure BlockScope where
  label : Text
  scope? : Scope → Option Scope

/-- The scope after a call of a builtin, given how its blocks change the scope. -/
def callScope? (Γ : Scope) : Builtin → List Expr → List BlockScope → Option Scope
  | .print, [value], [] => if value.printable Γ then some Γ else none
  | .printDecimal, [value], [] => if value.printable Γ then some Γ else none
  | .input, [target], [] => if target.readable Γ then some Γ else none
  | .inputDecimal, [target], [] => if target.readable Γ then some Γ else none
  | .if_, [condition], [block] => if condition.fits Γ .int then block.scope? Γ else none
  | .if_, [condition], [block, otherwise] =>
    if otherwise.label = "else" ∧ condition.fits Γ .int then
      (block.scope? Γ).bind otherwise.scope?
    else none
  | .while_, [condition], [block] => if condition.fits Γ .int then block.scope? Γ else none
  | .for_, [.var element _, .var list _], [block] =>
    match Γ element, Γ list with
    | some .int, some (.list _) => block.scope? Γ
    | _, _ => none
  | _, _, _ => none

section

-- `kindOf?` says what a declaration declares
variable (kindOf? : Declaration → Option Kind)

mutual

/-- The scope after a statement, if it is well-formed. -/
def Stmt.scope? : Stmt → Scope → Option Scope
  | .declaration d, Γ =>
    match kindOf? d with
    | some kind =>
      if isIdentifier d.name ∧ Γ d.name = none ∧ d.value.fits (Γ.declare d.name kind) kind then
        some (Γ.declare d.name kind)
      else none
    | none => none
  | .assignment a, Γ =>
    match Γ a.name, a.index with
    | some kind, none => if a.value.fits Γ kind then some Γ else none
    | some (.list n), some index =>
      if index.fitsIndex Γ n ∧ a.value.fits Γ .int then some Γ else none
    | _, _ => none
  | .call name arguments blocks _, Γ =>
    (Builtin.ofName? name).bind fun b => callScope? Γ b arguments (Block.scopes blocks)

/-- The scope after statements, if they are well-formed. -/
def Stmt.scopeAll? : List Stmt → Scope → Option Scope
  | [], Γ => some Γ
  | s :: rest, Γ => (s.scope? Γ).bind (Stmt.scopeAll? rest)

/-- How a block changes the scope. -/
def Block.scope : Block → BlockScope
  | .mk label body _ => ⟨label, Stmt.scopeAll? body⟩

/-- How blocks change the scope. -/
def Block.scopes : List Block → List BlockScope
  | [] => []
  | b :: rest => b.scope :: Block.scopes rest

end

end

end Goat
