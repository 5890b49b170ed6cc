import Goat.Proofs.Carrying

/-!
# What statements store

An assignment or a declaration stores the value that its right-hand side has before the statement,
and changes no other variable. The target may occur on the right-hand side, since values are
computed in temporaries before they are stored. The one exception is a list in brackets: its items
are stored one after the other, so an item that reads an element that was stored just before it
gets the new one. The statement holds for a list whose items are not disturbed in this way.
-/

namespace Goat

open Plain (Settings Contents)
open Reference (Store State Outcome Stuck Value eval assign assignItems assignElement position exec)

namespace Reference

/-- The bytes that expressions stand for. -/
def evalAll (σ : Store) : List Expr → Except Stuck (List UInt8)
  | [] => .ok []
  | x :: rest => do
    let b ← eval σ x
    let bytes ← evalAll σ rest
    return b :: bytes

/-- The value of an expression for a variable of some kind. The items of a list all have the
    values of the same store. -/
def valueOf (σ : Store) : Kind → Expr → Except Stuck Value
  | .int, x => do return .int (← eval σ x)
  | .list length, .list items _ => do
    let bytes ← evalAll σ items
    if bytes.length = length then return .list bytes else .error .invalid
  | .list length, .var source _ => do
    let bytes ← σ.bytes source
    if bytes.length = length then return .list bytes else .error .invalid
  | .list _, _ => .error .invalid

/-- What a variable is to hold once the value of an expression is stored in it or, if there is an
    index, in one of its elements. Value and index are those of the store before. -/
def stored (σ : Store) (name : Text) (x : Expr) : Option Expr → Except Stuck Value
  | none =>
    match σ name with
    | none => .error .invalid
    | some old => valueOf σ old.kind x
  | some index => do
    let bytes ← σ.bytes name
    let k ← position σ bytes index
    let b ← eval σ x
    return .list (bytes.set k b)

/-- No item of a list has another value once the items before it are stored in a variable. -/
def Settled (σ : Store) (name : Text) : Expr → Prop
  | .list items _ => ∀ old values, σ name = some (.list old) → evalAll σ items = .ok values →
      ∀ k item, items[k]? = some item →
        eval (σ.set name (.list (values.take k ++ old.drop k))) item = eval σ item
  | _ => True

section Items

variable {σ : Store} {name : Text} {items : List Expr} {values old : List UInt8}

theorem exists_of_evalAll_cons {x : Expr} (h : evalAll σ (x :: items) = .ok values) :
    ∃ b bytes, eval σ x = .ok b ∧ evalAll σ items = .ok bytes ∧ values = b :: bytes := by
  rw [evalAll] at h
  obtain ⟨b, hb, h⟩ := exists_of_bind_eq_ok h
  obtain ⟨bytes, hbytes, h⟩ := exists_of_bind_eq_ok h
  cases h
  exact ⟨b, bytes, hb, hbytes, rfl⟩

theorem length_of_evalAll (h : evalAll σ items = .ok values) : values.length = items.length := by
  induction items generalizing values with
  | nil =>
    cases h
    rfl
  | cons x items ih =>
    obtain ⟨b, bytes, -, hbytes, rfl⟩ := exists_of_evalAll_cons h
    rw [List.length_cons, List.length_cons, ih hbytes]

theorem exists_eval_of_evalAll (h : evalAll σ items = .ok values) {k : Nat} {item : Expr}
    (hitem : items[k]? = some item) : ∃ b, values[k]? = some b ∧ eval σ item = .ok b := by
  induction items generalizing values k with
  | nil => cases hitem
  | cons x items ih =>
    obtain ⟨b, bytes, hb, hbytes, rfl⟩ := exists_of_evalAll_cons h
    cases k with
    | zero =>
      cases hitem
      exact ⟨b, rfl, hb⟩
    | succ k => exact ih hbytes hitem

/-- Storing one more value in front of what is left of the old ones. -/
theorem set_take_append_drop {k : Nat} {b : UInt8} (hb : values[k]? = some b)
    (hk : k < old.length) :
    (values.take k ++ old.drop k).set k b = values.take (k + 1) ++ old.drop (k + 1) := by
  have hlength : (values.take k).length = k := by
    have := (List.getElem?_eq_some_iff.1 hb).1
    rw [List.length_take]
    omega
  rw [List.set_append_right _ _ (by omega), hlength, Nat.sub_self, List.drop_eq_getElem_cons hk,
    List.set_cons_zero, List.take_add_one, hb, Option.toList_some, List.append_assoc,
    List.singleton_append]

/-- Items that are not disturbed are stored with the values they had before. After `k` of them,
    the variable holds their values and the rest of what it held. -/
theorem assignItems_drop (hvalues : evalAll σ items = .ok values)
    (hlength : values.length = old.length)
    (hsettled : ∀ k item, items[k]? = some item →
      eval (σ.set name (.list (values.take k ++ old.drop k))) item = eval σ item)
    {k : Nat} {rest : List Expr} (hrest : items.drop k = rest) :
    assignItems name k rest (σ.set name (.list (values.take k ++ old.drop k))) =
      .ok (σ.set name (.list values)) := by
  have hitems := length_of_evalAll hvalues
  induction rest generalizing k with
  | nil =>
    have hk : items.length ≤ k := List.drop_eq_nil_iff.1 hrest
    rw [assignItems, List.take_of_length_le (by omega), List.drop_eq_nil_of_le (by omega),
      List.append_nil]
  | cons item rest ih =>
    have hitem : items[k]? = some item := by rw [← List.head?_drop, hrest, List.head?_cons]
    have hk : k < items.length := (List.getElem?_eq_some_iff.1 hitem).1
    obtain ⟨b, hb, heval⟩ := exists_eval_of_evalAll hvalues hitem
    rw [assignItems, hsettled k item hitem, heval, Store.bytes_set]
    show assignItems name (k + 1) rest (Store.set _ name _) = _
    rw [Store.set_set, set_take_append_drop hb (by omega)]
    exact ih (by rw [← List.tail_drop, hrest, List.tail_cons])

theorem exists_of_assignItems_set {σ' : Store} {k : Nat} {item : Expr} {rest : List Expr}
    (h : assignItems name k (item :: rest) (σ.set name (.list old)) = .ok σ') :
    ∃ b, eval (σ.set name (.list old)) item = .ok b ∧
      assignItems name (k + 1) rest (σ.set name (.list (old.set k b))) = .ok σ' := by
  obtain ⟨b, bytes, hb, hbytes, h⟩ := exists_of_assignItems_cons h
  rw [Store.bytes_set] at hbytes
  cases hbytes
  rw [Store.set_set] at h
  exact ⟨b, hb, h⟩

/-- Items are stored from element `k` on. -/
theorem getElem?_of_assignItems {k : Nat}
    (h : assignItems name k items (σ.set name (.list old)) = .ok (σ.set name (.list values)))
    {j : Nat} (hj : j < k) : values[j]? = old[j]? := by
  induction items generalizing k old with
  | nil =>
    have hsame : (σ.set name (.list old)).bytes name = (σ.set name (.list values)).bytes name := by
      rw [Except.ok.inj h]
    rw [Store.bytes_set, Store.bytes_set] at hsame
    rw [Except.ok.inj hsame]
  | cons item rest ih =>
    obtain ⟨b, -, h⟩ := exists_of_assignItems_set h
    rw [ih h (by omega), List.getElem?_set_ne (by omega)]

/-- If the items are stored with the values they had before, then none of them is disturbed. -/
theorem settled_of_assignItems (hvalues : evalAll σ items = .ok values)
    (hlength : values.length = old.length) {k : Nat} {rest : List Expr}
    (hrest : items.drop k = rest)
    (h : assignItems name k rest (σ.set name (.list (values.take k ++ old.drop k))) =
      .ok (σ.set name (.list values)))
    {j : Nat} (hj : k ≤ j) {item : Expr} (hitem : items[j]? = some item) :
    eval (σ.set name (.list (values.take j ++ old.drop j))) item = eval σ item := by
  have hitems := length_of_evalAll hvalues
  induction rest generalizing k with
  | nil =>
    have hk : items.length ≤ k := List.drop_eq_nil_iff.1 hrest
    have := (List.getElem?_eq_some_iff.1 hitem).1
    omega
  | cons first rest ih =>
    have hfirst : items[k]? = some first := by rw [← List.head?_drop, hrest, List.head?_cons]
    have hk : k < items.length := (List.getElem?_eq_some_iff.1 hfirst).1
    obtain ⟨b, hb, heval⟩ := exists_eval_of_evalAll hvalues hfirst
    obtain ⟨b', hb', h⟩ := exists_of_assignItems_set h
    -- What was stored for the first item is not touched any more, so it is its value before.
    have hstored : values[k]? = some b' := by
      rw [getElem?_of_assignItems h (Nat.lt_succ_self k), List.getElem?_set_self]
      rw [List.length_append, List.length_take, List.length_drop]
      omega
    obtain rfl : b = b' := Option.some.inj (hb.symm.trans hstored)
    rcases Nat.eq_or_lt_of_le hj with rfl | hlt
    · obtain rfl : first = item := Option.some.inj (hfirst.symm.trans hitem)
      rw [hb', heval]
    · rw [set_take_append_drop hb (by omega)] at h
      exact ih (by rw [← List.tail_drop, hrest, List.tail_cons]) h hlt

end Items

section Statement

variable {σ : Store} {name : Text} {x : Expr} {value : Value}

theorem assignItems_eq_iff_settled {items : List Expr} {span : Span} {old values : List UInt8}
    (hold : σ name = some (.list old)) (hvalues : evalAll σ items = .ok values)
    (hlength : values.length = old.length) :
    assignItems name 0 items σ = .ok (σ.set name (.list values)) ↔
      Settled σ name (.list items span) := by
  have hstart : σ.set name (.list (values.take 0 ++ old.drop 0)) = σ := Store.set_eq_self hold
  constructor
  · intro h old' values' hold' hvalues' k item hitem
    obtain rfl : old = old' := Value.list.inj (Option.some.inj (hold.symm.trans hold'))
    obtain rfl : values = values' := Except.ok.inj (hvalues.symm.trans hvalues')
    rw [← hstart] at h
    rw [Store.set_set] at h
    exact settled_of_assignItems hvalues hlength List.drop_zero h (Nat.zero_le k) hitem
  · intro hsettled
    have hdrop := assignItems_drop hvalues hlength (hsettled old values hold hvalues)
      (List.drop_zero (l := items))
    rwa [hstart] at hdrop

/-- Storing in a variable stores the value before exactly if no item of a list is disturbed. -/
theorem assign_eq_iff_settled (hstored : stored σ name x none = .ok value) :
    assign σ name x = .ok (σ.set name value) ↔ Settled σ name x := by
  rw [stored] at hstored
  cases hold : σ name with
  | none =>
    rw [hold] at hstored
    cases hstored
  | some old =>
    rw [hold] at hstored
    rw [assign, hold]
    cases old with
    | int byte =>
      obtain ⟨b, hb, h⟩ := exists_of_bind_eq_ok hstored
      cases h
      cases x with
      | list => cases hb
      | _ =>
        simp only [hb]
        exact ⟨fun _ => trivial, fun _ => rfl⟩
    | list old =>
      cases x with
      | number => cases hstored
      | element => cases hstored
      | binary => cases hstored
      | list items span =>
        obtain ⟨values, hvalues, h⟩ := exists_of_bind_eq_ok hstored
        split at h
        · rename_i hlength
          cases h
          have hitems := length_of_evalAll hvalues
          simp only
          rw [if_pos (by omega)]
          exact assignItems_eq_iff_settled hold hvalues hlength
        · cases h
      | var source span =>
        obtain ⟨bytes, hbytes, h⟩ := exists_of_bind_eq_ok hstored
        split at h
        · rename_i hlength
          cases h
          simp only [hbytes]
          exact ⟨fun _ => trivial, fun _ => if_pos hlength⟩
        · cases h

theorem assignElement_of_stored {index : Expr}
    (hstored : stored σ name x (some index) = .ok value) :
    ∃ b, eval σ x = .ok b ∧ assignElement σ name index b = .ok (σ.set name value) := by
  obtain ⟨bytes, hbytes, h⟩ := exists_of_bind_eq_ok hstored
  obtain ⟨k, hk, h⟩ := exists_of_bind_eq_ok h
  obtain ⟨b, hb, h⟩ := exists_of_bind_eq_ok h
  cases h
  exact ⟨b, hb, assignElement_eq hbytes hk b⟩

end Statement

section Stuck

variable {σ : Store} {Γ : Scope} {name : Text} {reason : Stuck}

theorem evalAll_stuck (hσ : σ.Fills Γ) {items : List Expr} (hfits : Expr.allFit Γ items = true)
    (h : evalAll σ items = .error reason) : reason = .outOfRange := by
  induction items with
  | nil => cases h
  | cons item rest ih =>
    rw [Expr.allFit, Bool.and_eq_true] at hfits
    rw [evalAll] at h
    rcases cases_of_bind_eq_error h with hitem | ⟨b, -, h⟩
    · exact eval_stuck hσ item hfits.1 hitem
    · rcases cases_of_bind_eq_error h with hrest | ⟨bytes, -, h⟩
      · exact ih hfits.2 hrest
      · cases h

/-- An expression that fits has a value unless an index is out of range. -/
theorem valueOf_stuck (hσ : σ.Fills Γ) {kind : Kind} {x : Expr} (hfits : x.fits Γ kind = true)
    (h : valueOf σ kind x = .error reason) : reason = .outOfRange := by
  cases kind with
  | int =>
    rcases cases_of_bind_eq_error h with heval | ⟨b, -, h⟩
    · exact eval_stuck hσ x hfits heval
    · cases h
  | list n =>
    rcases Expr.cases_of_fits_list hfits with
      ⟨items, span, rfl, hlength, hitems⟩ | ⟨source, span, rfl, hsource⟩
    · rcases cases_of_bind_eq_error h with hstuck | ⟨values, hvalues, h⟩
      · exact evalAll_stuck hσ hitems hstuck
      · rw [if_pos ((length_of_evalAll hvalues).trans hlength)] at h
        cases h
    · obtain ⟨bytes, hbytes, hlength⟩ := hσ.exists_bytes hsource
      have hread : σ.bytes source = .ok bytes := by rw [Store.bytes, hbytes]
      rcases cases_of_bind_eq_error h with hstuck | ⟨bytes', hvalue, h⟩
      · cases hread.symm.trans hstuck
      · obtain rfl : bytes = bytes' := Except.ok.inj (hread.symm.trans hvalue)
        rw [if_pos hlength] at h
        cases h

theorem position_stuck (hσ : σ.Fills Γ) {index : Expr} {bytes : List UInt8}
    (hfits : index.fitsIndex Γ bytes.length = true)
    (h : position σ bytes index = .error reason) : reason = .outOfRange := by
  rcases index.number_or_computed with ⟨k, span, rfl⟩ | hcomputed
  · rw [position, if_pos (by simpa [Expr.fitsIndex] using hfits)] at h
    cases h
  · rw [Expr.fitsIndex_computed hcomputed] at hfits
    rcases position_cases hσ hcomputed hfits bytes with ⟨k, -, -, hk⟩ | hstuck
    · cases hk.symm.trans h
    · exact (Except.error.inj (hstuck.symm.trans h)).symm

end Stuck

end Reference

/-- The expression has a value that fits a variable or, if there is an index, its elements. -/
def Expr.FitsTarget (Γ : Scope) (name : Text) (x : Expr) : Option Expr → Prop
  | none => ∃ kind, Γ name = some kind ∧ x.fits Γ kind = true
  | some index => ∃ n, Γ name = some (.list n) ∧ index.fitsIndex Γ n = true ∧ x.fits Γ .int = true

/-- What is to be stored is known unless an index is out of range. -/
theorem Reference.stored_stuck {σ : Store} {Γ : Scope} {name : Text} {x : Expr}
    {index : Option Expr} {reason : Stuck} (hσ : σ.Fills Γ) (hfits : x.FitsTarget Γ name index)
    (h : stored σ name x index = .error reason) : reason = .outOfRange := by
  cases index with
  | none =>
    obtain ⟨kind, hname, hfits⟩ := hfits
    obtain ⟨old, hold, rfl⟩ := Option.map_eq_some_iff.1 (hσ name kind hname)
    rw [stored, hold] at h
    exact valueOf_stuck hσ hfits h
  | some index =>
    obtain ⟨n, hname, hindex, hfits⟩ := hfits
    obtain ⟨bytes, hbytes, rfl⟩ := hσ.exists_bytes hname
    rw [stored, Store.bytes, hbytes] at h
    rcases cases_of_bind_eq_error h with h | ⟨_, hread, h⟩
    · cases h
    · cases hread
      rcases cases_of_bind_eq_error h with hposition | ⟨k, -, h⟩
      · exact position_stuck hσ hindex hposition
      · rcases cases_of_bind_eq_error h with heval | ⟨b, -, h⟩
        · exact eval_stuck hσ x hfits heval
        · cases h

namespace Stmt

/-- The statement stores the value of an expression in a variable or, if there is an index, in
    one of its elements. -/
inductive Stores : Stmt → Text → Option Expr → Expr → Prop
  | declaration (d : Declaration) : Stores (.declaration d) d.name none d.value
  | assignment (a : Assignment) : Stores (.assignment a) a.name a.index a.value

variable {s : Stmt} {name : Text} {index : Option Expr} {x : Expr}

theorem Stores.loopDeclarations (h : s.Stores name index x) : s.loopDeclarations = [] := by
  cases h with
  | declaration d => rw [Stmt.loopDeclarations]
  | assignment a => rw [Stmt.loopDeclarations]

/-- In a statement that is well-formed, the expression fits what it is stored in. -/
theorem Stores.fitsTarget (h : s.Stores name index x) {kindOf? : Declaration → Option Kind}
    {Γ Γ' : Scope} (hscope : s.scope? kindOf? Γ = some Γ') : x.FitsTarget Γ' name index := by
  cases h with
  | declaration d =>
    rw [scope?] at hscope
    split at hscope
    · rename_i kind _
      split at hscope
      · rename_i hfits
        cases hscope
        exact ⟨kind, if_pos rfl, hfits.2.2⟩
      · cases hscope
    · cases hscope
  | assignment a =>
    obtain ⟨name, nameSpan, index, value, span⟩ := a
    rw [scope?] at hscope
    split at hscope
    · rename_i kind hname hindex
      cases hindex
      split at hscope
      · rename_i hfits
        cases hscope
        exact ⟨kind, hname, hfits⟩
      · cases hscope
    · rename_i n index hname hindex
      cases hindex
      split at hscope
      · rename_i hfits
        cases hscope
        exact ⟨n, hname, hfits.1, hfits.2⟩
      · cases hscope
    · cases hscope

/-- The statement stores the value before if no item of a list is disturbed. -/
theorem Stores.exec (h : s.Stores name index x) {ρ : State} {value : Value}
    (hstored : Reference.stored ρ.store name x index = .ok value)
    (hsettled : Reference.Settled ρ.store name x) (mode : Machine.EndOfInput) (fuel : Nat) :
    Reference.exec mode fuel s ρ = .done { ρ with store := ρ.store.set name value } := by
  cases h with
  | declaration d =>
    rw [Reference.exec, (Reference.assign_eq_iff_settled hstored).2 hsettled]
    rfl
  | assignment a =>
    obtain ⟨name, nameSpan, index, value, span⟩ := a
    rw [Reference.exec]
    cases index with
    | none =>
      simp only
      rw [(Reference.assign_eq_iff_settled hstored).2 hsettled]
      rfl
    | some index =>
      obtain ⟨b, hb, hassign⟩ := Reference.assignElement_of_stored hstored
      simp only [hb, Outcome.withValue]
      rw [hassign]
      rfl

end Stmt

namespace Machine

variable {m : Machine} {e e' : Emitter} {s : Stmt}

/-- An accepted statement `x = e`, `k[i] = e` or `T x = e` stores the value that `e` has before it,
    at the index that `i` has before it, and changes no other variable: unless an index is out of
    range, its code sets just the target. No item of a list in brackets may be disturbed by the
    items that are stored before it; a variable that is declared counts as zero before. -/
theorem stores_value_before {name : Text} {index : Option Expr} {x : Expr} (hm : m.Carries e)
    (hs : s.Stores name index x) (hrun : e.run (emitStmt s) = (.ok (), e'))
    (hroom : m.HasRoom e')
    (hrange : Reference.stored (m.values e') name x index ≠ .error .outOfRange)
    (hsettled : Reference.Settled (m.values e') name x) :
    ∃ value m', Reference.stored (m.values e') name x index = .ok value ∧
      m.Executes e e' m' ∧ m'.Carries e' ∧ m'.values e' = (m.values e').set name value ∧
      m'.input = m.input ∧ m'.output = m.output := by
  have hfits := hs.fitsTarget (hm.scope_eq hrun)
  cases hstored : Reference.stored (m.values e') name x index with
  | error reason =>
    rw [Reference.stored_stuck (Declared.store_fills _ _) hfits hstored] at hstored
    exact absurd hstored hrange
  | ok value =>
    have hexec := hs.exec (ρ := ⟨m.values e', m.input, m.output.toList⟩) hstored hsettled
      m.config.endOfInput 0
    obtain ⟨m', hexecutes, hcarries, hstore, hinput, houtput⟩ :=
      hm.executes hs.loopDeclarations hrun hroom hexec
    exact ⟨value, m', rfl, hexecutes, hcarries, hstore, hinput, Array.toList_inj.1 houtput⟩

/-- The assignment of a list in brackets. -/
def listAssignment (name : Text) (items : List Expr) : Stmt :=
  .assignment ⟨name, Span.none, none, .list items Span.none, Span.none⟩

/-- An element of a list. -/
def elementOf (name : Text) (k : Nat) : Expr := .element name (.number k Span.none) Span.none

/-- The emission accepts the statement, declares nothing and needs at most 16 cells. -/
def sampleAccepts (s : Stmt) : Bool :=
  match sampleDeclaring.run (emitStmt s) with
  | (.ok (), e') => e'.declared = sampleVariables && sampleMachine.HasRoom e'
  | _ => false

theorem exists_run_of_sampleAccepts (h : sampleAccepts s = true) :
    ∃ e', sampleDeclaring.run (emitStmt s) = (.ok (), e') ∧ sampleMachine.HasRoom e' ∧
      sampleMachine.values e' = sampleVariables.store sampleMachine.contents := by
  rw [sampleAccepts] at h
  split at h
  · rename_i e' hrun
    simp only [Bool.and_eq_true, decide_eq_true_iff] at h
    exact ⟨e', hrun, h.2, by rw [values, h.1]⟩
  · cases h

/-- `[k[1], (k[1] + a)]` -/
def shiftedItems : List Expr :=
  [elementOf "k" 1, .binary .add (elementOf "k" 1) (.var "a" Span.none) Span.none]

theorem stores_value_before_shifted :
    ∃ e' m', sampleDeclaring.run (emitStmt (listAssignment "k" shiftedItems)) = (.ok (), e') ∧
      sampleMachine.Executes sampleDeclaring e' m' ∧
      m'.values e' "k" = some (.list [20, 22]) ∧ m'.values e' "a" = some (.int 2) := by
  have haccepts : sampleAccepts (listAssignment "k" shiftedItems) = true := by decide +kernel
  obtain ⟨e', hrun, hroom, hvalues⟩ := exists_run_of_sampleAccepts haccepts
  have hstored : Reference.stored (sampleMachine.values e') "k"
      (.list shiftedItems Span.none) none = .ok (.list [20, 22]) := by
    rw [hvalues]
    rfl
  have hsettled : Reference.Settled (sampleMachine.values e') "k"
      (.list shiftedItems Span.none) := by
    rw [hvalues]
    intro old values hold hitems k item hitem
    cases hold
    cases hitems
    match k with
    | 0 =>
      cases hitem
      rfl
    | 1 =>
      cases hitem
      rfl
  obtain ⟨value, m', hvalue, hexecutes, -, hafter, -⟩ := stores_value_before sampleMachine_carries
    (.assignment _) hrun hroom (by rw [hstored]; exact nofun) hsettled
  obtain rfl : .list [20, 22] = value := Except.ok.inj (hstored.symm.trans hvalue)
  refine ⟨e', m', hrun, hexecutes, ?_, ?_⟩
  · rw [hafter, hvalues]
    rfl
  · rw [hafter, hvalues]
    rfl

/-- `[k[1], k[0]]` -/
def swappedItems : List Expr := [elementOf "k" 1, elementOf "k" 0]

/-- Two elements are not swapped by `k = [k[1], k[0]]`: the second item reads what was stored for
    the first one. -/
theorem swap_stores_one_twice :
    ∃ e', sampleMachine.Carries sampleDeclaring ∧
      sampleDeclaring.run (emitStmt (listAssignment "k" swappedItems)) = (.ok (), e') ∧
      sampleMachine.HasRoom e' ∧
      Reference.stored (sampleMachine.values e') "k" (.list swappedItems Span.none) none =
        .ok (.list [20, 10]) ∧
      (∃ m', sampleMachine.Executes sampleDeclaring e' m') ∧
      ∀ m', sampleMachine.Executes sampleDeclaring e' m' →
        m'.values e' "k" = some (.list [20, 20]) := by
  have haccepts : sampleAccepts (listAssignment "k" swappedItems) = true := by decide +kernel
  obtain ⟨e', hrun, hroom, hvalues⟩ := exists_run_of_sampleAccepts haccepts
  have hstored : Reference.stored (sampleMachine.values e') "k"
      (.list swappedItems Span.none) none = .ok (.list [20, 10]) := by
    rw [hvalues]
    rfl
  have hassign : assign (sampleMachine.values e') "k" (.list swappedItems Span.none) =
      .ok ((sampleMachine.values e').set "k" (.list [20, 20])) := by
    rw [hvalues, ← Reference.Store.set_set _ _ (.list [20, 20])]
    rfl
  have hexec : exec sampleMachine.config.endOfInput 0 (listAssignment "k" swappedItems)
      ⟨sampleMachine.values e', sampleMachine.input, sampleMachine.output.toList⟩ =
        .done ⟨(sampleMachine.values e').set "k" (.list [20, 20]), sampleMachine.input,
          sampleMachine.output.toList⟩ := by
    rw [listAssignment, exec]
    simp only
    rw [hassign]
    rfl
  obtain ⟨m', hexecutes, -, hafter, -⟩ := sampleMachine_carries.executes rfl hrun hroom hexec
  refine ⟨e', sampleMachine_carries, hrun, hroom, hstored, ⟨m', hexecutes⟩, ?_⟩
  intro m'' hexecutes'
  rw [hexecutes'.unique hexecutes, hafter]
  exact (sampleMachine.values e').set_self "k" (.list [20, 20])

end Machine

end Goat
