import Goat.Proofs.Operations
import Goat.Proofs.Runs

/-!
# Machines that carry variables

What a program has declared so far stands on the tape of the machine that executes its code. A new
machine carries the variables of an empty program. One that carries the variables of an emission
executes the code of the next statement as the statement is meant, and carries the variables after
it, those that it declares included.
-/

namespace Goat

open Plain (Contents)
open Reference (Store State exec)

/-- What the variables on a tape hold. -/
def Declared.store (D : Declared) (s : Contents) : Store := fun name =>
  (D.find? name).map (Variable.value s)

theorem Declared.store_fills (D : Declared) (s : Contents) : (D.store s).Fills D.scope := by
  intro name kind hkind
  obtain ⟨v, hv, rfl⟩ := Option.map_eq_some_iff.1 hkind
  rw [Declared.store, hv]
  cases v with
  | int c => rfl
  | list l => simp [Variable.value, Reference.Value.kind, Variable.kind]

/-- What the variables hold at first. -/
def Declared.zeros (D : Declared) : Store := fun name => (D.find? name).map (·.kind.zero)

theorem Arranged.zeroed {D : Declared} {live : List Region} (hD : Arranged D live) :
    Zeroed D.zeros D := by
  intro name v hv
  rw [Declared.zeros, hD.find_of_mem hv, Option.map_some]

/-- A tape that agrees with a state, all of whose variables are declared, has its store. -/
theorem Agrees.store_eq {D : Declared} {live : List Region} {ρ : State} {s : Contents}
    (h : Agrees D.zeros D live ρ s) : D.store s = ρ.store := by
  funext name
  rw [Declared.store]
  cases hfind : D.find? name with
  | none =>
    rw [h.rest name hfind, Declared.zeros, hfind]
    rfl
  | some v => exact (h.holds.holds name v (Declared.mem_of_find hfind)).symm

namespace Machine

/-- There is only one way to execute what was written. -/
theorem Executes.unique {m m₁ m₂ : Machine} {e e' : Emitter} (h₁ : m.Executes e e' m₁)
    (h₂ : m.Executes e e' m₂) : m₁ = m₂ := by
  obtain ⟨piece₁, code₁, fuel₁, hpiece₁, hload₁, hrun₁⟩ := h₁
  obtain ⟨piece₂, code₂, fuel₂, hpiece₂, hload₂, hrun₂⟩ := h₂
  obtain rfl : piece₁ = piece₂ := List.append_cancel_left (hpiece₁.symm.trans hpiece₂)
  obtain rfl : code₁ = code₂ := Except.ok.inj (hload₁.symm.trans hload₂)
  exact run_eq_of_finished hrun₁ hrun₂

/-- What the variables of an emission hold on the tape of a machine. -/
def values (m : Machine) (e : Emitter) : Store := Declared.store e.declared m.contents

/-- The machine awaits what is emitted next, and has the variables that are declared so far on
    its tape. -/
structure Carries (m : Machine) (e : Emitter) : Prop where
  awaits : m.Awaits e
  arranged : Arranged e.declared e.layout.live
  quiet : ∀ name v, (name, v) ∈ e.declared → v.Quiet m.contents

variable {m m' : Machine} {e e' : Emitter} {new : Declared} {s : Stmt}

/-- A new machine carries the variables of a program of which nothing was emitted. -/
theorem carries_start (size : Int) (mode : EndOfInput) (input : List UInt8) :
    (Machine.start ⟨limitOfInt size, mode, none⟩ input).Carries {} where
  awaits := by
    have hmatches := matches_start size mode [] input
    refine ⟨Layout.sound_empty, ⟨rfl, hmatches.inside, hmatches.size_le, rfl⟩, fun x _ => ?_⟩
    by_cases hx : x < 0
    · exact cell_of_neg _ hx
    · obtain ⟨i, rfl⟩ := Int.eq_ofNat_of_zero_le (by omega : 0 ≤ x)
      rw [cell_natCast]
      exact (hmatches.cells i).symm
  arranged := .nil
  quiet := by simp

/-- Variables that are declared next are zero before. -/
theorem Carries.agrees (hm : m.Carries e) (hnew : e'.declared = e.declared ++ new)
    (hgrown : Grown e.declared e.layout.live new e'.layout.live) :
    Agrees (Declared.zeros e'.declared) e.declared e.layout.live
      ⟨m.values e', m.input, m.output.toList⟩ m.contents where
  ready := hm.awaits.ready
  holds := by
    refine ⟨fun name v hv => ?_, hm.quiet⟩
    show (Declared.find? e'.declared name).map _ = _
    rw [hnew, Declared.find_append, hm.arranged.find_of_mem hv, Option.some_or, Option.map_some]
  input := rfl
  output := rfl
  rest name hname := by
    show (Declared.find? e'.declared name).map _ = (Declared.find? e'.declared name).map _
    cases hfind : Declared.find? e'.declared name with
    | none => rfl
    | some v =>
      rw [hnew] at hfind
      have hplaced := hgrown.arranged.placed name v (Declared.mem_of_find hfind)
      rw [Declared.find_append, hname, Option.none_or] at hfind
      refine congrArg some (Variable.value_zero hplaced fun x hx hx' => ?_)
      exact hm.awaits.free x
        (hgrown.free x (Declared.owned_of_mem (Declared.mem_of_find hfind) hx hx'))

/-- A tape that agrees with a state is that of a machine that carries the variables. -/
theorem Carries.of_agrees {ρ : State} (hsound : e.layout.Sound)
    (hD : Arranged e.declared e.layout.live) (hm : m.InStep e)
    (h : Agrees (Declared.zeros e.declared) e.declared e.layout.live ρ m.contents) :
    m.Carries e where
  awaits := ⟨hsound, hm, h.ready.clean⟩
  arranged := hD
  quiet := h.holds.quiet

/-- A statement that is accepted is well-formed. -/
theorem Carries.scope_eq (hm : m.Carries e) (hrun : e.run (emitStmt s) = (.ok (), e')) :
    s.scope? Declaration.allocatedKind? (Declared.scope e.declared) =
      some (Declared.scope e'.declared) :=
  ((accepts_stmt s hm.arranged).grown hm.awaits.sound hrun).1

/-- A machine executes the code of a statement as the statement is meant. -/
theorem Carries.executes (hm : m.Carries e) (hloop : s.loopDeclarations = [])
    (hrun : e.run (emitStmt s) = (.ok (), e')) (hroom : m.HasRoom e') {fuel : Nat} {ρ : State}
    (hexec : exec m.config.endOfInput fuel s ⟨m.values e', m.input, m.output.toList⟩ = .done ρ) :
    ∃ m', m.Executes e e' m' ∧ m'.Carries e' ∧
      m'.values e' = ρ.store ∧ m'.input = ρ.input ∧ m'.output.toList = ρ.output := by
  have hfollows : Follows m.settings (Declared.zeros e'.declared) e.declared e.layout.live
      (emitStmt s) (Declared.scope e'.declared) fun fuel => exec m.config.endOfInput fuel s :=
    follows_stmt s hm.arranged hloop (hm.scope_eq hrun)
  obtain ⟨new, live', ⟨hbuilds, hgrown, hruns⟩, -⟩ := hfollows
  obtain ⟨e₁, hrun₁, hgrows, rfl, hnew⟩ := hbuilds e hm.awaits.sound rfl rfl
  obtain rfl : e₁ = e' := congrArg Prod.snd (hrun₁.symm.trans hrun)
  rw [← hnew] at hruns
  have hD : Arranged e₁.declared e₁.layout.live := by
    rw [hnew]
    exact hgrown.arranged
  have hran := hruns hD.zeroed fuel _ _ (hm.agrees hnew hgrown)
  rw [hexec] at hran
  obtain ⟨s', htakes, hagrees, -⟩ := hran
  obtain ⟨e₂, hrun₂, -, htransforms⟩ := htakes e hm.awaits.sound rfl rfl
  obtain rfl : e₂ = e₁ := congrArg Prod.snd (hrun₂.symm.trans hrun)
  obtain ⟨m', hexecutes, hinStep, rfl⟩ := hm.awaits.inStep.executes_written hgrows htransforms
    (fun x hx => hagrees.ready.cells_of_neg hx) hroom
  have hcarries : m'.Carries e₂ := .of_agrees hgrows.sound hD hinStep hagrees
  exact ⟨m', hexecutes, hcarries, hagrees.store_eq, hagrees.input, hagrees.output⟩

/-- The list and the cells of the sample emission as variables. -/
def sampleVariables : Declared :=
  [("k", .list CellList.sampleList), ("a", .int ⟨"a", 6, true⟩), ("b", .int ⟨"b", 7, true⟩)]

/-- The sample emission with its variables. -/
def sampleDeclaring : Emitter := { sampleEmission with declared := sampleVariables }

theorem forall_sampleVariables {p : Variable → Prop} (hk : p (.list CellList.sampleList))
    (ha : p (.int ⟨"a", 6, true⟩)) (hb : p (.int ⟨"b", 7, true⟩)) (name : Text) (v : Variable)
    (hv : (name, v) ∈ sampleVariables) : p v := by
  simp only [sampleVariables, List.mem_cons, Prod.mk.injEq, List.not_mem_nil, or_false] at hv
  rcases hv with ⟨-, rfl⟩ | ⟨-, rfl⟩ | ⟨-, rfl⟩
  · exact hk
  · exact ha
  · exact hb

theorem sampleMachine_carries : sampleMachine.Carries sampleDeclaring where
  awaits := ⟨sampleEmission_sound, ⟨rfl, by decide, by decide, rfl⟩, sampleMachine_free⟩
  arranged := by
    have hlist : CellList.sampleList.Placed sampleEmission.layout.live :=
      ⟨by decide, by decide, by decide, by decide⟩
    have ha : (⟨6, 6⟩ : Region) ∈ sampleEmission.layout.live := by decide
    have hb : (⟨7, 7⟩ : Region) ∈ sampleEmission.layout.live := by decide
    exact ⟨sampleEmission_sound.packed, forall_sampleVariables hlist ha hb, by decide, by decide⟩
  quiet := by
    have hlist : CellList.sampleList.Quiet sampleMachine.contents := by
      show ∀ k < 4, _
      decide
    exact forall_sampleVariables hlist trivial trivial

end Machine

end Goat
