import Goat.Proofs.Control
import Goat.Proofs.Declarations
import Goat.Proofs.Grammar
import Mathlib.Data.List.Perm.Basic

/-!
# Which cells are in use

After every statement of a program, the cells in use are those of the variables declared up
to there: what statements take for themselves is given back, and no cell is given to two
variables.
-/

namespace Goat

/-- The number of cells of a variable: a list has four scratch cells. -/
def Kind.cellCount : Kind → Int
  | int => 1
  | list length => length + 4

/-- The cells in use are those of the declarations: each one has a region of its own. -/
structure Emitter.Owns (e : Emitter) (ds : List Declaration) : Prop where
  live : e.layout.live.Perm (Declared.regions e.declared)
  disjoint : (Declared.regions e.declared).Pairwise fun r s =>
    ∀ x, ¬(r.contains x = true ∧ s.contains x = true)
  names : (e.declared.map Prod.fst).Nodup
  declared : ∀ name kind, (∃ v, (name, v) ∈ e.declared ∧ v.kind = kind) ↔
    ∃ d ∈ ds, d.name = name ∧ d.allocatedKind? = some kind
  cellCount : ∀ name v, (name, v) ∈ e.declared → v.region.length = v.kind.cellCount

theorem Arranged.disjoint {D : Declared} {live : List Region} (h : Arranged D live) :
    D.regions.Pairwise fun r s => ∀ x, ¬(r.contains x = true ∧ s.contains x = true) := by
  have hlive {r : Region} (hr : r ∈ D.regions) : r ∈ live := by
    obtain ⟨⟨name, v⟩, hv, rfl⟩ := List.mem_map.1 hr
    exact (h.placed name v hv).mem
  refine h.regions.imp_of_mem fun {r s} hr hs hne x hx => hne ?_
  simp only [Region.contains, Bool.and_eq_true, decide_eq_true_eq] at hx
  exact h.packed.eq_of_owned (hlive hr) (hlive hs) hx.1 hx.2

theorem Variable.Placed.length_region {v : Variable} {live : List Region} (h : v.Placed live) :
    v.region.length = v.kind.cellCount := by
  cases v with
  | int c =>
    show c.address - c.address + 1 = 1
    omega
  | list l =>
    have hstop := CellList.Placed.stop h
    show l.region.stop - l.region.start + 1 = (l.length : Int) + 4
    omega

/-- Statements that are accepted from the start on leave the cells of their declarations
    in use. -/
theorem owns_of_emitStmts {body : List Stmt} {e : Emitter}
    (h : Emitter.run {} (emitStmts body) = (.ok (), e)) : e.Owns (Stmt.allDeclarations body) := by
  obtain ⟨hscope, -, hgrown⟩ := (accepts_stmts body Arranged.nil).built h
  have harranged := hgrown.arranged
  have hdeclares := Stmt.declares_all body hscope
  rw [List.nil_append] at harranged
  refine ⟨?_, harranged.disjoint, harranged.names, fun name kind => ⟨?_, ?_⟩,
    fun name v hv => (harranged.placed name v hv).length_region⟩
  · rw [List.perm_ext_iff_of_nodup harranged.packed.nodup harranged.regions]
    simpa using hgrown.mem_iff
  · rintro ⟨v, hv, rfl⟩
    have hlookup := Declared.scope_of_find (harranged.find_of_mem hv)
    rcases hdeclares.mem_of_lookup hlookup with hempty | hd
    · cases hempty
    · exact hd
  · rintro ⟨d, hd, rfl, hkind⟩
    obtain ⟨kind', hkind', hlookup⟩ := hdeclares.lookup_of_mem hd
    obtain rfl := Option.some.inj (hkind'.symm.trans hkind)
    obtain ⟨v, hv, hkind⟩ := Option.map_eq_some_iff.1 hlookup
    exact ⟨v, Declared.mem_of_find hv, hkind⟩

/-- A step that succeeds succeeds part by part. -/
theorem Emitter.exists_of_run_bind {α β : Type} {m : TryEmit α} {k : α → TryEmit β}
    {e e' : Emitter} {b : β} (h : e.run (m >>= k) = (.ok b, e')) :
    ∃ a e₁, e.run m = (.ok a, e₁) ∧ e₁.run (k a) = (.ok b, e') := by
  rcases hm : e.run m with ⟨_ | a, e₁⟩
  · rename_i f
    have hrejects : Rejects e m := ⟨f, e₁, hm⟩
    obtain ⟨f', e₂, hbind⟩ := hrejects.bind k
    cases h.symm.trans hbind
  · exact ⟨a, e₁, rfl, (Emitter.run_bind hm).symm.trans h⟩

/-- Statements are emitted one after the other. -/
theorem run_emitStmts_append {front rest : List Stmt} {e e' : Emitter}
    (h : e.run (emitStmts (front ++ rest)) = (.ok (), e')) :
    ∃ e₁, e.run (emitStmts front) = (.ok (), e₁) ∧ e₁.run (emitStmts rest) = (.ok (), e') := by
  induction front generalizing e with
  | nil => exact ⟨e, by rw [emitStmts]; rfl, h⟩
  | cons s front ih =>
    rw [List.cons_append, emitStmts] at h
    obtain ⟨_, e₁, hs, h⟩ := Emitter.exists_of_run_bind h
    obtain ⟨e₂, hfront, hrest⟩ := ih h
    refine ⟨e₂, ?_, hrest⟩
    rw [emitStmts, Emitter.run_bind hs]
    exact hfront

/-- After the emission of a program, and after each of its statements, the cells in use are
    those of the variables declared up to there. -/
theorem Program.owns_after_statements {p : Program} {e : Emitter}
    (h : Emitter.run {} (emitProgram p) = (.ok (), e)) :
    e.Owns (Stmt.allDeclarations p.statements) ∧
      ∀ front rest, p.statements = front ++ rest →
        ∃ e₁, Emitter.run {} (emitStmts front) = (.ok (), e₁) ∧
          e₁.run (emitStmts rest) = (.ok (), e) ∧ e₁.Owns (Stmt.allDeclarations front) := by
  refine ⟨owns_of_emitStmts h, fun front rest hp => ?_⟩
  rw [emitProgram, hp] at h
  obtain ⟨e₁, hfront, hrest⟩ := run_emitStmts_append h
  exact ⟨e₁, hfront, hrest, owns_of_emitStmts hfront⟩

/-- A list that is filled and indexed, with a variable declared in a block. -/
def Program.nestedSource : Text :=
  "IntList<2> k = [1, (2 * 3)] if(k[1]) \x7b Int a = k[k[0]] print(a) \x7d Int b = a"

theorem Program.owns_after_statements_nested :
    ∃ p e, Program.ofSource Program.nestedSource = .ok p ∧
      Emitter.run {} (emitProgram p) = (.ok (), e) ∧
      e.Owns (Stmt.allDeclarations p.statements) ∧
      ∀ front rest, p.statements = front ++ rest →
        ∃ e₁, Emitter.run {} (emitStmts front) = (.ok (), e₁) ∧
          e₁.run (emitStmts rest) = (.ok (), e) ∧ e₁.Owns (Stmt.allDeclarations front) := by
  have hread : (Program.ofSource Program.nestedSource).toOption.any
      (fun p => (Emitter.run {} (emitProgram p)).1.isOk) = true := by decide +kernel
  obtain ⟨p, hp, hok⟩ := exists_ok_of_any hread
  rcases hrun : Emitter.run {} (emitProgram p) with ⟨_ | _, e⟩
  · rw [hrun] at hok
    cases hok
  · exact ⟨p, e, hp, hrun, Program.owns_after_statements hrun⟩

end Goat
