import Goat.Proofs.Composition

/-!
# Emission does not depend on spans

The spans of a program get into the trace and into failures and nowhere else. So a program
without its spans emits the same code with the same variables, or is rejected for the same
reason.
-/

namespace Goat

/-- A step that is put together from primitive steps does the same whatever the trace is. -/
theorem Composed.run_untraced {α : Type} {m : Emit α} (h : Composed m) {e e' : Emitter}
    (he : e.untraced = e'.untraced) :
    (m.run e).1 = (m.run e').1 ∧ (m.run e).2.untraced = (m.run e').2.untraced := by
  have hfields := Emitter.untraced_eq_iff.1 he
  induction h generalizing e e' with
  | pure a => exact ⟨rfl, he⟩
  | @bind _ _ m k _ _ ihm ihk =>
    obtain ⟨hvalue, hstate⟩ := ihm he hfields
    have hrest := ihk (m.run e').1 hstate (Emitter.untraced_eq_iff.1 hstate)
    have hrun (e : Emitter) : (m >>= k).run e = (k (m.run e).1).run (m.run e).2 := rfl
    rw [hrun, hrun, hvalue]
    exact hrest
  | @build step _ =>
    refine ⟨rfl, Emitter.untraced_eq_iff.2 ⟨?_, hfields.2⟩⟩
    exact congrArg step hfields.1
  | trace line => exact ⟨rfl, he⟩
  | allocate length =>
    have hlayout : e.layout = e'.layout := congrArg Builder.layout hfields.1
    refine ⟨?_, Emitter.untraced_eq_iff.2 ⟨?_, hfields.2⟩⟩
    · exact congrArg (fun layout => (Layout.allocate layout length).1) hlayout
    · exact congrArg (fun b : Builder => { b with layout := (b.layout.allocate length).2 })
        hfields.1
  | release region =>
    refine ⟨rfl, Emitter.untraced_eq_iff.2 ⟨?_, hfields.2⟩⟩
    exact congrArg (fun b : Builder => { b with layout := (b.layout.release region).2 }) hfields.1

/-- Steps that are put together from the same primitive steps do the same, up to the trace and to
    where they fail. -/
theorem Alike.run_eq {α : Type} {m m' : TryEmit α} (h : Alike m m') {e e' : Emitter}
    (he : e.untraced = e'.untraced) :
    eraseSpans id (e.run m).1 = eraseSpans id (e'.run m').1 ∧
      (e.run m).2.untraced = (e'.run m').2.untraced := by
  induction h generalizing e e' with
  | pure a => exact ⟨rfl, he⟩
  | lift hm =>
    obtain ⟨hvalue, hstate⟩ := hm.run_untraced he
    exact ⟨congrArg Except.ok hvalue, hstate⟩
  | trace line line' => exact ⟨rfl, he⟩
  | throw hsame => exact ⟨congrArg Except.error hsame, he⟩
  | declare name v =>
    obtain ⟨hbuilder, hdeclared⟩ := Emitter.untraced_eq_iff.1 he
    refine ⟨rfl, Emitter.untraced_eq_iff.2 ⟨hbuilder, ?_⟩⟩
    exact congrArg (· ++ [(name, v)]) hdeclared
  | get_bind _ ih => exact ih e e' he he
  | @bind _ _ m m' _ _ _ _ ihm ihk =>
    obtain ⟨hvalue, hstate⟩ := ihm he
    rcases hrun : e.run m with ⟨f | a, e₁⟩ <;> rcases hrun' : e'.run m' with ⟨f' | a', e₁'⟩ <;>
      rw [hrun, hrun'] at hvalue hstate
    · rw [Emitter.run_bind_of_error hrun, Emitter.run_bind_of_error hrun']
      exact ⟨congrArg Except.error (Except.error.inj hvalue), hstate⟩
    · cases hvalue
    · cases hvalue
    · cases hvalue
      rw [Emitter.run_bind hrun, Emitter.run_bind hrun']
      exact ihk a hstate

/-- Programs that differ in their spans only are emitted alike. -/
theorem Emitter.run_emitProgram_eq {p p' : Program} (h : p.withoutSpans = p'.withoutSpans)
    (e : Emitter) :
    eraseSpans id (e.run (emitProgram p)).1 = eraseSpans id (e.run (emitProgram p')).1 ∧
      (e.run (emitProgram p)).2.untraced = (e.run (emitProgram p')).2.untraced := by
  have hrun (p : Program) := (alike_emitStmts p.statements).run_eq (rfl : e.untraced = e.untraced)
  have hstatements : Stmt.allWithoutSpans p.statements = Stmt.allWithoutSpans p'.statements :=
    congrArg Program.statements h
  have hleft := hrun p
  rw [hstatements] at hleft
  exact ⟨hleft.1.trans (hrun p').1.symm, hleft.2.trans (hrun p').2.symm⟩

/-- What a source text compiles to depends on the values of its tokens only, but for the place of
    a failure. -/
theorem compile_eq_of_values {source source' : Text}
    (h : (Token.ofSource source).map Token.value = (Token.ofSource source').map Token.value) :
    eraseSpans id (compile source) = eraseSpans id (compile source') := by
  have hread : eraseSpans Program.withoutSpans (Program.ofSource source) =
      eraseSpans Program.withoutSpans (Program.ofSource source') := Program.ofTokens_eq_of_values h
  rw [compile, compileTraced, compile, compileTraced]
  rcases hp : Program.ofSource source with f | p <;>
    rcases hp' : Program.ofSource source' with f' | p' <;> rw [hp, hp'] at hread
  · exact congrArg Except.error (Except.error.inj hread)
  · cases hread
  · cases hread
  · obtain ⟨hvalue, hstate⟩ := Emitter.run_emitProgram_eq (Except.ok.inj hread) {}
    rcases hrun : Emitter.run {} (emitProgram p) with ⟨f | _, e⟩ <;>
      rcases hrun' : Emitter.run {} (emitProgram p') with ⟨f' | _, e'⟩ <;>
      rw [hrun, hrun'] at hvalue hstate
    · simp only [hrun, hrun']
      exact congrArg Except.error (Except.error.inj hvalue)
    · cases hvalue
    · cases hvalue
    · have hbuilder : e.toBuilder = e'.toBuilder := (Emitter.untraced_eq_iff.1 hstate).1
      have hdeclared : e.declared = e'.declared := (Emitter.untraced_eq_iff.1 hstate).2
      simp only [hrun, hrun', hbuilder, Emitter.variableInfos, hdeclared]

end Goat
