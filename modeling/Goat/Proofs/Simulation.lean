import Goat.Proofs.Declarations
import Goat.Proofs.Statements

/-!
# Statements follow the semantics

The code of a well-formed statement does what the semantics says, for every state that the
tape agrees with, as long as no loop in it declares variables.
-/

namespace Goat

open Plain (Settings Contents)
open Reference (Store State Outcome eval assign exec execAll execBlock execBlocks call)

/-- The code of the step follows a run, and the step declares variables that lead to the
    scope. -/
def Follows (settings : Settings) (initial : Store) (D : Declared) (live : List Region)
    (m : TryEmit Unit) (Γ : Scope) (run : Nat → State → Outcome) : Prop :=
  ∃ new live', Realizes settings initial D live m new live' run ∧ Declared.scope (D ++ new) = Γ

section Statements

variable {settings : Settings} {initial : Store} {D : Declared} {live : List Region}
  {m k : TryEmit Unit} {Γ Γ' : Scope} {run run' : Nat → State → Outcome}

theorem Realizes.follows {live' : List Region}
    (h : Realizes settings initial D live m [] live' run) :
    Follows settings initial D live m D.scope run :=
  ⟨[], live', h, by rw [List.append_nil]⟩

theorem Performs.follows {run : State → Outcome} (h : Performs settings initial D live m run)
    (hD : Arranged D live) : Follows settings initial D live m D.scope fun _ => run :=
  (h.realizes hD).follows

theorem Follows.andThen (h : Follows settings initial D live m Γ run)
    (hk : ∀ {D' live'}, Arranged D' live' → Declared.scope D' = Γ →
      Follows settings initial D' live' k Γ' run') :
    Follows settings initial D live (do m; k) Γ' fun fuel ρ =>
      (run fuel ρ).andThen (run' fuel) := by
  obtain ⟨new, live₁, hm, hscope⟩ := h
  obtain ⟨new', live₂, hk, hscope'⟩ := hk hm.grown.arranged hscope
  exact ⟨new ++ new', live₂, hm.andThen hk, by rw [← List.append_assoc, hscope']⟩

/-- A step in front may look something up. -/
theorem Realizes.after {α : Type} {l : TryEmit α} {a : α} {k : α → TryEmit Unit} {new : Declared}
    {live' : List Region} (hl : ∀ s, TryTakes settings D live l a live s s)
    (h : Realizes settings initial D live (k a) new live' run) :
    Realizes settings initial D live (l >>= k) new live' run where
  builds := TryLeaves.andBuilds (hl blank).leaves h.builds
  grown := h.grown
  runs hzero fuel ρ s hs := (hl s).andRuns (h.runs hzero fuel ρ s hs)

theorem follows_declaration (hD : Arranged D live) {d : Declaration}
    (h : (Stmt.declaration d).scope? Declaration.allocatedKind? D.scope = some Γ) :
    Follows settings initial D live (emitDeclaration d) Γ
      fun _ ρ => ρ.update (assign ρ.store d.name d.value) := by
  rw [Stmt.scope?] at h
  split at h
  · rename_i kind hkind
    split at h
    · rename_i hcond
      cases h
      obtain ⟨hid, hname, hfits⟩ := hcond
      have hfind := Declared.scope_eq_none.1 hname
      obtain ⟨v, live', rfl, hgrown, hrun⟩ := exists_declared settings hD hid hfind hkind
      have hscope := Declared.scope_declare hfind v
      have hv := hgrown.arranged.find_of_mem (List.mem_append_right D (List.mem_singleton_self _))
      rw [← hscope] at hfits ⊢
      have hperforms : Performs settings initial _ live' (emitExpr v d.value) _ :=
        performs_assign hgrown.arranged hv hfits
      refine ⟨[(d.name, v)], live', ⟨?_, hgrown, ?_⟩, rfl⟩
      · intro e he hlive hdeclared
        obtain ⟨e₁, hrun₁, hstep₁, -⟩ := hrun e he hlive hdeclared
        obtain ⟨e₂, hrun₂, hstep₂⟩ :=
          hperforms.leaves e₁ hstep₁.grows.sound hstep₁.live hstep₁.declared
        exact ⟨e₂, hrun₁.trans hrun₂, hstep₁.grows.trans hstep₂.grows, hstep₂.live,
          hstep₂.declared.trans hstep₁.declared⟩
      · intro hzero fuel ρ s hs
        rcases hperforms.takes ρ s (hs.grow hgrown hzero) with hstuck | ⟨ρ', s', hdone, ht, hs', hk⟩
        · rw [hstuck]
          rfl
        · rw [hdone]
          refine ⟨s', fun e he hlive hdeclared => ?_, hs', (Keeps.refl D live s).trans hgrown hk⟩
          obtain ⟨e₁, hrun₁, hstep₁, ht₁⟩ := hrun e he hlive hdeclared
          obtain ⟨e₂, hrun₂, hstep₂, ht₂⟩ := ht e₁ hstep₁.grows.sound hstep₁.live hstep₁.declared
          exact ⟨e₂, hrun₁.trans hrun₂, ⟨hstep₁.grows.trans hstep₂.grows, hstep₂.live,
            hstep₂.declared.trans hstep₁.declared⟩,
            Transforms.trans hstep₁.grows hstep₂.grows (ht₁ s) ht₂⟩
    · cases h
  · cases h

theorem follows_element (hD : Arranged D live) {name : Text} {nameSpan span : Span} {n : Nat}
    {index value : Expr} (hlist : D.scope name = some (.list n))
    (hindex : index.fitsIndex D.scope n = true) (hvalue : value.fits D.scope .int = true) :
    Follows settings initial D live (emitAssignment ⟨name, nameSpan, some index, value, span⟩)
      D.scope fun _ => storeElement name index value := by
  obtain ⟨l, hl, rfl⟩ := Declared.exists_list hlist
  rcases index.number_or_computed with ⟨k, kspan, rfl⟩ | hcomputed
  · have hk : k < l.length := by simpa [Expr.fitsIndex] using hindex
    exact (performs_element_constant nameSpan kspan span hD hl hk hvalue).follows hD
  · rw [Expr.fitsIndex_computed hcomputed] at hindex
    exact (performs_element_computed nameSpan span hD hl hcomputed hindex hvalue).follows hD

theorem follows_assignment (hD : Arranged D live) {a : Assignment}
    (h : (Stmt.assignment a).scope? Declaration.allocatedKind? D.scope = some Γ) :
    Follows settings initial D live (emitAssignment a) Γ
      fun fuel => exec settings.endOfInput fuel (.assignment a) := by
  obtain ⟨name, nameSpan, index, value, span⟩ := a
  rw [Stmt.scope?] at h
  split at h
  · rename_i kind hkind hindex
    split at h
    · rename_i hfits
      cases h
      cases hindex
      obtain ⟨v, hv, rfl⟩ := Option.map_eq_some_iff.1 hkind
      refine ⟨[], live, .after (fun s => tryTakes_lookup hv nameSpan s) ?_, by rw [List.append_nil]⟩
      exact (performs_assign hD hv hfits).realizes hD
    · cases h
  · rename_i n index hlist hindex
    split at h
    · rename_i hfits
      cases h
      cases hindex
      exact follows_element hD hlist hfits.1 hfits.2
    · cases h
  · cases h

end Statements

section Calls

variable {settings : Settings} {initial : Store} {D : Declared} {live : List Region}
  {name : Text} {condition : Expr} {body otherwise : TryEmit Unit} {Γ Γ' : Scope}
  {run run' : Nat → State → Outcome}

theorem follows_if (hD : Arranged D live) (hfits : condition.fits D.scope .int = true)
    (hbody : ∀ {live'}, Arranged D live' → Follows settings initial D live' body Γ run) :
    Follows settings initial D live (emitIf condition body) Γ
      fun fuel ρ => .withValue (eval ρ.store condition) fun b =>
        if b = 0 then .done ρ else run fuel ρ := by
  obtain ⟨c, live₁, hc⟩ := exists_evaluated settings hD hfits
  obtain ⟨new, live₂, h, hscope⟩ := hbody (hD.taken hc.taken)
  exact ⟨new, _, realizes_if hD hc hfits h, hscope⟩

theorem follows_ifElse (hD : Arranged D live) (hfits : condition.fits D.scope .int = true)
    (hbody : ∀ {live'}, Arranged D live' → Follows settings initial D live' body Γ run)
    (hother : ∀ {D' live'}, Arranged D' live' → Declared.scope D' = Γ →
      Follows settings initial D' live' otherwise Γ' run') :
    Follows settings initial D live (emitIfElse condition body otherwise) Γ'
      fun fuel ρ => .withValue (eval ρ.store condition) fun b =>
        if b = 0 then run' fuel ρ else run fuel ρ := by
  obtain ⟨c, live₁, hc⟩ := exists_evaluated settings hD hfits
  have hD₁ := hD.taken hc.taken
  obtain ⟨other, live₂, htaken, hnew⟩ := Cell.exists_taken_temporary settings hD₁.packed
  obtain ⟨new, live₃, h, hscope⟩ := hbody (hD₁.taken htaken)
  obtain ⟨new', live₄, h', hscope'⟩ := hother h.grown.arranged hscope
  exact ⟨new ++ new', _, realizes_ifElse hD hc hfits htaken hnew h h',
    by rw [← List.append_assoc, hscope']⟩

/-- What leaves the scope as it is declares nothing. -/
theorem Grown.eq_nil {new : Declared} {live' : List Region} (h : Grown D live new live')
    (hscope : Declared.scope (D ++ new) = D.scope) : new = [] := by
  cases new with
  | nil => rfl
  | cons entry rest =>
    obtain ⟨name, v⟩ := entry
    have hmem : (name, v) ∈ D ++ (name, v) :: rest := by simp
    have hname : Declared.scope D name = some v.kind := by
      rw [← hscope]
      exact Declared.scope_of_find (h.arranged.find_of_mem hmem)
    obtain ⟨w, hw, -⟩ := Option.map_eq_some_iff.1 hname
    -- the name would be declared twice
    have hnames := h.arranged.names
    rw [List.map_append, List.nodup_append] at hnames
    exact absurd rfl (hnames.2.2 name (List.mem_map_of_mem (Declared.mem_of_find hw)) name
      (by simp))

/-- What leaves the scope as it is can be gone through again. -/
theorem Follows.realizes (h : Follows settings initial D live body D.scope run)
    (hD : Arranged D live) : Realizes settings initial D live body [] live run := by
  obtain ⟨new, live', h, hscope⟩ := h
  obtain rfl := h.grown.eq_nil hscope
  have hlive := h.grown.eq_of_nil hD.packed
  rwa [hlive] at h

theorem follows_while (hD : Arranged D live) (hfits : condition.fits D.scope .int = true)
    (hbody : ∀ {live'}, Arranged D live' → Follows settings initial D live' body D.scope run) :
    Follows settings initial D live (emitWhile condition body) D.scope
      fun fuel => Reference.repeatWhile (fun σ => eval σ condition) (run fuel) fuel := by
  obtain ⟨c, live₁, hc⟩ := exists_evaluated settings hD hfits
  have hD₁ := hD.taken hc.taken
  have hrepeats := ((hbody hD₁).realizes hD₁).repeats hD₁.packed
  exact (realizes_while hD hc hfits hrepeats).follows

theorem follows_for (hD : Arranged D live) {element list : Text} {el : Cell} {cells : CellList}
    (hel : D.find? element = some (.int el)) (hcells : D.find? list = some (.list cells))
    (hbody : ∀ {live'}, Arranged D live' → Follows settings initial D live' body D.scope run) :
    Follows settings initial D live (emitForEach el cells body) D.scope
      fun fuel ρ => .withValue (ρ.store.bytes list) fun bytes =>
        Reference.forEach element list (run fuel) (List.range bytes.length) ρ := by
  obtain ⟨index, limit, more, live₁, live₂, live₃, h⟩ := exists_counter settings hD.packed
  have hD₃ := h.arranged hD
  have hbody₃ := (hbody hD₃).realizes hD₃
  have hprepare : Prepares settings D live₃ (pure ()) [] live₃ :=
    fun s => TryTakes.transforms (.pure () s)
  have hrealizes := realizes_forEach h hD hel hcells hprepare (.refl hD₃)
    (by rwa [List.append_nil])
  simp only [pure_bind] at hrealizes
  rw [emitForEach_eq]
  exact hrealizes.follows

theorem follows_for_call (hD : Arranged D live) {element list : Text} {n : Nat}
    (hel : D.scope element = some .int) (hlist : D.scope list = some (.list n)) (espan lspan : Span)
    (hbody : ∀ {live'}, Arranged D live' → Follows settings initial D live' body D.scope run) :
    Follows settings initial D live (do
        let (el, cells) ← loopVariables name (.var element espan) (.var list lspan)
        emitForEach el cells body) D.scope
      fun fuel ρ => .withValue (ρ.store.bytes list) fun bytes =>
        Reference.forEach element list (run fuel) (List.range bytes.length) ρ := by
  obtain ⟨el, hel⟩ := Declared.exists_int hel
  obtain ⟨cells, hcells, -⟩ := Declared.exists_list hlist
  obtain ⟨new, live', h, hscope⟩ := follows_for hD hel hcells hbody
  refine ⟨new, live', .after (a := (el, cells)) (fun s => ?_) h, hscope⟩
  exact .bind (tryTakes_lookup hel espan s) (.bind (tryTakes_lookup hcells lspan s) (.pure _ s))

/-- The code of a block follows its run. -/
structure BlockFollows (settings : Settings) (initial : Store) (code : BlockCode) (block : Block) :
    Prop where
  label : code.label = (block.scope Declaration.allocatedKind?).label
  follows : ∀ {D live Γ}, Arranged D live →
    (block.scope Declaration.allocatedKind?).scope? (Declared.scope D) = some Γ →
    Follows settings initial D live code.body Γ
      fun fuel => execBlock settings.endOfInput fuel block

theorem Block.scopes_eq_map (kindOf? : Declaration → Option Kind) (blocks : List Block) :
    Block.scopes kindOf? blocks = blocks.map (Block.scope kindOf?) := by
  induction blocks with
  | nil => rfl
  | cons block rest ih => rw [Block.scopes, ih, List.map_cons]

/-- The code of a call follows its run if the code of its blocks does. -/
theorem follows_builtin (hD : Arranged D live) {b : Builtin} {arguments : List Expr}
    {codes : List BlockCode} {blocks : List Block}
    (hblocks : List.Forall₂ (BlockFollows settings initial) codes blocks)
    (hloop : b.isLoop = true → Block.allDeclarations blocks = [])
    (h : callScope? D.scope b arguments (Block.scopes Declaration.allocatedKind? blocks) = some Γ) :
    Follows settings initial D live (emitBuiltin name b arguments codes) Γ
      fun fuel => call settings.endOfInput fuel b arguments
        (execBlocks settings.endOfInput fuel blocks) := by
  -- the block of a loop leaves the scope as it is
  have hsame (hb : b.isLoop = true) : Γ = D.scope := by
    have hdeclares := declares_of_foldlM (Block.declares_scopes blocks) (foldlM_of_callScope h)
    rw [hloop hb] at hdeclares
    cases hdeclares
    rfl
  rw [Block.scopes_eq_map] at h
  unfold callScope? at h
  split at h
  case h_1 hscopes =>
    obtain ⟨hfits, ⟨⟩⟩ := Option.ite_none_right_eq_some.1 h
    obtain rfl := List.map_eq_nil_iff.1 hscopes
    cases hblocks
    exact (performs_output (writes_print settings) hD hfits).follows hD
  case h_2 hscopes =>
    obtain ⟨hfits, ⟨⟩⟩ := Option.ite_none_right_eq_some.1 h
    obtain rfl := List.map_eq_nil_iff.1 hscopes
    cases hblocks
    exact (performs_output (writes_printDecimal settings) hD hfits).follows hD
  case h_3 hscopes =>
    obtain ⟨hfits, ⟨⟩⟩ := Option.ite_none_right_eq_some.1 h
    obtain rfl := List.map_eq_nil_iff.1 hscopes
    cases hblocks
    exact (performs_input name (reads_input settings) hD hfits).follows hD
  case h_4 hscopes =>
    obtain ⟨hfits, ⟨⟩⟩ := Option.ite_none_right_eq_some.1 h
    obtain rfl := List.map_eq_nil_iff.1 hscopes
    cases hblocks
    exact (performs_input name (reads_inputDecimal settings) hD hfits).follows hD
  case h_5 hscopes =>
    obtain ⟨hfits, h⟩ := Option.ite_none_right_eq_some.1 h
    obtain ⟨block, rfl, rfl⟩ := List.map_eq_singleton_iff.1 hscopes
    rcases hblocks with _ | ⟨hblock, _ | _⟩
    exact follows_if hD hfits fun hD' => hblock.follows hD' h
  case h_6 hscopes =>
    obtain ⟨⟨hlabel, hfits⟩, h⟩ := Option.ite_none_right_eq_some.1 h
    obtain ⟨Γ₁, h₁, h₂⟩ := Option.bind_eq_some_iff.1 h
    obtain ⟨block, rest, rfl, rfl, hrest⟩ := List.map_eq_cons_iff.1 hscopes
    obtain ⟨other, rfl, rfl⟩ := List.map_eq_singleton_iff.1 hrest
    rcases hblocks with _ | ⟨hblock, _ | ⟨hother, _ | _⟩⟩
    rw [emitBuiltin_ifElse (hother.label.trans hlabel)]
    refine follows_ifElse hD hfits (fun hD' => hblock.follows hD' h₁) fun hD' hscope => ?_
    rw [← hscope] at h₂
    exact hother.follows hD' h₂
  case h_7 hscopes =>
    obtain ⟨hfits, h⟩ := Option.ite_none_right_eq_some.1 h
    obtain rfl := hsame rfl
    obtain ⟨block, rfl, rfl⟩ := List.map_eq_singleton_iff.1 hscopes
    rcases hblocks with _ | ⟨hblock, _ | _⟩
    exact follows_while hD hfits fun hD' => hblock.follows hD' h
  case h_8 _ espan _ lspan _ hscopes =>
    obtain rfl := hsame rfl
    split at h
    · rename_i hel hlist
      obtain ⟨block, rfl, rfl⟩ := List.map_eq_singleton_iff.1 hscopes
      rcases hblocks with _ | ⟨hblock, _ | _⟩
      exact follows_for_call hD hel hlist espan lspan fun hD' => hblock.follows hD' h
    · cases h
  case h_9 => cases h

end Calls

mutual

/-- What declares nothing declares nothing in its loops. -/
theorem Stmt.loopDeclarations_eq_nil : (s : Stmt) → s.declarations = [] → s.loopDeclarations = []
  | .declaration d, h => rfl
  | .assignment a, h => rfl
  | .call name arguments blocks span, h => by
    rw [Stmt.declarations] at h
    rw [Stmt.loopDeclarations]
    split
    · exact h
    · exact Block.allLoopDeclarations_eq_nil blocks h

theorem Stmt.allLoopDeclarations_eq_nil : (body : List Stmt) → Stmt.allDeclarations body = [] →
    Stmt.allLoopDeclarations body = []
  | [], _ => rfl
  | s :: rest, h => by
    rw [Stmt.allDeclarations, List.append_eq_nil_iff] at h
    rw [Stmt.allLoopDeclarations, Stmt.loopDeclarations_eq_nil s h.1,
      Stmt.allLoopDeclarations_eq_nil rest h.2, List.nil_append]

theorem Block.allLoopDeclarations_eq_nil : (blocks : List Block) →
    Block.allDeclarations blocks = [] → Block.allLoopDeclarations blocks = []
  | [], _ => rfl
  | .mk label body span :: rest, h => by
    rw [Block.allDeclarations, Block.declarations, List.append_eq_nil_iff] at h
    rw [Block.allLoopDeclarations, Block.loopDeclarations, Stmt.allLoopDeclarations_eq_nil body h.1,
      Block.allLoopDeclarations_eq_nil rest h.2, List.nil_append]

end

mutual

theorem follows_stmt {settings : Settings} {initial : Store} : (s : Stmt) → {D : Declared} →
    {live : List Region} → {Γ : Scope} → Arranged D live → s.loopDeclarations = [] →
    s.scope? Declaration.allocatedKind? D.scope = some Γ →
    Follows settings initial D live (emitStmt s) Γ fun fuel => exec settings.endOfInput fuel s
  | .declaration d, D, live, Γ, hD, _, h => follows_declaration hD h
  | .assignment a, D, live, Γ, hD, _, h => follows_assignment hD h
  | .call name arguments blocks span, D, live, Γ, hD, hloop, h => by
    rw [Stmt.scope?] at h
    obtain ⟨b, hname, h⟩ := Option.bind_eq_some_iff.1 h
    rw [Stmt.loopDeclarations, hname, Option.any_some] at hloop
    have hblocks : List.Forall₂ (BlockFollows settings initial) (emitBlocks blocks) blocks := by
      refine follows_blocks blocks ?_
      split at hloop
      · exact Block.allLoopDeclarations_eq_nil blocks hloop
      · exact hloop
    have htakes := takes_of_callScope h
    rw [Block.scopes_eq_map, List.length_map] at htakes
    have hloop' : b.isLoop = true → Block.allDeclarations blocks = [] := by
      intro hb
      rwa [if_pos hb] at hloop
    have hfollows : Follows settings initial D live (emitBuiltin name b arguments _) Γ _ :=
      follows_builtin hD hblocks hloop' h
    obtain ⟨new, live', hcall, hscope⟩ := hfollows
    refine ⟨new, live', ?_, hscope⟩
    rw [emitStmt]
    simp only [exec, hname]
    exact .after (fun s => tryTakes_checkCall hname htakes span s) hcall

theorem follows_stmts {settings : Settings} {initial : Store} : (body : List Stmt) →
    {D : Declared} → {live : List Region} → {Γ : Scope} → Arranged D live →
    Stmt.allLoopDeclarations body = [] →
    Stmt.scopeAll? Declaration.allocatedKind? body D.scope = some Γ →
    Follows settings initial D live (emitStmts body) Γ
      fun fuel => execAll settings.endOfInput fuel body
  | [], D, live, Γ, hD, _, h => by
    cases h
    exact (Realizes.pure hD).follows
  | s :: rest, D, live, Γ, hD, hloop, h => by
    rw [Stmt.allLoopDeclarations, List.append_eq_nil_iff] at hloop
    rw [Stmt.scopeAll?] at h
    obtain ⟨Γ₁, h₁, h⟩ := Option.bind_eq_some_iff.1 h
    refine (follows_stmt s hD hloop.1 h₁).andThen fun hD' hscope => ?_
    rw [← hscope] at h
    exact follows_stmts rest hD' hloop.2 h

theorem follows_blocks {settings : Settings} {initial : Store} : (blocks : List Block) →
    Block.allLoopDeclarations blocks = [] →
    List.Forall₂ (BlockFollows settings initial) (emitBlocks blocks) blocks
  | [], _ => .nil
  | .mk label body span :: rest, hloop => by
    rw [Block.allLoopDeclarations, Block.loopDeclarations, List.append_eq_nil_iff] at hloop
    exact .cons ⟨rfl, fun hD h => follows_stmts body hD hloop.1 h⟩ (follows_blocks rest hloop.2)

end

end Goat
