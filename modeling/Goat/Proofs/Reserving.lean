import Goat.Proofs.Hoisting
import Goat.Proofs.Preservation

/-!
# Declarations in loops

The code of a loop is gone through again and again, but the variables declared in it get their
cells once, where the declaration stands. Code in front of a declaration may so use the cells
of its variable for values of its own, and finds them changed in the next round. If every loop
reserves the cells of its variables before its first round, then declarations in loops do
behave like assignments.
-/

namespace Goat

open Plain (Settings Contents)
open Reference (Store State Outcome eval exec execAll execBlock execBlocks call)
open Machine (EndOfInput Code)

/-! ### Emission with reserved cells -/

/-- Gives a variable its cells. -/
def reserve (d : Declaration) : TryEmit Unit := do
  match DataType.ofName? d.typeName with
  | none => return
  | some type =>
    let v ← allocateDeclared type d
    modify fun e => { e with declared := e.declared ++ [(d.name, v)] }

/-- Gives variables their cells. -/
def reserveAll : List Declaration → TryEmit Unit
  | [] => return
  | d :: ds => do
    reserve d
    reserveAll ds

/-- Emits a loop that reserves the cells of its variables before its first round. -/
def emitReserved (name : Text) (ds : List Declaration) :
    Builtin → List Expr → List BlockCode → TryEmit Unit
  | .while_, [condition], [block] =>
    emitWhile condition do
      reserveAll ds
      block.body
  | .for_, [element, list], [block] => do
    let (el, cells) ← loopVariables name element list
    emitCounting cells fun index limit more => do
      reserveAll ds
      forRound el cells block.body index limit more
  | b, arguments, codes => emitBuiltin name b arguments codes

mutual

/-- Emits a statement whose loops reserve the cells of their variables. -/
def Stmt.emitReserved : Stmt → TryEmit Unit
  | .declaration d => emitDeclaration d
  | .assignment a => emitAssignment a
  | .call name arguments blocks span => do
    let b ← checkCall name arguments.length blocks.length span
    if b.isLoop then
      Goat.emitReserved name (Block.allDeclarations blocks) b arguments
        (emitBlocks (Block.flattenAll blocks))
    else emitBuiltin name b arguments (Block.emitAllReserved blocks)

/-- Emits statements whose loops reserve the cells of their variables. -/
def Stmt.emitAllReserved : List Stmt → TryEmit Unit
  | [] => return
  | s :: rest => do
    s.emitReserved
    Stmt.emitAllReserved rest

/-- The code of blocks whose loops reserve the cells of their variables. -/
def Block.emitAllReserved : List Block → List BlockCode
  | [] => []
  | .mk label body span :: rest =>
    ⟨label, Stmt.emitAllReserved body, span⟩ :: Block.emitAllReserved rest

end

/-! ### What reserving does -/

section Reserving

variable {settings : Settings} {initial : Store} {D : Declared} {live : List Region}
  {Γ : Scope} {ds : List Declaration}

theorem exists_reserved (settings : Settings) (hD : Arranged D live) {d : Declaration} {kind : Kind}
    (hname : D.find? d.name = none) (hkind : d.allocatedKind? = some kind) :
    ∃ v live', v.kind = kind ∧ Grown D live [(d.name, v)] live' ∧
      Prepares settings D live (reserve d) [(d.name, v)] live' := by
  obtain ⟨type, htype⟩ := exists_type hkind
  obtain ⟨v, live', hv, hgrown, hrun⟩ := exists_entered settings hD htype hname hkind
  refine ⟨v, live', hv, hgrown, fun s e he hlive hdeclared => ?_⟩
  obtain ⟨e', hentered, hbuilt, ht⟩ := hrun e he hlive hdeclared
  refine ⟨e', ?_, hbuilt, ht s⟩
  rw [reserve, htype]
  exact hentered fun _ => pure ()

/-- The cells of variables are reserved without any code. -/
theorem exists_reservedAll (settings : Settings) {Γ₀ : Scope}
    (h : Scope.Declares Declaration.allocatedKind? Γ₀ ds Γ) (hD : Arranged D live)
    (hscope : D.scope = Γ₀) :
    ∃ new live', Grown D live new live' ∧ Declared.scope (D ++ new) = Γ ∧
      Prepares settings D live (reserveAll ds) new live' := by
  induction h generalizing D live with
  | nil =>
    refine ⟨[], live, .refl hD, by rwa [List.append_nil], fun s => ?_⟩
    exact TryTakes.transforms (.pure () s)
  | @cons Γ₀ Γ d ds kind _ hname hkind _ ih =>
    rw [← hscope] at hname
    have hfind := Declared.scope_eq_none.1 hname
    obtain ⟨v, live₁, rfl, hgrown, hprepare⟩ := exists_reserved settings hD hfind hkind
    obtain ⟨new, live₂, hgrown', hscope', hprepare'⟩ := ih hgrown.arranged
      (by rw [Declared.scope_declare hfind, hscope])
    refine ⟨(d.name, v) :: new, live₂, hgrown.trans hgrown', ?_, fun s => ?_⟩
    · rw [← hscope', List.append_assoc]
      rfl
    · exact (hprepare s).bind (hprepare' s)

variable {new : Declared} {live' : List Region} {prepare body : TryEmit Unit}
  {run : Nat → State → Outcome} {condition : Expr}

/-- A step whose variables have their cells already can be gone through again. -/
theorem Realizes.repeats_prepared (h : Realizes settings initial (D ++ new) live' body [] live' run)
    (hprepare : Prepares settings D live prepare new live') (hgrown : Grown D live new live') :
    Repeats settings initial D live (do prepare; body) new live' run where
  builds := (hprepare blank).builds.andLeaves h.builds.leaves
  grown := hgrown
  runs hzero fuel ρ s hs := by
    have hfirst : TryRuns settings D live prepare new live' fuel s
        (fun ρ' s' => ρ' = ρ ∧ s' = s) (.done ρ) := ⟨s, hprepare s, rfl, rfl⟩
    show TryRuns _ _ _ _ _ _ _ _ _ ((Outcome.done ρ).andThen (run fuel))
    refine hfirst.andThen h.builds.leaves ?_
    rintro ρ s ⟨rfl, rfl⟩
    have hzero' : Zeroed initial (D ++ new ++ []) := by rwa [List.append_nil]
    refine (h.runs hzero' fuel ρ s hs).mono fun ρ' s' hs' => ?_
    rw [List.append_nil] at hs'
    exact ⟨hs'.1, (Keeps.refl D live s).trans hgrown hs'.2⟩

section Loops

variable (hdeclares : Scope.Declares Declaration.allocatedKind? D.scope ds Γ)
  (hbody : ∀ {D' live'}, Arranged D' live' → Declared.scope D' = Γ →
    Realizes settings initial D' live' body [] live' run)

include hdeclares hbody

theorem follows_while_reserved (hD : Arranged D live) (hfits : condition.fits D.scope .int = true) :
    Follows settings initial D live (emitWhile condition do reserveAll ds; body) Γ
      fun fuel => Reference.repeatWhile (fun σ => eval σ condition) (run fuel) fuel := by
  obtain ⟨c, live₁, hc⟩ := exists_evaluated settings hD hfits
  obtain ⟨new, live₂, hgrown, hscope, hprepare⟩ :=
    exists_reservedAll settings hdeclares (hD.taken hc.taken) rfl
  have hrepeats := (hbody hgrown.arranged hscope).repeats_prepared hprepare hgrown
  exact ⟨new, _, realizes_while hD hc hfits hrepeats, hscope⟩

theorem follows_for_reserved (hD : Arranged D live) {element list : Text} {el : Cell}
    {cells : CellList} (hel : D.find? element = some (.int el))
    (hcells : D.find? list = some (.list cells)) :
    Follows settings initial D live
      (emitCounting cells fun index limit more => do
        reserveAll ds
        forRound el cells body index limit more) Γ
      fun fuel ρ => .withValue (ρ.store.bytes list) fun bytes =>
        Reference.forEach element list (run fuel) (List.range bytes.length) ρ := by
  obtain ⟨index, limit, more, live₁, live₂, live₃, h⟩ := exists_counter settings hD.packed
  obtain ⟨new, live₄, hgrown, hscope, hprepare⟩ :=
    exists_reservedAll settings hdeclares (h.arranged hD) rfl
  have hrealizes := hbody hgrown.arranged hscope
  exact ⟨new, _, realizes_forEach h hD hel hcells hprepare hgrown hrealizes, hscope⟩

end Loops

/-- The block of a loop, with assignments for its declarations, follows its run wherever its
    variables are declared. -/
theorem realizes_flattenAll {body : List Stmt} {Γ₀ : Scope}
    (h : Stmt.scopeAll? Declaration.allocatedKind? body Γ₀ = some Γ) (hD : Arranged D live)
    (hscope : D.scope = Γ) :
    Realizes settings initial D live (emitStmts (Stmt.flattenAll body)) [] live
      fun fuel => execAll settings.endOfInput fuel body := by
  have hflat := Stmt.scopeAll?_flattenAll body h (.refl Γ)
  rw [← hscope] at hflat
  have hloops := Stmt.allLoopDeclarations_eq_nil _ (Stmt.allDeclarations_flattenAll body)
  have hfollows : Follows settings initial D live (emitStmts (Stmt.flattenAll body)) D.scope _ :=
    follows_stmts _ hD hloops hflat
  have hrealizes := hfollows.realizes hD
  simp only [Stmt.execAll_flattenAll] at hrealizes
  exact hrealizes

/-- The code of a loop that reserves the cells of its variables follows its run. -/
theorem follows_reserved (name : Text) (hD : Arranged D live) {b : Builtin} (hb : b.isLoop = true)
    {arguments : List Expr} {blocks : List Block}
    (h : callScope? D.scope b arguments (Block.scopes Declaration.allocatedKind? blocks) = some Γ) :
    Follows settings initial D live
      (emitReserved name (Block.allDeclarations blocks) b arguments
        (emitBlocks (Block.flattenAll blocks))) Γ
      fun fuel => call settings.endOfInput fuel b arguments
        (execBlocks settings.endOfInput fuel blocks) := by
  have hdeclares := declares_of_foldlM (Block.declares_scopes blocks) (foldlM_of_callScope h)
  rw [Block.scopes_eq_map] at h
  unfold callScope? at h
  split at h
  case h_7 hscopes =>
    obtain ⟨hfits, h⟩ := Option.ite_none_right_eq_some.1 h
    obtain ⟨⟨label, body, span⟩, rfl, rfl⟩ := List.map_eq_singleton_iff.1 hscopes
    exact follows_while_reserved hdeclares (fun hD' hscope => realizes_flattenAll h hD' hscope) hD
      hfits
  case h_8 element espan list lspan _ hscopes =>
    split at h
    · rename_i hel hlist
      obtain ⟨⟨label, body, span⟩, rfl, rfl⟩ := List.map_eq_singleton_iff.1 hscopes
      obtain ⟨el, hel⟩ := Declared.exists_int hel
      obtain ⟨cells, hcells, -⟩ := Declared.exists_list hlist
      obtain ⟨new, live', hrealizes, hscope⟩ := follows_for_reserved hdeclares
        (fun hD' hscope => realizes_flattenAll h hD' hscope) hD hel hcells
      refine ⟨new, live', .after (a := (el, cells)) (fun s => ?_) hrealizes, hscope⟩
      exact .bind (tryTakes_lookup hel espan s) (.bind (tryTakes_lookup hcells lspan s) (.pure _ s))
    · cases h
  case h_9 => cases h
  all_goals cases hb

end Reserving

mutual

theorem follows_stmt_reserved {settings : Settings} {initial : Store} : (s : Stmt) →
    {D : Declared} → {live : List Region} → {Γ : Scope} → Arranged D live →
    s.scope? Declaration.allocatedKind? D.scope = some Γ →
    Follows settings initial D live s.emitReserved Γ fun fuel => exec settings.endOfInput fuel s
  | .declaration d, D, live, Γ, hD, h => follows_declaration hD h
  | .assignment a, D, live, Γ, hD, h => follows_assignment hD h
  | .call name arguments blocks span, D, live, Γ, hD, h => by
    rw [Stmt.scope?] at h
    obtain ⟨b, hname, h⟩ := Option.bind_eq_some_iff.1 h
    have htakes := takes_of_callScope h
    rw [Block.scopes_eq_map, List.length_map] at htakes
    have hfollows : Follows settings initial D live
        (if b.isLoop then
          emitReserved name (Block.allDeclarations blocks) b arguments
            (emitBlocks (Block.flattenAll blocks))
        else emitBuiltin name b arguments (Block.emitAllReserved blocks)) Γ
        fun fuel => call settings.endOfInput fuel b arguments
          (execBlocks settings.endOfInput fuel blocks) := by
      split
      · rename_i hloop
        exact follows_reserved name hD hloop h
      · rename_i hloop
        exact follows_builtin hD (follows_blocks_reserved blocks) (fun hb => absurd hb hloop) h
    obtain ⟨new, live', hcall, hscope⟩ := hfollows
    refine ⟨new, live', ?_, hscope⟩
    rw [Stmt.emitReserved]
    simp only [exec, hname]
    exact .after (fun s => tryTakes_checkCall hname htakes span s) hcall

theorem follows_stmts_reserved {settings : Settings} {initial : Store} : (body : List Stmt) →
    {D : Declared} → {live : List Region} → {Γ : Scope} → Arranged D live →
    Stmt.scopeAll? Declaration.allocatedKind? body D.scope = some Γ →
    Follows settings initial D live (Stmt.emitAllReserved body) Γ
      fun fuel => execAll settings.endOfInput fuel body
  | [], D, live, Γ, hD, h => by
    cases h
    exact (Realizes.pure hD).follows
  | s :: rest, D, live, Γ, hD, h => by
    rw [Stmt.scopeAll?] at h
    obtain ⟨Γ₁, h₁, h⟩ := Option.bind_eq_some_iff.1 h
    refine (follows_stmt_reserved s hD h₁).andThen fun hD' hscope => ?_
    rw [← hscope] at h
    exact follows_stmts_reserved rest hD' h

theorem follows_blocks_reserved {settings : Settings} {initial : Store} : (blocks : List Block) →
    List.Forall₂ (BlockFollows settings initial) (Block.emitAllReserved blocks) blocks
  | [] => .nil
  | .mk _ body _ :: rest =>
    .cons ⟨rfl, fun hD h => follows_stmts_reserved body hD h⟩ (follows_blocks_reserved rest)

end

/-! ### Programs with declarations in loops -/

/-- The code of a program whose loops reserve the cells of their variables. -/
def Program.reservedCode (p : Program) : List Command :=
  (Emitter.run {} (Stmt.emitAllReserved p.statements)).2.code.toList

section Programs

variable {p : Program} {Γ : Scope}
  (hkinds : ∀ d ∈ Stmt.allDeclarations p.statements, d.allocatedKind? = d.kind?)
  (hscope : p.scope? = some Γ)

include hkinds hscope

/-- With reserved cells, the code of every program follows the program. -/
theorem Program.obeys_reserved (mode : EndOfInput) (input : List UInt8) (fuel : Nat) :
    Plain.Obeys ⟨none, mode⟩ (Command.toText p.reservedCode) input fuel
      (Reference.run mode p input fuel) := by
  rw [Program.scope?, ← Stmt.scopeAll?_congr p.statements hkinds] at hscope
  let initial := Reference.initialStore (Stmt.allDeclarations p.statements)
  have hfollows : Follows ⟨none, mode⟩ initial [] [] _ _ _ :=
    follows_stmts_reserved p.statements Arranged.nil hscope
  obtain ⟨new, live, hrealizes, hnew⟩ := hfollows
  rw [List.nil_append] at hnew
  rw [← hnew] at hscope
  have hzero := Program.zeroed hkinds hrealizes.grown.arranged hscope
  obtain ⟨e, hrun, -⟩ := hrealizes.builds {} Layout.sound_empty rfl rfl
  have hcode : p.reservedCode = e.code.toList := by
    rw [Program.reservedCode, hrun]
  have hfits : Fits ⟨none, mode⟩ e := fun size hsize => by cases hsize
  rw [hcode]
  exact hrealizes.obeys hzero hrun hfits input fuel

/-- The hoisted program can be emitted, and its code follows the program that was hoisted. -/
theorem Program.exists_hoisted :
    ∃ e, Emitter.run {} (emitProgram p.hoisted) = (.ok (), e) ∧ ∀ mode input fuel,
      Plain.Obeys ⟨none, mode⟩ (Command.toText e.code.toList) input fuel
        (Reference.run mode p input fuel) := by
  have hkinds' : ∀ d ∈ Stmt.allDeclarations p.hoisted.statements, d.allocatedKind? = d.kind? := by
    intro d hd
    obtain ⟨d', hd', -, hsame⟩ := Program.exists_declared_of_hoisted hd
    have hkind := hkinds d' hd'
    rwa [Declaration.allocatedKind?, Declaration.kind?, hsame, hsame] at hkind
  have hscope' := Program.scope?_hoisted hscope
  rw [Program.scope?, ← Stmt.scopeAll?_congr _ hkinds'] at hscope'
  have haccepts := accepts_stmts p.hoisted.statements Arranged.nil
  rw [Declared.scope_nil, hscope'] at haccepts
  obtain ⟨new, live, hbuilds, -⟩ := haccepts
  obtain ⟨e, hrun, -⟩ := hbuilds {} Layout.sound_empty rfl rfl
  refine ⟨e, hrun, fun mode input fuel => ?_⟩
  have hfits : Fits ⟨none, mode⟩ e := fun size hsize => by cases hsize
  have hobeys := Program.obeys hkinds' hrun (Program.allLoopDeclarations_hoisted p) ⟨none, mode⟩
    hfits input fuel
  rwa [Program.run_hoisted hscope] at hobeys

end Programs

namespace Machine

/-- Whatever a machine writes with the first code, it writes with the second one, and it goes
    on forever with both. -/
def Shadows (code code' : Code) (config : Config) (input : List UInt8) : Prop :=
  ∀ fuel, ∃ next m fuel' next' m',
    (Machine.start config input).run code fuel = (.outOfFuel next, m) ∧
      (Machine.start config input).run code' fuel' = (.outOfFuel next', m') ∧
      m.output.toList <+: m'.output.toList

/-- A machine ends with both codes, with the same output, or it goes on forever with both and
    writes the same. -/
def BehaveAlike (code code' : Code) (config : Config) (input : List UInt8) : Prop :=
  (∃ fuel m fuel' m', (Machine.start config input).run code fuel = (.finished, m) ∧
      (Machine.start config input).run code' fuel' = (.finished, m') ∧ m'.output = m.output) ∨
    (Shadows code code' config input ∧ Shadows code' code config input)

variable {code code' : Code} {config : Config} {input : List UInt8} {run : Nat → Reference.Outcome}

theorem Implements.shadows (h : Implements code config input run)
    (h' : Implements code' config input run) (hforever : ∀ fuel, ∃ ρ, run fuel = .outOfFuel ρ) :
    Shadows code code' config input := by
  intro fuel
  obtain ⟨next, m, hrun, n, ρ, hρ, hprefix⟩ := h.forever hforever fuel
  obtain ⟨fuel', hprefix'⟩ := h'.written hforever n ρ hρ
  obtain ⟨next', m', hrun', -⟩ := h'.forever hforever fuel'
  rw [hrun'] at hprefix'
  exact ⟨next, m, fuel', next', m', hrun, hrun', hprefix.trans hprefix'⟩

/-- Codes that do what the same program does behave alike. -/
theorem Implements.behaveAlike (h : Implements code config input run)
    (h' : Implements code' config input run) : BehaveAlike code code' config input := by
  rcases h.total with ⟨n, ρ, hρ⟩ | hforever
  · obtain ⟨fuel, m, hrun, houtput, -⟩ := h.finished n ρ hρ
    obtain ⟨fuel', m', hrun', houtput', -⟩ := h'.finished n ρ hρ
    exact .inl ⟨fuel, m, fuel', m', hrun, hrun', Array.toList_inj.1 (houtput'.trans houtput.symm)⟩
  · exact .inr ⟨h.shadows h' hforever, h'.shadows h hforever⟩

end Machine

/-- Declarations in loops and assignments. For a source text that compiles, the program with
    the variables of its loops declared at its start, and assignments for the declarations in
    loops, can be emitted too, and its code does what the program means. The code of the
    program itself does the same if it is the code with reserved cells. -/
theorem Program.loop_declarations_assign {source : Text} {p : Program} {c : Compilation}
    (hread : Program.ofSource source = .ok p) (hcompile : compile source = .ok c) :
    ∃ e', Emitter.run {} (emitProgram p.hoisted) = (.ok (), e') ∧
      ∀ mode input, (∀ fuel, Reference.run mode p input fuel ≠ .stuck .outOfRange) →
        ∃ code code', Code.load c.text = .ok code ∧
          Code.load (Command.toText e'.code.toList) = .ok code' ∧
          Machine.Implements code' ⟨none, mode, none⟩ input (Reference.run mode p input) ∧
          (p.reservedCode = c.code →
            Machine.BehaveAlike code code' ⟨none, mode, none⟩ input) := by
  obtain ⟨p', e, hread', hrun, rfl⟩ := exists_emitted hcompile
  cases hread.symm.trans hread'
  have hkinds := Program.allocatedKind?_eq_kind? hread
  obtain ⟨hscope, -, -⟩ := (accepts_stmts p.statements Arranged.nil).built hrun
  rw [Declared.scope_nil, Stmt.scopeAll?_congr p.statements hkinds] at hscope
  obtain ⟨e', hrun', hobeys'⟩ := Program.exists_hoisted hkinds hscope
  obtain ⟨code, hload, hfolds⟩ := exists_loaded hrun
  obtain ⟨code', hload', hfolds'⟩ := exists_loaded hrun'
  refine ⟨e', hrun', fun mode input hrange => ⟨code, code', hload, hload', ?_⟩⟩
  have himplements' : Machine.Implements code' ⟨Machine.limitOfInt 0, mode, none⟩ input _ :=
    Machine.implements_of_obeys hfolds' (hobeys' mode input) hrange
  refine ⟨himplements', fun hsame => ?_⟩
  have hobeys := Program.obeys_reserved hkinds hscope mode input
  rw [hsame] at hobeys
  have himplements : Machine.Implements code ⟨Machine.limitOfInt 0, mode, none⟩ input _ :=
    Machine.implements_of_obeys hfolds hobeys hrange
  exact himplements.behaveAlike himplements'

/-- A loop that declares a variable first of all. -/
def Program.countdownSource : Text := "Int i = 2 while(i) \x7b Int x = i print(x) i = (i - 1) \x7d"

theorem Program.loop_declarations_assign_countdown :
    ∃ p c e' code code', Program.ofSource Program.countdownSource = .ok p ∧
      compile Program.countdownSource = .ok c ∧
      Emitter.run {} (emitProgram p.hoisted) = (.ok (), e') ∧ p.reservedCode = c.code ∧
      Code.load c.text = .ok code ∧ Code.load (Command.toText e'.code.toList) = .ok code' ∧
      Machine.BehaveAlike code code' ⟨none, .zero, none⟩ [] := by
  have hread : (Program.ofSource Program.countdownSource).toOption.any (fun p =>
      (Reference.run .zero p [] 2).writes [2, 1] &&
        (compile Program.countdownSource).toOption.any (fun c => p.reservedCode = c.code)) =
      true := by decide +kernel
  obtain ⟨p, hp, hchecks⟩ := exists_ok_of_any hread
  rw [Bool.and_eq_true] at hchecks
  obtain ⟨ρ, hρ, -⟩ := Reference.Outcome.exists_of_writes hchecks.1
  obtain ⟨c, hc, hsame⟩ := exists_ok_of_any hchecks.2
  obtain ⟨e', hrun', hruns⟩ := Program.loop_declarations_assign hp hc
  obtain ⟨code, code', hload, hload', -, halike⟩ :=
    hruns .zero [] fun fuel => Reference.run_ne_stuck hρ fuel .outOfRange
  have hsame : p.reservedCode = c.code := of_decide_eq_true hsame
  exact ⟨p, c, e', code, code', hp, hc, hrun', hsame, hload, hload', halike hsame⟩

/-- A machine that runs the text, without input, ends with the output. -/
def Machine.Writes (text : Text) (output : List UInt8) : Prop :=
  ∃ code fuel m, Code.load text = .ok code ∧
    (Machine.start ⟨none, .zero, none⟩ []).run code fuel = (.finished, m) ∧
    m.output.toList = output

/-- Whether a plain machine on the text ends with the output, within some steps. -/
def Plain.writes (text : Text) (fuel : Nat) (output : List UInt8) : Bool :=
  match Plain.run ⟨none, .zero⟩ fuel (Plain.start text []) with
  | .finished t => t.output = output
  | _ => false

/-- What a plain machine writes, a machine that runs the folded text writes too. -/
theorem Machine.writes_of_plain {text : Text} {code : Code} (hload : Code.load text = .ok code)
    (hfolds : Machine.Folds (Plain.characters text) 0 code.instructions.toList) {fuel : Nat}
    {output : List UInt8} (h : Plain.writes text fuel output = true) :
    Machine.Writes text output := by
  unfold Plain.writes at h
  split at h
  · rename_i t hrun
    obtain ⟨fuel', m, hfinished, houtput, -⟩ :=
      (hfolds.refinesPlain [] .zero 0).finished fuel t hrun
    exact ⟨code, fuel', m, hload, hfinished, houtput.trans (of_decide_eq_true h)⟩
  · cases h

/-- A variable is copied in a loop before another one is declared. -/
def Program.copyingSource : Text :=
  "Int i = 1 Int j = 1 while(j) \x7b j = i if(j) \x7b i = 0 \x7d Int x = 1 \x7d print(i)"

/-- Without reserved cells, a declaration in a loop is no assignment: in the second round the
    copy goes through the cell of the declared variable, which then is added to what was
    copied. -/
theorem Program.loop_declaration_differs :
    ∃ p c e', Program.ofSource Program.copyingSource = .ok p ∧
      compile Program.copyingSource = .ok c ∧
      Emitter.run {} (emitProgram p.hoisted) = (.ok (), e') ∧
      Machine.Writes c.text [1] ∧ Machine.Writes (Command.toText e'.code.toList) [0] := by
  have hread : (Program.ofSource Program.copyingSource).toOption.any (fun p =>
      ((compile Program.copyingSource).toOption.any (fun c => Plain.writes c.text 300 [1]) &&
        (Emitter.run {} (emitProgram p.hoisted)).1.isOk) &&
        Plain.writes (Command.toText (Emitter.run {} (emitProgram p.hoisted)).2.code.toList) 300
          [0]) = true := by decide +kernel
  obtain ⟨p, hp, hchecks⟩ := exists_ok_of_any hread
  rw [Bool.and_eq_true, Bool.and_eq_true] at hchecks
  obtain ⟨⟨hcompile, hok⟩, hwrites⟩ := hchecks
  obtain ⟨c, hc, hmisses⟩ := exists_ok_of_any hcompile
  rcases hrun : Emitter.run {} (emitProgram p.hoisted) with ⟨_ | _, e'⟩
  · rw [hrun] at hok
    cases hok
  · rw [hrun] at hwrites
    obtain ⟨_, e, -, hemitted, rfl⟩ := exists_emitted hc
    obtain ⟨code, hload, hfolds⟩ := exists_loaded hemitted
    obtain ⟨code', hload', hfolds'⟩ := exists_loaded hrun
    exact ⟨p, _, e', hp, hc, hrun, Machine.writes_of_plain hload hfolds hmisses,
      Machine.writes_of_plain hload' hfolds' hwrites⟩

end Goat
