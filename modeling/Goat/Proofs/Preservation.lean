import Goat.Proofs.FoldedRun
import Goat.Proofs.Fuel
import Goat.Proofs.Simulation
import Goat.Proofs.WellFormed

/-!
# Compilation preserves what programs do

A machine that runs the code of a program on a tape without end does what the program
means: it ends if the program does, with the same output and the same input left, and if the
program goes on forever then so does the machine, and both write the same bytes.
-/

namespace Goat

open Plain (Settings Contents)
open Reference (Store State)
open Machine (EndOfInput Code)

/-! ### Code with closed loops can be loaded -/

namespace Plain

theorem skipLoop_replicate (depth n : Nat) (rest : List Character) :
    skipLoop (depth + n) (List.replicate n (some .loopEnd) ++ rest) = skipLoop depth rest := by
  induction n with
  | zero => rfl
  | succ n ih =>
    rw [List.replicate_succ, List.cons_append, ← Nat.add_assoc, skipLoop]
    exact ih

/-- How many loops are open can be told from what is left after skipping. -/
theorem not_lt_of_skipLoop {depth depth' : Nat}
    (h : ∀ rest, skipLoop depth rest = skipLoop depth' rest) : ¬depth < depth' := by
  intro hlt
  obtain ⟨k, rfl⟩ := Nat.exists_eq_add_of_lt hlt
  have hrest := h (List.replicate depth (some .loopEnd) ++ [some .loopEnd, none])
  have hleft := skipLoop_replicate 0 depth [some .loopEnd, none]
  have hright := skipLoop_replicate (k + 1) depth [some .loopEnd, none]
  rw [Nat.zero_add] at hleft
  rw [show depth + k + 1 = k + 1 + depth by omega, hleft, hright] at hrest
  cases k <;> cases hrest

/-- Code that is passed over when `depth` loops are open, so that `depth'` are open after it,
    closes no other loops. -/
theorem counts_of_skipLoop {code : List Command} {depth depth' : Nat}
    (h : ∀ rest, skipLoop depth (code.map some ++ rest) = skipLoop depth' rest) :
    (∀ head, head <+: code → head.count .loopEnd ≤ depth + head.count .loopStart) ∧
      code.count .loopEnd + depth' = depth + code.count .loopStart := by
  induction code generalizing depth with
  | nil =>
    have hge := not_lt_of_skipLoop h
    have hle := not_lt_of_skipLoop fun rest => (h rest).symm
    refine ⟨fun head hhead => ?_, by simp only [List.count_nil]; omega⟩
    rw [List.prefix_nil.1 hhead]
    exact Nat.zero_le _
  | cons c code ih =>
    have hcons {d : Nat} (hrest : ∀ rest, skipLoop d (code.map some ++ rest) = skipLoop depth' rest)
        (hdepth : d + [c].count .loopEnd = depth + [c].count .loopStart) :
        (∀ head, head <+: c :: code → head.count .loopEnd ≤ depth + head.count .loopStart) ∧
          (c :: code).count .loopEnd + depth' = depth + (c :: code).count .loopStart := by
      obtain ⟨hheads, hall⟩ := ih hrest
      rw [List.count_singleton, List.count_singleton] at hdepth
      refine ⟨fun head hhead => ?_, by rw [List.count_cons, List.count_cons]; omega⟩
      rcases List.prefix_cons_iff.1 hhead with rfl | ⟨tail, rfl, htail⟩
      · exact Nat.zero_le _
      · have := hheads tail htail
        rw [List.count_cons, List.count_cons]
        omega
    by_cases hstart : c = .loopStart
    · subst hstart
      exact hcons (d := depth + 1) h rfl
    · by_cases hend : c = .loopEnd
      · subst hend
        cases depth with
        | zero =>
          -- the loop around the code would end in it
          have hends : code.map some ++ [none] = skipLoop depth' [none] := h [none]
          have hempty : skipLoop depth' [none] = [] := by cases depth' <;> rfl
          rw [hempty] at hends
          simp at hends
        | succ depth => exact hcons (d := depth) h rfl
      · have hlevel : Level [some c] := .single (by simpa using hstart) (by simpa using hend)
        refine hcons (d := depth) (fun rest => ?_) ?_
        · rw [← h rest]
          exact (hlevel depth (code.map some ++ rest)).symm
        · rw [List.count_singleton, List.count_singleton, if_neg (by simpa using hend),
            if_neg (by simpa using hstart)]

theorem Closed.balanced {code : List Command} (h : Closed code) : Machine.Balanced code := by
  have hcounts := counts_of_skipLoop (h 0)
  simpa [Machine.Balanced] using hcounts

end Plain

/-! ### The plain machine follows the semantics -/

namespace Plain

variable {settings : Settings} {c c₁ c₂ : Config} {k n : Nat}

theorem output_grows_of_execute {t t' : Tape} {command : Command}
    (h : t.execute? settings command = some t') : t.output <+: t'.output := by
  have hmove {p : Int} (h : t.moveTo? settings p = some t') : t.output <+: t'.output := by
    rw [Tape.moveTo?] at h
    split at h
    · cases h
      exact List.prefix_refl _
    · cases h
  cases command with
  | left => exact hmove h
  | right => exact hmove h
  | write =>
    cases h
    exact List.prefix_append _ _
  | read =>
    cases h
    unfold Tape.read
    split <;> exact List.prefix_refl _
  | _ =>
    cases h
    exact List.prefix_refl _

/-- What is written stays written. -/
theorem output_grows_of_step (h : step settings c = .next c₁) :
    c.tape.output <+: c₁.tape.output := by
  unfold step at h
  split at h
  · cases h
  · cases h
    exact List.prefix_refl _
  · split at h <;> cases h <;> exact List.prefix_refl _
  · split at h <;> cases h <;> exact List.prefix_refl _
  · split at h
    · rename_i hexecute
      cases h
      exact output_grows_of_execute hexecute
    · cases h

theorem Reaches.output_grows (h : Reaches settings n c c₁) : c.tape.output <+: c₁.tape.output := by
  induction h with
  | refl c => exact List.prefix_refl _
  | step h _ ih => exact (output_grows_of_step h).trans ih

/-- Of two configurations that are reached, the one that takes more steps comes after the
    other. -/
theorem Reaches.split (h : Reaches settings k c c₁) (h' : Reaches settings n c c₂) (hkn : k ≤ n) :
    Reaches settings (n - k) c₁ c₂ := by
  induction h generalizing n with
  | refl c => exact h'
  | step h _ ih =>
    cases h' with
    | refl => omega
    | step h₁ hrest =>
      cases h.symm.trans h₁
      rw [Nat.succ_sub_succ]
      exact ih hrest (by omega)

section Endless

variable (h : ∀ n, ∃ k c', n ≤ k ∧ Reaches settings k c c')

include h

/-- A machine that makes any number of steps has a next one wherever it gets to. -/
theorem exists_next_of_reaches {n : Nat} {c₁ : Config} (hreach : Reaches settings n c c₁) :
    ∃ c₂, step settings c₁ = .next c₂ := by
  obtain ⟨k, c₂, hk, hreach'⟩ := h (n + 1)
  have hrest := hreach.split hreach' (by omega)
  obtain ⟨j, hj⟩ : ∃ j, k - n = j + 1 := ⟨k - n - 1, by omega⟩
  rw [hj] at hrest
  cases hrest with
  | step hstep _ => exact ⟨_, hstep⟩

theorem not_faults_of_reaches : ¬Faults settings c := by
  rintro ⟨n, c₁, hreach, hfault⟩
  obtain ⟨c₂, hnext⟩ := exists_next_of_reaches h hreach
  cases hfault.symm.trans hnext

theorem not_ends_of_reaches (t : Tape) : ¬Ends settings c t := by
  rintro ⟨n, c₁, hreach, hend, -⟩
  obtain ⟨c₂, hnext⟩ := exists_next_of_reaches h hreach
  cases hend.symm.trans hnext

end Endless

/-- The plain machine does with a text what the outcome of a run says. -/
def Obeys (settings : Settings) (text : Text) (input : List UInt8) (fuel : Nat) :
    Reference.Outcome → Prop
  | .done ρ => ∃ t, Ends settings (start text input) t ∧ t.output = ρ.output ∧ t.input = ρ.input
  | .stuck reason => reason = .outOfRange
  | .outOfFuel ρ =>
    ∃ k c, fuel ≤ k ∧ Reaches settings k (start text input) c ∧ c.tape.output = ρ.output

end Plain

/-- The tape at the start. -/
def Plain.Contents.start (input : List UInt8) : Contents := ⟨fun _ => 0, input, []⟩

theorem agrees_start (initial : Store) (input : List UInt8) :
    Agrees initial [] [] ⟨initial, input, []⟩ (.start input) where
  ready := ⟨Arranged.nil.packed, fun _ _ => rfl⟩
  holds := ⟨fun _ _ hv => (List.not_mem_nil hv).elim, fun _ _ hv => (List.not_mem_nil hv).elim⟩
  input := rfl
  output := rfl
  rest _ _ := rfl

/-- Code that was emitted from the start follows the run that it realizes. -/
theorem Realizes.obeys {settings : Settings} {initial : Store} {m : TryEmit Unit} {new : Declared}
    {live : List Region} {run : Nat → State → Reference.Outcome}
    (h : Realizes settings initial [] [] m new live run) (hzero : Zeroed initial new) {e : Emitter}
    (hrun : Emitter.run {} m = (.ok (), e)) (hfits : Fits settings e) (input : List UInt8)
    (fuel : Nat) :
    Plain.Obeys settings (Command.toText e.code.toList) input fuel
      (run fuel ⟨initial, input, []⟩) := by
  have hruns := h.runs hzero fuel _ _ (agrees_start initial input)
  have hstart : Plain.start (Command.toText e.code.toList) input =
      ⟨e.code.toList.map some ++ [], [], (Contents.start input).tape (Layout.pointer {})⟩ := by
    rw [Plain.start, Plain.characters_toText, List.append_nil]
    rfl
  cases ho : run fuel ⟨initial, input, []⟩ with
  | done ρ =>
    rw [ho] at hruns
    obtain ⟨s, ht, hs, -⟩ := hruns
    obtain ⟨e', hrun', -, ht⟩ := ht {} Layout.sound_empty rfl rfl
    obtain rfl : e' = e := congrArg Prod.snd (hrun'.symm.trans hrun)
    obtain ⟨n, hn⟩ := ht e'.code.toList (by simp) hfits [] []
    refine ⟨s.tape e'.layout.pointer, ⟨n, ⟨[], [], _⟩, ?_, rfl, rfl⟩, hs.output, hs.input⟩
    rw [hstart]
    exact hn
  | stuck reason =>
    rw [ho] at hruns
    exact hruns
  | outOfFuel ρ =>
    rw [ho] at hruns
    obtain ⟨e', hrun', -, hd⟩ := hruns {} Layout.sound_empty rfl rfl
    obtain rfl : e' = e := congrArg Prod.snd (hrun'.symm.trans hrun)
    obtain ⟨k, c, hk, hreach, hout⟩ := hd e'.code.toList (by simp) hfits [] []
    refine ⟨k, c, hk, ?_, hout⟩
    rw [hstart]
    exact hreach

section Emitted

variable {p : Program}

/-- The variables of a program are zero at first. -/
theorem Program.zeroed
    (hkinds : ∀ d ∈ Stmt.allDeclarations p.statements, d.allocatedKind? = d.kind?) {new : Declared}
    {live : List Region} (hnew : Arranged new live)
    (hscope : Stmt.scopeAll? Declaration.allocatedKind? p.statements Scope.empty =
      some (Declared.scope new)) :
    Zeroed (Reference.initialStore (Stmt.allDeclarations p.statements)) new := by
  intro name v hv
  have hlookup := (Stmt.declares_all p.statements hscope).lookup_eq_find name
  rw [Declared.scope_of_find (hnew.find_of_mem hv)] at hlookup
  obtain ⟨d, hd, hkind⟩ := Option.bind_eq_some_iff.1 hlookup.symm
  rw [hkinds d (List.mem_of_find?_eq_some hd)] at hkind
  rw [Reference.initialStore, hd, Option.bind_some, hkind, Option.map_some]

/-- The code of a program without declarations in loops follows the program, on any tape
    that has the cells that were given out. -/
theorem Program.obeys
    (hkinds : ∀ d ∈ Stmt.allDeclarations p.statements, d.allocatedKind? = d.kind?) {e : Emitter}
    (hrun : Emitter.run {} (emitProgram p) = (.ok (), e))
    (hloops : Stmt.allLoopDeclarations p.statements = []) (settings : Settings)
    (hfits : Fits settings e) (input : List UInt8) (fuel : Nat) :
    Plain.Obeys settings (Command.toText e.code.toList) input fuel
      (Reference.run settings.endOfInput p input fuel) := by
  obtain ⟨hscope, -, -⟩ := (accepts_stmts p.statements Arranged.nil).built hrun
  let initial := Reference.initialStore (Stmt.allDeclarations p.statements)
  have hfollows : Follows settings initial [] [] _ _ _ :=
    follows_stmts p.statements Arranged.nil hloops hscope
  obtain ⟨new, live, hrealizes, hnew⟩ := hfollows
  rw [List.nil_append] at hnew
  rw [← hnew] at hscope
  have hzero := Program.zeroed hkinds hrealizes.grown.arranged hscope
  exact hrealizes.obeys hzero hrun hfits input fuel

end Emitted

/-! ### The machine follows the semantics -/

namespace Machine

/-- A machine that runs the code does what a program does; `run` is the outcome of the program
    for every amount of fuel. -/
structure Implements (code : Code) (config : Config) (input : List UInt8)
    (run : Nat → Reference.Outcome) : Prop where
  /-- The program ends or goes on forever. -/
  total : (∃ fuel ρ, run fuel = .done ρ) ∨ ∀ fuel, ∃ ρ, run fuel = .outOfFuel ρ
  /-- Where the program ends, the machine ends with the same output and input left. -/
  finished : ∀ fuel ρ, run fuel = .done ρ →
    ∃ fuel' m, (Machine.start config input).run code fuel' = (.finished, m) ∧
      m.output.toList = ρ.output ∧ m.input = ρ.input
  /-- If the program goes on forever, so does the machine, and what the machine writes is
      written by the program. -/
  forever : (∀ fuel, ∃ ρ, run fuel = .outOfFuel ρ) →
    ∀ fuel', ∃ next m, (Machine.start config input).run code fuel' = (.outOfFuel next, m) ∧
      ∃ fuel ρ, run fuel = .outOfFuel ρ ∧ m.output.toList <+: ρ.output
  /-- If the program goes on forever, what it writes is written by the machine. -/
  written : (∀ fuel, ∃ ρ, run fuel = .outOfFuel ρ) →
    ∀ fuel ρ, run fuel = .outOfFuel ρ →
      ∃ fuel', ρ.output <+: ((Machine.start config input).run code fuel').2.output.toList

section Implements

variable {text : Text} {code : Code} {input : List UInt8} {mode : EndOfInput} {size : Int}
  {run : Nat → Reference.Outcome}

/-- A program that is not stuck on an index ends or goes on forever. -/
theorem done_or_forever {settings : Settings}
    (hobeys : ∀ fuel, Plain.Obeys settings text input fuel (run fuel))
    (hrange : ∀ fuel, run fuel ≠ .stuck .outOfRange) :
    (∃ fuel ρ, run fuel = .done ρ) ∨ ∀ fuel, ∃ ρ, run fuel = .outOfFuel ρ := by
  by_cases hdone : ∃ fuel ρ, run fuel = .done ρ
  · exact .inl hdone
  · refine .inr fun fuel => ?_
    have hfuel := hobeys fuel
    cases ho : run fuel with
    | done ρ => exact absurd ⟨fuel, ρ, ho⟩ hdone
    | stuck reason =>
      rw [ho] at hfuel
      cases hfuel
      exact absurd ho (hrange fuel)
    | outOfFuel ρ => exact ⟨ρ, rfl⟩

/-- The plain machine goes on as long as the program does. -/
theorem reaches_of_obeys {settings : Settings}
    (hobeys : ∀ fuel, Plain.Obeys settings text input fuel (run fuel))
    (hforever : ∀ fuel, ∃ ρ, run fuel = .outOfFuel ρ) (n : Nat) :
    ∃ k c, n ≤ k ∧ Plain.Reaches settings k (Plain.start text input) c := by
  obtain ⟨ρ, hρ⟩ := hforever n
  have hn := hobeys n
  rw [hρ] at hn
  obtain ⟨k, c, hk, hreach, -⟩ := hn
  exact ⟨k, c, hk, hreach⟩

variable (hfolds : Folds (Plain.characters text) 0 code.instructions.toList)
  (hobeys : ∀ fuel, Plain.Obeys ⟨limitOfInt size, mode⟩ text input fuel (run fuel))

include hfolds hobeys

/-- If the program goes on forever, every state of the machine is one of the plain machine,
    after at least as many steps. -/
theorem exists_tracked (hforever : ∀ fuel, ∃ ρ, run fuel = .outOfFuel ρ) (fuel : Nat) :
    ∃ next m, (Machine.start ⟨limitOfInt size, mode, none⟩ input).run code fuel =
        (.outOfFuel next, m) ∧
      ∃ k c, fuel ≤ k ∧ Plain.Reaches ⟨limitOfInt size, mode⟩ k (Plain.start text input) c ∧
        m.output.toList = c.tape.output := by
  have hreaches := reaches_of_obeys hobeys hforever
  have hfaults := Plain.not_faults_of_reaches hreaches
  obtain ⟨next, m, hrun⟩ := (simulates_start hfolds size mode input (fuel + 1)).goes_on rfl
    (Plain.not_ends_of_reaches hreaches) hfaults
  obtain ⟨k, c, hk, hreach, hm⟩ :=
    (simulates_start hfolds size mode input fuel).tracks rfl hfaults hrun
  exact ⟨next, m, hrun, k, c, hk, hreach, hm.output.symm⟩

theorem implements_of_obeys (hrange : ∀ fuel, run fuel ≠ .stuck .outOfRange) :
    Implements code ⟨limitOfInt size, mode, none⟩ input run where
  total := done_or_forever hobeys hrange
  finished fuel ρ hdone := by
    have hfuel := hobeys fuel
    rw [hdone] at hfuel
    obtain ⟨t, hends, houtput, hinput⟩ := hfuel
    obtain ⟨k, hk⟩ := Plain.run_of_ends hends
    obtain ⟨fuel', m, hrun, houtput', hinput', -⟩ :=
      (hfolds.refinesPlain input mode size).finished k t hk
    exact ⟨fuel', m, hrun, houtput'.trans houtput, hinput'.trans hinput⟩
  forever hforever fuel' := by
    obtain ⟨next, m, hrun, k, c, -, hreach, houtput⟩ := exists_tracked hfolds hobeys hforever fuel'
    obtain ⟨ρ, hρ⟩ := hforever k
    have hk := hobeys k
    rw [hρ] at hk
    obtain ⟨k', c', hle, hreach', houtput'⟩ := hk
    refine ⟨next, m, hrun, k, ρ, hρ, ?_⟩
    rw [houtput, ← houtput']
    exact (hreach.split hreach' hle).output_grows
  written hforever fuel ρ hρ := by
    have hfuel := hobeys fuel
    rw [hρ] at hfuel
    obtain ⟨k, c, -, hreach, houtput⟩ := hfuel
    obtain ⟨next, m, hrun, k', c', hle, hreach', houtput'⟩ :=
      exists_tracked hfolds hobeys hforever k
    refine ⟨k, ?_⟩
    rw [hrun, houtput', ← houtput]
    exact (hreach.split hreach' hle).output_grows

end Implements

end Machine

theorem exists_emitted {source : Text} {c : Compilation} (hcompile : compile source = .ok c) :
    ∃ p e, Program.ofSource source = .ok p ∧ Emitter.run {} (emitProgram p) = (.ok (), e) ∧
      c = ⟨e.code.toList, e.variableInfos, e.layout.peak⟩ := by
  rw [compile, compileTraced] at hcompile
  cases hread : Program.ofSource source with
  | error f =>
    rw [hread] at hcompile
    cases hcompile
  | ok p =>
    rcases hrun : Emitter.run {} (emitProgram p) with ⟨_ | _, e⟩
    · simp only [hread, hrun] at hcompile
      cases hcompile
    · simp only [hread, hrun] at hcompile
      cases hcompile
      exact ⟨p, e, rfl, hrun, rfl⟩

/-- The code of a program can be loaded. -/
theorem exists_loaded {p : Program} {e : Emitter}
    (hrun : Emitter.run {} (emitProgram p) = (.ok (), e)) :
    ∃ code, Code.load (Command.toText e.code.toList) = .ok code ∧
      Machine.Folds (Plain.characters (Command.toText e.code.toList)) 0
        code.instructions.toList := by
  obtain ⟨-, hgrows, -⟩ := (accepts_stmts p.statements Arranged.nil).built hrun
  obtain ⟨piece, hpiece, hclosed⟩ := hgrows.code
  obtain rfl : e.code.toList = piece := hpiece
  apply Machine.load_folds
  rw [Command.ofText_toText]
  exact hclosed.balanced

/-- Compilation preserves what programs do. A source text that compiles, with no declarations
    in loops, is compiled to code that can be loaded, and a machine that runs it on a tape
    without end does what the program does, on every input on which no computed index is out
    of range. -/
theorem Program.compile_preserves {source : Text} {p : Program} {c : Compilation}
    (hread : Program.ofSource source = .ok p) (hcompile : compile source = .ok c)
    (hloops : Stmt.allLoopDeclarations p.statements = []) (mode : EndOfInput) (input : List UInt8)
    (hrange : ∀ fuel, Reference.run mode p input fuel ≠ .stuck .outOfRange) :
    ∃ code, Code.load c.text = .ok code ∧
      Machine.Implements code ⟨none, mode, none⟩ input (Reference.run mode p input) := by
  obtain ⟨p', e, hread', hrun, rfl⟩ := exists_emitted hcompile
  cases hread.symm.trans hread'
  obtain ⟨code, hload, hfolds⟩ := exists_loaded hrun
  have hfits : Fits ⟨none, mode⟩ e := fun size hsize => by cases hsize
  have hobeys (fuel : Nat) : Plain.Obeys ⟨Machine.limitOfInt 0, mode⟩ _ input fuel _ :=
    Program.obeys (Program.allocatedKind?_eq_kind? hread) hrun hloops ⟨none, mode⟩ hfits input fuel
  exact ⟨code, hload, Machine.implements_of_obeys hfolds hobeys hrange⟩

/-- The outcome of a run that ends with some output. -/
def Reference.Outcome.writes (output : List UInt8) : Reference.Outcome → Bool
  | .done ρ => ρ.output = output
  | _ => false

theorem Reference.Outcome.exists_of_writes {output : List UInt8} {o : Reference.Outcome}
    (h : o.writes output = true) : ∃ ρ, o = .done ρ ∧ ρ.output = output := by
  cases o with
  | done ρ => exact ⟨ρ, rfl, of_decide_eq_true h⟩
  | stuck reason => cases h
  | outOfFuel ρ => cases h

/-- A list is printed from a number of its elements on that is read, with a variable declared
    in a block. -/
def Program.loopingSource : Text :=
  "IntList<3> k = [7, 8, 9] Int i = 0 if((i == 0)) \x7b Int d = 46 \x7d inputN(i) " ++
    "while((i < 3)) \x7b printN(k[i]) i = (i + 1) \x7d print(d)"

theorem Program.compile_preserves_looping :
    ∃ p c code, Program.ofSource Program.loopingSource = .ok p ∧
      compile Program.loopingSource = .ok c ∧ Stmt.allLoopDeclarations p.statements = [] ∧
      (∀ fuel, Reference.run .zero p [0x31] fuel ≠ .stuck .outOfRange) ∧
      Code.load c.text = .ok code ∧
      Machine.Implements code ⟨none, .zero, none⟩ [0x31] (Reference.run .zero p [0x31]) := by
  have hread : (Program.ofSource Program.loopingSource).toOption.any (fun p =>
      (Stmt.allLoopDeclarations p.statements).isEmpty &&
        (Reference.run .zero p [0x31] 2).writes "89.") = true := by decide +kernel
  have hcompile : (compile Program.loopingSource).toOption.any (fun _ => true) = true := by
    decide +kernel
  obtain ⟨p, hp, hchecks⟩ := exists_ok_of_any hread
  obtain ⟨c, hc, -⟩ := exists_ok_of_any hcompile
  rw [Bool.and_eq_true, List.isEmpty_iff] at hchecks
  obtain ⟨ρ, hρ, -⟩ := Reference.Outcome.exists_of_writes hchecks.2
  have hrange (fuel : Nat) := Reference.run_ne_stuck hρ fuel .outOfRange
  obtain ⟨code, hload, himplements⟩ :=
    Program.compile_preserves hp hc hchecks.1 .zero [0x31] hrange
  exact ⟨p, c, code, hp, hc, hchecks.1, hrange, hload, himplements⟩

end Goat
