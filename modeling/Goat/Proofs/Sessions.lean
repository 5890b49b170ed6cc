import Goat.Proofs.Continuation
import Goat.Proofs.LongerCode
import Goat.Repl.Basic

/-!
# Sessions report every byte once

A session runs the whole program again for every entry and reports only the output beyond that
of the run before. What it reported since its input was set, in one piece, is what the accepted
program writes for that input: the code of the program goes on after the code that was run
before, so its output goes on after the output that was reported before.
-/

namespace Goat.Session

/-- What can be asked of a session. An entry comes with the fuel for its run. -/
inductive Request where
  | eval (fuel : Nat) (entry : Text)
  | setInput (input : Text)
  | reset

/-- What came of a request. -/
inductive Event where
  | accepted (entry report : Text)
  | refused (entry : Text) (refusal : Refusal)
  | inputSet (input : Text)
  | forgotten

/-- Serves a request. -/
def perform (s : Session) : Request → Event × Session
  | .eval fuel entry =>
    match s.eval fuel entry with
    | (.ok report, s) => (.accepted entry report, s)
    | (.error refusal, s) => (.refused entry refusal, s)
  | .setInput input => (.inputSet input, s.setInput input)
  | .reset => (.forgotten, s.reset)

/-- What came of the requests, and the session after them. Requests and events are listed with
    the latest one first. -/
def after (config : Machine.Config) : List Request → List Event × Session
  | [] => ([], { config })
  | request :: earlier =>
    let (events, s) := after config earlier
    let (event, s) := s.perform request
    (event :: events, s)

/-- The entries that were accepted since the last reset, oldest first. -/
def acceptedSince : List Event → List Text
  | [] | .forgotten :: _ => []
  | .accepted entry _ :: earlier => acceptedSince earlier ++ [entry]
  | .refused .. :: earlier | .inputSet _ :: earlier => acceptedSince earlier

/-- What was reported since the input was set or the session was reset, oldest first. -/
def reportedSince : List Event → List Text
  | [] | .forgotten :: _ | .inputSet _ :: _ => []
  | .accepted _ report :: earlier => reportedSince earlier ++ [report]
  | .refused .. :: earlier => reportedSince earlier

/-- The input that was set last. -/
def inputAfter : List Event → Text
  | [] => []
  | .inputSet input :: _ => input
  | .accepted .. :: earlier | .refused .. :: earlier | .forgotten :: earlier => inputAfter earlier

/-! ### Entries -/

/-- An accepted entry compiles with the entries before it, and what is reported is the output
    beyond that of the run before. -/
theorem exists_of_eval {fuel : Nat} {s s' : Session} {entry report : Text}
    (h : s.eval fuel entry = (.ok report, s')) :
    ∃ c output, compile (sourceOf (s.entries ++ [entry])) = .ok c ∧
      outputOf s.config s.input fuel c = .ok output ∧ report = beyond s.output output ∧
      s' = { s with entries := s.entries ++ [entry], output, last := some c } := by
  rw [eval] at h
  cases hc : compile (sourceOf (s.entries ++ [entry])) with
  | error failure =>
    simp only [hc] at h
    cases h
  | ok c =>
    cases houtput : outputOf s.config s.input fuel c with
    | error refusal =>
      simp only [hc, houtput] at h
      cases h
    | ok output =>
      simp only [hc, houtput] at h
      cases h
      exact ⟨c, output, rfl, houtput, rfl, rfl⟩

/-- An entry is refused because it does not compile or because the run fails, and leaves the
    session as it was. -/
theorem cause_of_eval {fuel : Nat} {s s' : Session} {entry : Text} {refusal : Refusal}
    (h : s.eval fuel entry = (.error refusal, s')) :
    s' = s ∧ ((∃ failure, compile (sourceOf (s.entries ++ [entry])) = .error failure ∧
        refusal = .rejected failure (sourceOf (s.entries ++ [entry]))) ∨
      ∃ c, compile (sourceOf (s.entries ++ [entry])) = .ok c ∧
        outputOf s.config s.input fuel c = .error refusal) := by
  rw [eval] at h
  cases hc : compile (sourceOf (s.entries ++ [entry])) with
  | error failure =>
    simp only [hc] at h
    cases h
    exact ⟨rfl, .inl ⟨failure, rfl, rfl⟩⟩
  | ok c =>
    cases houtput : outputOf s.config s.input fuel c with
    | error refusal' =>
      simp only [hc, houtput] at h
      cases h
      exact ⟨rfl, .inr ⟨c, rfl, houtput⟩⟩
    | ok output =>
      simp only [hc, houtput] at h
      cases h

theorem sourceOf_append {entries : List Text} (hne : entries ≠ []) (entry : Text) :
    sourceOf (entries ++ [entry]) = sourceOf entries ++ Text.newline ++ entry := by
  simp only [sourceOf]
  fun_induction Text.intercalate Text.newline entries with
  | case1 => exact absurd rfl hne
  | case2 part => rfl
  | case3 part rest hrest ih =>
    have hrest' : rest ≠ [] := by simpa using hrest
    obtain ⟨next, tail, rfl⟩ := List.exists_cons_of_ne_nil hrest'
    rw [List.cons_append, List.cons_append, Text.intercalate, ← List.cons_append, ih hrest']
    · simp only [List.append_assoc]
    · simp

/-- No entries make a program without code. -/
theorem code_of_compile_nil {c : Compilation} (h : compile (sourceOf []) = .ok c) :
    c.code = [] := by
  have hcode : (compile (sourceOf [])).toOption.map Compilation.code = some [] := by
    decide +kernel
  rw [h] at hcode
  exact Option.some.inj hcode

/-- The code of the entries is the first part of the code with another entry that stands alone. -/
theorem code_prefix_of_compile {entries : List Text} {entry : Text} {c c' : Compilation}
    (hc : compile (sourceOf entries) = .ok c)
    (hc' : compile (sourceOf (entries ++ [entry])) = .ok c') (hentry : standsAlone entry = true) :
    c.code <+: c'.code := by
  by_cases hne : entries = []
  · subst hne
    rw [code_of_compile_nil hc]
    exact List.nil_prefix
  · rw [sourceOf_append hne] at hc'
    exact compile_append hc hc' hentry

/-! ### Outputs -/

section Outputs

variable {config : Machine.Config} {input : Text} {fuel fuel' : Nat} {c c' : Compilation}
  {output output' : Text}

theorem exists_of_outputOf (h : outputOf config input fuel c = .ok output) :
    ∃ code, Machine.Code.load c.text = .ok code ∧
      (Machine.runFrom code none fuel 0 (.start config input)).1 = .finished ∧
      (Machine.runFrom code none fuel 0 (.start config input)).2.output.toList = output := by
  rw [outputOf] at h
  split at h
  · cases h
  · rename_i code hload
    refine ⟨code, hload, ?_⟩
    rw [Machine.run] at h
    rcases hrun : Machine.runFrom code none fuel 0 (.start config input) with ⟨outcome, m⟩
    rw [hrun] at h
    cases outcome with
    | finished =>
      cases h
      exact ⟨rfl, rfl⟩
    | failed fault => cases h
    | outOfFuel next => cases h

/-- More fuel does not change the output of a program that finishes. -/
theorem outputOf_of_le (h : outputOf config input fuel c = .ok output) (hfuel : fuel ≤ fuel') :
    outputOf config input fuel' c = .ok output := by
  obtain ⟨code, hload, hfinished, rfl⟩ := exists_of_outputOf h
  obtain ⟨extra, rfl⟩ := Nat.exists_eq_add_of_le hfuel
  have hmore := Machine.runFrom_add_of_ended extra fun next => by rw [hfinished]; simp
  rw [outputOf, hload]
  simp only [Machine.run]
  rw [hmore, ← Prod.eta (Machine.runFrom code none fuel 0 _), hfinished]

/-- Where the code goes on, so does the output. -/
theorem output_prefix_of_code_prefix (h : outputOf config input fuel c = .ok output)
    (h' : outputOf config input fuel' c' = .ok output') (hcode : c.code <+: c'.code) :
    output <+: output' := by
  obtain ⟨code, hload, hfinished, rfl⟩ := exists_of_outputOf h
  obtain ⟨code', hload', hfinished', rfl⟩ := exists_of_outputOf h'
  obtain ⟨piece, hpiece⟩ := hcode
  rw [Compilation.text, ← hpiece] at hload'
  exact Machine.output_prefix_of_goesOn (Machine.goesOn_of_load hload hload') fuel fuel' 0 _
    hfinished hfinished'

end Outputs

theorem append_beyond {earlier output : Text} (h : earlier <+: output) :
    earlier ++ beyond earlier output = output := by
  obtain ⟨more, rfl⟩ := h
  simp [beyond, Text.dropHead?]

/-! ### Requests -/

/-- What the session keeps is what the events say, and its output is that of the last run since
    the input was set. -/
structure Records (config : Machine.Config) (events : List Event) (s : Session) : Prop where
  config_eq : s.config = config
  entries_eq : s.entries = acceptedSince events
  input_eq : s.input = inputAfter events
  last_none : acceptedSince events = [] → s.last = none
  last_some : acceptedSince events ≠ [] → ∃ c, s.last = some c ∧ compile s.source = .ok c
  output_nil : reportedSince events = [] → s.output = []
  output_run : reportedSince events ≠ [] → ∃ c fuel, compile s.source = .ok c ∧
    outputOf s.config s.input fuel c = .ok s.output

theorem Records.start (config : Machine.Config) : Records config [] { config } where
  config_eq := rfl
  entries_eq := rfl
  input_eq := rfl
  last_none _ := rfl
  last_some h := absurd rfl h
  output_nil _ := rfl
  output_run h := absurd rfl h

/-- Every request keeps the records right. -/
theorem Records.perform {config : Machine.Config} {events : List Event} {s : Session}
    (h : Records config events s) (request : Request) :
    Records config ((s.perform request).1 :: events) (s.perform request).2 := by
  cases request with
  | eval fuel entry =>
    rw [Session.perform]
    rcases heval : s.eval fuel entry with ⟨refusal | report, s'⟩
    · obtain ⟨rfl, -⟩ := cause_of_eval heval
      exact ⟨h.1, h.2, h.3, h.4, h.5, h.6, h.7⟩
    · obtain ⟨c, output, hc, houtput, rfl, rfl⟩ := exists_of_eval heval
      refine ⟨h.config_eq, ?_, h.input_eq, ?_, ?_, ?_, ?_⟩
      · rw [acceptedSince, ← h.entries_eq]
      · intro hnil
        simp [acceptedSince] at hnil
      · intro _
        exact ⟨c, rfl, hc⟩
      · intro hnil
        simp [reportedSince] at hnil
      · intro _
        exact ⟨c, fuel, hc, houtput⟩
  | setInput input =>
    exact ⟨h.config_eq, h.entries_eq, rfl, h.last_none, h.last_some, fun _ => rfl,
      fun hne => absurd rfl hne⟩
  | reset =>
    exact ⟨h.config_eq, rfl, h.input_eq, fun _ => rfl, fun hne => absurd rfl hne, fun _ => rfl,
      fun hne => absurd rfl hne⟩

theorem records_after (config : Machine.Config) (requests : List Request) :
    Records config (after config requests).1 (after config requests).2 := by
  induction requests with
  | nil => exact .start config
  | cons request earlier ih => exact ih.perform request

/-- The program of the accepted entries compiles, also if there are none. -/
theorem Records.exists_compile {config : Machine.Config} {events : List Event} {s : Session}
    (h : Records config events s) : ∃ c, compile s.source = .ok c := by
  by_cases hnil : acceptedSince events = []
  · have hcompile : (compile (sourceOf [])).toOption.isSome = true := by decide +kernel
    rw [source, h.entries_eq, hnil]
    cases hc : compile (sourceOf []) with
    | error failure =>
      rw [hc] at hcompile
      cases hcompile
    | ok c => exact ⟨c, rfl⟩
  · obtain ⟨c, -, hc⟩ := h.last_some hnil
    exact ⟨c, hc⟩

/-- An entry that stands alone reports what the output goes on with. -/
theorem Records.output_append {config : Machine.Config} {events : List Event} {s : Session}
    (h : Records config events s) {fuel : Nat} {c : Compilation} {entry output : Text}
    (hc : compile (sourceOf (s.entries ++ [entry])) = .ok c)
    (houtput : outputOf s.config s.input fuel c = .ok output) (hentry : standsAlone entry = true) :
    s.output ++ beyond s.output output = output := by
  apply append_beyond
  by_cases hnil : reportedSince events = []
  · rw [h.output_nil hnil]
    exact List.nil_prefix
  · obtain ⟨c₀, fuel₀, hc₀, houtput₀⟩ := h.output_run hnil
    exact output_prefix_of_code_prefix houtput₀ houtput (code_prefix_of_compile hc₀ hc hentry)

/-- As long as every accepted entry stands alone, the reports are the output in pieces. -/
theorem output_eq_reports (config : Machine.Config) (requests : List Request)
    (h : ∀ entry ∈ acceptedSince (after config requests).1, standsAlone entry = true) :
    (after config requests).2.output = (reportedSince (after config requests).1).flatten := by
  induction requests with
  | nil => rfl
  | cons request earlier ih =>
    have hrecords := records_after config earlier
    generalize hs : (after config earlier).2 = s at *
    generalize hevents : (after config earlier).1 = events at *
    have hafter : after config (request :: earlier) =
        ((s.perform request).1 :: events, (s.perform request).2) := by
      rw [after, ← hs, ← hevents]
    rw [hafter] at h ⊢
    cases request with
    | eval fuel entry =>
      rw [perform] at h ⊢
      rcases heval : s.eval fuel entry with ⟨refusal | report, s'⟩ <;> rw [heval] at h
      · obtain ⟨rfl, -⟩ := cause_of_eval heval
        exact ih h
      · obtain ⟨c, output, hc, houtput, rfl, rfl⟩ := exists_of_eval heval
        simp only [acceptedSince, List.forall_mem_append, List.forall_mem_singleton] at h
        simp only [reportedSince, List.flatten_append, List.flatten_singleton]
        rw [← ih h.1, hrecords.output_append hc houtput h.2]
    | setInput input => rfl
    | reset => rfl

/-- What holds of a session after some events. -/
structure ReportsOnce (config : Machine.Config) (events : List Event) (s : Session) : Prop where
  /-- A refused entry, one that does not compile or whose run fails, leaves the session as it
      was, in the shell too. -/
  refused : ∀ fuel entry refusal s', s.eval fuel entry = (.error refusal, s') → s' = s ∧
    ((∃ failure, compile (sourceOf (s.entries ++ [entry])) = .error failure) ∨
      ∃ c, compile (sourceOf (s.entries ++ [entry])) = .ok c ∧
        outputOf s.config s.input fuel c = .error refusal) ∧
    s.perform (.eval fuel entry) = (.refused entry refusal, s) ∧ (Repl.evaluate fuel s entry).2 = s
  /-- The program of the session is made of the entries accepted since the last reset. -/
  source : s.source = sourceOf (acceptedSince events)
  /-- There is a last compilation unless nothing was accepted since then. -/
  last_none : s.last = none ↔ acceptedSince events = []
  /-- It is the compilation of the program. -/
  last_some : ∀ c, s.last = some c → compile s.source = .ok c
  /-- The code of the program is the first part of the code after another accepted entry. -/
  code : ∀ fuel entry report s', s.eval fuel entry = (.ok report, s') → standsAlone entry = true →
    ∃ c c', compile s.source = .ok c ∧ compile s'.source = .ok c' ∧ c.code <+: c'.code
  /-- The reports since the input was set, if there are any, are together the complete output of
      the program for that input. -/
  reports : (∀ entry ∈ acceptedSince events, standsAlone entry = true) →
    reportedSince events ≠ [] → ∃ c enough, compile s.source = .ok c ∧ ∀ fuel, enough ≤ fuel →
      outputOf config (inputAfter events) fuel c = .ok (reportedSince events).flatten

/-- Sessions report every output byte exactly once, whatever was asked of them. -/
theorem reports_every_byte_once (config : Machine.Config) (requests : List Request) :
    ReportsOnce config (after config requests).1 (after config requests).2 := by
  have h := records_after config requests
  have houtput := output_eq_reports config requests
  generalize (after config requests).2 = s at h houtput ⊢
  generalize (after config requests).1 = events at h houtput ⊢
  constructor
  · intro fuel entry refusal s' heval
    obtain ⟨rfl, hcause⟩ := cause_of_eval heval
    refine ⟨rfl, hcause.imp_left fun ⟨failure, hfailure, _⟩ => ⟨failure, hfailure⟩, ?_, ?_⟩
    · rw [perform, heval]
    · rw [Repl.evaluate, heval]
  · rw [source, h.entries_eq]
  · refine ⟨fun hnone => ?_, h.last_none⟩
    by_contra hne
    obtain ⟨c, hlast, -⟩ := h.last_some hne
    cases hnone.symm.trans hlast
  · intro c hc
    by_cases hnil : acceptedSince events = []
    · cases (h.last_none hnil).symm.trans hc
    · obtain ⟨c', hlast, hcompile⟩ := h.last_some hnil
      cases hlast.symm.trans hc
      exact hcompile
  · intro fuel entry report s' heval hentry
    obtain ⟨c, hc⟩ := h.exists_compile
    obtain ⟨c', output, hc', -, -, rfl⟩ := exists_of_eval heval
    exact ⟨c, c', hc, hc', code_prefix_of_compile hc hc' hentry⟩
  · intro halone hne
    obtain ⟨c, enough, hc, hrun⟩ := h.output_run hne
    refine ⟨c, enough, hc, fun fuel hfuel => ?_⟩
    rw [← houtput halone, ← h.config_eq, ← h.input_eq]
    exact outputOf_of_le hrun hfuel

/-- A program is entered in three pieces, with an input set before the second one and an entry
    between the last two that does not compile. The latest request comes first. -/
def pieces : List Request :=
  [.eval 99 "print(a) print(b)", .eval 99 "print(c)", .eval 99 "input(b) print(b)",
    .setInput "7", .eval 99 "Int a = 2 Int b = a /* b = 2 */"]

theorem reports_every_byte_once_pieces :
    acceptedSince (after {} pieces).1 =
        ["Int a = 2 Int b = a /* b = 2 */", "input(b) print(b)", "print(a) print(b)"] ∧
      reportedSince (after {} pieces).1 = [[0x37], [2, 0x37]] ∧
      ∃ c enough, compile (after {} pieces).2.source = .ok c ∧ ∀ fuel, enough ≤ fuel →
        outputOf {} "7" fuel c = .ok [0x37, 2, 0x37] := by
  have hevents : acceptedSince (after {} pieces).1 =
        ["Int a = 2 Int b = a /* b = 2 */", "input(b) print(b)", "print(a) print(b)"] ∧
      reportedSince (after {} pieces).1 = [[0x37], [2, 0x37]] ∧
      inputAfter (after {} pieces).1 = "7" := by decide +kernel
  obtain ⟨haccepted, hreported, hinput⟩ := hevents
  have halone : ∀ entry ∈ acceptedSince (after {} pieces).1, standsAlone entry = true := by
    rw [haccepted]
    decide +kernel
  refine ⟨haccepted, hreported, ?_⟩
  obtain ⟨c, enough, hc, hruns⟩ := (reports_every_byte_once {} pieces).reports halone
    (by rw [hreported]; simp)
  rw [hinput, hreported] at hruns
  exact ⟨c, enough, hc, hruns⟩

end Goat.Session
