import Goat.Cli.App
import Goat.Proofs.Compression
import Goat.Workspace.Basic

/-!
# The cache changes no result

Compilers of several versions share one store. A record is found by a hash of the version and the
source, so as long as no two of the pairs in use have the same hash, a record that is found was
stored for the same source by a compiler of the same version, and holds what that compiler makes
of it. Removing records never harms, since every store that is left keeps to the same.
-/

namespace Goat

namespace Cache

/-- What a compiler makes of a source: the code, or `none` if it rejects the source. -/
def Compiler.code? (compiler : Compiler) (source : Text) : Option Text :=
  match (compiler source).1 with
  | .ok c => some c.text
  | .error _ => none

/-- What was packed can be unpacked. -/
def Scheme.Lawful (scheme : Scheme) : Prop := ∀ code, scheme.unpack (scheme.pack code) = .ok code

/-- The pairs of a version and a source all have hashes, and no two of them the same. -/
def Scheme.Distinguishes (scheme : Scheme) (pairs : List (Text × Text)) : Prop :=
  (∀ p ∈ pairs, (scheme.hash? p.1 p.2).isSome) ∧
    ∀ p ∈ pairs, ∀ q ∈ pairs, scheme.hash? p.1 p.2 = scheme.hash? q.1 q.2 → p = q

instance (scheme : Scheme) (pairs : List (Text × Text)) :
    Decidable (scheme.Distinguishes pairs) :=
  inferInstanceAs (Decidable (_ ∧ _))

/-- A record was stored for one of the pairs of a version and a source, and holds the code that the
    compiler of the version makes of the source. -/
def Record.Faithful (scheme : Scheme) (compilers : Text → Compiler) (pairs : List (Text × Text))
    (r : Record) : Prop :=
  ∃ version source code, (version, source) ∈ pairs ∧
    scheme.hash? version source = some r.hash ∧
    (compilers version).code? source = some code ∧ scheme.unpack r.blob = .ok code

/-- Hashes are keys: no two records have the same. -/
def Store.Keyed (s : Store) : Prop := (s.records.map Record.hash).Nodup

/-- Every hash has one record at most, and every record holds the code of its pair. -/
structure Store.Faithful (scheme : Scheme) (compilers : Text → Compiler)
    (pairs : List (Text × Text)) (s : Store) : Prop where
  keyed : s.Keyed
  rows : ∀ r ∈ s.records, r.Faithful scheme compilers pairs

namespace Store

variable {scheme : Scheme} {compilers : Text → Compiler} {pairs : List (Text × Text)}
  {s s' : Store} {version source code : Text}

theorem Keyed.sublist (h : s.Keyed) (hsub : s'.records.Sublist s.records) : s'.Keyed :=
  List.Nodup.sublist (hsub.map Record.hash) h

theorem faithful_empty (scheme : Scheme) (compilers : Text → Compiler)
    (pairs : List (Text × Text)) : Faithful scheme compilers pairs {} where
  keyed := List.nodup_nil
  rows := by simp

/-- Records can be left out. -/
theorem Faithful.sublist (h : s.Faithful scheme compilers pairs)
    (hsub : s'.records.Sublist s.records) : s'.Faithful scheme compilers pairs where
  keyed := h.keyed.sublist hsub
  rows r hr := h.rows r (hsub.subset hr)

theorem erase_sublist (s : Store) (hash : Text) : (s.erase hash).records.Sublist s.records :=
  List.filter_sublist

theorem foldl_erase_sublist (s : Store) (hashes : List Text) :
    (hashes.foldl erase s).records.Sublist s.records := by
  induction hashes generalizing s with
  | nil => exact List.Sublist.refl _
  | cons hash hashes ih => exact (ih (s.erase hash)).trans (s.erase_sublist hash)

theorem prune_sublist (s : Store) (before : Instant) :
    (s.prune before).2.records.Sublist s.records :=
  List.filter_sublist

theorem pruneSize_sublist (s : Store) (limit : Int) :
    (s.pruneSize limit).2.records.Sublist s.records := by
  unfold pruneSize
  split
  · exact List.Sublist.refl _
  · exact s.foldl_erase_sublist _

theorem clear_sublist (s : Store) : s.clear.2.records.Sublist s.records := List.nil_sublist _

theorem hash_ne_of_mem_erase {hash : Text} {r : Record} (h : r ∈ (s.erase hash).records) :
    r.hash ≠ hash := by
  have := (List.mem_filter.1 h).2
  simpa using this

/-- A record takes the place of an older one with its hash. -/
theorem Keyed.insert (h : s.Keyed) (r : Record) : (s.insert r).Keyed := by
  have herase : (s.erase r.hash).Keyed := h.sublist (s.erase_sublist r.hash)
  unfold Keyed Store.insert
  rw [List.map_append, List.map_singleton]
  refine List.nodup_append.2 ⟨herase, by simp, fun hash hmem last hlast => ?_⟩
  obtain rfl := List.mem_singleton.1 hlast
  obtain ⟨old, hold, rfl⟩ := List.mem_map.1 hmem
  exact hash_ne_of_mem_erase hold

theorem Faithful.insert (h : s.Faithful scheme compilers pairs) {r : Record}
    (hr : r.Faithful scheme compilers pairs) : (s.insert r).Faithful scheme compilers pairs where
  keyed := h.keyed.insert r
  rows old hold := by
    rcases List.mem_append.1 hold with hold | hold
    · exact h.rows old ((s.erase_sublist r.hash).subset hold)
    · obtain rfl := List.mem_singleton.1 hold
      exact hr

theorem Faithful.put (h : s.Faithful scheme compilers pairs) (hscheme : scheme.Lawful)
    (hpair : (version, source) ∈ pairs) {hash : Text}
    (hhash : scheme.hash? version source = some hash)
    (hcode : (compilers version).code? source = some code) (now : Instant) :
    (s.put scheme hash source code now).Faithful scheme compilers pairs :=
  h.insert ⟨version, source, code, hpair, hhash, hcode, hscheme code⟩

/-- Looking for a source of a compiler finds the code that the compiler makes of it, or nothing. -/
theorem Faithful.get (h : s.Faithful scheme compilers pairs) (hkeys : scheme.Distinguishes pairs)
    (hpair : (version, source) ∈ pairs) {hash : Text}
    (hhash : scheme.hash? version source = some hash) :
    s.get scheme hash = .ok none ∨
      ∃ code, s.get scheme hash = .ok (some code) ∧
        (compilers version).code? source = some code := by
  unfold Store.get find?
  cases hfind : s.records.find? fun r => r.hash == hash with
  | none => exact .inl rfl
  | some r =>
    -- The record may come from any of the pairs, but only one of them has its hash.
    obtain ⟨version', source', code, hpair', hhash', hcode, hblob⟩ :=
      h.rows r (List.mem_of_find?_eq_some hfind)
    have hfound : r.hash = hash := by simpa using List.find?_some hfind
    have hsame := hkeys.2 _ hpair' _ hpair (by rw [hhash', hhash, hfound])
    cases hsame
    exact .inr ⟨code, by simp [hblob, Except.map], hcode⟩

end Store

section Builds

variable {scheme : Scheme} {compilers : Text → Compiler} {pairs : List (Text × Text)}
  {store : Store} {version source : Text}

/-- The code that a build yields, if it yields any. -/
def Build.code? (b : Build) : Option Text :=
  match b.result with
  | .ok (code, _) => some code
  | .error _ => none

theorem exists_build_without_cache (compiler : Compiler) (now : Instant) (source : Text) :
    ∃ b, build compiler none now source = some b ∧ b.code? = compiler.code? source ∧
      b.cache = none := by
  unfold Compiler.code?
  rcases hcompiled : compiler source with ⟨_ | _, _⟩
  all_goals exact ⟨_, by rw [build, hcompiled]; rfl, rfl, rfl⟩

theorem build_unhashed {cache : Cache} (h : cache.hash? source = none) (compiler : Compiler)
    (now : Instant) : build compiler (some cache) now source = none := by
  have hlook : lookUp (some cache) source = none := by rw [lookUp, Cache.get, h]; rfl
  rw [build, hlook]
  rfl

theorem lookUp_of_get {hash : Text} (hhash : scheme.hash? version source = some hash)
    {found : Option Text} (h : store.get scheme hash = .ok found) :
    lookUp (some { version, store, scheme }) source = some (found, none) := by
  simp only [lookUp, Cache.get, Cache.hash?, hhash, Option.map_some, whenOpen, h, if_true]
  rfl

/-- A build with the shared store yields what the compiler yields, and leaves a store that keeps
    to the same. -/
theorem Store.Faithful.exists_build (h : store.Faithful scheme compilers pairs)
    (hscheme : scheme.Lawful) (hkeys : scheme.Distinguishes pairs)
    (hpair : (version, source) ∈ pairs) (now : Instant) :
    ∃ b store', Cache.build (compilers version) (some { version, store, scheme }) now source =
        some b ∧ b.code? = (compilers version).code? source ∧
      b.cache = some { version, store := store', scheme } ∧
      store'.Faithful scheme compilers pairs := by
  obtain ⟨hash, hhash⟩ := Option.isSome_iff_exists.1 (hkeys.1 _ hpair)
  rcases h.get hkeys hpair hhash with hmiss | ⟨code, hhit, hcode⟩
  · have hlook := lookUp_of_get hhash hmiss
    rcases hcompiled : compilers version source with ⟨failure | compilation, trace⟩
    · refine ⟨{ result := .error failure, trace, cache := some _ }, store, ?_, ?_, rfl, h⟩
      · rw [Cache.build, hlook, hcompiled]
        rfl
      · rw [Compiler.code?, hcompiled]
        rfl
    · have hcode : (compilers version).code? source = some compilation.text := by
        rw [Compiler.code?, hcompiled]
      refine ⟨{ result := .ok (compilation.text, some compilation), trace, cache := some _ }, _, ?_,
        hcode.symm, rfl, h.put hscheme hpair hhash hcode now⟩
      rw [Cache.build, hlook, hcompiled]
      simp only [keep, Cache.put, Cache.hash?, hhash]
      rfl
  · refine ⟨{ result := .ok (code, none), cache := some _ }, store, ?_, hcode.symm, rfl, h⟩
    rw [Cache.build, lookUp_of_get hhash hhit]
    rfl

/-- Only a build that compiles changes the cache. -/
theorem build_cache_eq {compiler : Compiler} {cache : Option Cache} {now : Instant} {b : Build}
    (hbuild : Cache.build compiler cache now source = some b)
    (h : ∀ code compilation, b.result ≠ .ok (code, some compilation)) : b.cache = cache := by
  obtain ⟨⟨found, readError⟩, -, hrest⟩ := Option.bind_eq_some_iff.1 hbuild
  cases found with
  | some code =>
    cases hrest
    rfl
  | none =>
    rcases hcompiled : compiler source with ⟨failure | c, trace⟩ <;> rw [hcompiled] at hrest
    · cases hrest
      rfl
    · obtain ⟨_, -, hkept⟩ := Option.bind_eq_some_iff.1 hrest
      cases hkept
      exact absurd rfl (h c.text c)

end Builds

end Cache

/-! ### Compiling a file -/

namespace Cli

/-- On a host in memory, a command ends with a result and leaves an application. -/
def Gives {α : Type} (command : Command Workspace.Program α) (app : App) (w : Workspace)
    (result : Except Stop α) (app' : App) : Prop :=
  ∃ w', (command.run.run app).run w = ((result, app'), w')

namespace Gives

variable {α β : Type} {command : Command Workspace.Program α}
  {next : α → Command Workspace.Program β} {app app₁ app₂ : App} {w : Workspace} {a : α}
  {result : Except Stop β}

theorem run_bind {w₁ : Workspace} (h : (command.run.run app).run w = ((.ok a, app₁), w₁)) :
    ((command >>= next).run.run app).run w = ((next a).run.run app₁).run w₁ := by
  simp only [ExceptT.run_bind, StateT.run_bind, h]
  rfl

theorem bind (h : Gives command app w (.ok a) app₁)
    (hnext : ∀ w, Gives (next a) app₁ w result app₂) :
    Gives (command >>= next) app w result app₂ := by
  obtain ⟨w₁, hrun⟩ := h
  obtain ⟨w₂, hrun₂⟩ := hnext w₁
  exact ⟨w₂, (run_bind hrun).trans hrun₂⟩

/-- What comes of the rest may depend on the workspace that it starts in. -/
theorem exists_bind {ι : Type} {results : ι → Except Stop β} {apps : ι → App}
    (h : Gives command app w (.ok a) app₁)
    (hnext : ∀ w, ∃ i, Gives (next a) app₁ w (results i) (apps i)) :
    ∃ i, Gives (command >>= next) app w (results i) (apps i) := by
  obtain ⟨w₁, hrun⟩ := h
  obtain ⟨i, w₂, hrun₂⟩ := hnext w₁
  exact ⟨i, w₂, (run_bind hrun).trans hrun₂⟩

theorem bind_error {stop : Stop} (h : Gives command app w (.error stop) app₁) :
    Gives (command >>= next) app w (.error stop) app₁ := by
  obtain ⟨w₁, hrun⟩ := h
  refine ⟨w₁, ?_⟩
  simp only [ExceptT.run_bind, StateT.run_bind, hrun]
  rfl

theorem pure (a : α) (app : App) (w : Workspace) : Gives (Pure.pure a) app w (.ok a) app := ⟨w, rfl⟩

theorem throw (stop : Stop) (app : App) (w : Workspace) :
    Gives (MonadExcept.throw stop : Command Workspace.Program α) app w (.error stop) app :=
  ⟨w, rfl⟩

end Gives

section Commands

variable {app : App} {w : Workspace}

theorem gives_logLine (line : Text) (app : App) (w : Workspace) :
    Gives (logLine line) app w (.ok ()) app := by
  obtain ⟨config, log, cache⟩ := app
  cases log with
  | standardError => exact ⟨_, rfl⟩
  | standardOutput => exact ⟨_, rfl⟩
  | file path => exact ⟨_, rfl⟩

theorem gives_info (parts : List Text) (app : App) (w : Workspace) :
    Gives (info parts) app w (.ok ()) app := by
  unfold info
  refine .bind ⟨w, rfl⟩ fun w => ?_
  dsimp only
  split
  · exact .pure () app w
  · exact gives_logLine _ app w

theorem gives_logCacheError (e : Option Cache.Error) (app : App) (w : Workspace) :
    Gives (logCacheError e) app w (.ok ()) app := by
  cases e with
  | none => exact .pure () app w
  | some e => exact gives_logLine _ app w

theorem gives_logTrace (trace : List Text) (app : App) (w : Workspace) :
    Gives (logTrace trace) app w (.ok ()) app := by
  have hlines (w : Workspace) :
      Gives (trace.forM fun line => logLine (Log.labelled traceLabel line)) app w (.ok ()) app := by
    induction trace generalizing w with
    | nil => exact .pure () app w
    | cons line trace ih => exact .bind (gives_logLine _ app w) ih
  unfold logTrace
  refine .bind ⟨w, rfl⟩ fun w => ?_
  split
  · exact hlines w
  · exact .pure () app w

theorem gives_reportFailure (f : Failure) (path source : Text) (app : App) (w : Workspace) :
    Gives (reportFailure f path source) app w (.ok ()) app := ⟨_, rfl⟩

/-- The cache that a build uses, if that is wanted and the settings allow it. -/
def App.cacheFor? (app : App) (useCache : Bool) : Option Cache :=
  if useCache && app.config.cache.enabled then app.cache.map OpenCache.cache else none

theorem gives_cacheFor {opened : OpenCache} (hcache : app.cache = some opened) (useCache : Bool)
    (w : Workspace) : Gives (cacheFor useCache) app w (.ok (app.cacheFor? useCache)) app := by
  unfold cacheFor openCache App.cacheFor?
  refine .bind ⟨w, rfl⟩ fun w => ?_
  by_cases hused : (useCache && app.config.cache.enabled) = true
  · rw [if_pos hused, if_pos hused]
    rw [hcache]
    refine .bind (.bind (a := app) ⟨w, rfl⟩ fun w => ?_) fun w => .pure (some opened.cache) app w
    rw [hcache]
    exact .pure opened app w
  · rw [if_neg hused, if_neg hused]
    exact .pure none app w

/-- A changed cache is the opened one from then on. -/
theorem gives_saveCache {opened : OpenCache} (hcache : app.cache = some opened) (cache : Cache)
    (w : Workspace) :
    Gives (saveCache cache) app w (.ok ()) { app with cache := some { opened with cache } } := by
  unfold saveCache
  refine .bind ⟨w, rfl⟩ fun w => ?_
  simp only [hcache]
  refine .bind ⟨w, rfl⟩ fun w => ?_
  split
  · exact .pure () _ w
  · exact ⟨_, rfl⟩

/-- What a command yields that compiles a file with the build `b`. -/
def outcomeOf (b : Cache.Build) : Except Stop (Text × Option Statistics) :=
  match b.result with
  | .ok (code, compilation?) => .ok (code, compilation?.map Compilation.statistics)
  | .error _ => .error (.status 1)

/-- A build is concluded with what came of it, and its cache is the opened one from then on. -/
theorem gives_concludeBuild {opened : OpenCache} (hcache : app.cache = some opened)
    (path source : Text) {b : Cache.Build}
    (hkept : (∀ code compilation, b.result ≠ .ok (code, some compilation)) →
      b.cache.getD opened.cache = opened.cache) (elapsed : Text) (w : Workspace) :
    Gives (concludeBuild path source b elapsed) app w (outcomeOf b)
      { app with cache := some { opened with cache := b.cache.getD opened.cache } } := by
  have hsame (h : b.cache.getD opened.cache = opened.cache) :
      { app with cache := some { opened with cache := b.cache.getD opened.cache } } = app := by
    rw [h, ← hcache]
  unfold concludeBuild outcomeOf
  refine .bind (gives_logCacheError _ app w) fun w => .bind (gives_logTrace _ app w) fun w => ?_
  rcases hresult : b.result with f | ⟨code, _ | compilation⟩
  · rw [hsame (hkept (by simp [hresult]))]
    exact .bind (gives_reportFailure f path source app w) fun w => .throw _ app w
  · rw [hsame (hkept (by simp [hresult]))]
    exact .bind (gives_info _ app w) fun w => .pure _ app w
  · refine .bind (gives_info _ app w) fun w => ?_
    cases hnew : b.cache with
    | none =>
      rw [hnew] at hsame
      rw [hsame rfl]
      exact .pure _ app w
    | some cache =>
      refine .bind (gives_logCacheError _ app w) fun w => ?_
      exact .bind (gives_saveCache hcache cache w) fun w => .pure _ _ w

theorem code_outcomeOf (b : Cache.Build) : (outcomeOf b).toOption.map Prod.fst = b.code? := by
  unfold outcomeOf Cache.Build.code?
  rcases b.result with _ | _ <;> rfl

theorem gives_unreadable {e : FileError} {path : Text} (hread : w.readFile path = .error e)
    (compiler : Cache.Compiler) (useCache : Bool) :
    Gives (buildFileWith compiler path useCache) app w (.error (.error (.file e))) app := by
  unfold buildFileWith
  refine .bind (a := .error e) ⟨w, by rw [← hread]; rfl⟩ fun w => ?_
  exact .bind_error (.throw _ app w)

/-- What compiling a file comes to with the build of its text, and the application after it. -/
def endOf (opened : OpenCache) (app : App) :
    Option Cache.Build → Except Stop (Text × Option Statistics) × App
  | some b =>
    (outcomeOf b, { app with cache := some { opened with cache := b.cache.getD opened.cache } })
  | none => (.error .crash, app)

/-- Compiling a file builds its text, with the opened cache or without one, and keeps the cache
    of the build. -/
theorem exists_gives_build {opened : OpenCache} (hcache : app.cache = some opened)
    {path source : Text} (hread : w.readFile path = .ok source) (compiler : Cache.Compiler)
    (useCache : Bool) :
    ∃ now, Gives (buildFileWith compiler path useCache) app w
      (endOf opened app (Cache.build compiler (app.cacheFor? useCache) now source)).1
      (endOf opened app (Cache.build compiler (app.cacheFor? useCache) now source)).2 := by
  have hopened : (app.cacheFor? useCache).getD opened.cache = opened.cache := by
    rw [App.cacheFor?, hcache]
    split <;> rfl
  unfold buildFileWith
  refine Gives.exists_bind (a := .ok source) ⟨w, by rw [← hread]; rfl⟩ fun w => ?_
  refine Gives.exists_bind (.pure source app w) fun w => ?_
  refine Gives.exists_bind (gives_cacheFor hcache useCache w) fun w => ⟨w.clock, ?_⟩
  refine .bind (a := w.clock) ⟨_, rfl⟩ fun w' => .bind ⟨w', rfl⟩ fun w' => ?_
  cases hbuild : Cache.build compiler (app.cacheFor? useCache) w.clock source with
  | none => exact .throw _ app w'
  | some b =>
    refine gives_concludeBuild hcache path source (fun hresult => ?_) _ w'
    rw [Cache.build_cache_eq hbuild hresult, hopened]

end Commands

end Cli

/-! ### Requests to a shared store -/

namespace Cache

/-- A call of the command that compiles a file, with or without the cache. -/
structure Call where
  /-- The files, and all else around the command. -/
  workspace : Workspace
  config : Config
  log : Cli.LogOutput
  /-- The file that the store is kept in, unless it is kept in memory. -/
  storeFile : Option Text := none
  path : Text
  useCache : Bool

namespace Call

/-- The current text of the file, if it can be read. -/
def source? (call : Call) : Option Text := (call.workspace.readFile call.path).toOption

/-- The call looks into the store. -/
def usesStore (call : Call) : Bool := call.useCache && call.config.cache.enabled

/-- The application in which a compiler uses a cache. -/
def app (call : Call) (cache : Cache) : Cli.App :=
  { config := call.config
    log := call.log
    cache := some ⟨cache, call.storeFile⟩ }

/-- What the command yields for the compiler of the version of a cache, and the store after it. -/
def run (call : Call) (compilers : Text → Compiler) (cache : Cache) :
    Except Cli.Stop (Text × Option Statistics) × Store :=
  let command : Cli.Command Workspace.Program (Text × Option Statistics) :=
    Cli.buildFileWith (compilers cache.version) call.path call.useCache
  let ((result, app), _) := (command.run.run (call.app cache)).run call.workspace
  (result, (app.cache.map fun opened => opened.cache.store).getD cache.store)

/-- The code that the command yields, if it yields any. -/
def code? (call : Call) (compilers : Text → Compiler) (cache : Cache) : Option Text :=
  (call.run compilers cache).1.toOption.map Prod.fst

end Call

/-- What a compiler can be asked to do with a shared store. -/
inductive Request where
  | compileFile (call : Call)
  | prune (before : Instant)
  | pruneSize (limit : Int)
  | clear

/-- The version and source that a request looks for in the store. -/
def Request.pair? (version : Text) : Request → Option (Text × Text)
  | compileFile call =>
    if call.usesStore then call.source?.map fun source => (version, source) else none
  | _ => none

/-- The store after some records were removed, or as it was if that failed. -/
def storeAfter (store : Store) : Except Error (Nat × Cache) → Store
  | .ok (_, cache) => cache.store
  | .error _ => store

/-- The store after a request to a compiler of some version. -/
def perform (scheme : Scheme) (compilers : Text → Compiler) (store : Store) :
    Text × Request → Store
  | (version, request) =>
    let cache : Cache := { version, store, scheme }
    match request with
    | .compileFile call => (call.run compilers cache).2
    | .prune before => storeAfter store (cache.prune before)
    | .pruneSize limit => storeAfter store (cache.pruneSize limit)
    | .clear => storeAfter store cache.clear

/-- The store after requests in a row, which start with an empty one. -/
def performAll (scheme : Scheme) (compilers : Text → Compiler)
    (requests : List (Text × Request)) : Store :=
  requests.foldl (perform scheme compilers) {}

/-- The versions and sources that some requests look for. -/
def pairsUsed (requests : List (Text × Request)) : List (Text × Text) :=
  requests.filterMap fun request => request.2.pair? request.1

section Requests

variable {scheme : Scheme} {compilers : Text → Compiler} {pairs : List (Text × Text)}
  {store : Store} {version : Text} {call : Call}

theorem Call.readFile_of_source? {source : Text} (h : call.source? = some source) :
    call.workspace.readFile call.path = .ok source := by
  unfold Call.source? at h
  cases hread : call.workspace.readFile call.path with
  | error e => simp [hread, Except.toOption] at h
  | ok text => simpa [hread, Except.toOption] using h

theorem Call.run_of_gives {result : Except Cli.Stop (Text × Option Statistics)} {cache : Cache}
    {app : Cli.App} (h : Cli.Gives (Cli.buildFileWith (compilers cache.version) call.path
      call.useCache) (call.app cache) call.workspace result app) :
    call.run compilers cache =
      (result, (app.cache.map fun opened => opened.cache.store).getD cache.store) := by
  obtain ⟨w, hrun⟩ := h
  rw [Call.run, hrun]

/-- A file that cannot be read yields no code and leaves the store alone. -/
theorem Call.run_unreadable (h : call.source? = none) (compilers : Text → Compiler)
    (cache : Cache) :
    call.code? compilers cache = none ∧ (call.run compilers cache).2 = cache.store := by
  cases hread : call.workspace.readFile call.path with
  | ok text => simp [Call.source?, hread, Except.toOption] at h
  | error e =>
    have hrun : call.run compilers cache = _ :=
      Call.run_of_gives (Cli.gives_unreadable hread (compilers cache.version) call.useCache)
    rw [Call.code?, hrun]
    exact ⟨rfl, rfl⟩

/-- A call builds the text of its file, with the cache if it uses the store. -/
theorem Call.exists_run_eq {source : Text} (h : call.source? = some source)
    (compilers : Text → Compiler) (cache : Cache) :
    ∃ now result app, Cli.endOf ⟨cache, call.storeFile⟩ (call.app cache)
        (build (compilers cache.version) (if call.usesStore then some cache else none) now
          source) = (result, app) ∧
      call.run compilers cache =
        (result, (app.cache.map fun opened => opened.cache.store).getD cache.store) := by
  have happ : (call.app cache).cache = some ⟨cache, call.storeFile⟩ := rfl
  obtain ⟨now, hgives⟩ := Cli.exists_gives_build happ (Call.readFile_of_source? h)
    (compilers cache.version) call.useCache
  exact ⟨now, _, _, rfl, Call.run_of_gives hgives⟩

/-- A call that looks for a source without a hash crashes and leaves the store alone. -/
theorem Call.run_unhashed {source : Text} (h : call.source? = some source)
    (huses : call.usesStore = true) (cache : Cache) (hhash : cache.hash? source = none)
    (compilers : Text → Compiler) : call.run compilers cache = (.error .crash, cache.store) := by
  obtain ⟨now, result, app, hend, hrun⟩ := Call.exists_run_eq h compilers cache
  rw [if_pos huses, build_unhashed hhash] at hend
  cases hend
  exact hrun

/-- A call yields what the compiler makes of the current text of the file. -/
theorem Store.Faithful.answers (h : store.Faithful scheme compilers pairs)
    (hscheme : scheme.Lawful) (hkeys : scheme.Distinguishes pairs)
    (hpair : ∀ p ∈ Request.pair? version (.compileFile call), p ∈ pairs) :
    call.code? compilers { version, store, scheme } =
        call.source?.bind (compilers version).code? ∧
      (call.run compilers { version, store, scheme }).2.Faithful scheme compilers pairs := by
  cases hsource : call.source? with
  | none =>
    obtain ⟨hcode, hstore⟩ := Call.run_unreadable hsource compilers { version, store, scheme }
    rw [hstore]
    exact ⟨hcode, h⟩
  | some source =>
    obtain ⟨now, result, app, hend, hrun⟩ :=
      Call.exists_run_eq hsource compilers { version, store, scheme }
    rw [Call.code?, hrun]
    cases huses : call.usesStore with
    | false =>
      obtain ⟨b, hbuild, hcode, hkept⟩ := exists_build_without_cache (compilers version) now source
      simp only [huses, Bool.false_eq_true, if_false, hbuild] at hend
      cases hend
      rw [hkept]
      exact ⟨(Cli.code_outcomeOf b).trans hcode, h⟩
    | true =>
      have hused : (version, source) ∈ pairs :=
        hpair _ (by simp [Request.pair?, huses, hsource])
      obtain ⟨b, store', hbuild, hcode, hkept, hfaithful⟩ := h.exists_build hscheme hkeys hused now
      simp only [huses, if_true, hbuild] at hend
      cases hend
      rw [hkept]
      exact ⟨(Cli.code_outcomeOf b).trans hcode, hfaithful⟩

/-- Every request keeps the store faithful. -/
theorem Store.Faithful.perform (h : store.Faithful scheme compilers pairs)
    (hscheme : scheme.Lawful) (hkeys : scheme.Distinguishes pairs) {request : Request}
    (hpair : ∀ p ∈ request.pair? version, p ∈ pairs) :
    (Cache.perform scheme compilers store (version, request)).Faithful scheme compilers pairs := by
  cases request with
  | compileFile call => exact (h.answers hscheme hkeys hpair).2
  | prune before => exact h.sublist (store.prune_sublist before)
  | pruneSize limit =>
    simp only [Cache.perform, Cache.pruneSize]
    split
    · exact h
    · exact h.sublist (store.pruneSize_sublist limit)
  | clear => exact h.sublist store.clear_sublist

theorem faithful_performAll (hscheme : scheme.Lawful) (hkeys : scheme.Distinguishes pairs)
    {requests : List (Text × Request)} (hpairs : ∀ p ∈ pairsUsed requests, p ∈ pairs) :
    (performAll scheme compilers requests).Faithful scheme compilers pairs := by
  unfold performAll
  have hempty := Store.faithful_empty scheme compilers pairs
  generalize ({} : Store) = store at hempty ⊢
  induction requests generalizing store with
  | nil => exact hempty
  | cons request requests ih =>
    have hrequest : ∀ p ∈ request.2.pair? request.1, p ∈ pairs := by
      intro p hp
      exact hpairs p (List.mem_filterMap.2 ⟨request, List.mem_cons_self, hp⟩)
    refine ih (fun p hp => hpairs p ?_) _ (hempty.perform hscheme hkeys hrequest)
    obtain ⟨later, hlater, hpair⟩ := List.mem_filterMap.1 hp
    exact List.mem_filterMap.2 ⟨later, List.mem_cons_of_mem _ hlater, hpair⟩

/-- The build cache is transparent. Compilers of any versions share one store that is empty at
    first; as long as all versions and sources they look for have hashes, and no two the same,
    every call yields code exactly if the compiler accepts the current text of the file, namely the
    code of that compiler, and the store has one record for a hash, which holds the code that its
    version makes of its source. Only a call that looks for a source without a hash crashes. -/
theorem build_cache_transparent {scheme : Scheme} (hscheme : scheme.Lawful)
    (compilers : Text → Compiler) (requests : List (Text × Request))
    (hkeys : scheme.Distinguishes (pairsUsed requests)) :
    (∀ before version call after, requests = before ++ (version, .compileFile call) :: after →
      call.code? compilers
          { version, store := performAll scheme compilers before, scheme } =
        call.source?.bind (compilers version).code?) ∧
    (performAll scheme compilers requests).Faithful scheme compilers (pairsUsed requests) ∧
    ∀ (version source : Text) (call : Call) (store : Store),
      Request.pair? version (.compileFile call) = some (version, source) →
      scheme.hash? version source = none →
      call.run compilers { version, store, scheme } = (.error .crash, store) := by
  refine ⟨?_, faithful_performAll hscheme hkeys fun _ hp => hp, ?_⟩
  · rintro before version call after rfl
    have hbefore : ∀ p ∈ pairsUsed before,
        p ∈ pairsUsed (before ++ (version, .compileFile call) :: after) := by
      intro p hp
      simp only [pairsUsed, List.filterMap_append, List.mem_append]
      exact .inl hp
    refine ((faithful_performAll hscheme hkeys hbefore).answers hscheme hkeys fun p hp => ?_).1
    simp only [pairsUsed, List.filterMap_append, List.mem_append]
    exact .inr (List.mem_filterMap.2 ⟨_, List.mem_cons_self, hp⟩)
  · intro version source call store hpair hhash
    rw [Request.pair?] at hpair
    split at hpair
    · rename_i huses
      obtain ⟨_, hsource, hpair⟩ := Option.map_eq_some_iff.1 hpair
      cases hpair
      exact Call.run_unhashed hsource huses { version, store, scheme } hhash compilers
    · cases hpair

/-- A compiler of the current version, and one of another version that makes the same of every
    source. -/
def sampleCompilers (version : Text) : Compiler :=
  if version = Goat.version then compileTraced else fun _ => (.ok ⟨[.write], [], 1⟩, [])

/-- A call to compile a file with a short program. -/
def sampleCall (useCache : Bool) : Call :=
  { workspace := { tree := ⟨[(["a.goat"], .file "Int x = 2 print(x)")]⟩ }
    config := { cache := { enabled := true } }
    log := .standardError
    path := "a.goat"
    useCache }

/-- Both versions store what they make of the program, one of them compiles it without the store,
    and then it is found. -/
def sampleRequests : List (Text × Request) :=
  [("0.4.0", .compileFile (sampleCall true)), ("0.5.0", .compileFile (sampleCall true)),
    ("0.5.0", .compileFile (sampleCall false)), ("0.5.0", .pruneSize 1000),
    ("0.4.0", .compileFile (sampleCall true)), ("0.5.0", .prune 0)]

/-- Sources are found by their own text, with the version in front. -/
def sampleScheme : Scheme :=
  { Scheme.standard with hash? := fun version source => some (Text.join [version, " ", source]) }

theorem build_cache_transparent_found :
    sampleScheme.Lawful ∧ sampleScheme.Distinguishes (pairsUsed sampleRequests) ∧
      (sampleCall true).code? sampleCompilers
        { version := "0.4.0"
          store := performAll sampleScheme sampleCompilers (sampleRequests.take 4)
          scheme := sampleScheme } = some "[-]++." ∧
      (sampleCall true).code? sampleCompilers
        { version := "0.5.0"
          store := performAll sampleScheme sampleCompilers (sampleRequests.take 1)
          scheme := sampleScheme } = some "." ∧
      (performAll sampleScheme sampleCompilers sampleRequests).Faithful sampleScheme
        sampleCompilers (pairsUsed sampleRequests) := by
  have hscheme : sampleScheme.Lawful := Zstd.decode_encode
  have hkeys : sampleScheme.Distinguishes (pairsUsed sampleRequests) := by decide +kernel
  obtain ⟨hcalls, hfaithful, -⟩ :=
    build_cache_transparent hscheme sampleCompilers sampleRequests hkeys
  refine ⟨hscheme, hkeys, ?_, ?_, hfaithful⟩
  · rw [hcalls (sampleRequests.take 4) "0.4.0" (sampleCall true) (sampleRequests.drop 5) rfl]
    decide +kernel
  · rw [hcalls (sampleRequests.take 1) "0.5.0" (sampleCall true) (sampleRequests.drop 2) rfl]
    decide +kernel

end Requests

end Cache

end Goat
