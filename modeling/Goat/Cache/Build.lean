import Goat.Cache.Basic
import Goat.Compilation.Basic

/-!
# Building with a cache

A source is compiled only if the cache has no program for it. What the cache cannot
do never keeps a source from being compiled, unless it has no hash for the source.
-/

namespace Goat.Cache

/-- A compiler: the compilation of a source or the failure, with the trace. -/
abbrev Compiler := Text → Except Failure Compilation × List Text

/-- What came of building a source. -/
structure Build where
  /-- The code, and its compilation unless the code was in the cache. -/
  result : Except Failure (Text × Option Compilation)
  /-- The trace of the compiler. -/
  trace : List Text := []
  /-- The cache after the build, if one was used. -/
  cache : Option Cache := none
  /-- Why the cache could not be read. -/
  readError : Option Error := none
  /-- Why the cache could not be written. -/
  writeError : Option Error := none

/-- The program in the cache, or why it cannot be read. -/
def lookUp (cache : Option Cache) (source : Text) : Option (Option Text × Option Error) :=
  match cache with
  | none => some (none, none)
  | some c => (c.get source).map fun
    | .ok found => (found, none)
    | .error e => (none, some e)

/-- The cache with a compiled program in it, or why it cannot be written. -/
def keep (cache : Option Cache) (source code : Text) (now : Instant) :
    Option (Option Cache × Option Error) :=
  match cache with
  | none => some (none, none)
  | some c => (c.put source code now).map fun
    | .ok c => (some c, none)
    | .error e => (some c, some e)

/-- Builds a source, with or without a cache; `none` if the cache has no hash for it. -/
def build (compiler : Compiler) (cache : Option Cache) (now : Instant) (source : Text) :
    Option Build := do
  match ← lookUp cache source with
  | (some code, _) => return { result := .ok (code, none), cache }
  | (none, readError) =>
    match compiler source with
    | (.error f, trace) => return { result := .error f, trace, cache, readError }
    | (.ok c, trace) =>
      let (cache, writeError) ← keep cache source c.text now
      return { result := .ok (c.text, some c), trace, cache, readError, writeError }

end Goat.Cache
