import Goat.Cache.Listing
import Goat.Cli.App

/-!
# The cache command

The command that shows and cleans the cache.
-/

namespace Goat.Cli

/-- What to remove from the cache. -/
structure PruneSettings where
  /-- The date or age of what is kept; empty for no bound. -/
  before : Text := []
  maxSize : Text

/-- The flags of the command that cleans the cache. -/
def pruneFlags : List (Flag PruneSettings) :=
  [ ⟨"before", "Remove entries created before this date or age (7d, 36h, 2026-01-02)",
      .text (·.before) fun before s => { s with before }⟩,
    ⟨"max-size", "Keep at most this much stored output, e.g. 50MB",
      .text (·.maxSize) fun maxSize s => { s with maxSize }⟩ ]

section

variable {m : Type → Type} [Monad m] [Host m]

/-- Keeps the cache without some records; yields how many there were. -/
def removeRecords (result : Except Cache.Error (Nat × Cache)) : Command m Nat := do
  let (count, cache) ← orFail .cache result
  saveCache cache
  return count

/-- Says how many records were removed. -/
def printRemoved (count : Nat) : Command m Unit :=
  Console.printLine (Text.join ["[CACHE] removed ", Text.ofNat count, " entries"])

/-- Removes the records from before a date or age, if one is given. -/
def pruneBefore (before : Text) : Command m Nat := do
  if before.isEmpty then return 0
  let instant ← orFail .age (Cache.before before (← Host.now (m := m)))
  removeRecords ((← openCache).cache.prune instant)

/-- Removes old records. -/
def prune (args : List Text) : Command m Unit := do
  let defaults : PruneSettings := { maxSize := (← get).config.cache.maxSize }
  let (settings, _) ← parseFlags "cache prune" pruneFlags defaults args
  let old ← pruneBefore settings.before
  let limit ← orFail .size (Size.ofText settings.maxSize)
  let excess ← removeRecords ((← openCache).cache.pruneSize limit)
  printRemoved (old + excess)

/-- Shows or cleans the cache. -/
def cache : List Text → Command m Unit
  | [] => fail .noCacheCommand
  | name :: args => do
    let opened ← openCache
    if name = ("list" : Text) then
      let records ← orFail .cache opened.cache.list
      Console.print (Cache.listingText records (← get).config.logging.locale)
    else if name = ("prune" : Text) then prune args
    else if name = ("clear" : Text) then printRemoved (← removeRecords opened.cache.clear)
    else fail (.unknownCacheCommand name)

end

end Goat.Cli
