import Goat.Cache.Store

/-!
# Caches

A store in use by a compiler of some version, until it is closed.
-/

namespace Goat

/-- A store in use. -/
structure Cache where
  version : Text
  store : Cache.Store := {}
  isOpen : Bool := true
  scheme : Cache.Scheme := .standard

namespace Cache

/-- What a cache was asked for when it failed. -/
inductive Operation where
  | read
  | write
  | list
  | prune
  | clear
  deriving DecidableEq, Repr

/-- Why an operation failed. -/
inductive Error where
  | closed (operation : Operation)
  | corrupt (cause : Zstd.Error)
  deriving DecidableEq, Repr

/-- The cause that a closed cache gives. -/
def closedMessage : Text := "sql: database is closed"

/-- What an operation does, as messages say it. Writing says nothing of its own. -/
def Operation.label? : Operation → Option Text
  | read => some "reading cache"
  | write => none
  | list => some "listing cache"
  | prune => some "pruning cache"
  | clear => some "clearing cache"

/-- What failed, without its cause. -/
def Error.summary : Error → Text
  | closed operation => operation.label?.getD closedMessage
  | corrupt _ => "corrupt cache entry"

/-- The message of an error. -/
def Error.message : Error → Text
  | closed operation =>
    (operation.label?.map fun label => Text.join [label, ": ", closedMessage]).getD closedMessage
  | corrupt cause => Text.join ["corrupt cache entry: ", cause.message]

/-- Does something with an open cache. -/
def whenOpen {α : Type} (c : Cache) (operation : Operation) (result : Except Error α) :
    Except Error α :=
  if c.isOpen then result else .error (.closed operation)

/-- Closes the cache. -/
def close (c : Cache) : Cache := { c with isOpen := false }

/-- The hash of a source, without which nothing is looked up or stored. -/
def hash? (c : Cache) (source : Text) : Option Text := c.scheme.hash? c.version source

/-- The program stored for a source; `none` if the source has no hash. -/
def get (c : Cache) (source : Text) : Option (Except Error (Option Text)) :=
  (c.hash? source).map fun hash =>
    c.whenOpen .read ((c.store.get c.scheme hash).mapError .corrupt)

/-- Stores the program compiled from a source; `none` if the source has no hash. -/
def put (c : Cache) (source code : Text) (now : Instant) : Option (Except Error Cache) :=
  (c.hash? source).map fun hash =>
    c.whenOpen .write (.ok { c with store := c.store.put c.scheme hash source code now })

/-- All records, the newest first, then by hash. -/
def list (c : Cache) : Except Error (List Record) := c.whenOpen .list (.ok c.store.listing)

/-- The number of removed records and the cache without them. -/
def removed (c : Cache) (result : Nat × Store) : Nat × Cache :=
  (result.1, { c with store := result.2 })

/-- Removes the records created before an instant. -/
def prune (c : Cache) (before : Instant) : Except Error (Nat × Cache) :=
  c.whenOpen .prune (.ok (c.removed (c.store.prune before)))

/-- Removes the oldest records until the rest fit in `limit` bytes. Without a limit
    the store is not looked at. -/
def pruneSize (c : Cache) (limit : Int) : Except Error (Nat × Cache) :=
  if limit ≤ 0 then .ok (0, c)
  else c.whenOpen .list (.ok (c.removed (c.store.pruneSize limit)))

/-- Removes all records. -/
def clear (c : Cache) : Except Error (Nat × Cache) :=
  c.whenOpen .clear (.ok (c.removed c.store.clear))

end Cache

end Goat
