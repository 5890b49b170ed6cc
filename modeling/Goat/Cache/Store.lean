import Goat.Calendar
import Goat.Container.Zstd
import Goat.Hash.Blake2b
import Goat.Number.Word

/-!
# The store of a cache

Compiled programs by the hash of their source. A record keeps the program
compressed, with some figures about it.
-/

namespace Goat.Cache

/-- A compiled program in a store. -/
structure Record where
  hash : Text
  sourceSize : Int
  storedSize : Int
  instructions : Int
  blob : Text
  created : Instant
  deriving DecidableEq, Repr

/-- The records of a cache. -/
structure Store where
  records : List Record := []
  deriving DecidableEq, Repr

/-- How sources are told apart and programs are packed. -/
structure Scheme where
  /-- The hash of a source for a compiler of a version, unless the version is none to hash with. -/
  hash? : Text → Text → Option Text
  pack : Text → Text
  unpack : Text → Except Zstd.Error Text

/-- The scheme of this library: hashes in hexadecimal digits with the version as the key, which
    can be too long for one, and programs in frames. -/
def Scheme.standard : Scheme where
  hash? version source :=
    if version.length ≤ 64 then some (Text.hexBytes (Blake2b.digest version source)) else none
  pack := Zstd.encode
  unpack := Zstd.decode

/-- A record comes before another in a listing: the newest first, then by hash. -/
def Record.isBefore (a b : Record) : Bool :=
  b.created < a.created || (a.created == b.created && Text.le a.hash b.hash)

namespace Store

/-- The record of a hash. -/
def find? (s : Store) (hash : Text) : Option Record := s.records.find? fun r => r.hash == hash

/-- The store without the record of a hash. -/
def erase (s : Store) (hash : Text) : Store := ⟨s.records.filter fun r => r.hash != hash⟩

/-- Stores a record in place of an older one of the same hash. -/
def insert (s : Store) (r : Record) : Store := ⟨(s.erase r.hash).records ++ [r]⟩

/-- All records, the newest first, then by hash. -/
def listing (s : Store) : List Record := s.records.mergeSort Record.isBefore

/-- Removes the records for which a condition holds; yields how many there were. -/
def removeIf (s : Store) (condition : Record → Bool) : Nat × Store :=
  (s.records.countP condition, ⟨s.records.filter fun r => !condition r⟩)

/-- Removes the records created before an instant. -/
def prune (s : Store) (before : Instant) : Nat × Store :=
  s.removeIf fun r => r.created < wordOf before

/-- The hashes of the records in a listing with which the sizes add up to more than
    `limit`; `total` is the size of those before. Sizes add up in words of 64 bits. -/
def excess (limit : Int) (total : Int) : List Record → List Text
  | [] => []
  | r :: rest =>
    let total := wordOf (total + r.storedSize)
    if total ≤ limit then excess limit total rest else r.hash :: excess limit total rest

/-- Removes the oldest records until the rest fit in `limit` bytes. A limit of zero or
    below keeps everything. -/
def pruneSize (s : Store) (limit : Int) : Nat × Store :=
  if limit ≤ 0 then (0, s)
  else
    let removed := excess limit 0 s.listing
    (removed.length, removed.foldl erase s)

/-- Removes all records. -/
def clear (s : Store) : Nat × Store := (s.records.length, {})

/-- The record of a program. -/
def recordOf (scheme : Scheme) (hash source code : Text) (now : Instant) : Record :=
  let blob := scheme.pack code
  { hash
    sourceSize := source.length
    storedSize := blob.length
    instructions := code.length
    blob
    created := wordOf now }

/-- Stores the program compiled from a source with a hash. -/
def put (s : Store) (scheme : Scheme) (hash source code : Text) (now : Instant) : Store :=
  s.insert (recordOf scheme hash source code now)

/-- The program stored for a hash. -/
def get (s : Store) (scheme : Scheme) (hash : Text) : Except Zstd.Error (Option Text) :=
  match s.find? hash with
  | none => .ok none
  | some r => (scheme.unpack r.blob).map some

end Store

end Goat.Cache
