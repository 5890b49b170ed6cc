import Goat.Container.LittleEndian
import Goat.Text.Chunk

/-!
# BLAKE2b

The hash function BLAKE2b with a digest of 32 bytes and an optional key.
-/

namespace Goat.Blake2b

/-- A row of 64-bit words. -/
abbrev Words := Array UInt64

/-- The words that a hash starts from. -/
def initial : Words :=
  #[0x6a09e667f3bcc908, 0xbb67ae8584caa73b, 0x3c6ef372fe94f82b, 0xa54ff53a5f1d36f1,
    0x510e527fade682d1, 0x9b05688c2b3e6c1f, 0x1f83d9abfb41bd6b, 0x5be0cd19137e2179]

/-- The orders in which the words of a block are mixed in. -/
def schedule : List (List Nat) :=
  [ [0, 1, 2, 3, 4, 5, 6, 7, 8, 9, 10, 11, 12, 13, 14, 15],
    [14, 10, 4, 8, 9, 15, 13, 6, 1, 12, 0, 2, 11, 7, 5, 3],
    [11, 8, 12, 0, 5, 2, 15, 13, 10, 14, 3, 6, 7, 1, 9, 4],
    [7, 9, 3, 1, 13, 12, 11, 14, 2, 6, 5, 10, 4, 0, 15, 8],
    [9, 0, 5, 7, 2, 4, 10, 15, 14, 1, 11, 12, 6, 8, 3, 13],
    [2, 12, 6, 10, 0, 11, 8, 3, 4, 13, 7, 5, 15, 14, 1, 9],
    [12, 5, 1, 15, 14, 13, 4, 10, 0, 7, 6, 3, 9, 2, 8, 11],
    [13, 11, 7, 14, 12, 1, 3, 9, 5, 0, 15, 4, 8, 6, 2, 10],
    [6, 15, 14, 9, 11, 3, 0, 8, 12, 2, 13, 7, 1, 4, 10, 5],
    [10, 2, 8, 4, 7, 6, 1, 5, 15, 11, 9, 14, 3, 12, 13, 0] ]

/-- The order of each of the twelve rounds. -/
def rounds : List (List Nat) := schedule ++ schedule.take 2

/-- The places of the words that are mixed in one round: columns, then diagonals. -/
def places : List (Nat × Nat × Nat × Nat) :=
  [ (0, 4, 8, 12), (1, 5, 9, 13), (2, 6, 10, 14), (3, 7, 11, 15),
    (0, 5, 10, 15), (1, 6, 11, 12), (2, 7, 8, 13), (3, 4, 9, 14) ]

/-- The word turned right by some bits. -/
def rotate (x : UInt64) (count : UInt64) : UInt64 := (x >>> count) ||| (x <<< (64 - count))

/-- The word at a place. -/
def word (v : Words) (place : Nat) : UInt64 := v.getD place 0

/-- Mixes two words into the words at four places. -/
def mix (v : Words) (place : Nat × Nat × Nat × Nat) (x y : UInt64) : Words :=
  let (a, b, c, d) := place
  let v := v.setIfInBounds a (word v a + word v b + x)
  let v := v.setIfInBounds d (rotate (word v d ^^^ word v a) 32)
  let v := v.setIfInBounds c (word v c + word v d)
  let v := v.setIfInBounds b (rotate (word v b ^^^ word v c) 24)
  let v := v.setIfInBounds a (word v a + word v b + y)
  let v := v.setIfInBounds d (rotate (word v d ^^^ word v a) 16)
  let v := v.setIfInBounds c (word v c + word v d)
  v.setIfInBounds b (rotate (word v b ^^^ word v c) 63)

/-- Mixes the words of a block in the order given, two for each of the places. -/
def round (block : Words) (v : Words) : List Nat → List (Nat × Nat × Nat × Nat) → Words
  | i :: j :: order, place :: rest =>
    round block (mix v place (word block i) (word block j)) order rest
  | _, _ => v

/-- The words of a block of 128 bytes. -/
def blockWords (t : Text) : Words :=
  ((List.range 16).map fun i =>
    UInt64.ofNat (LittleEndian.decode ((t.drop (8 * i)).take 8))).toArray

/-- Takes a block into a hash; `count` bytes were taken in, with those of the block. -/
def compress (h : Words) (t : Text) (count : Nat) (isLast : Bool) : Words :=
  let v := h ++ initial
  let v := v.setIfInBounds 12 (word v 12 ^^^ UInt64.ofNat count)
  let v := v.setIfInBounds 13 (word v 13 ^^^ UInt64.ofNat (count / 0x10000000000000000))
  let v := if isLast then v.setIfInBounds 14 (word v 14 ^^^ 0xffffffffffffffff) else v
  let block := blockWords t
  let v := rounds.foldl (fun v order => round block v order places) v
  ((List.range 8).map fun i => word h i ^^^ word v i ^^^ word v (i + 8)).toArray

/-- The number of bytes of a block. -/
def blockSize : Nat := 128

/-- The bytes filled up to a block with zeros. -/
def padBlock (t : Text) : Text := t ++ List.replicate (blockSize - t.length) 0

/-- Takes blocks into a hash, the last of them marked. -/
def absorb (h : Words) (count : Nat) : List Text → Words
  | [] => h
  | [t] => compress h (padBlock t) (count + t.length) true
  | t :: rest => absorb (compress h t (count + t.length) false) (count + t.length) rest

/-- The number of bytes of a digest. -/
def digestSize : Nat := 32

/-- The digest of a text under a key of at most 64 bytes; an empty key is none. A key
    is a block of its own in front of the text. -/
def digest (key t : Text) : Text :=
  let parameters := 0x01010000 + 256 * key.length + digestSize
  let h := initial.setIfInBounds 0 (word initial 0 ^^^ UInt64.ofNat parameters)
  let message := if key.isEmpty then t else padBlock key ++ t
  let h := absorb h 0 (Text.chunks (blockSize - 1) message)
  (h.toList.flatMap fun w => LittleEndian.encode 8 w.toNat).take digestSize

end Goat.Blake2b
