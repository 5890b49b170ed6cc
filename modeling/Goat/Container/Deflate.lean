import Goat.Container.Huffman
import Goat.Container.LittleEndian
import Goat.Text.Chunk

/-!
# Deflate streams

A stream is a sequence of blocks. A block holds its bytes as they are, or symbols
of a Huffman code: bytes, and repetitions of what came before. Writing stores the
bytes as they are; reading takes blocks of every kind.
-/

namespace Goat.Deflate

/-- The greatest number of bytes of a stored block, less one. -/
def storedSize : Nat := 65534

/-- A block that stores its bytes. -/
def storedBlock (isLast : Bool) (t : Text) : Text :=
  (if isLast then 1 else 0) :: LittleEndian.encode 2 t.length
    ++ LittleEndian.encode 2 (65535 - t.length) ++ t

/-- Blocks that store their bytes, the last of them marked. -/
def storedBlocks : List Text → Text
  | [] => []
  | [t] => storedBlock true t
  | t :: rest => storedBlock false t ++ storedBlocks rest

/-- A stream of the bytes. -/
def encode (t : Text) : Text := storedBlocks (Text.chunks storedSize t)

/-- The smallest length and the number of further bits of each length symbol. -/
def lengthCodes : Array (Nat × Nat) :=
  #[(3, 0), (4, 0), (5, 0), (6, 0), (7, 0), (8, 0), (9, 0), (10, 0), (11, 1), (13, 1), (15, 1),
    (17, 1), (19, 2), (23, 2), (27, 2), (31, 2), (35, 3), (43, 3), (51, 3), (59, 3), (67, 4),
    (83, 4), (99, 4), (115, 4), (131, 5), (163, 5), (195, 5), (227, 5), (258, 0)]

/-- The smallest distance and the number of further bits of each distance symbol. -/
def distanceCodes : Array (Nat × Nat) :=
  #[(1, 0), (2, 0), (3, 0), (4, 0), (5, 1), (7, 1), (9, 2), (13, 2), (17, 3), (25, 3), (33, 4),
    (49, 4), (65, 5), (97, 5), (129, 6), (193, 6), (257, 7), (385, 7), (513, 8), (769, 8),
    (1025, 9), (1537, 9), (2049, 10), (3073, 10), (4097, 11), (6145, 11), (8193, 12),
    (12289, 12), (16385, 13), (24577, 13)]

/-- Reads the value of a symbol with further bits. -/
def extended (codes : Array (Nat × Nat)) (symbol : Nat) (s : BitStream) :
    Except Error (Nat × BitStream) :=
  match codes[symbol]? with
  | none => .error (.corrupt s.taken)
  | some (base, count) => do
    let (more, s) ← s.bits count
    return (base + more, s)

/-- Repeats `count` bytes from `distance` bytes back. -/
def repeatBack (distance : Nat) : (count : Nat) → Array UInt8 → Array UInt8
  | 0, out => out
  | count + 1, out => repeatBack distance count (out.push (out.getD (out.size - distance) 0))

/-- Reads the symbols of a block, at most `fuel` of them. Every symbol takes a bit,
    so the number of bits is fuel enough. -/
def readSymbols (literals distances : Huffman) : (fuel : Nat) → Array UInt8 → BitStream →
    Except Error (Array UInt8 × BitStream)
  | 0, _, _ => .error .truncated
  | fuel + 1, out, s => do
    let (symbol, s) ← literals.symbol s
    if symbol < 256 then readSymbols literals distances fuel (out.push (UInt8.ofNat symbol)) s
    else if symbol = 256 then return (out, s)
    else
      let (length, s) ← extended lengthCodes (symbol - 257) s
      let (code, s) ← distances.symbol s
      let (distance, s) ← extended distanceCodes code s
      if out.size < distance then .error (.corrupt s.taken)
      else readSymbols literals distances fuel (repeatBack distance length out) s

/-- The code that a stream can use without giving it. -/
def fixedLiterals : Option Huffman :=
  Huffman.ofLengths? (List.replicate 144 8 ++ List.replicate 112 9 ++ List.replicate 24 7
    ++ List.replicate 8 8)

/-- The code of distances that a stream can use without giving it. -/
def fixedDistances : Option Huffman := Huffman.ofLengths? (List.replicate 32 5)

/-- The order in which the lengths of the code of lengths are given. -/
def lengthOrder : List Nat := [16, 17, 18, 0, 8, 7, 9, 6, 10, 5, 11, 4, 12, 3, 13, 2, 14, 1, 15]

/-- Reads `count` numbers of three bits. -/
def readTriples : (count : Nat) → BitStream → Except Error (List Nat × BitStream)
  | 0, s => .ok ([], s)
  | count + 1, s => do
    let (n, s) ← s.bits 3
    let (rest, s) ← readTriples count s
    return (n :: rest, s)

/-- Reads code lengths up to `wanted` of them; `lengths` are those read, latest first. -/
def readLengths (h : Huffman) (wanted : Nat) : (fuel : Nat) → (lengths : List Nat) → BitStream →
    Except Error (List Nat × BitStream)
  | 0, _, _ => .error .truncated
  | fuel + 1, lengths, s =>
    if lengths.length = wanted then .ok (lengths.reverse, s)
    else do
      let (symbol, s) ← h.symbol s
      if symbol < 16 then readLengths h wanted fuel (symbol :: lengths) s
      else
        let (value, base, count) :=
          if symbol = 16 then (lengths.head?, 3, 2)
          else if symbol = 17 then (some 0, 3, 3)
          else (some 0, 11, 7)
        let (more, s) ← s.bits count
        match value with
        | none => .error (.corrupt s.taken)
        | some value =>
          if wanted < lengths.length + base + more then .error (.corrupt s.taken)
          else readLengths h wanted fuel (List.replicate (base + more) value ++ lengths) s

/-- A code, or the error of a stream that gives none. -/
def requireCode (s : BitStream) : Option Huffman → Except Error Huffman
  | some h => .ok h
  | none => .error (.corrupt s.taken)

/-- Reads the codes that a block gives. -/
def readCodes (s : BitStream) : Except Error (Huffman × Huffman × BitStream) := do
  let (literalCount, s) ← s.bits 5
  let (distanceCount, s) ← s.bits 5
  let (tripleCount, s) ← s.bits 4
  let literalCount := literalCount + 257
  let distanceCount := distanceCount + 1
  if 286 < literalCount || 30 < distanceCount then .error (.corrupt s.taken)
  else
    let (triples, s) ← readTriples (tripleCount + 4) s
    let given := lengthOrder.zip triples
    let lengthCode ← requireCode s
      (Huffman.ofLengths? ((List.range 19).map fun n => (given.lookup n).getD 0))
    let wanted := literalCount + distanceCount
    let (lengths, s) ← readLengths lengthCode wanted (wanted + 1) [] s
    let literals ← requireCode s (Huffman.ofLengths? (lengths.take literalCount))
    let distances ← requireCode s (Huffman.ofLengths? (lengths.drop literalCount))
    return (literals, distances, s)

/-- Reads the bytes of a stored block. -/
def readStored (out : Array UInt8) (s : BitStream) : Except Error (Array UInt8 × BitStream) := do
  let (size, s) ← s.align.take 2
  let (complement, s) ← s.take 2
  if LittleEndian.decode size + LittleEndian.decode complement ≠ 65535 then
    .error (.corrupt s.taken)
  else
    let (bytes, s) ← s.take (LittleEndian.decode size)
    return (out ++ bytes.toArray, s)

/-- Reads a block of a kind. -/
def readBlock (kind : Nat) (out : Array UInt8) (s : BitStream) :
    Except Error (Array UInt8 × BitStream) :=
  let fuel := 8 * s.bytes.length + 1
  match kind with
  | 0 => readStored out s
  | 1 => do
    let literals ← requireCode s fixedLiterals
    let distances ← requireCode s fixedDistances
    readSymbols literals distances fuel out s
  | 2 => do
    let (literals, distances, s) ← readCodes s
    readSymbols literals distances fuel out s
  | _ => .error (.corrupt s.taken)

/-- Reads blocks up to the last one, at most `fuel` of them. -/
def readBlocks : (fuel : Nat) → Array UInt8 → BitStream → Except Error (Array UInt8 × BitStream)
  | 0, _, _ => .error .truncated
  | fuel + 1, out, s => do
    let (isLast, s) ← s.bits 1
    let (kind, s) ← s.bits 2
    let (out, s) ← readBlock kind out s
    if isLast = 1 then return (out, s) else readBlocks fuel out s

/-- The bytes of a stream, and what follows the stream. -/
def decode (t : Text) : Except Error (Text × Text) := do
  let (out, s) ← readBlocks (8 * t.length + 1) #[] ⟨t, 0, 0⟩
  return (out.toList, s.align.bytes)

end Goat.Deflate
