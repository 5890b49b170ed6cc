import Goat.Container.BitStream

/-!
# Canonical Huffman codes

A code is given by the length of each symbol's code word. Words of one length are
consecutive numbers in the order of their symbols, and follow the words of all
smaller lengths.
-/

namespace Goat.Deflate

/-- A canonical code. -/
structure Huffman where
  /-- The number of code words of each length. -/
  counts : Array Nat
  /-- The symbols in the order of their code words. -/
  symbols : Array Nat
  deriving DecidableEq, Repr

namespace Huffman

/-- The greatest length of a code word. -/
def maxLength : Nat := 15

/-- The lengths that a code word can have. -/
def wordLengths : List Nat := (List.range maxLength).map (· + 1)

/-- The part of all words of `maxLength` bits that start with a code word. -/
def coverage (lengths : List Nat) : Nat :=
  ((lengths.filter (0 < ·)).map fun n => Nat.pow 2 (maxLength - n)).foldl (· + ·) 0

/-- The lengths make a code: every row of bits starts with exactly one code word.
    A code without words and one with a single word of one bit are admitted. -/
def isComplete (lengths : List Nat) : Bool :=
  coverage lengths == Nat.pow 2 maxLength || lengths.filter (0 < ·) == [1]
    || lengths.all (· == 0)

/-- The code with these lengths, by symbol; a length of zero is a symbol without a word. -/
def ofLengths? (lengths : List Nat) : Option Huffman :=
  if isComplete lengths then
    some
      { counts := (0 :: wordLengths.map fun n => lengths.count n).toArray
        symbols :=
          (wordLengths.flatMap fun n => (lengths.zipIdx.filter (·.1 = n)).map (·.2)).toArray }
  else none

/-- Reads a symbol of which `length - 1` bits were read as `code / 2`. The words of
    `length` bits start at `first` and have their symbols from place `index` on. -/
def symbolFrom (h : Huffman) : (left length code first index : Nat) → BitStream →
    Except Error (Nat × BitStream)
  | 0, _, _, _, _, s => .error (.corrupt s.taken)
  | left + 1, length, code, first, index, s => do
    let (b, s) ← s.bit
    let code := code + b
    let count := h.counts.getD length 0
    if code < first + count then
      return (h.symbols.getD (index + (code - first)) 0, s)
    else
      symbolFrom h left (length + 1) (code * 2) ((first + count) * 2) (index + count) s

/-- Reads a symbol. -/
def symbol (h : Huffman) (s : BitStream) : Except Error (Nat × BitStream) :=
  h.symbolFrom maxLength 1 0 0 0 s

end Huffman

end Goat.Deflate
