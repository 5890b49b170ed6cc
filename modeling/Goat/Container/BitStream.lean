import Goat.Text.Basic

/-!
# Streams of bits

Bytes read bit by bit, the lowest bit of a byte first.
-/

namespace Goat.Deflate

/-- Why a compressed stream cannot be read. -/
inductive Error where
  /-- The stream ends too early. -/
  | truncated
  /-- The stream is not well-formed; `offset` bytes were taken from it. -/
  | corrupt (offset : Nat)
  deriving DecidableEq, Repr

/-- A stream of bits. -/
structure BitStream where
  bytes : Text
  /-- The number of bits of the first byte that were read. -/
  used : Nat := 0
  /-- The number of bytes of which a bit was read. -/
  taken : Nat := 0
  deriving DecidableEq, Repr

namespace BitStream

/-- Reads a bit. -/
def bit (s : BitStream) : Except Error (Nat × BitStream) :=
  match s.bytes with
  | [] => .error .truncated
  | b :: rest =>
    let taken := if s.used = 0 then s.taken + 1 else s.taken
    let next := if s.used = 7 then ⟨rest, 0, taken⟩ else ⟨b :: rest, s.used + 1, taken⟩
    .ok (b.toNat / Nat.pow 2 s.used % 2, next)

/-- Reads a number of `count` bits, the lowest first. -/
def bits : (count : Nat) → BitStream → Except Error (Nat × BitStream)
  | 0, s => .ok (0, s)
  | count + 1, s => do
    let (low, s) ← s.bit
    let (high, s) ← bits count s
    return (low + 2 * high, s)

/-- Skips to the start of a byte. -/
def align (s : BitStream) : BitStream :=
  if s.used = 0 then s else { s with bytes := s.bytes.drop 1, used := 0 }

/-- Reads whole bytes of an aligned stream. -/
def take (count : Nat) (s : BitStream) : Except Error (Text × BitStream) :=
  if s.bytes.length < count then .error .truncated
  else .ok (s.bytes.take count, ⟨s.bytes.drop count, 0, s.taken + count⟩)

end BitStream

end Goat.Deflate
