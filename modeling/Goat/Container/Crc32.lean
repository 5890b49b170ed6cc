import Goat.Text.Basic

/-!
# Cyclic redundancy check

The 32-bit checksum of gzip, computed bit by bit with the reflected polynomial.
-/

namespace Goat.Crc32

/-- The polynomial, lowest power in the highest bit. -/
def polynomial : UInt32 := 0xedb88320

/-- Divides the next `count` bits. -/
def divide : (count : Nat) → UInt32 → UInt32
  | 0, crc => crc
  | count + 1, crc =>
    divide count (if crc &&& 1 = 1 then (crc >>> 1) ^^^ polynomial else crc >>> 1)

/-- Takes in a byte. -/
def update (crc : UInt32) (b : UInt8) : UInt32 := divide 8 (crc ^^^ b.toUInt32)

/-- The checksum of some bytes. -/
def checksum (t : Text) : UInt32 := t.foldl update 0xffffffff ^^^ 0xffffffff

end Goat.Crc32
