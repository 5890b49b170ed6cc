import Goat.Text.Basic

/-!
# Numbers in little-endian order

Numbers of a fixed width, the lowest byte first.
-/

namespace Goat.LittleEndian

/-- The lowest `width` bytes of a number. -/
def encode : (width : Nat) → (n : Nat) → Text
  | 0, _ => []
  | width + 1, n => UInt8.ofNat n :: encode width (n / 256)

/-- The number that bytes stand for. -/
def decode : Text → Nat
  | [] => 0
  | b :: rest => b.toNat + 256 * decode rest

@[simp] theorem length_encode (width n : Nat) : (encode width n).length = width := by
  induction width generalizing n with
  | zero => rfl
  | succ width ih => simp [encode, ih]

end Goat.LittleEndian
