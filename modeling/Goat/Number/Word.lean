import Goat.Text.Basic

/-!
# Words

Signed numbers of 64 bits. A sum that is out of their range wraps around.
-/

namespace Goat

/-- A number as a signed word of 64 bits. -/
def wordOf (n : Int) : Int := Int.bmod n 0x10000000000000000

theorem wordOf_eq_self {n : Int} (h : -Text.maxInt64 - 1 ≤ n) (h' : n ≤ Text.maxInt64) :
    wordOf n = n := by
  rw [Text.maxInt64] at h h'
  simp only [wordOf, Int.bmod]
  omega

/-- The first sums that a word cannot hold turn negative. -/
theorem wordOf_neg {n : Int} (h : Text.maxInt64 < n) (h' : n ≤ Text.maxInt64 + Text.maxInt64) :
    wordOf n < 0 := by
  rw [Text.maxInt64] at h h'
  simp only [wordOf, Int.bmod]
  omega

theorem wordOf_le (n : Int) : wordOf n ≤ Text.maxInt64 := by
  rw [Text.maxInt64]
  simp only [wordOf, Int.bmod]
  omega

end Goat
