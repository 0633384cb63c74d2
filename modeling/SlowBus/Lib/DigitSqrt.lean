import Mathlib.Data.Nat.Sqrt
import Mathlib.Tactic.Linarith
import Mathlib.Tactic.Ring

/-!
# Square roots digit by digit

The binary digits of an integer square root are found from the highest one down. Two registers are
kept: what is left of the number, and the root so far, shifted to where the next digit is tried.
-/

namespace SlowBus.DigitSqrt

variable {v j x r : Nat}

/-- `j` digits of the root of `v` are left. The root so far is `root`. -/
structure Digits (v j x r root : Nat) : Prop where
  rest : x + root * root = v
  shifted : r = root * 2 ^ j
  next : v < (root + 2 ^ j) * (root + 2 ^ j)

theorem four_pow (j : Nat) : 4 ^ j = 2 ^ j * 2 ^ j := by rw [← Nat.mul_pow]

theorem square_next (root j : Nat) :
    (root + 2 ^ j) * (root + 2 ^ j) = root * root + (root * 2 ^ (j + 1) + 4 ^ j) := by
  rw [four_pow]
  ring

theorem half_shifted (root j : Nat) : root * 2 ^ (j + 1) / 2 = root * 2 ^ j := by
  rw [Nat.pow_succ, ← Nat.mul_assoc, Nat.mul_div_cancel _ Nat.two_pos]

/-- Nothing has been tried. -/
theorem Digits.start (h : v < 4 ^ j) : Digits v j v 0 0 where
  rest := rfl
  shifted := (Nat.zero_mul _).symm
  next := by rwa [Nat.zero_add, ← Nat.mul_pow]

/-- The test for a digit. -/
theorem Digits.fits_iff {root : Nat} (h : Digits v (j + 1) x r root) :
    r + 4 ^ j ≤ x ↔ (root + 2 ^ j) * (root + 2 ^ j) ≤ v := by
  rw [square_next, h.shifted, ← h.rest]
  omega

/-- The digit is 1. -/
theorem Digits.one {root : Nat} (h : Digits v (j + 1) x r root) (hfits : r + 4 ^ j ≤ x) :
    Digits v j (x - (r + 4 ^ j)) (r / 2 + 4 ^ j) (root + 2 ^ j) where
  rest := by
    have hrest := h.rest
    rw [square_next, ← h.shifted]
    omega
  shifted := by
    rw [h.shifted, half_shifted, four_pow]
    ring
  next := by
    have hdouble : root + 2 ^ j + 2 ^ j = root + 2 ^ (j + 1) := by ring
    rw [hdouble]
    exact h.next

/-- The digit is 0. -/
theorem Digits.zero {root : Nat} (h : Digits v (j + 1) x r root) (hfits : ¬r + 4 ^ j ≤ x) :
    Digits v j x (r / 2) root where
  rest := h.rest
  shifted := by rw [h.shifted, half_shifted]
  next := Nat.not_le.mp fun hle => hfits (h.fits_iff.mpr hle)

/-- All digits are found. -/
theorem Digits.done {root : Nat} (h : Digits v 0 x r root) : r = Nat.sqrt v := by
  have hroot : r = root := by rw [h.shifted, Nat.pow_zero, Nat.mul_one]
  have hrest := h.rest
  rw [hroot]
  exact Nat.eq_sqrt.mpr ⟨by omega, h.next⟩

/-- The shifted root has no more digits than the number. -/
theorem Digits.shifted_le {root n : Nat} (h : Digits v j x r root)
    (hroot : root + 2 ^ j ≤ 2 ^ (n + 1)) : r ≤ 4 ^ n := by
  have hmean : 4 * (root * 2 ^ j) ≤ (root + 2 ^ j) * (root + 2 ^ j) := by
    nlinarith only [sq_nonneg ((root : ℤ) - 2 ^ j)]
  have hsquare : (root + 2 ^ j) * (root + 2 ^ j) ≤ 4 ^ (n + 1) := by
    rw [four_pow]
    exact Nat.mul_self_le_mul_self hroot
  rw [Nat.pow_succ] at hsquare
  rw [h.shifted]
  omega

end SlowBus.DigitSqrt
