import Mathlib.Algebra.BigOperators.Fin
import Mathlib.Algebra.Order.Chebyshev

/-!
# Mean and variance of a list of numbers

The mean lies between the least and the greatest number. The variance is not negative, and it is
at most the square of the greatest one.
-/

namespace SlowBus.Moments

variable {xs : List Nat} {lo hi : Nat}

def sumSq (xs : List Nat) : Nat := (xs.map (· ^ 2)).sum

theorem sum_append_one (xs : List Nat) (x : Nat) : (xs ++ [x]).sum = xs.sum + x := by
  rw [List.sum_append, List.sum_singleton]

theorem sumSq_append_one (xs : List Nat) (x : Nat) : sumSq (xs ++ [x]) = sumSq xs + x ^ 2 := by
  rw [sumSq, List.map_append, List.sum_append]
  rfl

theorem sum_le (h : ∀ x ∈ xs, x ≤ hi) : xs.sum ≤ xs.length * hi := List.sum_le_card_nsmul xs hi h

theorem le_sum (h : ∀ x ∈ xs, lo ≤ x) : xs.length * lo ≤ xs.sum := List.card_nsmul_le_sum xs lo h

theorem sumSq_le (h : ∀ x ∈ xs, x ≤ hi) : sumSq xs ≤ xs.length * hi ^ 2 := by
  have hsq : ∀ y ∈ xs.map (· ^ 2), y ≤ hi ^ 2 := by
    intro y hy
    obtain ⟨x, hx, rfl⟩ := List.mem_map.mp hy
    exact Nat.pow_le_pow_left (h x hx) 2
  have hle := sum_le hsq
  rwa [List.length_map] at hle

/-- The variance is not negative. -/
theorem sq_sum_le (xs : List Nat) : xs.sum ^ 2 ≤ xs.length * sumSq xs := by
  have h := sq_sum_le_card_mul_sum_sq (s := Finset.univ) (f := fun i : Fin xs.length => xs[i.1])
  rw [Finset.card_univ, Fintype.card_fin, Fin.sum_univ_getElem] at h
  rwa [sumSq, ← Fin.sum_univ_fun_getElem xs (· ^ 2)]

theorem mean_le (hne : xs ≠ []) (h : ∀ x ∈ xs, x ≤ hi) : xs.sum / xs.length ≤ hi := by
  rw [← Nat.mul_div_cancel_left hi (List.length_pos_of_ne_nil hne)]
  exact Nat.div_le_div_right (sum_le h)

theorem le_mean (hne : xs ≠ []) (h : ∀ x ∈ xs, lo ≤ x) : lo ≤ xs.sum / xs.length := by
  rw [Nat.le_div_iff_mul_le (List.length_pos_of_ne_nil hne), Nat.mul_comm]
  exact le_sum h

/-- The variance, cut to an integer. -/
def variance (xs : List Nat) : Nat := (xs.length * sumSq xs - xs.sum ^ 2) / xs.length ^ 2

theorem variance_le (hne : xs ≠ []) (h : ∀ x ∈ xs, x ≤ hi) : variance xs ≤ hi ^ 2 := by
  have hpos := List.length_pos_of_ne_nil hne
  rw [variance, ← Nat.mul_div_cancel_left (hi ^ 2) (Nat.pow_pos hpos)]
  refine Nat.div_le_div_right ((Nat.sub_le _ _).trans ?_)
  rw [Nat.pow_succ, Nat.pow_one, Nat.mul_assoc]
  exact Nat.mul_le_mul_left _ (sumSq_le h)

end SlowBus.Moments
