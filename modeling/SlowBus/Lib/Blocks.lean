import Mathlib.Data.List.Basic
import Mathlib.Tactic.Common

/-!
# Blocks of a list

A list that grows at its end is cut into blocks of one length. What stands behind the last full
block becomes the next one.
-/

namespace SlowBus.Blocks

variable {α : Type*} {L : Nat}

/-- The elements behind the last full block. -/
def openBlock (L : Nat) (vs : List α) : List α := vs.drop (L * (vs.length / L))

/-- The last full block. -/
def lastBlock (L : Nat) (vs : List α) : List α := (vs.drop (L * (vs.length / L - 1))).take L

theorem length_openBlock (L : Nat) (vs : List α) : (openBlock L vs).length = vs.length % L := by
  have hdiv := Nat.div_add_mod vs.length L
  rw [openBlock, List.length_drop]
  omega

theorem length_div_append_one (hL : 0 < L) (vs : List α) (v : α) :
    (vs ++ [v]).length / L = vs.length / L + if vs.length % L + 1 = L then 1 else 0 := by
  have hdiv := Nat.div_add_mod vs.length L
  have hlt := Nat.mod_lt vs.length hL
  rw [List.length_append, List.length_singleton]
  have hcomm := Nat.mul_comm (vs.length / L) L
  split_ifs with hfull
  all_goals
    refine Nat.div_eq_of_lt_le ?_ ?_
    all_goals
      simp only [Nat.add_mul, Nat.one_mul, Nat.zero_mul]
      omega

/-- An element that does not fill the block. -/
theorem openBlock_append (hL : 0 < L) (vs : List α) (v : α) (h : vs.length % L + 1 ≠ L) :
    openBlock L (vs ++ [v]) = openBlock L vs ++ [v] := by
  rw [openBlock, openBlock, length_div_append_one hL, if_neg h, Nat.add_zero,
    List.drop_append_of_le_length (Nat.mul_div_le _ _)]

theorem openBlock_full (hL : 0 < L) (vs : List α) (v : α) (h : vs.length % L + 1 = L) :
    openBlock L (vs ++ [v]) = [] := by
  have hdiv := Nat.div_add_mod vs.length L
  rw [openBlock, length_div_append_one hL, if_pos h, Nat.mul_add, List.drop_eq_nil_iff,
    List.length_append, List.length_singleton]
  omega

/-- An element that fills it. -/
theorem lastBlock_full (hL : 0 < L) (vs : List α) (v : α) (h : vs.length % L + 1 = L) :
    lastBlock L (vs ++ [v]) = openBlock L vs ++ [v] := by
  rw [lastBlock, length_div_append_one hL, if_pos h, Nat.add_sub_cancel,
    List.drop_append_of_le_length (Nat.mul_div_le _ _)]
  refine List.take_of_length_le ?_
  rw [List.length_append, ← openBlock, length_openBlock, List.length_singleton]
  exact Nat.le_of_eq h

theorem lastBlock_append (hL : 0 < L) (vs : List α) (v : α) (h : vs.length % L + 1 ≠ L)
    (hclosed : L ≤ vs.length) : lastBlock L (vs ++ [v]) = lastBlock L vs := by
  have hdiv := Nat.div_add_mod vs.length L
  have hone : 1 ≤ vs.length / L := (Nat.one_le_div_iff hL).mpr hclosed
  have hle : L * (vs.length / L - 1) + L ≤ vs.length := by
    rw [← Nat.mul_succ, Nat.succ_eq_add_one, Nat.sub_add_cancel hone]
    exact Nat.mul_div_le _ _
  rw [lastBlock, lastBlock, length_div_append_one hL, if_neg h, Nat.add_zero,
    List.drop_append_of_le_length (by omega), List.take_append_of_le_length]
  rw [List.length_drop]
  omega

theorem length_lastBlock {vs : List α} (hL : 0 < L) (hclosed : L ≤ vs.length) :
    (lastBlock L vs).length = L := by
  have hone : 1 ≤ vs.length / L := (Nat.one_le_div_iff hL).mpr hclosed
  have hle : L * (vs.length / L - 1) + L ≤ vs.length := by
    rw [← Nat.mul_succ, Nat.succ_eq_add_one, Nat.sub_add_cancel hone]
    exact Nat.mul_div_le _ _
  rw [lastBlock, List.length_take, List.length_drop]
  omega

/-! ## Rows of one length -/

section Rows

variable {β : Type*} {f : α → List β} {xs : List α} {i n : Nat}

/-- The row at an index. -/
theorem take_drop_rows (hf : ∀ a, (f a).length = L) (hi : i < xs.length) :
    ((xs.flatMap f).drop (L * i)).take L = f xs[i] := by
  induction xs generalizing i with
  | nil => cases hi
  | cons x xs ih =>
      rw [List.flatMap_cons]
      cases i with
      | zero => rw [Nat.mul_zero, List.drop_zero, List.take_left' (hf x), List.getElem_cons_zero]
      | succ i =>
          rw [Nat.mul_succ, Nat.add_comm, ← List.drop_drop, List.drop_left' (hf x),
            List.getElem_cons_succ]
          exact ih (Nat.lt_of_succ_lt_succ hi)

/-- A row is whole in the first `n` elements exactly when it ends there. -/
theorem row_in_take (hf : ∀ a, (f a).length = L) (hL : 0 < L) (hi : i < xs.length) :
    (((xs.flatMap f).take n).drop (L * i)).take L = f xs[i] ↔ L * i + L ≤ n := by
  constructor
  · intro h
    have hlength := congrArg List.length h
    rw [hf, List.length_take, List.length_drop, List.length_take] at hlength
    omega
  · intro h
    rw [← take_drop_rows hf hi, List.drop_take, List.take_take, Nat.min_eq_left (by omega)]

end Rows

end SlowBus.Blocks
