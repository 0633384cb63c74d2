import Mathlib.Data.BitVec

/-!
# Deadlines on a clock that wraps

A deadline is compared with a `w`-bit counter by the sign of their difference.
Before the deadline the test is right for half a period; after it, the test turns
wrong once more than half a period has passed, and alternates from then on.
-/

namespace SlowBus.WrapClock

variable {w : Nat}

theorem toInt_pos_iff {x : BitVec w} : 0 < x.toInt ↔ 0 < x.toNat ∧ 2 * x.toNat < 2 ^ w := by
  rw [BitVec.toInt_eq_toNat_cond]
  have hlt := x.isLt
  split <;> omega

/-- The deadline is `k` ticks ahead. -/
theorem pending_before (now k : Nat) :
    0 < (BitVec.ofNat w (now + k) - BitVec.ofNat w now).toInt ↔
      0 < k % 2 ^ w ∧ 2 * (k % 2 ^ w) < 2 ^ w := by
  have hdiff : BitVec.ofNat w (now + k) - BitVec.ofNat w now = BitVec.ofNat w k := by
    rw [BitVec.ofNat_add]
    exact add_sub_cancel_left _ _
  rw [hdiff, toInt_pos_iff, BitVec.toNat_ofNat]

/-- The deadline passed `k` ticks ago. -/
theorem pending_after (deadline k : Nat) :
    0 < (BitVec.ofNat w deadline - BitVec.ofNat w (deadline + k)).toInt ↔
      2 ^ w < 2 * (k % 2 ^ w) := by
  have hdiff : BitVec.ofNat w deadline - BitVec.ofNat w (deadline + k) = -BitVec.ofNat w k := by
    rw [BitVec.ofNat_add]
    exact sub_add_cancel_left _ _
  rw [hdiff, toInt_pos_iff, BitVec.toNat_neg, BitVec.toNat_ofNat]
  have hlt : k % 2 ^ w < 2 ^ w := Nat.mod_lt _ (Nat.two_pow_pos w)
  rcases Nat.eq_zero_or_pos (k % 2 ^ w) with hzero | hpos
  · simp [hzero]
  · rw [Nat.mod_eq_of_lt (by omega)]
    omega

/-! ## Times that have come -/

theorem toInt_nonneg_iff {x : BitVec w} : 0 ≤ x.toInt ↔ 2 * x.toNat < 2 ^ w := by
  rw [BitVec.toInt_eq_toNat_cond]
  have hlt := x.isLt
  split <;> omega

/-- The time came `k` ticks ago. -/
theorem due_after (time k : Nat) :
    0 ≤ (BitVec.ofNat w (time + k) - BitVec.ofNat w time).toInt ↔ 2 * (k % 2 ^ w) < 2 ^ w := by
  have hdiff : BitVec.ofNat w (time + k) - BitVec.ofNat w time = BitVec.ofNat w k := by
    rw [BitVec.ofNat_add]
    exact add_sub_cancel_left _ _
  rw [hdiff, toInt_nonneg_iff, BitVec.toNat_ofNat]

/-- A clock that is read within half a period of the time on both sides. -/
theorem due_iff {now time : Nat} (hafter : 2 * (now - time) < 2 ^ w)
    (hbefore : 2 * (time - now) < 2 ^ w) :
    0 ≤ (BitVec.ofNat w now - BitVec.ofNat w time).toInt ↔ time ≤ now := by
  rcases Nat.le_total time now with hle | hle
  · obtain ⟨k, rfl⟩ := Nat.exists_eq_add_of_le hle
    rw [Nat.add_sub_cancel_left] at hafter
    rw [due_after, Nat.mod_eq_of_lt (by omega)]
    exact iff_of_true hafter hle
  · obtain ⟨k, rfl⟩ := Nat.exists_eq_add_of_le hle
    rw [Nat.add_sub_cancel_left] at hbefore
    rcases Nat.eq_zero_or_pos k with rfl | hk
    · simp
    · have hpending := (pending_before (w := w) now k).mpr
        (by rw [Nat.mod_eq_of_lt (by omega)]; exact ⟨hk, hbefore⟩)
      refine iff_of_false (fun hdue => ?_) (by omega)
      have hneg : BitVec.ofNat w now - BitVec.ofNat w (now + k) =
          -(BitVec.ofNat w (now + k) - BitVec.ofNat w now) := (neg_sub _ _).symm
      rw [hneg, toInt_nonneg_iff, BitVec.toNat_neg] at hdue
      rw [toInt_pos_iff] at hpending
      rw [Nat.mod_eq_of_lt (by omega)] at hdue
      omega

end SlowBus.WrapClock
