import Mathlib.Algebra.Group.End
import Mathlib.Order.Nat

/-!
# Insertion sort in an array

An element sinks to the left by swaps while its key is below that of its neighbour. An array is a
function of the index; the sort moves the first elements of it only.
-/

namespace SlowBus.InPlaceSort

variable {α κ : Type*} [LinearOrder κ] {key : α → κ} {a : Nat → α} {i j n : Nat}

/-- Positions `j` and `j + 1` change places. -/
def swapUp (a : Nat → α) (j : Nat) : Nat → α := fun k =>
  if k = j then a (j + 1) else if k = j + 1 then a j else a k

/-- The element at a position sinks to its place. -/
def sink (key : α → κ) (a : Nat → α) : Nat → Nat → α
  | 0 => a
  | j + 1 => if key (a (j + 1)) < key (a j) then sink key (swapUp a j) j else a

/-- The elements behind the first one sink one after the other. -/
def sort (key : α → κ) (a : Nat → α) (n : Nat) : Nat → α :=
  (List.range' 1 (n - 1)).foldl (sink key) a

/-- The first `n` elements stand in the order of their keys. -/
def SortedTo (key : α → κ) (a : Nat → α) (n : Nat) : Prop :=
  ∀ p q, p < q → q < n → key (a p) ≤ key (a q)

/-- They do, but for the element that sinks: it may be below some on its left. -/
def Sinking (key : α → κ) (a : Nat → α) (j n : Nat) : Prop :=
  ∀ p q, p < q → q < n → q ≠ j → key (a p) ≤ key (a q)

/-- The first `n` elements were moved among themselves. -/
def Moved (a b : Nat → α) (n : Nat) : Prop :=
  ∃ σ : Equiv.Perm Nat, b = a ∘ σ ∧ ∀ k, n ≤ k → σ k = k

theorem Moved.refl (a : Nat → α) (n : Nat) : Moved a a n := ⟨1, rfl, fun _ _ => rfl⟩

theorem Moved.trans {b c : Nat → α} (h : Moved a b n) (h' : Moved b c n) : Moved a c n := by
  obtain ⟨σ, rfl, hσ⟩ := h
  obtain ⟨τ, rfl, hτ⟩ := h'
  refine ⟨σ * τ, rfl, fun k hk => ?_⟩
  rw [Equiv.Perm.mul_apply, hτ k hk, hσ k hk]

theorem swapUp_eq (a : Nat → α) (j : Nat) : swapUp a j = a ∘ Equiv.swap j (j + 1) := by
  ext k
  simp only [swapUp, Function.comp_apply, Equiv.swap_apply_def]
  split_ifs <;> rfl

theorem moved_swapUp (hj : j + 1 < n) : Moved a (swapUp a j) n := by
  refine ⟨Equiv.swap j (j + 1), swapUp_eq a j, fun k hk => ?_⟩
  exact Equiv.swap_apply_of_ne_of_ne (by omega) (by omega)

/-- Where the neighbour is not above, every element has its place. -/
theorem Sinking.sortedTo (h : Sinking key a j n)
    (hstop : ∀ k, j = k + 1 → key (a k) ≤ key (a j)) : SortedTo key a n := by
  intro p q hpq hq
  by_cases hj : q = j
  · subst hj
    obtain ⟨k, rfl⟩ := Nat.exists_eq_succ_of_ne_zero (Nat.ne_zero_of_lt hpq)
    rcases Nat.lt_succ_iff_lt_or_eq.mp hpq with hpk | rfl
    · exact (h p k hpk (Nat.lt_of_succ_lt hq) (Nat.ne_of_lt k.lt_succ_self)).trans (hstop k rfl)
    · exact hstop p rfl
  · exact h p q hpq hq hj

/-- One swap. -/
theorem Sinking.swapUp (h : Sinking key a (j + 1) n) (hlt : key (a (j + 1)) < key (a j)) :
    Sinking key (swapUp a j) j n := by
  intro p q hpq hq hne
  unfold InPlaceSort.swapUp
  rw [if_neg hne]
  by_cases hq' : q = j + 1
  · -- the larger one came up from the left
    rw [if_pos hq']
    split_ifs with hp hp'
    · exact hlt.le
    · omega
    · exact h p j (by omega) (by omega) (by omega)
  · rw [if_neg hq']
    split_ifs with hp hp'
    · exact h (j + 1) q (by omega) hq hq'
    · exact h j q (by omega) hq hq'
    · exact h p q hpq hq hq'

theorem sink_spec (hj : j < n) (h : Sinking key a j n) :
    SortedTo key (sink key a j) n ∧ Moved a (sink key a j) n := by
  induction j generalizing a with
  | zero => exact ⟨h.sortedTo fun k hk => absurd hk (Nat.succ_ne_zero k).symm, .refl a n⟩
  | succ j ih =>
      rw [sink]
      split_ifs with hlt
      · obtain ⟨hsorted, hmoved⟩ := ih (Nat.lt_of_succ_lt hj) (h.swapUp hlt)
        exact ⟨hsorted, (moved_swapUp hj).trans hmoved⟩
      · refine ⟨h.sortedTo fun k hk => ?_, .refl a n⟩
        obtain rfl := Nat.succ.inj hk
        exact not_lt.mp hlt

/-- A sorted array has its next element sinking. -/
theorem SortedTo.sinking (h : SortedTo key a n) : Sinking key a n (n + 1) :=
  fun p q hpq hq hne => h p q hpq (by omega)

theorem Moved.mono {b : Nat → α} {m : Nat} (h : Moved a b n) (hle : n ≤ m) : Moved a b m := by
  obtain ⟨σ, hb, hσ⟩ := h
  exact ⟨σ, hb, fun k hk => hσ k (hle.trans hk)⟩

/-- The first `n` elements are sorted, and no other is touched. -/
theorem sort_spec (key : α → κ) (a : Nat → α) (n : Nat) :
    SortedTo key (sort key a n) n ∧ Moved a (sort key a n) n := by
  induction n with
  | zero => exact ⟨fun _ _ _ hq => absurd hq (Nat.not_lt_zero _), .refl a 0⟩
  | succ n ih =>
      rcases Nat.eq_zero_or_pos n with rfl | hn
      · exact ⟨fun p q hpq hq => by omega, .refl a 1⟩
      have hsort : sort key a (n + 1) = sink key (sort key a n) n := by
        obtain ⟨m, rfl⟩ := Nat.exists_eq_succ_of_ne_zero hn.ne'
        simp only [sort, Nat.add_sub_cancel, List.range'_1_concat, List.foldl_append,
          List.foldl_cons, List.foldl_nil, Nat.add_comm 1 m]
        rfl
      obtain ⟨hsorted, hmoved⟩ := sink_spec n.lt_succ_self ih.1.sinking
      rw [hsort]
      exact ⟨hsorted, (ih.2.mono n.le_succ).trans hmoved⟩

end SlowBus.InPlaceSort
