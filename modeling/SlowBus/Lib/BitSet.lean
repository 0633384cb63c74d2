import Mathlib.Data.Nat.Bitwise

/-!
# Bit vectors as sets of indices

Membership of an index is its bit. The tests that bit-mask code makes, a mask
against zero, against a single bit and against another mask, are statements
about members.
-/

namespace SlowBus.BitSet

variable {w : Nat}

theorem ext_bits {x y : BitVec w} (h : ∀ i, x.getLsbD i = y.getLsbD i) : x = y :=
  BitVec.eq_of_getLsbD_eq fun i _ => h i

theorem eq_zero_iff {x : BitVec w} : x = 0 ↔ ∀ i, x.getLsbD i = false := by
  constructor
  · rintro rfl i
    simp
  · intro h
    exact ext_bits fun i => by simp [h i]

theorem ne_zero_iff {x : BitVec w} : x ≠ 0 ↔ ∃ i, x.getLsbD i = true := by
  rw [ne_eq, eq_zero_iff]
  simp

theorem getLsbD_single {i j : Nat} (hi : i < w) :
    (BitVec.twoPow w i).getLsbD j = true ↔ i = j := by
  simp [BitVec.getLsbD_twoPow, hi]

theorem and_single_eq_zero_iff {x : BitVec w} {i : Nat} (hi : i < w) :
    x &&& BitVec.twoPow w i = 0 ↔ x.getLsbD i = false := by
  rw [eq_zero_iff]
  constructor
  · intro h
    simpa [BitVec.getLsbD_twoPow, hi] using h i
  · intro h j
    rw [BitVec.getLsbD_and, BitVec.getLsbD_twoPow]
    by_cases hij : i = j
    · simp [← hij, h]
    · simp [hij]

theorem getLsbD_erase {x : BitVec w} {i j : Nat} :
    (x &&& ~~~BitVec.twoPow w i).getLsbD j = true ↔ x.getLsbD j = true ∧ i ≠ j := by
  by_cases hj : j < w
  · rw [BitVec.getLsbD_and, BitVec.getLsbD_not, BitVec.getLsbD_twoPow]
    by_cases hij : i = j
    · simp [hij, hj]
    · simp [hij, hj]
  · simp [BitVec.getLsbD_of_ge x j (by omega), hj]

theorem getLsbD_insert {x : BitVec w} {i j : Nat} (hi : i < w) :
    (x ||| BitVec.twoPow w i).getLsbD j = true ↔ x.getLsbD j = true ∨ i = j := by
  rw [BitVec.getLsbD_or, Bool.or_eq_true, getLsbD_single hi]

/-- A mask that is neither empty nor the single bit `i` has another member. -/
theorem exists_other {x : BitVec w} {i : Nat} (hi : i < w) (hzero : x ≠ 0)
    (hsingle : x ≠ BitVec.twoPow w i) : ∃ j, i ≠ j ∧ x.getLsbD j = true := by
  by_contra hnone
  push Not at hnone
  obtain ⟨k, hk⟩ := ne_zero_iff.mp hzero
  have hki : i = k := by
    by_contra hne
    exact hnone k hne hk
  apply hsingle
  apply ext_bits
  intro j
  by_cases hij : i = j
  · rw [← hij, (getLsbD_single hi).mpr rfl, hki, hk]
  · have hj : x.getLsbD j = false := by simpa using hnone j hij
    rw [hj]
    symm
    simpa [BitVec.getLsbD_twoPow, hi] using hij

/-! ## Sets gathered index by index -/

section Gather

variable {σ ι : Type*} {P : σ → Prop} {j : ι}

/-- What holds after a fold each of whose steps can only bring it about. -/
theorem foldl_brings {A : ι → Prop} {step : σ → ι → σ} (hstep : ∀ s i, P (step s i) ↔ P s ∨ A i)
    (is : List ι) (s : σ) : P (is.foldl step s) ↔ P s ∨ ∃ i ∈ is, A i := by
  induction is generalizing s with
  | nil => simp
  | cons i is ih =>
      rw [List.foldl_cons, ih, hstep, or_assoc]
      simp only [List.mem_cons, exists_eq_or_imp]

/-- The selected indices of a list are added one by one. -/
theorem foldl_select (sel : ι → Bool) {add : σ → ι → σ} (hadd : ∀ s i, P (add s i) ↔ P s ∨ i = j)
    (is : List ι) (s : σ) :
    P (is.foldl (fun s i => if sel i then add s i else s) s) ↔ P s ∨ j ∈ is ∧ sel j = true := by
  have hstep : ∀ s i, P (if sel i then add s i else s) ↔ P s ∨ (i = j ∧ sel i = true) := by
    intro s i
    cases hsel : sel i with
    | true => simp [hadd]
    | false => simp
  rw [foldl_brings hstep]
  refine or_congr_right ?_
  constructor
  · rintro ⟨i, hi, rfl, hsel⟩
    exact ⟨hi, hsel⟩
  · rintro ⟨hj, hsel⟩
    exact ⟨j, hj, rfl, hsel⟩

end Gather

end SlowBus.BitSet
