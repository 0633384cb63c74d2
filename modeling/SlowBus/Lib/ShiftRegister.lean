import Mathlib.Data.List.Infix
import Mathlib.Data.Nat.Bitwise
import Mathlib.Order.Basic

/-!
# Shift registers that wait for agreement

A filter shifts every sample into a register of `n` bits and changes its output when all bits
of the register agree. Its output is the value of the latest run of `n` equal samples.
-/

namespace SlowBus.ShiftRegister

variable {α : Type*} {zero v w : α} {n : Nat}

/-! ## Runs of equal samples -/

/-- Among the runs of `n` equal samples, the one with the fewest samples after it has the value
`v`; without any run `v` is `zero`. -/
def LatestRun (n : Nat) (zero : α) (samples : List α) (v : α) : Prop :=
  (∃ before after, samples = before ++ List.replicate n v ++ after ∧
    ∀ w before' after', samples = before' ++ List.replicate n w ++ after' →
      after.length ≤ after'.length) ∨
  (∀ w, ¬List.replicate n w <:+: samples) ∧ v = zero

section Runs

variable {samples : List α} {x : α}

theorem LatestRun.unique (hn : 0 < n) (h : LatestRun n zero samples v)
    (h' : LatestRun n zero samples w) : v = w := by
  rcases h with ⟨before, after, heq, hleast⟩ | ⟨hnone, rfl⟩
  · rcases h' with ⟨before', after', heq', hleast'⟩ | ⟨hnone', -⟩
    · have hlen : after.length = after'.length :=
        Nat.le_antisymm (hleast _ _ _ heq') (hleast' _ _ _ heq)
      obtain ⟨hfront, -⟩ := List.append_inj' (heq.symm.trans heq') hlen
      obtain ⟨-, hrun⟩ := List.append_inj' hfront (by simp)
      exact List.replicate_right_injective hn.ne' hrun
    · exact absurd ⟨before, after, heq.symm⟩ (hnone' v)
  · rcases h' with ⟨before', after', heq', -⟩ | ⟨-, rfl⟩
    · exact absurd ⟨before', after', heq'.symm⟩ (hnone w)
    · rfl

/-- Too few samples for a run. -/
theorem latestRun_of_short (h : samples.length < n) : LatestRun n zero samples zero := by
  refine .inr ⟨fun w hrun => ?_, rfl⟩
  have hlen := hrun.length_le
  rw [List.length_replicate] at hlen
  omega

/-- The samples end in a run. -/
theorem latestRun_of_suffix (h : List.replicate n v <:+ samples) :
    LatestRun n zero samples v := by
  obtain ⟨before, hbefore⟩ := h
  exact .inl ⟨before, [], by rw [hbefore, List.append_nil], fun _ _ _ _ => Nat.zero_le _⟩

/-- The new sample ends no run. -/
theorem LatestRun.concat (h : LatestRun n zero samples v)
    (hnone : ∀ w, ¬List.replicate n w <:+ samples ++ [x]) :
    LatestRun n zero (samples ++ [x]) v := by
  -- a run of the longer list ends before the new sample
  have hback : ∀ w before' after', samples ++ [x] = before' ++ List.replicate n w ++ after' →
      ∃ rest, after' = rest ++ [x] ∧ samples = before' ++ List.replicate n w ++ rest := by
    intro w before' after' heq
    rcases List.eq_nil_or_concat after' with rfl | ⟨rest, y, rfl⟩
    · exact absurd ⟨before', by rw [heq, List.append_nil]⟩ (hnone w)
    · rw [List.concat_eq_append, ← List.append_assoc] at heq
      obtain ⟨hsamples, hlast⟩ := List.append_inj' heq rfl
      exact ⟨rest, by rw [List.concat_eq_append, hlast], hsamples⟩
  rcases h with ⟨before, after, heq, hleast⟩ | ⟨hno, rfl⟩
  · refine .inl ⟨before, after ++ [x], by rw [heq, List.append_assoc _ after],
      fun w before' after' heq' => ?_⟩
    obtain ⟨rest, rfl, hrest⟩ := hback w before' after' heq'
    have hle := hleast w before' rest hrest
    simpa using hle
  · refine .inr ⟨?_, rfl⟩
    rintro w ⟨before', after', heq'⟩
    obtain ⟨rest, -, hrest⟩ := hback w before' after' heq'.symm
    exact hno w ⟨before', rest, hrest.symm⟩

theorem replicate_suffix_iff :
    List.replicate n v <:+ samples ↔ ∀ j < n, samples.reverse[j]? = some v := by
  rw [← List.reverse_prefix, List.reverse_replicate, List.prefix_iff_getElem?]
  simp only [List.length_replicate, List.getElem_replicate]

end Runs

/-! ## The register -/

/-- Shift a bit into a register of `n` bits. -/
def shiftIn (n sr bit : Nat) : Nat := ((sr <<< 1) ||| bit) &&& (2 ^ n - 1)

/-- One sample: the register and the output after it. -/
def step (n : Nat) (r : Nat × Nat) (bit : Nat) : Nat × Nat :=
  let sr := shiftIn n r.1 bit
  (sr, if sr = 2 ^ n - 1 then 1 else if sr = 0 then 0 else r.2)

/-- The register holds the latest `n` samples, the latest in bit 0. -/
def Register (n : Nat) (samples : List Nat) (sr : Nat) : Prop :=
  ∀ j, sr.testBit j = decide (j < n ∧ samples.reverse[j]? = some 1)

section Register

variable {samples : List Nat} {sr x : Nat}

theorem register_nil : Register n [] 0 := fun j => by simp

theorem testBit_bit (hx : x < 2) (j : Nat) : x.testBit j = decide (j = 0 ∧ x = 1) := by
  obtain rfl | rfl : x = 0 ∨ x = 1 := by omega
  · simp
  · cases j with
    | zero => rfl
    | succ j => simp [Nat.testBit_succ]

theorem Register.shiftIn (h : Register n samples sr) (hx : x < 2) :
    Register n (samples ++ [x]) (shiftIn n sr x) := by
  intro j
  rw [ShiftRegister.shiftIn, Nat.testBit_and, Nat.testBit_or, Nat.testBit_two_pow_sub_one,
    Nat.testBit_shiftLeft, testBit_bit hx, List.reverse_append]
  cases j with
  | zero => by_cases hone : x = 1 <;> simp [hone]
  | succ j =>
      rw [Nat.add_sub_cancel, h j]
      by_cases hj : j + 1 < n
      · have hj' : j < n := by omega
        simp [hj, hj']
      · simp [hj]

/-- All bits are set when the samples end in a run of ones. -/
theorem Register.eq_ones_iff (h : Register n samples sr) :
    sr = 2 ^ n - 1 ↔ List.replicate n 1 <:+ samples := by
  rw [replicate_suffix_iff]
  constructor
  · intro heq j hj
    have hbit := h j
    rw [heq, Nat.testBit_two_pow_sub_one, decide_eq_true hj] at hbit
    exact (of_decide_eq_true hbit.symm).2
  · intro hall
    refine Nat.eq_of_testBit_eq fun j => ?_
    rw [h j, Nat.testBit_two_pow_sub_one]
    exact decide_eq_decide.mpr ⟨And.left, fun hj => ⟨hj, hall j hj⟩⟩

/-- No bit is set when none of the latest `n` samples is a one. -/
theorem Register.eq_zero_iff (h : Register n samples sr) :
    sr = 0 ↔ ∀ j < n, samples.reverse[j]? ≠ some 1 := by
  constructor
  · intro heq j hj hone
    have hbit := h j
    rw [heq, Nat.zero_testBit, decide_eq_true ⟨hj, hone⟩] at hbit
    cases hbit
  · intro hall
    refine Nat.eq_of_testBit_eq fun j => ?_
    rw [h j, Nat.zero_testBit]
    exact decide_eq_false fun hj => hall j hj.1 hj.2

/-- With enough samples, no bit is set exactly when they end in a run of zeros. -/
theorem Register.eq_zero_iff_suffix (h : Register n samples sr) (hbits : ∀ x ∈ samples, x < 2)
    (hlong : n ≤ samples.length) : sr = 0 ↔ List.replicate n 0 <:+ samples := by
  rw [h.eq_zero_iff, replicate_suffix_iff]
  refine forall₂_congr fun j hj => ?_
  obtain ⟨x, hx⟩ : ∃ x, samples.reverse[j]? = some x :=
    ⟨_, List.getElem?_eq_getElem (by rw [List.length_reverse]; omega)⟩
  have hlt : x < 2 := hbits x (List.mem_reverse.mp (List.mem_of_getElem? hx))
  rw [hx, ne_eq, Option.some.injEq, Option.some.injEq]
  omega

/-- A run of bits is a run of ones or of zeros. -/
theorem eq_of_suffix (hn : 0 < n) (hbits : ∀ x ∈ samples, x < 2) {v : Nat}
    (h : List.replicate n v <:+ samples) : v = 0 ∨ v = 1 := by
  have hv : v < 2 := hbits v (h.subset (List.mem_replicate.mpr ⟨hn.ne', rfl⟩))
  omega

/-- What the filter computes: its register holds the latest samples, its output is the value of
the latest run. -/
theorem latestRun_foldl (hn : 0 < n) (hbits : ∀ x ∈ samples, x < 2) :
    Register n samples (samples.foldl (step n) (0, 0)).1 ∧
      LatestRun n 0 samples (samples.foldl (step n) (0, 0)).2 := by
  induction samples using List.reverseRecOn with
  | nil => exact ⟨register_nil, latestRun_of_short hn⟩
  | append_singleton samples x ih =>
      obtain ⟨hold, hx⟩ := List.forall_mem_append.mp hbits
      obtain ⟨hreg, hrun⟩ := ih hold
      have hreg' := hreg.shiftIn (hx x (List.mem_singleton_self x))
      rw [List.foldl_append, List.foldl_cons, List.foldl_nil]
      refine ⟨hreg', ?_⟩
      unfold step
      dsimp only
      split_ifs with hones hzero
      · exact latestRun_of_suffix (hreg'.eq_ones_iff.mp hones)
      · rcases Nat.lt_or_ge (samples ++ [x]).length n with hshort | hlong
        · exact latestRun_of_short hshort
        · exact latestRun_of_suffix ((hreg'.eq_zero_iff_suffix hbits hlong).mp hzero)
      · refine hrun.concat fun w hsuffix => ?_
        have hlong := hsuffix.length_le
        rw [List.length_replicate] at hlong
        rcases eq_of_suffix hn hbits hsuffix with rfl | rfl
        · exact hzero ((hreg'.eq_zero_iff_suffix hbits hlong).mpr hsuffix)
        · exact hones (hreg'.eq_ones_iff.mpr hsuffix)

end Register

end SlowBus.ShiftRegister
