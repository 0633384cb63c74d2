import SlowBus.Adc.Isqrt
import SlowBus.Lib.Moments

/-!
# Window statistics

Both chips fold the samples of a window into the same accumulators and publish the same four
numbers when the window closes. The accumulators have 16, 32 and 64 bits; for 12-bit samples they
hold every window of fewer than 2^16.
-/

namespace SlowBus.Adc

open Moments

/-- `adc_accum_t`. -/
structure AdcAccum where
  min : BitVec 16
  max : BitVec 16
  sum : BitVec 32
  sumsq : BitVec 64
  count : BitVec 16
  deriving DecidableEq, Repr

/-- `adc_wstat_t`, `adc_stat_t`. -/
structure AdcStat where
  min : BitVec 16
  max : BitVec 16
  avg : BitVec 16
  rms : BitVec 16
  deriving DecidableEq, Repr

/-- An accumulator after its window closed. -/
def AdcAccum.zero : AdcAccum := { min := 0, max := 0, sum := 0, sumsq := 0, count := 0 }

/-- A sample is folded into a window. -/
def AdcAccum.fold (a : AdcAccum) (raw : BitVec 16) : AdcAccum where
  min := if a.count = 0 then raw else if raw < a.min then raw else a.min
  max := if a.count = 0 then raw else if a.max < raw then raw else a.max
  sum := a.sum + raw.setWidth 32
  sumsq := a.sumsq + (raw.setWidth 32 * raw.setWidth 32).setWidth 64
  count := a.count + 1

def AdcAccum.avg (a : AdcAccum) : BitVec 32 :=
  if a.count = 0 then 0 else a.sum / a.count.setWidth 32

/-- `n * sumsq`. -/
def AdcAccum.nss (a : AdcAccum) : BitVec 64 := a.count.setWidth 64 * a.sumsq

/-- `sum * sum`. -/
def AdcAccum.ss (a : AdcAccum) : BitVec 64 := a.sum.setWidth 64 * a.sum.setWidth 64

def AdcAccum.var (a : AdcAccum) : BitVec 32 :=
  if a.count = 0 then 0
  else if a.ss < a.nss then
    ((a.nss - a.ss) / (a.count.setWidth 64 * a.count.setWidth 64)).setWidth 32
  else 0

/-- What a closing window publishes, with a chip's square root. -/
def AdcAccum.stat (isqrt32 : BitVec 32 → BitVec 16) (a : AdcAccum) : AdcStat where
  min := a.min
  max := a.max
  avg := a.avg.setWidth 16
  rms := isqrt32 a.var

/-! ## What is asked of them -/

/-- Four numbers about a window. -/
structure WindowStats where
  min : Nat
  max : Nat
  avg : Nat
  rms : Nat
  deriving DecidableEq, Repr

def AdcStat.values (s : AdcStat) : WindowStats :=
  ⟨s.min.toNat, s.max.toNat, s.avg.toNat, s.rms.toNat⟩

/-- The statistics of a list of samples. -/
def windowStats (xs : List Nat) : WindowStats where
  min := xs.min?.getD 0
  max := xs.max?.getD 0
  avg := xs.sum / xs.length
  rms := Nat.sqrt ((xs.length * (xs.map (· ^ 2)).sum - xs.sum ^ 2) / xs.length ^ 2)

/-- Samples have 12 bits. -/
def Samples (xs : List (BitVec 16)) : Prop := ∀ x ∈ xs, x.toNat ≤ 4095

/-- The samples as numbers. -/
def numbers (xs : List (BitVec 16)) : List Nat := xs.map BitVec.toNat

/-- No accumulator has wrapped, and none of the numbers computed from them does. -/
structure AdcAccum.Exact (a : AdcAccum) (xs : List Nat) : Prop where
  count : a.count.toNat = xs.length
  sum : a.sum.toNat = xs.sum
  sumsq : a.sumsq.toNat = (xs.map (· ^ 2)).sum
  nss : a.nss.toNat = xs.length * (xs.map (· ^ 2)).sum
  ss : a.ss.toNat = xs.sum ^ 2
  noUnderflow : xs.sum ^ 2 ≤ xs.length * (xs.map (· ^ 2)).sum
  var : a.var.toNat = (xs.length * (xs.map (· ^ 2)).sum - xs.sum ^ 2) / xs.length ^ 2

/-- A window publishes the statistics of its samples, and nothing wraps on the way. -/
structure Publishes (a : AdcAccum) (st : AdcStat) (xs : List (BitVec 16)) : Prop where
  exact : a.Exact (numbers xs)
  values : st.values = windowStats (numbers xs)
  ordered : st.min ≤ st.avg ∧ st.avg ≤ st.max

/-! ## The accumulators -/

section Accumulators

variable {a : AdcAccum} {xs : List Nat} {raw : BitVec 16}

/-- The accumulators hold the samples. -/
structure AdcAccum.Holds (a : AdcAccum) (xs : List Nat) : Prop where
  count : a.count.toNat = xs.length
  sum : a.sum.toNat = xs.sum
  sumsq : a.sumsq.toNat = sumSq xs
  min : xs ≠ [] → xs.min? = some a.min.toNat
  max : xs ≠ [] → xs.max? = some a.max.toNat

theorem holds_zero : AdcAccum.zero.Holds [] where
  count := rfl
  sum := rfl
  sumsq := rfl
  min h := absurd rfl h
  max h := absurd rfl h

theorem count_eq_zero_iff (h : a.Holds xs) : a.count = 0 ↔ xs = [] := by
  rw [← List.length_eq_zero_iff, ← h.count]
  exact BitVec.toNat_inj.symm

theorem toNat_square (hraw : raw.toNat ≤ 4095) :
    ((raw.setWidth 32 * raw.setWidth 32).setWidth 64).toNat = raw.toNat ^ 2 := by
  have hsq : raw.toNat * raw.toNat ≤ 4095 * 4095 := Nat.mul_le_mul hraw hraw
  rw [BitVec.toNat_setWidth, BitVec.toNat_mul, BitVec.toNat_setWidth_of_le (by decide),
    Nat.mod_eq_of_lt (by omega), Nat.mod_eq_of_lt (by omega), Nat.pow_two]

theorem min?_append_one {xs : List Nat} {m : Nat} (x : Nat) (h : xs.min? = some m) :
    (xs ++ [x]).min? = some (min m x) := by
  rw [List.min?_eq_some_iff] at h ⊢
  refine ⟨?_, fun b hb => ?_⟩
  · rcases Nat.le_total m x with hle | hle
    · rw [Nat.min_eq_left hle]
      exact List.mem_append_left _ h.1
    · rw [Nat.min_eq_right hle]
      exact List.mem_append_right _ (List.mem_singleton_self x)
  · rcases List.mem_append.mp hb with hb | hb
    · exact (Nat.min_le_left _ _).trans (h.2 b hb)
    · rw [List.mem_singleton.mp hb]
      exact Nat.min_le_right _ _

theorem max?_append_one {xs : List Nat} {m : Nat} (x : Nat) (h : xs.max? = some m) :
    (xs ++ [x]).max? = some (max m x) := by
  rw [List.max?_eq_some_iff] at h ⊢
  refine ⟨?_, fun b hb => ?_⟩
  · rcases Nat.le_total m x with hle | hle
    · rw [Nat.max_eq_right hle]
      exact List.mem_append_right _ (List.mem_singleton_self x)
    · rw [Nat.max_eq_left hle]
      exact List.mem_append_left _ h.1
  · rcases List.mem_append.mp hb with hb | hb
    · exact (h.2 b hb).trans (Nat.le_max_left _ _)
    · rw [List.mem_singleton.mp hb]
      exact Nat.le_max_right _ _

/-- One more sample. The widths have room for a window of fewer than 2^16. -/
theorem AdcAccum.Holds.fold (h : a.Holds xs) (hraw : raw.toNat ≤ 4095)
    (hxs : ∀ x ∈ xs, x ≤ 4095) (hlength : xs.length + 1 < 2 ^ 16) :
    (a.fold raw).Holds (xs ++ [raw.toNat]) := by
  have hsum : xs.sum ≤ xs.length * 4095 := sum_le hxs
  have hsumsq : sumSq xs ≤ xs.length * 4095 ^ 2 := sumSq_le hxs
  have hsq : raw.toNat ^ 2 ≤ 4095 ^ 2 := Nat.pow_le_pow_left hraw 2
  refine ⟨?_, ?_, ?_, fun _ => ?_, fun _ => ?_⟩
  · show (a.count + 1).toNat = _
    rw [BitVec.toNat_add_of_lt (by rw [h.count]; exact hlength), h.count, List.length_append]
    rfl
  · have hwide : (raw.setWidth 32).toNat = raw.toNat := BitVec.toNat_setWidth_of_le (by decide)
    show (a.sum + raw.setWidth 32).toNat = _
    rw [BitVec.toNat_add_of_lt (by rw [hwide, h.sum]; omega), hwide, h.sum, sum_append_one]
  · have hwide := toNat_square hraw
    show (a.sumsq + (raw.setWidth 32 * raw.setWidth 32).setWidth 64).toNat = _
    rw [BitVec.toNat_add_of_lt (by rw [hwide, h.sumsq]; omega), hwide, h.sumsq, sumSq_append_one]
  · show _ = some (if a.count = 0 then raw else if raw < a.min then raw else a.min).toNat
    split_ifs with hzero hlt
    · rw [(count_eq_zero_iff h).mp hzero]
      rfl
    · rw [min?_append_one _ (h.min fun hnil => hzero ((count_eq_zero_iff h).mpr hnil)),
        Nat.min_eq_right (BitVec.lt_def.mp hlt).le]
    · rw [min?_append_one _ (h.min fun hnil => hzero ((count_eq_zero_iff h).mpr hnil)),
        Nat.min_eq_left (BitVec.le_def.mp (BitVec.not_lt.mp hlt))]
  · show _ = some (if a.count = 0 then raw else if a.max < raw then raw else a.max).toNat
    split_ifs with hzero hlt
    · rw [(count_eq_zero_iff h).mp hzero]
      rfl
    · rw [max?_append_one _ (h.max fun hnil => hzero ((count_eq_zero_iff h).mpr hnil)),
        Nat.max_eq_right (BitVec.lt_def.mp hlt).le]
    · rw [max?_append_one _ (h.max fun hnil => hzero ((count_eq_zero_iff h).mpr hnil)),
        Nat.max_eq_left (BitVec.le_def.mp (BitVec.not_lt.mp hlt))]

theorem samples_numbers {xs : List (BitVec 16)} (h : Samples xs) : ∀ x ∈ numbers xs, x ≤ 4095 := by
  intro x hx
  obtain ⟨raw, hraw, rfl⟩ := List.mem_map.mp hx
  exact h raw hraw

/-- The samples folded into an empty window. -/
theorem holds_foldl {xs : List (BitVec 16)} (h : Samples xs) (hlength : xs.length < 2 ^ 16) :
    (xs.foldl AdcAccum.fold AdcAccum.zero).Holds (numbers xs) := by
  induction xs using List.reverseRecOn with
  | nil => exact holds_zero
  | append_singleton xs raw ih =>
      have hxs : Samples xs := fun x hx => h x (List.mem_append_left _ hx)
      rw [List.length_append] at hlength
      have ih := ih hxs (Nat.lt_of_succ_lt hlength)
      have hraw := h raw (List.mem_append_right _ (List.mem_singleton_self raw))
      rw [List.foldl_append]
      have hstep := ih.fold hraw (samples_numbers hxs) (by rwa [numbers, List.length_map])
      rwa [numbers, List.map_append]

/-- Sums of a window of fewer than 2^16 samples fit the 64-bit products. -/
theorem AdcAccum.Holds.exact (h : a.Holds xs) (hne : xs ≠ []) (hxs : ∀ x ∈ xs, x ≤ 4095) :
    a.Exact xs := by
  have hlength : xs.length < 2 ^ 16 := h.count ▸ a.count.isLt
  have hn : (a.count.setWidth 64).toNat = xs.length := by
    rw [BitVec.toNat_setWidth_of_le (by decide), h.count]
  have hs : (a.sum.setWidth 64).toNat = xs.sum := by
    rw [BitVec.toNat_setWidth_of_le (by decide), h.sum]
  have hsum : xs.sum ≤ 2 ^ 16 * 4095 :=
    (sum_le hxs).trans (Nat.mul_le_mul_right _ hlength.le)
  have hsumsq : sumSq xs ≤ 2 ^ 16 * 4095 ^ 2 :=
    (sumSq_le hxs).trans (Nat.mul_le_mul_right _ hlength.le)
  have hnss : a.nss.toNat = xs.length * sumSq xs := by
    have hprod : xs.length * sumSq xs ≤ 2 ^ 16 * (2 ^ 16 * 4095 ^ 2) :=
      Nat.mul_le_mul hlength.le hsumsq
    rw [AdcAccum.nss, BitVec.toNat_mul, hn, h.sumsq, Nat.mod_eq_of_lt (by omega)]
  have hss : a.ss.toNat = xs.sum ^ 2 := by
    have hprod : xs.sum * xs.sum ≤ 2 ^ 16 * 4095 * (2 ^ 16 * 4095) := Nat.mul_le_mul hsum hsum
    rw [AdcAccum.ss, BitVec.toNat_mul, hs, Nat.mod_eq_of_lt (by omega), Nat.pow_two]
  have hsquare : (a.count.setWidth 64 * a.count.setWidth 64).toNat = xs.length ^ 2 := by
    have hprod : xs.length * xs.length ≤ 2 ^ 16 * 2 ^ 16 := Nat.mul_le_mul hlength.le hlength.le
    rw [BitVec.toNat_mul, hn, Nat.mod_eq_of_lt (by omega), Nat.pow_two]
  refine ⟨h.count, h.sum, h.sumsq, hnss, hss, sq_sum_le xs, ?_⟩
  show a.var.toNat = variance xs
  rw [AdcAccum.var, if_neg fun hzero => hne ((count_eq_zero_iff h).mp hzero)]
  split_ifs with hlt
  · have hvar : variance xs ≤ 4095 ^ 2 := variance_le hne hxs
    have hdiff : (a.nss - a.ss).toNat = xs.length * sumSq xs - xs.sum ^ 2 := by
      rw [BitVec.toNat_sub_of_le (BitVec.le_of_lt hlt), hnss, hss]
    rw [BitVec.toNat_setWidth, BitVec.toNat_udiv, hdiff, hsquare]
    exact Nat.mod_eq_of_lt (Nat.lt_of_le_of_lt hvar (by decide))
  · -- a variance of 0 is where the products are equal
    have hle : xs.length * sumSq xs ≤ xs.sum ^ 2 := by
      rw [← hnss, ← hss]
      exact BitVec.le_def.mp (BitVec.not_lt.mp hlt)
    rw [variance, Nat.sub_eq_zero_of_le hle, Nat.zero_div]
    rfl

/-- A closing window publishes the statistics of its samples. -/
theorem AdcAccum.Holds.stat {isqrt32 : BitVec 32 → BitVec 16}
    (hsqrt : ∀ v, (isqrt32 v).toNat = Nat.sqrt v.toNat) (h : a.Holds xs) (hne : xs ≠ [])
    (hxs : ∀ x ∈ xs, x ≤ 4095) : (a.stat isqrt32).values = windowStats xs := by
  have hexact := h.exact hne hxs
  have hmean : xs.sum / xs.length ≤ 4095 := mean_le hne hxs
  have havg : (a.avg.setWidth 16).toNat = xs.sum / xs.length := by
    rw [AdcAccum.avg, if_neg fun hzero => hne ((count_eq_zero_iff h).mp hzero),
      BitVec.toNat_setWidth, BitVec.toNat_udiv, h.sum, BitVec.toNat_setWidth_of_le (by decide),
      h.count]
    exact Nat.mod_eq_of_lt (Nat.lt_of_le_of_lt hmean (by decide))
  simp only [AdcStat.values, AdcAccum.stat, windowStats, havg, hsqrt, hexact.var, h.min hne,
    h.max hne, Option.getD_some]

/-- The average lies between the least and the greatest sample. -/
theorem windowStats_ordered (hne : xs ≠ []) :
    (windowStats xs).min ≤ (windowStats xs).avg ∧ (windowStats xs).avg ≤ (windowStats xs).max := by
  obtain ⟨lo, hlo⟩ := Option.isSome_iff_exists.mp (List.isSome_min?_of_ne_nil hne)
  obtain ⟨hi, hhi⟩ := Option.isSome_iff_exists.mp (List.isSome_max?_of_ne_nil hne)
  simp only [windowStats, hlo, hhi, Option.getD_some]
  exact ⟨le_mean hne fun x hx => (List.min?_eq_some_iff.mp hlo).2 x hx,
    mean_le hne fun x hx => (List.max?_eq_some_iff.mp hhi).2 x hx⟩

theorem numbers_ne_nil {xs : List (BitVec 16)} (h : 1 ≤ xs.length) : numbers xs ≠ [] := fun hnil =>
  List.ne_nil_of_length_pos h (List.map_eq_nil_iff.mp hnil)

theorem publishes_stat {isqrt32 : BitVec 32 → BitVec 16} {xs : List (BitVec 16)}
    (hsqrt : ∀ v, (isqrt32 v).toNat = Nat.sqrt v.toNat) (hsamples : Samples xs)
    (hlength : 1 ≤ xs.length ∧ xs.length < 2 ^ 16) :
    Publishes (xs.foldl AdcAccum.fold AdcAccum.zero)
      ((xs.foldl AdcAccum.fold AdcAccum.zero).stat isqrt32) xs := by
  have hholds := holds_foldl hsamples hlength.2
  have hne := numbers_ne_nil hlength.1
  have hvalues := hholds.stat hsqrt hne (samples_numbers hsamples)
  obtain ⟨hmin, hmax⟩ := windowStats_ordered hne
  rw [← hvalues] at hmin hmax
  exact ⟨hholds.exact hne (samples_numbers hsamples), hvalues, BitVec.le_def.mpr hmin,
    BitVec.le_def.mpr hmax⟩

end Accumulators

end SlowBus.Adc
