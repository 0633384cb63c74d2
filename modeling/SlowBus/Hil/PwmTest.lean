import Mathlib.Data.Nat.GCD.Basic
import Mathlib.Data.Nat.Prime.Basic
import Mathlib.Algebra.Order.Ring.Nat

/-!
# The PWM test source

`pwm_test_set` picks the clock divider and the period of a PWM slice from a frequency and a duty
cycle. It counts in 32 bits and hands 16 of them to the slice.
-/

namespace SlowBus.Hil

/-- What the slice of the test pin is given before it is enabled. -/
structure PwmSlice where
  clkdiv : BitVec 8
  wrap : BitVec 16
  level : BitVec 16
  deriving DecidableEq, Repr

/-- The test pin is released, or its slice runs. -/
inductive PwmTest where
  | off
  | on (slice : PwmSlice)
  deriving DecidableEq, Repr

/-- Unsigned division; there is no quotient by 0. -/
def udiv (a b : BitVec 32) : Option (BitVec 32) := if b = 0 then none else some (a / b)

def pwmDivider (quotient : BitVec 32) : BitVec 32 :=
  if 255 < quotient + 1 then 255 else quotient + 1

def pwmTop (counts : BitVec 32) : BitVec 32 :=
  if counts < 2 then 2 else if 65536 < counts then 65536 else counts

/-- The settings for a divider and a period. -/
def pwmSlice (div top : BitVec 32) (dutyPct : BitVec 8) : PwmSlice :=
  let duty := if 100 < dutyPct then 100 else dutyPct
  { clkdiv := div.setWidth 8
    wrap := (top - 1).setWidth 16
    level := (top * duty.setWidth 32 / 100).setWidth 16 }

/-- `pwm_test_set` with the system clock at `fsys`. -/
def pwmTestSet (fsys freqHz : BitVec 32) (dutyPct : BitVec 8) : Option PwmTest :=
  if freqHz = 0 ∨ dutyPct = 0 then some .off
  else do
    let quotient ← udiv fsys (freqHz * 65536)
    let div := pwmDivider quotient
    let counts ← udiv fsys (div * freqHz)
    some (.on (pwmSlice div (pwmTop counts) dutyPct))

/-! ## What is asked of it -/

/-- The counts of one period. -/
def PwmSlice.top (s : PwmSlice) : Nat := s.wrap.toNat + 1

/-- The output is high while the counter is below the level. -/
def PwmSlice.AlwaysHigh (s : PwmSlice) : Prop := ∀ counter ≤ s.wrap, counter < s.level

/-- The slice is set up as the request asks. -/
structure PwmSlice.Realizes (s : PwmSlice) (fsys freqHz dutyPct : Nat) : Prop where
  divider : 1 ≤ s.clkdiv.toNat ∧ s.clkdiv.toNat ≤ 255
  period : 2 ≤ s.top ∧ s.top ≤ 65536
  exact : 2 ≤ fsys / (s.clkdiv.toNat * freqHz) → fsys / (s.clkdiv.toNat * freqHz) ≤ 65536 →
    s.top = fsys / (s.clkdiv.toNat * freqHz)
  level : s.level.toNat = s.top * min dutyPct 100 / 100
  full : 100 ≤ dutyPct → s.AlwaysHigh

/-- The frequency is no multiple of 65536, and a duty cycle of 100 is not asked of a frequency
that takes the longest period at the largest divider. -/
def PwmFits (fsys freqHz dutyPct : Nat) : Prop :=
  freqHz % 65536 ≠ 0 ∧ (100 ≤ dutyPct → fsys < 255 * 65536 * freqHz)

section Arithmetic

/-- The divider for a clock and a frequency. -/
def dividerOf (fsys freqHz : Nat) : Nat := min 255 (fsys / (65536 * (freqHz % 65536)) + 1)

variable {fsys freq : BitVec 32} {duty : BitVec 8}

theorem udiv_eq {a b : BitVec 32} (hb : b.toNat ≠ 0) : udiv a b = some (a / b) :=
  if_neg fun h => hb (congrArg BitVec.toNat h)

theorem toNat_pwmDivider {q : BitVec 32} (hq : q.toNat + 1 < 2 ^ 32) :
    (pwmDivider q).toNat = min 255 (q.toNat + 1) := by
  have hsucc : (q + 1).toNat = q.toNat + 1 := by
    rw [BitVec.toNat_add]
    exact Nat.mod_eq_of_lt hq
  unfold pwmDivider
  split
  next h =>
    have hlt : 255 < q.toNat + 1 := hsucc ▸ BitVec.lt_def.mp h
    exact (Nat.min_eq_left hlt.le).symm
  next h =>
    have hle : q.toNat + 1 ≤ 255 := hsucc ▸ not_lt.mp fun hlt => h (BitVec.lt_def.mpr hlt)
    rw [hsucc, Nat.min_eq_right hle]

theorem toNat_pwmTop (c : BitVec 32) : (pwmTop c).toNat = max 2 (min 65536 c.toNat) := by
  unfold pwmTop
  split
  next h =>
    have hlt : c.toNat < 2 := BitVec.lt_def.mp h
    show 2 = _
    omega
  next h =>
  have hle : 2 ≤ c.toNat := not_lt.mp fun hlt => h (BitVec.lt_def.mpr hlt)
  split
  next htop =>
    have hlt : 65536 < c.toNat := BitVec.lt_def.mp htop
    show 65536 = _
    omega
  next htop =>
    have hle' : c.toNat ≤ 65536 := not_lt.mp fun hlt => htop (BitVec.lt_def.mpr hlt)
    omega

/-- The first divisor is 0 for the multiples of 65536. -/
theorem toNat_mul_65536 (freq : BitVec 32) :
    (freq * 65536).toNat = 65536 * (freq.toNat % 65536) := by
  rw [BitVec.toNat_mul, Nat.mul_comm]
  exact Nat.mul_mod_mul_left 65536 freq.toNat 65536

/-- A factor below 256 does not carry a number to a multiple of 2^32, if it was none of 2^16. -/
theorem mul_mod_ne_zero {d f : Nat} (hd : 0 < d) (hd' : d < 256) (hf : f % 65536 ≠ 0) :
    d * f % 2 ^ 32 ≠ 0 := by
  intro hzero
  have hdvd : 2 ^ 32 ∣ Nat.gcd (2 ^ 32) f * d := by
    rw [Nat.dvd_gcd_mul_iff_dvd_mul, Nat.mul_comm]
    exact Nat.dvd_of_mod_eq_zero hzero
  obtain ⟨j, -, hj⟩ := (Nat.dvd_prime_pow Nat.prime_two).mp (Nat.gcd_dvd_left (2 ^ 32) f)
  rw [hj] at hdvd
  -- the power of two in `f` is too small to make up for the factor
  have hsmall : j < 16 := by
    by_contra hge
    have hpow : 2 ^ 16 ∣ 2 ^ j := Nat.pow_dvd_pow 2 (Nat.not_lt.mp hge)
    exact hf (Nat.mod_eq_zero_of_dvd (hpow.trans (hj ▸ Nat.gcd_dvd_right (2 ^ 32) f)))
  have hle : 2 ^ 32 ≤ 2 ^ j * d := Nat.le_of_dvd (Nat.mul_pos (Nat.two_pow_pos j) hd) hdvd
  have hlt : 2 ^ j * d < 2 ^ 15 * 256 :=
    Nat.mul_lt_mul_of_le_of_lt (Nat.pow_le_pow_right (by decide) (Nat.le_of_lt_succ hsmall)) hd'
      (by decide)
  exact absurd (hle.trans_lt hlt) (by decide)

/-- The period is below 65536 for every frequency but the lowest: where the wrapped divisor could be
small, its low half is not. -/
theorem lt_divisor_iff {fsys freq : Nat} (hfsys : fsys ≤ 300000000) (hfreq : freq < 2 ^ 32)
    (hmod : freq % 65536 ≠ 0) :
    fsys / 65536 < dividerOf fsys freq * freq % 2 ^ 32 ↔ fsys < 255 * 65536 * freq := by
  have hright : fsys < 255 * 65536 * freq ↔ fsys / 65536 < 255 * freq := by omega
  rw [hright, dividerOf, ← Nat.div_div_eq_div_mul]
  have hc : fsys / 65536 ≤ 4577 := by omega
  generalize fsys / 65536 = c at hc ⊢
  generalize hr : freq % 65536 = r at hmod
  have hlow (d : Nat) : d * freq % 2 ^ 32 % 65536 = d * r % 65536 := by
    rw [Nat.mod_mod_of_dvd _ (by decide : 65536 ∣ 2 ^ 32), Nat.mul_mod, hr, Nat.mul_mod d r]
    simp only [Nat.mod_mul_mod, Nat.mul_mod_mod]
  have hspan : c < (c / r + 1) * r :=
    Nat.lt_mul_of_div_lt (Nat.lt_succ_self _) (Nat.pos_of_ne_zero hmod)
  rcases Nat.lt_or_ge 255 (c / r + 1) with hcap | hcap
  · -- at the largest divider only a frequency below 65536 is too low
    rw [Nat.min_eq_left hcap.le]
    have hle : 255 * r ≤ c :=
      (Nat.le_div_iff_mul_le (Nat.pos_of_ne_zero hmod)).mp (Nat.le_of_lt_succ hcap)
    have hhigh : 255 * freq % 2 ^ 32 / 65536 = 255 * (freq / 65536) % 65536 := by
      have hsplit : 255 * freq = 65536 * (255 * (freq / 65536)) + 255 * r := by omega
      rw [show 2 ^ 32 = 65536 * 65536 from rfl, Nat.mod_mul_right_div_self, hsplit,
        Nat.mul_add_div (by decide), Nat.div_eq_of_lt (a := 255 * r) (by omega), Nat.add_zero]
    have hodd : 255 * (freq / 65536) % 65536 = 0 → freq / 65536 = 0 := by omega
    omega
  · rw [Nat.min_eq_right hcap]
    have hbound : (c / r + 1) * r ≤ 255 * r := Nat.mul_le_mul_right r hcap
    refine iff_of_true ?_ (by omega)
    have hlow := hlow (c / r + 1)
    rcases Nat.lt_or_ge c r with hlt | hge
    · rw [Nat.div_eq_of_lt hlt]
      omega
    · have hquotient : (c / r + 1) * r ≤ c + r := by
        rw [Nat.succ_mul]
        exact Nat.add_le_add_right (Nat.div_mul_le_self c r) r
      omega

theorem dividerOf_pos (fsys freq : Nat) : 0 < dividerOf fsys freq :=
  lt_min (by decide) (Nat.succ_pos _)

theorem dividerOf_lt (fsys freq : Nat) : dividerOf fsys freq < 256 :=
  Nat.lt_succ_of_le (min_le_left _ _)

end Arithmetic

/-! ## The request -/

section Request

variable {fsys freq : BitVec 32} {duty : BitVec 8}

/-- A frequency that is a multiple of 65536 divides by 0. -/
theorem pwmTestSet_multiple (hfreq : freq ≠ 0) (hduty : duty ≠ 0) (h : freq.toNat % 65536 = 0) :
    pwmTestSet fsys freq duty = none := by
  have hzero : freq * 65536 = 0 := BitVec.eq_of_toNat_eq (by rw [toNat_mul_65536, h]; rfl)
  rw [pwmTestSet, if_neg (not_or_intro hfreq hduty), udiv, if_pos hzero]
  rfl

theorem pwmSlice_top {top : BitVec 32} (hlo : 2 ≤ top.toNat) (hhi : top.toNat ≤ 65536)
    (div : BitVec 32) : (pwmSlice div top duty).top = top.toNat := by
  have hsub : (top - 1).toNat = top.toNat - 1 :=
    BitVec.toNat_sub_of_le (BitVec.le_def.mpr (Nat.le_of_succ_le hlo))
  show ((top - 1).setWidth 16).toNat + 1 = top.toNat
  rw [BitVec.toNat_setWidth, hsub]
  omega

/-- The level is cut to 16 bits. -/
theorem pwmSlice_level {top : BitVec 32} (hhi : top.toNat ≤ 65536) (div : BitVec 32) :
    (pwmSlice div top duty).level.toNat = top.toNat * min duty.toNat 100 / 100 % 2 ^ 16 := by
  have hcap : ((if 100 < duty then 100 else duty).setWidth 32).toNat = min duty.toNat 100 := by
    rw [BitVec.toNat_setWidth]
    split
    next hlt =>
      have hlt : 100 < duty.toNat := BitVec.lt_def.mp hlt
      show 100 % 2 ^ 32 = _
      omega
    next hle =>
      have hle : ¬100 < duty.toNat := fun hlt => hle (BitVec.lt_def.mpr hlt)
      omega
  have hle : top.toNat * min duty.toNat 100 ≤ 65536 * 100 :=
    Nat.mul_le_mul hhi (Nat.min_le_right _ _)
  have hproduct : (top * (if 100 < duty then 100 else duty).setWidth 32 : BitVec 32).toNat =
      top.toNat * min duty.toNat 100 := by
    rw [BitVec.toNat_mul, hcap]
    exact Nat.mod_eq_of_lt (by omega)
  show (top * (if 100 < duty then 100 else duty).setWidth 32 / 100 : BitVec 32).toNat % 2 ^ 16 = _
  rw [BitVec.toNat_udiv, hproduct]
  rfl

/-- The divisors are not 0 otherwise. -/
theorem pwmTestSet_on (hfreq : freq ≠ 0) (hduty : duty ≠ 0) (hfsys : fsys.toNat ≤ 300000000)
    (h : freq.toNat % 65536 ≠ 0) : ∃ s, pwmTestSet fsys freq duty = some (.on s) ∧
      s.clkdiv.toNat = dividerOf fsys.toNat freq.toNat ∧
      s.top = max 2 (min 65536
        (fsys.toNat / (dividerOf fsys.toNat freq.toNat * freq.toNat % 2 ^ 32))) ∧
      s.level.toNat = s.top * min duty.toNat 100 / 100 % 2 ^ 16 := by
  have hfirst : udiv fsys (freq * 65536) = some (fsys / (freq * 65536)) := by
    refine udiv_eq ?_
    rw [toNat_mul_65536]
    omega
  have hquotient : (fsys / (freq * 65536)).toNat = fsys.toNat / (65536 * (freq.toNat % 65536)) := by
    rw [BitVec.toNat_udiv, toNat_mul_65536]
  generalize fsys / (freq * 65536) = quotient at hfirst hquotient
  have hdiv : (pwmDivider quotient).toNat = dividerOf fsys.toNat freq.toNat := by
    have hle : fsys.toNat / (65536 * (freq.toNat % 65536)) ≤ fsys.toNat := Nat.div_le_self ..
    rw [toNat_pwmDivider (by omega), hquotient, dividerOf]
  have hproduct : (pwmDivider quotient * freq).toNat =
      dividerOf fsys.toNat freq.toNat * freq.toNat % 2 ^ 32 := by
    rw [BitVec.toNat_mul, hdiv]
  -- the second division is by the wrapped product, which is not 0
  have hsecond : udiv fsys (pwmDivider quotient * freq) =
      some (fsys / (pwmDivider quotient * freq)) := by
    refine udiv_eq ?_
    rw [hproduct]
    exact mul_mod_ne_zero (dividerOf_pos _ _) (dividerOf_lt _ _) h
  have hcounts : (fsys / (pwmDivider quotient * freq)).toNat =
      fsys.toNat / (dividerOf fsys.toNat freq.toNat * freq.toNat % 2 ^ 32) := by
    rw [BitVec.toNat_udiv, hproduct]
  generalize fsys / (pwmDivider quotient * freq) = counts at hsecond hcounts
  have htop := toNat_pwmTop counts
  rw [hcounts] at htop
  have hslice : (pwmSlice (pwmDivider quotient) (pwmTop counts) duty).top = (pwmTop counts).toNat :=
    pwmSlice_top (by omega) (by omega) _
  refine ⟨_, ?_, ?_, hslice.trans htop, ?_⟩
  · rw [pwmTestSet, if_neg (not_or_intro hfreq hduty), hfirst]
    dsimp only [Option.bind_eq_bind, Option.bind_some]
    rw [hsecond]
    rfl
  · show ((pwmDivider quotient).setWidth 8).toNat = _
    rw [BitVec.toNat_setWidth, hdiv]
    exact Nat.mod_eq_of_lt (dividerOf_lt _ _)
  · rw [hslice]
    exact pwmSlice_level (by omega) _

/-- The slice is set up as the request asks if and only if its frequency is no multiple of 65536
and, for a duty cycle of 100, it is above those that count the longest period. -/
theorem pwmTestSet_iff (fsys freqHz : BitVec 32) (dutyPct : BitVec 8) (hfreq : freqHz ≠ 0)
    (hduty : dutyPct ≠ 0) (hfsys : fsys.toNat ≤ 300000000) :
    (∃ s, pwmTestSet fsys freqHz dutyPct = some (.on s) ∧
        s.Realizes fsys.toNat freqHz.toNat dutyPct.toNat) ↔
      PwmFits fsys.toNat freqHz.toNat dutyPct.toNat := by
  by_cases h : freqHz.toNat % 65536 = 0
  · rw [pwmTestSet_multiple hfreq hduty h]
    exact iff_of_false (by rintro ⟨s, hs, -⟩; cases hs) fun hfits => hfits.1 h
  obtain ⟨s, hset, hdiv, htop, hlevel⟩ := pwmTestSet_on hfreq hduty hfsys h
  have hpos := dividerOf_pos fsys.toNat freqHz.toNat
  have hlt := dividerOf_lt fsys.toNat freqHz.toNat
  have hmod := mul_mod_ne_zero hpos hlt h
  rw [PwmFits, ← lt_divisor_iff hfsys freqHz.isLt h]
  generalize dividerOf fsys.toNat freqHz.toNat = div at hdiv htop hpos hlt hmod ⊢
  -- the period is 65536 where the wrapped divisor is this small
  have hcut : s.top = 65536 ↔ ¬fsys.toNat / 65536 < div * freqHz.toNat % 2 ^ 32 := by
    have hswap : 65536 ≤ fsys.toNat / (div * freqHz.toNat % 2 ^ 32) ↔
        div * freqHz.toNat % 2 ^ 32 ≤ fsys.toNat / 65536 := by
      rw [Nat.le_div_iff_mul_le (Nat.pos_of_ne_zero hmod), Nat.le_div_iff_mul_le (by decide),
        Nat.mul_comm]
    omega
  constructor
  · rintro ⟨s', hs', hreal⟩
    obtain rfl : s = s' := by
      rw [hset] at hs'
      cases hs'
      rfl
    refine ⟨h, fun hfull => ?_⟩
    by_contra hwide
    have hwhole := hreal.level
    rw [hlevel, hcut.mpr hwide, Nat.min_eq_right hfull] at hwhole
    exact absurd hwhole (by decide)
  · rintro ⟨-, hfull⟩
    have hexact : s.level.toNat = s.top * min dutyPct.toNat 100 / 100 := by
      rw [hlevel]
      refine Nat.mod_eq_of_lt ?_
      by_cases hduty : 100 ≤ dutyPct.toNat
      · have htop' : s.top ≠ 65536 := fun heq => hcut.mp heq (hfull hduty)
        rw [Nat.min_eq_right hduty, Nat.mul_div_cancel _ (by decide)]
        omega
      · have hle : s.top * min dutyPct.toNat 100 ≤ 65536 * 99 :=
          Nat.mul_le_mul (by omega) (by omega)
        omega
    refine ⟨s, hset, ⟨hdiv ▸ hpos, hdiv ▸ Nat.le_of_lt_succ hlt⟩, ⟨by omega, by omega⟩,
      fun hlo hhi => ?_, hexact, fun hduty counter hcounter => ?_⟩
    · rw [hdiv] at hlo hhi ⊢
      have hsmall : div * freqHz.toNat < 2 ^ 32 := by
        have hle := Nat.mul_le_of_le_div _ _ _ hlo
        omega
      rw [Nat.mod_eq_of_lt hsmall] at htop
      omega
    · rw [Nat.min_eq_right hduty, Nat.mul_div_cancel _ (by decide)] at hexact
      refine BitVec.lt_def.mpr (Nat.lt_of_le_of_lt (BitVec.le_def.mp hcounter) ?_)
      rw [hexact]
      exact Nat.lt_succ_self _

/-- At 1 kHz from 125 MHz, with a duty cycle of 100. -/
theorem pwmTestSet_iff_1khz : ∃ s, pwmTestSet 125000000 1000 100 = some (.on s) ∧
    s.Realizes 125000000 1000 100 :=
  (pwmTestSet_iff 125000000 1000 100 (by decide) (by decide) (by decide)).mpr
    ⟨by decide, fun _ => by decide⟩

/-- At 65536 Hz the divisor is 0; at 17 Hz from 300 MHz a duty cycle of 100 gives the level 0. -/
theorem not_pwmTestSet : pwmTestSet 125000000 65536 50 = none ∧
    ∃ s, pwmTestSet 300000000 17 100 = some (.on s) ∧ s.level = 0 ∧
      ¬s.Realizes 300000000 17 100 := by
  refine ⟨rfl, _, rfl, rfl, fun h => ?_⟩
  exact absurd h.level (by decide)

end Request

end SlowBus.Hil
