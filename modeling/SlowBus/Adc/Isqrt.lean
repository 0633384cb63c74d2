import SlowBus.Lib.DigitSqrt

/-!
# The integer square roots of the two chips

Both chips find the root of a 32-bit variance digit by digit. The controller shifts the root after
it has added the digit, the client before.
-/

namespace SlowBus.Adc

open DigitSqrt

/-- What is left of the number, and the root so far. -/
structure SqrtRegs where
  op : BitVec 32
  res : BitVec 32
  deriving DecidableEq, Repr

theorem shiftRight_two_lt {one : BitVec 32} (h : one ≠ 0) : (one >>> 2).toNat < one.toNat := by
  have hpos : one.toNat ≠ 0 := fun hzero => h (BitVec.eq_of_toNat_eq hzero)
  rw [BitVec.toNat_ushiftRight, Nat.shiftRight_eq_div_pow]
  exact Nat.div_lt_self (Nat.pos_of_ne_zero hpos) (by decide)

/-- The first loop: digits above the number are skipped. -/
def isqrtSkip (op one : BitVec 32) : BitVec 32 :=
  if op < one then isqrtSkip op (one >>> 2) else one
termination_by one.toNat
decreasing_by
  rename_i h
  exact shiftRight_two_lt fun hzero => BitVec.not_lt_zero (hzero ▸ h)

/-- The second loop: each digit is tried. -/
def isqrtLoop (body : BitVec 32 → SqrtRegs → SqrtRegs) (one : BitVec 32) (s : SqrtRegs) :
    SqrtRegs :=
  if one = 0 then s else isqrtLoop body (one >>> 2) (body one s)
termination_by one.toNat
decreasing_by
  rename_i h
  exact shiftRight_two_lt h

/-- The digit is added to the root, which is then shifted. -/
def Controller.isqrtDigit (one : BitVec 32) (s : SqrtRegs) : SqrtRegs :=
  let t := if s.res + one ≤ s.op then
    { op := s.op - (s.res + one), res := s.res + (one <<< 1) } else s
  { t with res := t.res >>> 1 }

def Controller.isqrt32 (v : BitVec 32) : BitVec 16 :=
  (isqrtLoop Controller.isqrtDigit (isqrtSkip v (1 <<< 30)) { op := v, res := 0 }).res.setWidth 16

/-- The root is shifted, and the digit is added to it. -/
def Client.isqrtDigit (b : BitVec 32) (s : SqrtRegs) : SqrtRegs :=
  if s.res + b ≤ s.op then { op := s.op - (s.res + b), res := (s.res >>> 1) + b }
  else { s with res := s.res >>> 1 }

def Client.isqrt32 (x : BitVec 32) : BitVec 32 :=
  (isqrtLoop Client.isqrtDigit (isqrtSkip x (1 <<< 30)) { op := x, res := 0 }).res

/-! ## One digit -/

/-- A loop body tries one digit, as long as nothing wraps. -/
def TriesDigit (body : BitVec 32 → SqrtRegs → SqrtRegs) : Prop :=
  ∀ {one : BitVec 32} {s : SqrtRegs}, s.res.toNat + 2 * one.toNat < 2 ^ 32 →
    (s.res.toNat + one.toNat ≤ s.op.toNat →
      (body one s).op.toNat = s.op.toNat - (s.res.toNat + one.toNat) ∧
        (body one s).res.toNat = s.res.toNat / 2 + one.toNat) ∧
    (¬s.res.toNat + one.toNat ≤ s.op.toNat →
      (body one s).op = s.op ∧ (body one s).res.toNat = s.res.toNat / 2)

section Digit

variable {one : BitVec 32} {s : SqrtRegs}

theorem toNat_try (h : s.res.toNat + 2 * one.toNat < 2 ^ 32) :
    (s.res + one).toNat = s.res.toNat + one.toNat :=
  BitVec.toNat_add_of_lt (by omega)

theorem try_le_iff (h : s.res.toNat + 2 * one.toNat < 2 ^ 32) :
    s.res + one ≤ s.op ↔ s.res.toNat + one.toNat ≤ s.op.toNat := by
  rw [BitVec.le_def, toNat_try h]

theorem toNat_rest (h : s.res.toNat + 2 * one.toNat < 2 ^ 32) (hle : s.res + one ≤ s.op) :
    (s.op - (s.res + one)).toNat = s.op.toNat - (s.res.toNat + one.toNat) := by
  rw [BitVec.toNat_sub_of_le hle, toNat_try h]

theorem toNat_half (r : BitVec 32) : (r >>> 1).toNat = r.toNat / 2 := by
  rw [BitVec.toNat_ushiftRight, Nat.shiftRight_eq_div_pow, Nat.pow_one]

theorem Controller.triesDigit : TriesDigit Controller.isqrtDigit := by
  intro one s h
  rw [← try_le_iff h]
  unfold Controller.isqrtDigit
  refine ⟨fun hle => ?_, fun hle => ?_⟩
  · have hdouble : (one <<< 1).toNat = 2 * one.toNat := by
      rw [BitVec.toNat_shiftLeft, Nat.shiftLeft_eq, Nat.mod_eq_of_lt (by omega)]
      omega
    rw [if_pos hle]
    refine ⟨toNat_rest h hle, ?_⟩
    show ((s.res + one <<< 1) >>> 1).toNat = _
    rw [toNat_half, BitVec.toNat_add_of_lt (by omega), hdouble]
    omega
  · rw [if_neg hle]
    exact ⟨rfl, toNat_half s.res⟩

theorem Client.triesDigit : TriesDigit Client.isqrtDigit := by
  intro one s h
  rw [← try_le_iff h]
  unfold Client.isqrtDigit
  refine ⟨fun hle => ?_, fun hle => ?_⟩
  · rw [if_pos hle]
    refine ⟨toNat_rest h hle, ?_⟩
    show ((s.res >>> 1) + one).toNat = _
    have hhalf := toNat_half s.res
    rw [BitVec.toNat_add_of_lt (by omega), hhalf]
  · rw [if_neg hle]
    exact ⟨rfl, toNat_half s.res⟩

end Digit

/-! ## The loops -/

section Loops

variable {v j : Nat} {one : BitVec 32} {s : SqrtRegs} {body : BitVec 32 → SqrtRegs → SqrtRegs}

/-- `j` digits are left to be tried, the highest of them at `one`. -/
def Trying (v j : Nat) (one : BitVec 32) (s : SqrtRegs) : Prop :=
  one.toNat = 4 ^ j / 4 ∧
    ∃ root, Digits v j s.op.toNat s.res.toNat root ∧ root + 2 ^ j ≤ 2 ^ 16

theorem four_pow_succ_div (j : Nat) : 4 ^ (j + 1) / 4 = 4 ^ j := by
  rw [Nat.pow_succ, Nat.mul_div_cancel _ (by decide)]

theorem toNat_next_digit (h : one.toNat = 4 ^ (j + 1) / 4) : (one >>> 2).toNat = 4 ^ j / 4 := by
  rw [BitVec.toNat_ushiftRight, Nat.shiftRight_eq_div_pow, h, four_pow_succ_div]

theorem eq_zero_iff_digits (h : one.toNat = 4 ^ j / 4) : one = 0 ↔ j = 0 := by
  rw [BitVec.toNat_inj.symm, h]
  cases j with
  | zero => exact iff_of_true rfl rfl
  | succ j =>
      rw [four_pow_succ_div]
      exact iff_of_false (Nat.ne_of_gt (Nat.pow_pos (by decide))) (Nat.succ_ne_zero j)

theorem Trying.step (hbody : TriesDigit body) (h : Trying v (j + 1) one s) :
    Trying v j (one >>> 2) (body one s) := by
  obtain ⟨hone, root, hdigits, hroot⟩ := h
  have hfour : one.toNat = 4 ^ j := hone.trans (four_pow_succ_div j)
  have hres : s.res.toNat ≤ 4 ^ 15 := hdigits.shifted_le hroot
  have hsmall : one.toNat ≤ 4 ^ 15 := by
    have hpow : 2 ^ (j + 1) ≤ 2 ^ 16 := le_of_add_le_right hroot
    rw [hfour]
    exact Nat.pow_le_pow_right (by decide)
      (Nat.le_of_succ_le_succ ((Nat.pow_le_pow_iff_right (by decide)).mp hpow))
  have hspec := @hbody one s (by omega)
  have hpow := Nat.pow_succ 2 j
  refine ⟨toNat_next_digit hone, ?_⟩
  rw [hfour] at hspec
  by_cases hfits : s.res.toNat + 4 ^ j ≤ s.op.toNat
  · obtain ⟨hop, hres⟩ := hspec.1 hfits
    refine ⟨root + 2 ^ j, ?_, by omega⟩
    rw [hop, hres]
    exact hdigits.one hfits
  · obtain ⟨hop, hres⟩ := hspec.2 hfits
    refine ⟨root, ?_, by omega⟩
    rw [hop, hres]
    exact hdigits.zero hfits

theorem isqrtLoop_spec (hbody : TriesDigit body) (h : Trying v j one s) :
    (isqrtLoop body one s).res.toNat = Nat.sqrt v := by
  induction j generalizing one s with
  | zero =>
      obtain ⟨hone, root, hdigits, -⟩ := h
      rw [isqrtLoop, if_pos ((eq_zero_iff_digits hone).mpr rfl)]
      exact hdigits.done
  | succ j ih =>
      rw [isqrtLoop, if_neg fun hzero => Nat.succ_ne_zero j ((eq_zero_iff_digits h.1).mp hzero)]
      exact ih (h.step hbody)

/-- The digits that are skipped are 0. -/
theorem isqrtSkip_spec {v one : BitVec 32} (hone : one.toNat = 4 ^ j / 4) (hv : v.toNat < 4 ^ j)
    (hj : j ≤ 16) : ∃ k, Trying v.toNat k (isqrtSkip v one) { op := v, res := 0 } := by
  induction j generalizing one with
  | zero =>
      refine ⟨0, ?_⟩
      obtain rfl := (eq_zero_iff_digits hone).mpr rfl
      have hnone : ¬v < 0 := fun hlt => BitVec.not_lt_zero hlt
      rw [isqrtSkip, if_neg hnone]
      exact ⟨rfl, 0, Digits.start hv, by decide⟩
  | succ j ih =>
      rw [isqrtSkip]
      split_ifs with hlt
      · refine ih (toNat_next_digit hone) ?_ (Nat.le_of_succ_le hj)
        rw [← four_pow_succ_div, ← hone]
        exact BitVec.lt_def.mp hlt
      · refine ⟨j + 1, hone, 0, Digits.start hv, ?_⟩
        rw [Nat.zero_add]
        exact Nat.pow_le_pow_right Nat.two_pos hj

end Loops

/-- Both loops find the root, for every number. -/
theorem isqrt_spec {body : BitVec 32 → SqrtRegs → SqrtRegs} (hbody : TriesDigit body)
    (v : BitVec 32) :
    (isqrtLoop body (isqrtSkip v (1 <<< 30)) { op := v, res := 0 }).res.toNat =
      Nat.sqrt v.toNat := by
  have hfirst : (1 <<< 30 : BitVec 32).toNat = 4 ^ 16 / 4 := rfl
  obtain ⟨k, htrying⟩ := isqrtSkip_spec hfirst v.isLt (Nat.le_refl 16)
  exact isqrtLoop_spec hbody htrying

theorem sqrt_lt (v : BitVec 32) : Nat.sqrt v.toNat < 2 ^ 16 := Nat.sqrt_lt'.mpr v.isLt

theorem Controller.toNat_isqrt32 (v : BitVec 32) :
    (Controller.isqrt32 v).toNat = Nat.sqrt v.toNat := by
  rw [Controller.isqrt32, BitVec.toNat_setWidth, isqrt_spec Controller.triesDigit]
  exact Nat.mod_eq_of_lt (sqrt_lt v)

theorem Client.toNat_isqrt32 (x : BitVec 32) : (Client.isqrt32 x).toNat = Nat.sqrt x.toNat :=
  isqrt_spec Client.triesDigit x

end SlowBus.Adc
