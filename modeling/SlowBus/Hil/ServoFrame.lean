import SlowBus.Lib.InPlaceSort
import Mathlib.Algebra.Order.Ring.Nat

/-!
# The schedule of a servo frame

All servos rise together, and each one drops after its width. `servo_build` sorts the servos by
width and emits one word for each different width: the levels of the pins, and how long they hold.
-/

namespace SlowBus.Hil

open InPlaceSort

/-- The locals of the loop that emits the words. -/
structure ServoEmit where
  tmp : List (BitVec 32)
  mask : BitVec 32
  prev : BitVec 32
  deriving DecidableEq, Repr

/-- The pins in the low byte, and the hold time above it. -/
def servoWord (pins hold : BitVec 32) : BitVec 32 := (pins &&& 0xFF#32) ||| (hold <<< 8)

/-- A word up to a width, if it is a new one. -/
def ServoEmit.hold (e : ServoEmit) (w : BitVec 32) : ServoEmit :=
  if e.prev < w then
    { e with tmp := e.tmp ++ [servoWord e.mask (w - e.prev)], prev := w }
  else e

/-- A channel drops low. -/
def ServoEmit.drop (e : ServoEmit) (channel : Nat) : ServoEmit :=
  { e with mask := e.mask &&& ~~~((1 : BitVec 32) <<< channel) }

/-- The loop that emits, after the first `k` servos in the order of `idx`. -/
def servoEmit (n : Nat) (us : Nat → BitVec 16) (idx : Nat → Nat) (k : Nat) : ServoEmit :=
  (List.range k).foldl (fun e i => (e.hold ((us (idx i)).setWidth 32)).drop (idx i))
    { tmp := [], mask := (1 <<< n) - 1, prev := 0 }

/-- The servos in the order of their widths. -/
def servoOrder (n : Nat) (us : Nat → BitVec 16) : Nat → Nat := sort (fun i => (us i).toNat) id n

/-- `servo_build`: the words of the frame. -/
def servoBuild (n : Nat) (us : Nat → BitVec 16) : List (BitVec 32) :=
  if n = 0 then []
  else
    let e := servoEmit n us (servoOrder n us) n
    e.tmp ++ [(20000 - e.prev) <<< 8]

/-! ## What the words do -/

/-- How long a word holds. -/
def holdOf (word : BitVec 32) : Nat := (word >>> 8).toNat

/-- The level a word gives a pin. -/
def levelOf (word : BitVec 32) (pin : Nat) : Bool := (word.setWidth 8).getLsbD pin

/-- The level of a pin at a time, as the words are held one after the other. -/
def level (pin : Nat) : List (BitVec 32) → Nat → Bool
  | [], _ => false
  | word :: words, t =>
      if t < holdOf word then levelOf word pin else level pin words (t - holdOf word)

def holdTime : List (BitVec 32) → Nat
  | [] => 0
  | word :: words => holdOf word + holdTime words

/-- The words raise all servos at once and drop each after its width. -/
structure ServoSchedule (n : Nat) (us : Nat → BitVec 16) (words : List (BitVec 32)) : Prop where
  length : words.length ≤ 9
  hold : holdTime words = 20000
  pulse : ∀ i < n, ∀ t, level i words t = decide (t < (us i).toNat)
  idle : ∀ i, n ≤ i → ∀ t, level i words t = false

theorem level_append (pin : Nat) (words : List (BitVec 32)) (word : BitVec 32) (t : Nat) :
    level pin (words ++ [word]) t =
      if t < holdTime words then level pin words t
      else if t - holdTime words < holdOf word then levelOf word pin else false := by
  induction words generalizing t with
  | nil => rfl
  | cons first words ih =>
      rw [List.cons_append, level, level, ih]
      rw [holdTime]
      -- the word is reached when the first one and the others are over
      by_cases hfirst : t < holdOf first
      · rw [if_pos hfirst, if_pos hfirst, if_pos (by omega)]
      · rw [if_neg hfirst, if_neg hfirst]
        simp only [Nat.sub_lt_iff_lt_add (Nat.not_lt.mp hfirst), Nat.sub_sub]
        rw [Nat.add_comm (holdTime words)]

theorem holdTime_append (words : List (BitVec 32)) (word : BitVec 32) :
    holdTime (words ++ [word]) = holdTime words + holdOf word := by
  induction words with
  | nil => exact (Nat.add_zero _).trans (Nat.zero_add _).symm
  | cons first words ih =>
      rw [List.cons_append, holdTime, holdTime, ih, Nat.add_assoc]

theorem holdOf_servoWord {pins hold : BitVec 32} (hhold : hold.toNat < 2 ^ 24) :
    holdOf (servoWord pins hold) = hold.toNat := by
  have hpins : (pins &&& 0xFF#32).toNat >>> 8 = 0 := by
    rw [BitVec.toNat_and, Nat.shiftRight_and_distrib]
    exact Nat.and_zero _
  have hshift : (hold <<< 8).toNat >>> 8 = hold.toNat := by
    rw [BitVec.toNat_shiftLeft, Nat.shiftLeft_eq, Nat.mod_eq_of_lt (by omega),
      Nat.shiftRight_eq_div_pow, Nat.mul_div_cancel _ (by decide)]
  rw [holdOf, servoWord, BitVec.toNat_ushiftRight, BitVec.toNat_or, Nat.shiftRight_or_distrib,
    hpins, hshift, Nat.zero_or]

theorem levelOf_servoWord {pins hold : BitVec 32} {pin : Nat} (hpin : pin < 8) :
    levelOf (servoWord pins hold) pin = pins.getLsbD pin := by
  have hbyte : ∀ p < 8, (0xFF#32).getLsbD p = true := by decide
  simp only [levelOf, servoWord, BitVec.getLsbD_setWidth, BitVec.getLsbD_or, BitVec.getLsbD_and,
    BitVec.getLsbD_shiftLeft, hpin, hbyte pin hpin, decide_true, Bool.true_and, Bool.and_true,
    Bool.not_true, Bool.and_false, Bool.false_and, Bool.or_false]

/-- There are eight pins. -/
theorem level_eq_false {pin : Nat} (hpin : 8 ≤ pin) (words : List (BitVec 32)) (t : Nat) :
    level pin words t = false := by
  induction words generalizing t with
  | nil => rfl
  | cons word words ih =>
      rw [level, ih]
      split_ifs
      · exact BitVec.getLsbD_of_ge _ _ hpin
      · rfl

/-! ## The loop -/

section Emission

variable {n k : Nat} {us : Nat → BitVec 16} {idx : Nat → Nat} {e : ServoEmit}

theorem getLsbD_drop (e : ServoEmit) (channel : Nat) {p : Nat} (hp : p < 8) :
    (e.drop channel).mask.getLsbD p = (e.mask.getLsbD p && decide (p ≠ channel)) := by
  have hbit : ((1 : BitVec 32) <<< channel).getLsbD p = decide (p = channel) := by
    rw [BitVec.getLsbD_shiftLeft, BitVec.ofNat_eq_ofNat, BitVec.getLsbD_one]
    simp only [Nat.zero_lt_succ, decide_true, Bool.true_and, Nat.lt_trans hp (by decide : 8 < 32)]
    rw [← decide_not, ← Bool.decide_and, decide_eq_decide]
    omega
  have hwidth : p < 32 := Nat.lt_trans hp (by decide)
  rw [ServoEmit.drop, BitVec.getLsbD_and, BitVec.getLsbD_not, hbit, decide_eq_true hwidth,
    Bool.true_and, ← decide_not]

/-- What holds after `k` servos: the words reach up to the width of the last one, and the mask
has those that are still high. -/
structure Emitted (n : Nat) (us : Nat → BitVec 16) (idx : Nat → Nat) (k : Nat) (e : ServoEmit) :
    Prop where
  length : e.tmp.length ≤ k
  hold : holdTime e.tmp = e.prev.toNat
  short : ∀ m < k, (us (idx m)).toNat ≤ e.prev.toNat
  long : ∀ m < n, k ≤ m → e.prev.toNat ≤ (us (idx m)).toNat
  bound : e.prev.toNat ≤ 2500
  mask : ∀ p < 8, e.mask.getLsbD p = true ↔ ∃ m < n, k ≤ m ∧ idx m = p
  pulse : ∀ p < 8, ∀ t < e.prev.toNat, level p e.tmp t = decide (p < n ∧ t < (us p).toNat)

/-- The channels are a rearrangement of the first `n`. -/
structure Ordered (n : Nat) (us : Nat → BitVec 16) (idx : Nat → Nat) : Prop where
  range : ∀ m < n, idx m < n
  onto : ∀ p < n, ∃ m < n, idx m = p
  inj : idx.Injective
  sorted : SortedTo (fun i => (us i).toNat) idx n

theorem emitted_zero (hn : n ≤ 8) (hidx : Ordered n us idx) :
    Emitted n us idx 0 (servoEmit n us idx 0) where
  length := Nat.le_refl 0
  hold := rfl
  short m hm := absurd hm (Nat.not_lt_zero m)
  long m _ _ := Nat.zero_le _
  bound := Nat.zero_le _
  mask p hp := by
    have hbits : ∀ n ≤ 8, ∀ p < 8, ((1 <<< n) - 1 : BitVec 32).getLsbD p = true ↔ p < n := by
      decide
    refine (hbits n hn p hp).trans ⟨fun h => ?_, fun h => ?_⟩
    · obtain ⟨m, hm, hp⟩ := hidx.onto p h
      exact ⟨m, hm, Nat.zero_le m, hp⟩
    · obtain ⟨m, hm, -, rfl⟩ := h
      exact hidx.range m hm
  pulse p _ t ht := absurd ht (Nat.not_lt_zero t)

theorem servoEmit_succ (n : Nat) (us : Nat → BitVec 16) (idx : Nat → Nat) (k : Nat) :
    servoEmit n us idx (k + 1) =
      ((servoEmit n us idx k).hold ((us (idx k)).setWidth 32)).drop (idx k) := by
  rw [servoEmit, List.range_succ, List.foldl_append]
  rfl

/-- The words reach up to the next width, whether it is a new one or not. -/
theorem Emitted.hold_next (h : Emitted n us idx k e) (hk : k < n) (hidx : Ordered n us idx)
    (hwidth : ∀ i < n, (us i).toNat ≤ 2500) :
    ∃ e', e.hold ((us (idx k)).setWidth 32) = e' ∧ e'.mask = e.mask ∧
      e'.tmp.length ≤ k + 1 ∧ e'.prev.toNat = (us (idx k)).toNat ∧
      holdTime e'.tmp = (us (idx k)).toNat ∧
      ∀ p < 8, ∀ t < (us (idx k)).toNat, level p e'.tmp t = decide (p < n ∧ t < (us p).toNat) := by
  have hnext : ((us (idx k)).setWidth 32).toNat = (us (idx k)).toNat :=
    BitVec.toNat_setWidth_of_le (by decide)
  have hle : e.prev.toNat ≤ (us (idx k)).toNat := h.long k hk (Nat.le_refl k)
  have hmax := hwidth (idx k) (hidx.range k hk)
  refine ⟨_, rfl, ?_⟩
  unfold ServoEmit.hold
  split_ifs with hnew
  · have hnew : e.prev.toNat < (us (idx k)).toNat := hnext ▸ BitVec.lt_def.mp hnew
    have hdiff : ((us (idx k)).setWidth 32 - e.prev).toNat = (us (idx k)).toNat - e.prev.toNat := by
      rw [BitVec.toNat_sub_of_le (BitVec.le_def.mpr (hnext ▸ hle)), hnext]
    have hword : holdOf (servoWord e.mask ((us (idx k)).setWidth 32 - e.prev)) =
        (us (idx k)).toNat - e.prev.toNat := by
      rw [holdOf_servoWord (by omega), hdiff]
    refine ⟨rfl, ?_, hnext, ?_, fun p hp t ht => ?_⟩
    · rw [List.length_append]
      exact Nat.succ_le_succ h.length
    · rw [holdTime_append, h.hold, hword]
      omega
    · rw [level_append, h.hold, hword, levelOf_servoWord hp]
      split_ifs with hold hspan
      · exact h.pulse p hp t hold
      · -- the pins that are still high are those of the wider servos
        rw [Bool.eq_iff_iff, h.mask p hp, decide_eq_true_iff]
        constructor
        · rintro ⟨m, hm, hkm, rfl⟩
          refine ⟨hidx.range m hm, ?_⟩
          rcases Nat.lt_or_eq_of_le hkm with hlt | rfl
          · exact ht.trans_le (hidx.sorted k m hlt hm)
          · exact ht
        · rintro ⟨hpn, hlate⟩
          obtain ⟨m, hm, rfl⟩ := hidx.onto p hpn
          refine ⟨m, hm, Nat.not_lt.mp fun hmk => ?_, rfl⟩
          exact hold (hlate.trans_le (h.short m hmk))
      · omega
  -- a width that was there already adds no word
  · have hsame : e.prev.toNat = (us (idx k)).toNat :=
      hle.antisymm (hnext ▸ BitVec.le_def.mp (BitVec.not_lt.mp hnew))
    refine ⟨rfl, h.length.trans k.le_succ, hsame, h.hold.trans hsame, fun p hp t ht => ?_⟩
    exact h.pulse p hp t (hsame ▸ ht)

theorem Emitted.step (h : Emitted n us idx k e) (hk : k < n) (hidx : Ordered n us idx)
    (hwidth : ∀ i < n, (us i).toNat ≤ 2500) :
    Emitted n us idx (k + 1) ((e.hold ((us (idx k)).setWidth 32)).drop (idx k)) := by
  obtain ⟨e', he', hmask, hlength, hprev, hhold, hpulse⟩ := h.hold_next hk hidx hwidth
  rw [he']
  refine ⟨hlength, hhold.trans hprev.symm, fun m hm => ?_, fun m hm hkm => ?_, ?_,
    fun p hp => ?_, fun p hp t ht => hpulse p hp t (hprev ▸ ht)⟩
  · show _ ≤ e'.prev.toNat
    rw [hprev]
    rcases Nat.lt_succ_iff_lt_or_eq.mp hm with hlt | rfl
    · exact hidx.sorted m k hlt hk
    · exact Nat.le_refl _
  · show e'.prev.toNat ≤ _
    rw [hprev]
    exact hidx.sorted k m hkm hm
  · exact hprev.trans_le (hwidth _ (hidx.range k hk))
  · rw [getLsbD_drop e' (idx k) hp, hmask, Bool.and_eq_true, h.mask p hp, decide_eq_true_iff]
    constructor
    · rintro ⟨⟨m, hm, hkm, rfl⟩, hne⟩
      exact ⟨m, hm, Nat.lt_of_le_of_ne hkm fun heq => hne (heq ▸ rfl), rfl⟩
    · rintro ⟨m, hm, hkm, rfl⟩
      exact ⟨⟨m, hm, Nat.le_of_succ_le hkm, rfl⟩, fun heq => Nat.ne_of_gt hkm (hidx.inj heq)⟩

theorem emitted (hn : n ≤ 8) (hidx : Ordered n us idx) (hwidth : ∀ i < n, (us i).toNat ≤ 2500)
    (hk : k ≤ n) : Emitted n us idx k (servoEmit n us idx k) := by
  induction k with
  | zero => exact emitted_zero hn hidx
  | succ k ih =>
      rw [servoEmit_succ]
      exact (ih (Nat.le_of_succ_le hk)).step hk hidx hwidth

theorem ordered (n : Nat) (us : Nat → BitVec 16) : Ordered n us (servoOrder n us) := by
  obtain ⟨hsorted, σ, hσ, hfix⟩ := sort_spec (fun i => (us i).toNat) id n
  have horder : servoOrder n us = σ := hσ
  rw [hσ] at hsorted
  have hrange (m : Nat) (hm : m < n) : σ m < n := by
    by_contra hge
    have hfixed := σ.injective (hfix (σ m) (Nat.not_lt.mp hge))
    omega
  rw [horder]
  refine ⟨hrange, fun p hp => ⟨σ.symm p, ?_, σ.apply_symm_apply p⟩, σ.injective, hsorted⟩
  by_contra hge
  have hfixed := hfix _ (Nat.not_lt.mp hge)
  rw [σ.apply_symm_apply] at hfixed
  omega

end Emission

/-- The frame is the schedule of the widths. -/
theorem servoBuild_schedule (n : Nat) (us : Nat → BitVec 16) (hn : 1 ≤ n ∧ n ≤ 8)
    (hus : ∀ i < n, 500 ≤ (us i).toNat ∧ (us i).toNat ≤ 2500) :
    ServoSchedule n us (servoBuild n us) := by
  have hidx := ordered n us
  have h := emitted hn.2 hidx (fun i hi => (hus i hi).2) (Nat.le_refl n)
  generalize hemit : servoEmit n us (servoOrder n us) n = e at h
  have hwords : servoBuild n us = e.tmp ++ [servoWord 0 (20000 - e.prev)] := by
    have hzero : servoWord 0 (20000 - e.prev) = (20000 - e.prev) <<< 8 := BitVec.zero_or
    rw [servoBuild, if_neg (Nat.ne_of_gt hn.1), hemit, hzero]
  have hbound := h.bound
  have hrest : (20000 - e.prev).toNat = 20000 - e.prev.toNat :=
    BitVec.toNat_sub_of_le (BitVec.le_def.mpr (hbound.trans (by decide)))
  have htail : holdOf (servoWord 0 (20000 - e.prev)) = 20000 - e.prev.toNat := by
    rw [holdOf_servoWord (by omega), hrest]
  have hlevel (p : Nat) (hp : p < 8) (t : Nat) :
      level p (servoBuild n us) t = decide (p < n ∧ t < (us p).toNat) := by
    rw [hwords, level_append, h.hold]
    split_ifs with hpulse hlast
    · exact h.pulse p hp t hpulse
    -- every servo has dropped by then
    all_goals
      have hshort : ¬(p < n ∧ t < (us p).toNat) := by
        rintro ⟨hpn, ht⟩
        obtain ⟨m, hm, rfl⟩ := hidx.onto p hpn
        exact hpulse (ht.trans_le (h.short m hm))
      rw [decide_eq_false hshort]
    exact (levelOf_servoWord hp).trans BitVec.getLsbD_zero
  refine ⟨?_, ?_, fun i hi t => ?_, fun i hi t => ?_⟩
  · rw [hwords, List.length_append]
    exact Nat.succ_le_succ (h.length.trans hn.2)
  · rw [hwords, holdTime_append, h.hold, htail]
    omega
  · rw [hlevel i (by omega), Bool.eq_iff_iff, decide_eq_true_iff, decide_eq_true_iff]
    exact and_iff_right hi
  · by_cases hi8 : i < 8
    · rw [hlevel i hi8, decide_eq_false fun h => Nat.not_lt.mpr hi h.1]
    · exact level_eq_false (Nat.not_lt.mp hi8) _ t

/-- Three servos, two of them with one width. -/
theorem servoBuild_schedule_three :
    ServoSchedule 3 (fun i => if i = 1 then 500 else 2500)
      (servoBuild 3 fun i => if i = 1 then 500 else 2500) :=
  servoBuild_schedule 3 _ (by decide) (by decide)

example : servoBuild 3 (fun i => if i = 1 then 500 else 2500) =
    [0x0001F407, 0x0007D005, 0x00445C00] := by decide

end SlowBus.Hil
