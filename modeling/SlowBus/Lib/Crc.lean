import Mathlib.Data.List.Basic
import Mathlib.Logic.Function.Iterate

/-!
# Cyclic redundancy checks

A register divides a string of bits by a generator, the highest bit first. The
register is linear in what it held and in what it was fed. When the generator has
its lowest bit set no shift loses anything, so a string of zeros keeps a register
that is not zero from becoming it, and a string no longer than the register leaves
zero only where it meets a register that held the same bits.
-/

namespace SlowBus.Crc

variable {w : Nat} {g : BitVec w} {r s x : BitVec w} {b : Bool} {bits : List Bool} {n : Nat}

/-- One division step: where a set bit leaves the register, the generator is taken off. -/
def shift (g r : BitVec w) : BitVec w := if r.msb then (r <<< 1) ^^^ g else r <<< 1

/-- A bit at the top of the register. -/
def top (b : Bool) : BitVec w := if b then BitVec.intMin w else 0#w

/-- The register after one more bit of the message. -/
def feedBit (g r : BitVec w) (b : Bool) : BitVec w := shift g (r ^^^ top b)

/-- The register after a string. -/
def feed (g r : BitVec w) (bits : List Bool) : BitVec w := bits.foldl (feedBit g) r

/-- The bits of a word, the highest first. -/
def bitsOf (x : BitVec w) : List Bool := (List.range w).map x.getMsbD

@[simp] theorem feed_nil : feed g r [] = r := rfl

@[simp] theorem feed_cons : feed g r (b :: bits) = feed g (feedBit g r b) bits := rfl

@[simp] theorem feed_append (bits bits' : List Bool) :
    feed g r (bits ++ bits') = feed g (feed g r bits) bits' := List.foldl_append ..

@[simp] theorem length_bitsOf (x : BitVec w) : (bitsOf x).length = w := by simp [bitsOf]

@[simp] theorem top_false : top (w := w) false = 0#w := rfl

theorem getMsbD_top (i : Nat) :
    (top (w := w) b).getMsbD i = (b && (decide (0 < w) && decide (i = 0))) := by
  cases b <;> simp [top, BitVec.getMsbD_intMin]

theorem msb_top (hw : 0 < w) : (top (w := w) b).msb = b := by
  cases b <;> simp [top, BitVec.msb_intMin, hw]

/-! ## The register is linear -/

/-- What is combined twice is gone. -/
theorem xor_xor_cancel (r s : BitVec w) : r ^^^ g ^^^ (s ^^^ g) = r ^^^ s := by
  rw [BitVec.xor_comm s g, BitVec.xor_assoc, ← BitVec.xor_assoc g g s, BitVec.xor_self,
    BitVec.zero_xor]

theorem shift_xor (r s : BitVec w) : shift g (r ^^^ s) = shift g r ^^^ shift g s := by
  unfold shift
  rw [BitVec.msb_xor, BitVec.shiftLeft_xor_distrib]
  cases r.msb <;> cases s.msb
  · rfl
  · exact BitVec.xor_assoc ..
  · simp only [Bool.true_xor, Bool.not_false, if_true, Bool.false_eq_true, if_false]
    rw [BitVec.xor_assoc, BitVec.xor_comm (s <<< 1), BitVec.xor_assoc]
  · exact (xor_xor_cancel _ _).symm

@[simp] theorem shift_zero : shift g 0#w = 0#w := by simp [shift]

theorem top_xor (b c : Bool) : top (w := w) (b ^^ c) = top b ^^^ top c := by
  cases b <;> cases c <;> simp [top]

theorem feedBit_xor (r s : BitVec w) (b c : Bool) :
    feedBit g (r ^^^ s) (b ^^ c) = feedBit g r b ^^^ feedBit g s c := by
  rw [feedBit, feedBit, feedBit, ← shift_xor, top_xor]
  congr 1
  ac_rfl

theorem feed_xor {bits' : List Bool} (h : bits.length = bits'.length) :
    feed g (r ^^^ s) (List.zipWith (· ^^ ·) bits bits') = feed g r bits ^^^ feed g s bits' := by
  induction bits generalizing bits' r s with
  | nil => cases bits' <;> simp at h ⊢
  | cons b bits ih =>
      match bits', h with
      | c :: bits', h =>
          rw [List.zipWith_cons_cons, feed_cons, feed_cons, feed_cons, feedBit_xor]
          exact ih (Nat.succ.inj h)

/-! ## A whole word at once -/

/-- A step that takes nothing off moves every bit up. -/
theorem getMsbD_shift (h : r.msb = false) (i : Nat) :
    (shift g r).getMsbD i = r.getMsbD (i + 1) := by
  rw [shift, if_neg (by simp [h]), BitVec.getMsbD_shiftLeft]

theorem getMsbD_xor_top_succ (r : BitVec w) (b : Bool) (i : Nat) :
    (r ^^^ top b).getMsbD (i + 1) = r.getMsbD (i + 1) := by
  simp [getMsbD_top]

theorem msb_xor_top (hw : 0 < w) (r : BitVec w) (b : Bool) : (r ^^^ top b).msb = (r.msb ^^ b) := by
  rw [BitVec.msb_xor, msb_top hw]

/-- Without its top bit a word only moves up. -/
theorem shift_shiftLeft (x : BitVec w) (n : Nat) :
    shift g (x <<< n ^^^ top (x.getMsbD n)) = x <<< (n + 1) := by
  apply BitVec.eq_of_getMsbD_eq
  intro i hi
  have hmsb : (x <<< n ^^^ top (x.getMsbD n)).msb = false := by
    rw [msb_xor_top (by omega), BitVec.msb_eq_getMsbD_zero, BitVec.getMsbD_shiftLeft, Nat.zero_add,
      Bool.xor_self]
  rw [getMsbD_shift hmsb, getMsbD_xor_top_succ, BitVec.getMsbD_shiftLeft, BitVec.getMsbD_shiftLeft,
    Nat.add_right_comm, Nat.add_assoc]

/-- The register after the first bits of a word, against shifting both together. -/
theorem feed_range (g r x : BitVec w) (n : Nat) :
    feed g r ((List.range n).map x.getMsbD) ^^^ x <<< n = (shift g)^[n] (r ^^^ x) := by
  induction n with
  | zero => simp
  | succ n ih =>
      rw [Function.iterate_succ_apply', ← ih, List.range_succ, List.map_append, feed_append,
        ← shift_shiftLeft (g := g) x n, List.map_singleton, feed_cons, feed_nil, feedBit,
        ← shift_xor]
      congr 1
      -- The bit that was fed and the bit that leaves the word are the same.
      rw [BitVec.xor_comm (x <<< n) (top _), BitVec.xor_assoc, ← BitVec.xor_assoc (top _) (top _),
        BitVec.xor_self, BitVec.zero_xor]

/-- Feeding a word is combining it with the register and shifting as often. -/
theorem feed_bitsOf (g r x : BitVec w) : feed g r (bitsOf x) = (shift g)^[w] (r ^^^ x) := by
  rw [← feed_range, BitVec.shiftLeft_eq_zero (Nat.le_refl w), BitVec.xor_zero, bitsOf]

/-! ## Bursts -/

/-- All set bits of a string are among `n` consecutive ones. -/
def Confined (n : Nat) (bits : List Bool) : Prop :=
  ∃ start, ∀ i : Nat, bits[i]? = some true → start ≤ i ∧ i < start + n

/-- Where every bit within the string is clear it is a string of zeros. -/
theorem eq_replicate_of_clear (h : ∀ i : Nat, bits[i]? ≠ some true) :
    bits = List.replicate bits.length false := by
  apply List.eq_replicate_of_mem
  intro b hb
  obtain ⟨i, hi, rfl⟩ := List.getElem_of_mem hb
  have hclear := h i
  rw [List.getElem?_eq_getElem hi] at hclear
  simpa using hclear

/-- Zeros, the burst, zeros. -/
theorem Confined.split (h : Confined n bits) : ∃ before mid after,
    bits = List.replicate before false ++ mid ++ List.replicate after false ∧ mid.length ≤ n := by
  obtain ⟨start, hbits⟩ := h
  have hbefore : bits.take start = List.replicate (bits.take start).length false := by
    apply eq_replicate_of_clear
    intro i hi
    rw [List.getElem?_take] at hi
    split at hi
    next hlt => exact absurd (hbits i hi).1 (by omega)
    next => cases hi
  have hafter : bits.drop (start + n) =
      List.replicate (bits.drop (start + n)).length false := by
    apply eq_replicate_of_clear
    intro i hi
    rw [List.getElem?_drop] at hi
    exact absurd (hbits _ hi).2 (by omega)
  refine ⟨(bits.take start).length, (bits.drop start).take n, (bits.drop (start + n)).length, ?_,
    List.length_take_le ..⟩
  rw [← hbefore, ← hafter, List.append_assoc, ← List.drop_drop, List.take_append_drop,
    List.take_append_drop]

/-! ## No shift loses anything -/

section Odd

variable (hg : g.getLsbD 0 = true)

include hg

theorem pos_of_odd : 0 < w := BitVec.lt_of_getLsbD hg

/-- The lowest bit after a step tells which bit has left the register. -/
theorem getLsbD_shift (r : BitVec w) : (shift g r).getLsbD 0 = r.msb := by
  unfold shift
  split
  next h => simp [h, hg]
  next h => simp [h]

theorem eq_zero_of_shift (h : shift g r = 0#w) : r = 0#w := by
  have hmsb : r.msb = false := by rw [← getLsbD_shift hg, h, BitVec.getLsbD_zero]
  apply BitVec.eq_of_getMsbD_eq
  intro i _
  cases i with
  | zero => rw [← BitVec.msb_eq_getMsbD_zero, hmsb, BitVec.getMsbD_zero]
  | succ i => rw [← getMsbD_shift hmsb, h, BitVec.getMsbD_zero, BitVec.getMsbD_zero]

theorem feed_zeros_ne_zero (h : r ≠ 0#w) (n : Nat) : feed g r (List.replicate n false) ≠ 0#w := by
  induction n generalizing r with
  | zero => exact h
  | succ n ih =>
      rw [List.replicate_succ, feed_cons, feedBit, top_false, BitVec.xor_zero]
      exact ih fun hzero => h (eq_zero_of_shift hg hzero)

/-- A register that a string no longer than it empties held that string, and zeros
after it. -/
theorem getMsbD_of_feed_eq_zero (hlen : bits.length ≤ w) (h : feed g r bits = 0#w) (i : Nat) :
    r.getMsbD i = bits[i]?.getD false := by
  induction bits generalizing r i with
  | nil =>
      rw [feed_nil] at h
      rw [h, BitVec.getMsbD_zero]
      rfl
  | cons b bits ih =>
      have hnext := ih (Nat.le_of_succ_le hlen) h
      -- The bit that left the register met its own value: nothing was taken off.
      have hlow : (feedBit g r b).getLsbD 0 = false := by
        have hend : bits[w - 1 - 0]? = none := by
          rw [List.length_cons] at hlen
          exact List.getElem?_eq_none (by omega)
        rw [BitVec.getLsbD_eq_getMsbD, hnext, hend, Option.getD_none, Bool.and_false]
      have hmsb : (r ^^^ top b).msb = false := by rw [← getLsbD_shift hg]; exact hlow
      cases i with
      | zero =>
          rw [msb_xor_top (pos_of_odd hg)] at hmsb
          rw [← BitVec.msb_eq_getMsbD_zero]
          simpa using hmsb
      | succ i =>
          rw [← getMsbD_xor_top_succ r b, ← getMsbD_shift (g := g) hmsb]
          exact hnext i

omit hg in
@[simp] theorem feed_zeros (n : Nat) : feed g 0#w (List.replicate n false) = 0#w := by
  induction n with
  | zero => rfl
  | succ n ih =>
      rwa [List.replicate_succ, feed_cons, feedBit, top_false, BitVec.xor_zero, shift_zero]

/-- A string whose set bits are within the length of the register is not divisible. -/
theorem feed_ne_zero (hconfined : Confined w bits) (hset : true ∈ bits) :
    feed g 0#w bits ≠ 0#w := by
  obtain ⟨m, mid, n, rfl, hlen⟩ := hconfined.split
  rw [feed_append, feed_append, feed_zeros]
  apply feed_zeros_ne_zero hg
  intro hzero
  have hmid : true ∈ mid := by simpa using hset
  obtain ⟨i, hi, hbit⟩ := List.getElem_of_mem hmid
  have hheld := getMsbD_of_feed_eq_zero hg hlen hzero i
  rw [List.getElem?_eq_getElem hi, hbit, BitVec.getMsbD_zero] at hheld
  cases hheld

end Odd

end SlowBus.Crc
