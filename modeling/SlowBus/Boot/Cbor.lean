import SlowBus.Lib.Cbor
import SlowBus.Lib.Program
import Mathlib.Tactic.IntervalCases

/-!
# The CBOR decoder of the boot files

A cursor is a pair of pointers of a 32-bit address space. Headers are read byte by byte, each
byte checked against the end; the length of a string is added to the pointer before the sum is
compared with the end, and the sum is one of 32 bits.
-/

namespace SlowBus.Boot

open Prog
open Cbor (Octets Head head? info bigEndian)

/-! ## Memory and cursors -/

/-- What each address holds. -/
abbrev Mem := Nat → BitVec 8

/-- The sum of a pointer and an offset, in 32 bits. -/
def ptrAdd (p a : Nat) : Nat := (p + a) % 2 ^ 32

/-- `cbor_t`: the pointer, and the end of the buffer. -/
structure Cursor where
  p : Nat
  stop : Nat
deriving DecidableEq

/-- A string in the buffer, without a copy. -/
structure Slice where
  ptr : Nat
  len : Nat
deriving DecidableEq

/-- What the decoder does with addresses: it reads a byte, moves the cursor, hands a slice out,
or compares the end with the sum of a pointer and a length. -/
inductive Access where
  | read (q : Nat)
  | move (q : Nat)
  | slice (q n : Nat)
  | reach (q a : Nat)
deriving DecidableEq

abbrev Decode (ε α : Type) := Prog Cursor Access ε α

/-- The bytes from an address on. -/
def bytesAt (mem : Mem) : Nat → Nat → Octets
  | _, 0 => []
  | p, n + 1 => mem p :: bytesAt mem (ptrAdd p 1) n

/-- The bytes between the cursor and the end. -/
def Cursor.rest (mem : Mem) (c : Cursor) : Octets := bytesAt mem c.p (c.stop - c.p)

def Cursor.advance (c : Cursor) (n : Nat) : Cursor := ⟨c.p + n, c.stop⟩

/-- A cursor in its buffer, the end of which has an address. -/
structure Cursor.Valid (c : Cursor) : Prop where
  le_stop : c.p ≤ c.stop
  stop_lt : c.stop < 2 ^ 32

/-! ## The functions -/

def cborUintMajor : Nat := 0
def cborBytes : Nat := 2
def cborText : Nat := 3
def cborArray : Nat := 4
def cborMap : Nat := 5

def cborInit (b n : Nat) : Cursor := ⟨b, ptrAdd b n⟩

/-- `*c->p++`, unless the cursor is at the end. -/
def nextByte (mem : Mem) : Decode Unit (BitVec 8) := fun c =>
  if c.p < c.stop then
    ⟨.ok (mem c.p), ⟨ptrAdd c.p 1, c.stop⟩, [.read c.p, .move (ptrAdd c.p 1)]⟩
  else ⟨.fail (), c, []⟩

/-- The bytes behind the first one of a header, shifted into a 64-bit value. -/
def argBytes (mem : Mem) : Nat → Nat → Decode Unit Nat
  | 0, v => pure v
  | nb + 1, v => do
      let b ← nextByte mem
      argBytes mem nb ((v <<< 8 ||| b.toNat) % 2 ^ 64)

/-- The major type and the argument of the header at the cursor. -/
def cborHdr (mem : Mem) : Decode Unit (Nat × Nat) := do
  let b ← nextByte mem
  let major := b.toNat >>> 5
  let n := b.toNat &&& 0x1F
  if n ≥ 28 then fail ()
  else
    let v := if n < 24 then n else 0
    let nb := if n = 24 then 1 else if n = 25 then 2 else if n = 26 then 4
      else if n = 27 then 8 else 0
    let arg ← argBytes mem nb v
    pure (major, arg)

/-- `c->p = s` where the function fails. -/
def orRestore {α : Type} (m : Decode Unit α) : Decode Unit α := fun c =>
  match m c with
  | ⟨.fail e, c', evs⟩ => ⟨.fail e, { c' with p := c.p }, evs ++ [.move c.p]⟩
  | r => r

/-- The header at the cursor, if it is of the major type `want`. -/
def hdrOf (mem : Mem) (want : Nat) : Decode Unit Nat := do
  let (major, arg) ← cborHdr mem
  if major ≠ want then fail () else pure arg

def cborUint (mem : Mem) : Decode Unit Nat := orRestore (hdrOf mem cborUintMajor)

/-- `c->p + a > c->end` fails; otherwise `c->p += a`. -/
def passString (a : Nat) : Decode Unit Unit := fun c =>
  if ptrAdd c.p a > c.stop then ⟨.fail (), c, [.reach c.p a]⟩
  else ⟨.ok (), ⟨ptrAdd c.p a, c.stop⟩, [.reach c.p a, .move (ptrAdd c.p a)]⟩

/-- The string at the cursor, of length `a`: the length handed out has 32 bits. -/
def takeString (a : Nat) : Decode Unit Slice := fun c =>
  if ptrAdd c.p a > c.stop then ⟨.fail (), c, [.reach c.p a]⟩
  else ⟨.ok ⟨c.p, a % 2 ^ 32⟩, ⟨ptrAdd c.p a, c.stop⟩,
    [.reach c.p a, .slice c.p (a % 2 ^ 32), .move (ptrAdd c.p a)]⟩

def cborStr (mem : Mem) (want : Nat) : Decode Unit Slice :=
  orRestore do
    let a ← hdrOf mem want
    takeString a

def cborOpen (mem : Mem) (want : Nat) : Decode Unit Nat := orRestore (hdrOf mem want)

/-- One item is passed over. The fuel bounds how deep items are nested. -/
def cborSkip (mem : Mem) : Nat → Decode Unit Unit
  | 0 => spent
  | fuel + 1 => do
      let (major, a) ← cborHdr mem
      if major = cborUintMajor then pure ()
      else if major = cborBytes ∨ major = cborText then passString a
      else if major = cborArray then loop (fun _ _ => cborSkip mem fuel) 0 a ()
      else if major = cborMap then loop (fun _ _ => cborSkip mem fuel) 0 (2 * a % 2 ^ 64) ()
      else fail ()

/-! ## Bytes and cursors -/

section Bytes

variable {mem : Mem} {c : Cursor} {b : BitVec 8} {w r h : Octets} {n p major a : Nat}

theorem ptrAdd_eq (h : p + n < 2 ^ 32) : ptrAdd p n = p + n := Nat.mod_eq_of_lt h

/-- A length that does not carry the pointer is added to it as a number. -/
theorem ptrAdd_reach (h : p + a % 2 ^ 32 < 2 ^ 32) : ptrAdd p a = p + a % 2 ^ 32 := by
  unfold ptrAdd
  omega

@[simp] theorem length_bytesAt (mem : Mem) (p n : Nat) : (bytesAt mem p n).length = n := by
  induction n generalizing p with
  | zero => rfl
  | succ n ih => exact congrArg (· + 1) (ih _)

theorem bytesAt_take {k : Nat} (hk : k ≤ n) : (bytesAt mem p n).take k = bytesAt mem p k := by
  induction k generalizing p n with
  | zero => exact List.take_zero
  | succ k ih =>
      obtain ⟨n, rfl⟩ := Nat.exists_eq_add_of_le' (Nat.one_le_of_lt hk)
      exact congrArg (mem p :: ·) (ih (Nat.le_of_succ_le_succ hk))

theorem bytesAt_drop {k : Nat} (hk : k ≤ n) (hp : p + k < 2 ^ 32) :
    (bytesAt mem p n).drop k = bytesAt mem (p + k) (n - k) := by
  induction k generalizing p n with
  | zero => rfl
  | succ k ih =>
      obtain ⟨n, rfl⟩ := Nat.exists_eq_add_of_le' (Nat.one_le_of_lt hk)
      rw [bytesAt, List.drop_succ_cons, ptrAdd_eq (by omega),
        ih (Nat.le_of_succ_le_succ hk) (by omega), Nat.add_sub_add_right, Nat.add_assoc,
        Nat.add_comm 1 k]

@[simp] theorem Cursor.length_rest (mem : Mem) (c : Cursor) :
    (c.rest mem).length = c.stop - c.p := length_bytesAt ..

theorem Cursor.Valid.advance (hc : c.Valid) (hn : n ≤ (c.rest mem).length) :
    (c.advance n).Valid := by
  obtain ⟨hle, hlt⟩ := hc
  rw [length_rest] at hn
  exact ⟨by show c.p + n ≤ c.stop; omega, hlt⟩

/-- The first bytes of what remains, as a slice. -/
theorem Cursor.rest_take (hn : n ≤ (c.rest mem).length) :
    (c.rest mem).take n = bytesAt mem c.p n := by
  rw [length_rest] at hn
  exact bytesAt_take hn

theorem Cursor.Valid.rest_drop (hc : c.Valid) (hn : n ≤ (c.rest mem).length) :
    (c.rest mem).drop n = (c.advance n).rest mem := by
  obtain ⟨hle, hlt⟩ := hc
  rw [length_rest] at hn
  rw [Cursor.rest, bytesAt_drop hn (by omega)]
  exact congrArg _ (Nat.sub_sub ..)

theorem Cursor.Valid.rest_append (hc : c.Valid) (hrest : c.rest mem = w ++ r) :
    (c.advance w.length).Valid ∧ (c.advance w.length).rest mem = r := by
  have hle : w.length ≤ (c.rest mem).length := by
    rw [hrest, List.length_append]
    exact Nat.le_add_right _ _
  refine ⟨hc.advance hle, ?_⟩
  rw [← hc.rest_drop hle, hrest, List.drop_left]

theorem Cursor.advance_advance (c : Cursor) (n k : Nat) :
    (c.advance n).advance k = c.advance (n + k) :=
  congrArg (Cursor.mk · c.stop) (Nat.add_assoc ..)

end Bytes

/-! ## Buffers -/

/-- A buffer: its addresses and the one behind it have 32 bits. -/
structure Buffer where
  base : Nat
  len : Nat
  fits : base + len < 2 ^ 32

/-- The cursor is in the buffer. -/
structure Buffer.Holds (b : Buffer) (c : Cursor) : Prop where
  base_le : b.base ≤ c.p
  le_stop : c.p ≤ c.stop
  stop_eq : c.stop = b.base + b.len

theorem Buffer.Holds.valid {b : Buffer} {c : Cursor} (h : b.Holds c) : c.Valid :=
  ⟨h.le_stop, h.stop_eq ▸ b.fits⟩

theorem Buffer.Holds.advance {b : Buffer} {c : Cursor} {mem : Mem} {n : Nat} (h : b.Holds c)
    (hn : n ≤ (c.rest mem).length) : b.Holds (c.advance n) :=
  ⟨h.base_le.trans (Nat.le_add_right _ _), (h.valid.advance hn).le_stop, h.stop_eq⟩

theorem Buffer.holds_init (b : Buffer) : b.Holds (cborInit b.base b.len) := by
  rw [cborInit, ptrAdd_eq b.fits]
  exact ⟨le_rfl, Nat.le_add_right _ _, rfl⟩

/-! ## Headers -/

section Headers

variable {mem : Mem} {c : Cursor} {b : BitVec 8} {w r h : Octets} {n p major a : Nat}

theorem nextByte_cons (hc : c.Valid) (hrest : c.rest mem = b :: w) :
    (nextByte mem).Ends c (.ok b) (c.advance 1) := by
  have hlen : (c.rest mem).length = w.length + 1 := by rw [hrest]; rfl
  rw [Cursor.length_rest] at hlen
  have hlt : c.p < c.stop := by omega
  have hbyte : mem c.p = b := by
    obtain ⟨n, hn⟩ := Nat.exists_eq_add_of_lt hlt
    rw [Cursor.rest, show c.stop - c.p = n + 1 by omega, bytesAt] at hrest
    exact (List.cons.inj hrest).1
  have hstop := hc.stop_lt
  unfold Ends nextByte
  rw [if_pos hlt, hbyte, ptrAdd_eq (by omega)]
  exact ⟨rfl, rfl⟩

theorem nextByte_nil (hrest : c.rest mem = []) : (nextByte mem).Ends c (.fail ()) c := by
  have hlen : (c.rest mem).length = 0 := by rw [hrest]; rfl
  rw [Cursor.length_rest] at hlen
  unfold Ends nextByte
  rw [if_neg (by omega)]
  exact ⟨rfl, rfl⟩

/-- A byte shifted in, as arithmetic. -/
theorem shift_or (v : Nat) (b : BitVec 8) : v <<< 8 ||| b.toNat = v * 256 + b.toNat := by
  rw [Nat.shiftLeft_eq, Nat.mul_comm, ← Nat.two_pow_add_eq_or_of_lt b.isLt, Nat.mul_comm]

theorem argBytes_ends (hc : c.Valid) {v k : Nat} (hrest : c.rest mem = w ++ r)
    (hv : v < 256 ^ k) (hk : k + w.length ≤ 8) :
    (argBytes mem w.length v).Ends c
      (.ok (w.foldl (fun v b => v * 256 + b.toNat) v)) (c.advance w.length) := by
  induction w generalizing c v k with
  | nil => exact pure_ends
  | cons b w ih =>
      obtain ⟨hc', hrest'⟩ := hc.rest_append (w := [b]) hrest
      rw [List.length_cons] at hk
      have hb := b.isLt
      have hnext : v * 256 + b.toNat < 256 ^ (k + 1) := by
        rw [Nat.pow_succ]
        omega
      have hpow : 256 ^ (k + 1) ≤ 256 ^ 8 := Nat.pow_le_pow_right (by decide) (by omega)
      have hmod : (v <<< 8 ||| b.toNat) % 2 ^ 64 = v * 256 + b.toNat := by
        rw [shift_or]
        exact Nat.mod_eq_of_lt (hnext.trans_le hpow)
      have hih := ih hc' hrest' hnext (by omega)
      rw [← hmod, Cursor.advance_advance, Nat.add_comm] at hih
      rw [List.foldl_cons, ← hmod]
      exact (nextByte_cons hc hrest).bind hih

theorem argBytes_short (hc : c.Valid) {v : Nat} (hshort : (c.rest mem).length < n) :
    ∃ c', (argBytes mem n v).Ends c (.fail ()) c' := by
  induction n generalizing c v with
  | zero => exact absurd hshort (Nat.not_lt_zero _)
  | succ n ih =>
      cases hrest : c.rest mem with
      | nil => exact ⟨c, (nextByte_nil hrest).bind_fail⟩
      | cons b w =>
          obtain ⟨hc', hrest'⟩ := hc.rest_append (w := [b]) hrest
          rw [hrest, List.length_cons] at hshort
          obtain ⟨c', hc''⟩ := ih hc' (v := (v <<< 8 ||| b.toNat) % 2 ^ 64)
            (by rw [hrest']; omega)
          exact ⟨c', (nextByte_cons hc hrest).bind hc''⟩

theorem and_info (b : BitVec 8) : b.toNat &&& 0x1F = info b := Nat.and_two_pow_sub_one_eq_mod _ 5

theorem shift_major (b : BitVec 8) : b.toNat >>> 5 = b.toNat / 32 :=
  Nat.shiftRight_eq_div_pow ..

/-- How many bytes of the argument follow the first byte of a long header. -/
theorem argLength (h : info b < 28) (hlo : 24 ≤ info b) :
    (if info b = 24 then 1 else if info b = 25 then 2 else if info b = 26 then 4
      else if info b = 27 then 8 else 0) = 2 ^ (info b - 24) := by
  generalize info b = n at h hlo
  interval_cases n <;> rfl

/-- The header at the cursor is read. -/
theorem cborHdr_ends (hc : c.Valid) (hh : Head h major a) (hrest : c.rest mem = h ++ r) :
    (cborHdr mem).Ends c (.ok (major, a)) (c.advance h.length) := by
  cases hh with
  | short b hb =>
      refine (nextByte_cons hc hrest).bind ?_
      simp only [and_info, shift_major]
      rw [if_neg (by omega), if_pos hb, if_neg (by omega), if_neg (by omega), if_neg (by omega),
        if_neg (by omega)]
      exact pure_ends.bind pure_ends
  | long b w hlo hhi hlen =>
      obtain ⟨hc', hrest'⟩ := hc.rest_append (w := [b]) hrest
      have hfits : w.length ≤ 8 := by
        rw [hlen]
        exact Nat.pow_le_pow_right Nat.two_pos (show info b - 24 ≤ 3 by omega)
      have hargs := argBytes_ends hc' (v := 0) (k := 0) hrest' Nat.one_pos (by omega)
      refine (nextByte_cons hc hrest).bind ?_
      simp only [and_info, shift_major]
      rw [if_neg (show ¬info b ≥ 28 by omega), if_neg (show ¬info b < 24 by omega),
        argLength hhi hlo, ← hlen, List.length_cons, Nat.add_comm, ← Cursor.advance_advance]
      exact hargs.bind pure_ends

/-- Where no header starts, none is read. -/
theorem cborHdr_fails (hc : c.Valid) (hnone : head? (c.rest mem) = none) :
    ∃ c', (cborHdr mem).Ends c (.fail ()) c' := by
  cases hrest : c.rest mem with
  | nil => exact ⟨c, (nextByte_nil hrest).bind_fail⟩
  | cons b w =>
      obtain ⟨hc', hrest'⟩ := hc.rest_append (w := [b]) hrest
      rw [hrest, head?] at hnone
      have hlong : ¬info b < 24 := by
        intro hb
        rw [if_pos hb] at hnone
        cases hnone
      rw [if_neg hlong] at hnone
      by_cases hhi : info b < 28
      · have hshort : ((c.advance 1).rest mem).length < 2 ^ (info b - 24) := by
          rw [show (c.advance 1).rest mem = w from hrest']
          by_contra hle
          rw [if_pos ⟨hhi, Nat.not_lt.mp hle⟩] at hnone
          cases hnone
        obtain ⟨c', hargs⟩ := argBytes_short hc' (v := 0) hshort
        refine ⟨c', (nextByte_cons hc hrest).bind ?_⟩
        simp only [and_info, shift_major]
        rw [if_neg (show ¬info b ≥ 28 by omega), if_neg hlong, argLength hhi (by omega)]
        exact hargs.bind_fail
      · refine ⟨c.advance 1, (nextByte_cons hc hrest).bind ?_⟩
        simp only [and_info]
        rw [if_pos (by omega)]
        exact fail_ends

theorem hdrOf_ends (hc : c.Valid) (hh : Head h major a) (hrest : c.rest mem = h ++ r) :
    (hdrOf mem major).Ends c (.ok a) (c.advance h.length) := by
  refine (cborHdr_ends hc hh hrest).bind ?_
  dsimp only
  rw [if_neg (not_not.mpr rfl)]
  exact pure_ends

theorem takeString_ends (h : ptrAdd c.p a ≤ c.stop) :
    (takeString a).Ends c (.ok ⟨c.p, a % 2 ^ 32⟩) ⟨ptrAdd c.p a, c.stop⟩ := by
  unfold Ends takeString
  rw [if_neg (Nat.not_lt.mpr h)]
  exact ⟨rfl, rfl⟩

theorem orRestore_ok {α : Type} {m : Decode Unit α} {x : α} {c' : Cursor}
    (h : m.Ends c (.ok x) c') : (orRestore m).Ends c (.ok x) c' := by
  obtain ⟨hout, hstate⟩ := h
  unfold Ends orRestore
  generalize m c = run at hout hstate
  obtain ⟨out, c₁, evs⟩ := run
  obtain rfl : out = .ok x := hout
  exact ⟨rfl, hstate⟩

end Headers

end SlowBus.Boot
