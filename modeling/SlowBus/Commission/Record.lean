import Mathlib.Algebra.Order.Ring.Nat
import Mathlib.Data.List.Infix
import Mathlib.Logic.Function.Basic

/-!
# The commissioning record of the client

The record stands in two rows of flash. A write goes to the row that does not hold the newest one,
which is erased and then written, with the next sequence number. Power may be lost between the two
commands.
-/

namespace SlowBus.Commission

def recordMagic : BitVec 32 := 0xC0FFEE00

/-- `slot_t`. -/
structure RecordSlot where
  magic : BitVec 32
  sequence : BitVec 32
  instanceId : BitVec 32
  commissioningState : BitVec 8
  reserved : BitVec 24
  deriving DecidableEq, Repr

/-- `commission_blob_t`. -/
structure CommissionBlob where
  instanceId : BitVec 32
  commissioningState : BitVec 8
  deriving DecidableEq, Repr

/-- The two rows. -/
inductive SlotAddr where
  | a
  | b
  deriving DecidableEq, Repr

def SlotAddr.other : SlotAddr → SlotAddr
  | .a => .b
  | .b => .a

abbrev RecordFlash := SlotAddr → RecordSlot

/-- An erased row. -/
def RecordSlot.blank : RecordSlot where
  magic := 0xFFFFFFFF
  sequence := 0xFFFFFFFF
  instanceId := 0xFFFFFFFF
  commissioningState := 0xFF
  reserved := 0xFFFFFF

/-- `slot_valid` -/
def RecordSlot.valid (s : RecordSlot) : Bool := s.magic == recordMagic

def RecordSlot.blob (s : RecordSlot) : CommissionBlob := ⟨s.instanceId, s.commissioningState⟩

/-- A page write clears bits, and sets none. -/
def RecordSlot.program (s page : RecordSlot) : RecordSlot where
  magic := s.magic &&& page.magic
  sequence := s.sequence &&& page.sequence
  instanceId := s.instanceId &&& page.instanceId
  commissioningState := s.commissioningState &&& page.commissioningState
  reserved := s.reserved &&& page.reserved

/-- The commands of the flash controller. -/
inductive RecordCmd where
  | eraseRow (addr : SlotAddr)
  | writePage (addr : SlotAddr) (page : RecordSlot)

def RecordCmd.apply (f : RecordFlash) : RecordCmd → RecordFlash
  | .eraseRow addr => Function.update f addr RecordSlot.blank
  | .writePage addr page => Function.update f addr ((f addr).program page)

/-- The row that `flash_storage_read` takes. -/
def recordWinner (f : RecordFlash) : Option SlotAddr :=
  if (f .a).valid && (f .b).valid then
    some (if (f .b).sequence ≤ (f .a).sequence then .a else .b)
  else if (f .a).valid then some .a
  else if (f .b).valid then some .b
  else none

/-- `flash_storage_read`; `none` is a factory-fresh chip. -/
def flashStorageRead (f : RecordFlash) : Option CommissionBlob :=
  (recordWinner f).map fun addr => (f addr).blob

/-- The row that `flash_storage_write` takes, and the sequence number it writes. -/
def recordTarget (f : RecordFlash) : SlotAddr × BitVec 32 :=
  if (f .a).valid && (f .b).valid then
    if (f .b).sequence ≤ (f .a).sequence then (.b, (f .a).sequence + 1)
    else (.a, (f .b).sequence + 1)
  else if (f .a).valid then (.b, (f .a).sequence + 1)
  else if (f .b).valid then (.a, (f .b).sequence + 1)
  else (.a, 1)

/-- The record that is written. -/
def recordPage (sequence : BitVec 32) (blob : CommissionBlob) : RecordSlot where
  magic := recordMagic
  sequence := sequence
  instanceId := blob.instanceId
  commissioningState := blob.commissioningState
  reserved := 0xFFFFFF

/-- The commands of a write. -/
def recordCommands (f : RecordFlash) (blob : CommissionBlob) : List RecordCmd :=
  let target := recordTarget f
  [.eraseRow target.1, .writePage target.1 (recordPage target.2 blob)]

/-- `flash_storage_write`, with what it reports after reading back. -/
def flashStorageWrite (f : RecordFlash) (blob : CommissionBlob) : RecordFlash × Bool :=
  let target := recordTarget f
  let f' := (recordCommands f blob).foldl RecordCmd.apply f
  let check := f' target.1
  (f', check.magic == recordMagic && check.sequence == target.2 &&
    check.instanceId == blob.instanceId && check.commissioningState == blob.commissioningState)

/-- How far a call comes before power is lost, if it is. -/
inductive Reached where
  | nothing
  | erase
  | page
  deriving DecidableEq, Repr

/-- The commands that come to their end. -/
def Reached.commands : Reached → Nat
  | .nothing => 0
  | .erase => 1
  | .page => 2

structure WriteCall where
  blob : CommissionBlob
  reached : Reached

/-- Its page was written. -/
def WriteCall.completed (c : WriteCall) : Bool := c.reached == .page

def writeCut (f : RecordFlash) (c : WriteCall) : RecordFlash :=
  ((recordCommands f c.blob).take c.reached.commands).foldl RecordCmd.apply f

/-- A chip that was never written. -/
def factoryFlash : RecordFlash := fun _ => RecordSlot.blank

def runWrites (calls : List WriteCall) : RecordFlash := calls.foldl writeCut factoryFlash

/-- The values of the last write whose page was written. -/
def lastCompleted (calls : List WriteCall) : Option CommissionBlob :=
  (calls.filter WriteCall.completed).getLast?.map WriteCall.blob

section Rotation

variable {f : RecordFlash} {x : SlotAddr} {n : Nat} {blob : CommissionBlob}

/-- A call whose power is not lost is `flash_storage_write`. -/
theorem writeCut_completed (f : RecordFlash) (blob : CommissionBlob) :
    writeCut f ⟨blob, .page⟩ = (flashStorageWrite f blob).1 := rfl

theorem program_blank (page : RecordSlot) : RecordSlot.blank.program page = page := by
  have hword (v : BitVec 32) : 0xFFFFFFFF#32 &&& v = v := BitVec.allOnes_and
  have hbyte (v : BitVec 8) : 0xFF#8 &&& v = v := BitVec.allOnes_and
  have hrest (v : BitVec 24) : 0xFFFFFF#24 &&& v = v := BitVec.allOnes_and
  show RecordSlot.mk (0xFFFFFFFF#32 &&& page.magic) (0xFFFFFFFF#32 &&& page.sequence)
    (0xFFFFFFFF#32 &&& page.instanceId) (0xFF#8 &&& page.commissioningState)
    (0xFFFFFF#24 &&& page.reserved) = page
  rw [hword, hword, hword, hbyte, hrest]

/-- The row `x` holds the newest record, number `n`. -/
structure Newest (f : RecordFlash) (x : SlotAddr) (n : Nat) (blob : CommissionBlob) : Prop where
  valid : (f x).valid = true
  sequence : (f x).sequence.toNat = n
  blob : (f x).blob = blob
  older : (f x.other).valid = true → (f x.other).sequence.toNat < n

/-- Neither row holds a record. -/
def Fresh (f : RecordFlash) : Prop := ∀ x, (f x).valid = false

/-- The reader and the writer agree on the newest record: the other row is written. -/
theorem Newest.rows (h : Newest f x n blob) :
    recordWinner f = some x ∧ recordTarget f = (x.other, (f x).sequence + 1) := by
  have hvalid := h.valid
  have holder := h.older
  rw [← h.sequence] at holder
  cases x with
  | a =>
      cases hb : (f .b).valid with
      | true =>
          have hle : (f .b).sequence ≤ (f .a).sequence := BitVec.le_def.mpr (holder hb).le
          simp only [recordWinner, recordTarget, hvalid, hb, hle, Bool.and_self, if_true]
          exact ⟨trivial, rfl⟩
      | false =>
          simp only [recordWinner, recordTarget, hvalid, hb, Bool.and_false, if_true,
            Bool.false_eq_true, if_false]
          exact ⟨trivial, rfl⟩
  | b =>
      cases ha : (f .a).valid with
      | true =>
          have hlt : ¬(f .b).sequence ≤ (f .a).sequence := fun hle =>
            Nat.not_lt.mpr (BitVec.le_def.mp hle) (holder ha)
          simp only [recordWinner, recordTarget, hvalid, ha, hlt, Bool.and_self, if_true, if_false]
          exact ⟨trivial, rfl⟩
      | false =>
          simp only [recordWinner, recordTarget, hvalid, ha, Bool.and_true, if_true,
            Bool.false_eq_true, if_false]
          exact ⟨trivial, rfl⟩

theorem Fresh.rows (h : Fresh f) : recordWinner f = none ∧ recordTarget f = (.a, 1) := by
  simp only [recordWinner, recordTarget, h .a, h .b, Bool.and_self, Bool.false_eq_true, if_false,
    and_self]

theorem other_ne (x : SlotAddr) : x.other ≠ x := by cases x <;> exact SlotAddr.noConfusion

theorem other_other (x : SlotAddr) : x.other.other = x := by cases x <;> rfl

theorem writeCut_eq (f : RecordFlash) (c : WriteCall) :
    writeCut f c = match c.reached with
      | .nothing => f
      | .erase => Function.update f (recordTarget f).1 RecordSlot.blank
      | .page => Function.update f (recordTarget f).1 (recordPage (recordTarget f).2 c.blob) := by
  obtain ⟨blob, reached⟩ := c
  cases reached with
  | nothing => rfl
  | erase => rfl
  | page =>
      show Function.update (Function.update f _ RecordSlot.blank) _
        ((Function.update f _ RecordSlot.blank (recordTarget f).1).program _) = _
      rw [Function.update_self, Function.update_idem, program_blank]

/-- A page that follows the newest record. -/
theorem newest_written {y : SlotAddr} {v : BitVec 32} (hv : v.toNat = n)
    (holder : (f y.other).valid = true → (f y.other).sequence.toNat < n) :
    Newest (Function.update f y (recordPage v blob)) y n blob where
  valid := by
    rw [Function.update_self]
    rfl
  sequence := by rw [Function.update_self]; exact hv
  blob := by rw [Function.update_self]; rfl
  older := by
    rw [Function.update_of_ne (other_ne y)]
    exact holder

/-- What the flash holds after some writes. -/
def Rotates (f : RecordFlash) (n : Nat) : Option CommissionBlob → Prop
  | none => Fresh f ∧ n = 0
  | some blob => ∃ x, Newest f x n blob

/-- One call, cut after any of its commands. -/
theorem Rotates.step {last : Option CommissionBlob} (h : Rotates f n last) (c : WriteCall)
    (hn : n + 1 < 2 ^ 32) :
    Rotates (writeCut f c) (if c.completed then n + 1 else n)
      (if c.completed then some c.blob else last) := by
  rw [writeCut_eq]
  obtain ⟨blob, reached⟩ := c
  cases last with
  | none =>
      obtain ⟨hfresh, rfl⟩ := h
      rw [hfresh.rows.2]
      cases reached with
      | nothing => exact ⟨hfresh, rfl⟩
      | erase =>
          refine ⟨fun x => ?_, rfl⟩
          show (Function.update f .a RecordSlot.blank x).valid = false
          rw [Function.update_apply]
          split_ifs
          · rfl
          · exact hfresh x
      -- the next number is written to the other row, above the newest one
      | page =>
          refine ⟨.a, newest_written rfl fun hvalid => ?_⟩
          rw [hfresh] at hvalid
          cases hvalid
  | some old =>
      obtain ⟨x, hnew⟩ := h
      rw [hnew.rows.2]
      cases reached with
      | nothing => exact ⟨x, hnew⟩
      | erase =>
          -- the erased row is not the newest one
          refine ⟨x, ?_, ?_, ?_, fun hvalid => ?_⟩
          · exact (congrArg RecordSlot.valid (Function.update_of_ne (other_ne x).symm _ f)).trans
              hnew.valid
          · exact (congrArg (fun s => s.sequence.toNat)
              (Function.update_of_ne (other_ne x).symm _ f)).trans hnew.sequence
          · exact (congrArg RecordSlot.blob (Function.update_of_ne (other_ne x).symm _ f)).trans
              hnew.blob
          · exact absurd ((congrArg RecordSlot.valid (Function.update_self x.other _ f)).symm.trans
              hvalid) (by decide)
      | page =>
          refine ⟨x.other, newest_written ?_ fun _ => ?_⟩
          · show ((f x).sequence + 1).toNat = n + 1
            rw [BitVec.toNat_add_of_lt (by rw [hnew.sequence]; exact hn), hnew.sequence]
            rfl
          · rw [other_other, hnew.sequence]
            exact Nat.lt_succ_self n

end Rotation

/-! ## A run -/

section Run

variable {calls : List WriteCall}

theorem lastCompleted_append_one (calls : List WriteCall) (c : WriteCall) :
    lastCompleted (calls ++ [c]) = if c.completed then some c.blob else lastCompleted calls := by
  rw [lastCompleted, List.filter_append, List.filter_singleton]
  cases c.completed with
  | true =>
      rw [cond_true, List.getLast?_concat]
      rfl
  | false =>
      rw [cond_false, List.append_nil]
      rfl

theorem runWrites_append_one (calls : List WriteCall) (c : WriteCall) :
    runWrites (calls ++ [c]) = writeCut (runWrites calls) c := by
  rw [runWrites, List.foldl_append]
  rfl

theorem rotates_run (h : calls.length < 2 ^ 32) :
    ∃ n ≤ calls.length, Rotates (runWrites calls) n (lastCompleted calls) := by
  induction calls using List.reverseRecOn with
  | nil => exact ⟨0, Nat.le_refl 0, fun _ => rfl, rfl⟩
  | append_singleton calls c ih =>
      rw [List.length_append, List.length_singleton] at h ⊢
      obtain ⟨n, hn, hrotates⟩ := ih (Nat.lt_of_succ_lt h)
      refine ⟨if c.completed then n + 1 else n, by split_ifs <;> omega, ?_⟩
      rw [runWrites_append_one, lastCompleted_append_one]
      exact hrotates.step c (by omega)

theorem Rotates.read {f : RecordFlash} {n : Nat} {last : Option CommissionBlob}
    (h : Rotates f n last) :
    flashStorageRead f = last ∧ ∀ x, recordWinner f = some x → (recordTarget f).1 ≠ x := by
  cases last with
  | none =>
      rw [flashStorageRead, h.1.rows.1]
      exact ⟨rfl, fun x hx => nomatch hx⟩
  | some blob =>
      obtain ⟨x, hnew⟩ := h
      obtain ⟨hwinner, htarget⟩ := hnew.rows
      rw [flashStorageRead, hwinner, htarget]
      refine ⟨congrArg some hnew.blob, fun y hy => ?_⟩
      cases hy
      exact other_ne x

/-- A read gives the values of the last write whose page was written, the row that holds them is
never erased, and only a chip on which no page was ever written reads as fresh. -/
theorem runWrites_read (calls : List WriteCall) (h : calls.length < 2 ^ 32 - 1) :
    flashStorageRead (runWrites calls) = lastCompleted calls ∧
      (∀ before call, before ++ [call] <+: calls → ∀ x, recordWinner (runWrites before) = some x →
        (recordTarget (runWrites before)).1 ≠ x) ∧
      (flashStorageRead (runWrites calls) = none ↔ ∀ call ∈ calls, call.completed = false) := by
  obtain ⟨n, -, hrotates⟩ := rotates_run (show calls.length < 2 ^ 32 by omega)
  refine ⟨hrotates.read.1, fun before call hprefix => ?_, ?_⟩
  · have hlength := hprefix.length_le
    rw [List.length_append] at hlength
    obtain ⟨m, -, hbefore⟩ := rotates_run (show before.length < 2 ^ 32 by omega)
    exact hbefore.read.2
  · rw [hrotates.read.1, lastCompleted, Option.map_eq_none_iff, List.getLast?_eq_none_iff,
      List.filter_eq_nil_iff]
    simp only [Bool.not_eq_true]

/-- A write, one that loses power after the row is erased, and one before. -/
theorem runWrites_read_cut :
    flashStorageRead (runWrites [⟨⟨7, 1⟩, .page⟩, ⟨⟨8, 1⟩, .erase⟩, ⟨⟨9, 1⟩, .nothing⟩]) =
      some ⟨7, 1⟩ :=
  (runWrites_read [⟨⟨7, 1⟩, .page⟩, ⟨⟨8, 1⟩, .erase⟩, ⟨⟨9, 1⟩, .nothing⟩] (by decide)).1

end Run

end SlowBus.Commission
