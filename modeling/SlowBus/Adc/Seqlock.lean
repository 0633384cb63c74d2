import SlowBus.Adc.Client

/-!
# Reading a statistics block byte by byte

The sampler's interrupt writes the statistics of a full window one after the other and counts up
the sequence number last. The register interrupt has the higher priority, so that a master may read
between any two of these writes. It reads the sequence number, the statistics and the sequence
number again.
-/

namespace SlowBus.Adc

open Blocks

/-- The writes of `adc_snapshot_full`. -/
inductive AdcWrite where
  | min (w : Fin 3) (v : BitVec 16)
  | max (w : Fin 3) (v : BitVec 16)
  | avg (w : Fin 3) (v : BitVec 16)
  | rms (w : Fin 3) (v : BitVec 16)
  | clear (w : Fin 3)
  | seq (w : Fin 3)
  deriving DecidableEq, Repr

def AdcWrite.window : AdcWrite → Fin 3
  | .min w _ | .max w _ | .avg w _ | .rms w _ | .clear w | .seq w => w

def ClientSampler.write (s : ClientSampler) : AdcWrite → ClientSampler
  | .min w v => { s with stat := Function.update s.stat w { s.stat w with min := v } }
  | .max w v => { s with stat := Function.update s.stat w { s.stat w with max := v } }
  | .avg w v => { s with stat := Function.update s.stat w { s.stat w with avg := v } }
  | .rms w v => { s with stat := Function.update s.stat w { s.stat w with rms := v } }
  | .clear w => { s with acc := Function.update s.acc w AdcAccum.zero }
  | .seq w => { s with seq := Function.update s.seq w (s.seq w + 1) }

/-- What a full window writes, in order. -/
def closeWrites (a : AdcAccum) (w : Fin 3) : List AdcWrite :=
  let st := Client.stat a
  [.min w st.min, .max w st.max, .avg w st.avg, .rms w st.rms, .clear w, .seq w]

/-- What `adc_snapshot_full` writes, in order. -/
def snapshotWrites (s : ClientSampler) : List AdcWrite :=
  [0, 1, 2].flatMap fun w =>
    if (s.acc w).count.toNat < winLen w then [] else closeWrites (s.acc w) w

/-- The chip while its sampler runs: the writes that are left of the interrupt, the samples so
far, and the writes so far. -/
structure AdcChip where
  mem : ClientSampler
  todo : List AdcWrite
  taken : List (BitVec 16)
  done : List AdcWrite

def AdcChip.setup : AdcChip := { mem := ClientSampler.setup, todo := [], taken := [], done := [] }

/-- The next write of the interrupt, or a sample. -/
def AdcChip.step (c : AdcChip) (v : BitVec 16) : AdcChip :=
  match c.todo with
  | [] =>
      { mem := c.mem.adcAccum v
        todo := snapshotWrites (c.mem.adcAccum v)
        taken := c.taken ++ [(c.mem.adcAccum v).latest]
        done := c.done }
  | write :: todo =>
      { mem := c.mem.write write, todo := todo, taken := c.taken, done := c.done ++ [write] }

/-- What the chip does between two reads. -/
def AdcChip.advance (c : AdcChip) (vs : List (BitVec 16)) : AdcChip := vs.foldl AdcChip.step c

/-- How often a window has closed. -/
def AdcChip.closes (c : AdcChip) (w : Fin 3) : Nat := c.done.count (.seq w)

/-- A close of the window is under way. -/
def AdcChip.Closing (c : AdcChip) (w : Fin 3) : Prop := ∃ write ∈ c.todo, write.window = w

/-- The block of `adc_reg_read`. -/
def ClientSampler.blk (s : ClientSampler) (winSel : Fin 3) : Nat → BitVec 16
  | 0 => s.seq winSel
  | 1 => (s.stat winSel).min
  | 2 => (s.stat winSel).max
  | 3 => (s.stat winSel).avg
  | _ => (s.stat winSel).rms

/-- The byte of a register pair at an offset. -/
def regByte (v : BitVec 16) (off : Nat) : BitVec 8 :=
  if off % 2 = 1 then (v >>> 8).setWidth 8 else v.setWidth 8

/-- `adc_reg_read` inside the block: the byte at an offset from `REG_ADC_SEQ`. -/
def ClientSampler.adcRegRead (s : ClientSampler) (winSel : Fin 3) (off : Nat) : BitVec 8 :=
  regByte (s.blk winSel (off / 2)) off

/-- The chip at each read of the master; `gaps` says what it does before. -/
def chipAt (gaps : Nat → List (BitVec 16)) : Nat → AdcChip
  | 0 => AdcChip.setup.advance (gaps 0)
  | k + 1 => (chipAt gaps k).advance (gaps (k + 1))

/-- The bytes the master reads: the block from its first byte on, and its first two bytes again. -/
def byteRead (gaps : Nat → List (BitVec 16)) (w : Fin 3) (k : Nat) : BitVec 8 :=
  (chipAt gaps k).mem.adcRegRead w (k % 10)

/-- A sequence number, read as two bytes. -/
def seqRead (gaps : Nat → List (BitVec 16)) (w : Fin 3) (k : Nat) : BitVec 16 :=
  byteRead gaps w (k + 1) ++ byteRead gaps w k

def AdcStat.word (st : AdcStat) : Nat → BitVec 16
  | 0 => st.min
  | 1 => st.max
  | 2 => st.avg
  | _ => st.rms

/-- The bytes of statistics. -/
def AdcStat.byte (st : AdcStat) (i : Nat) : BitVec 8 := regByte (st.word (i / 2)) i

/-- The samples of one window. -/
def windowBlock (w : Fin 3) (taken : List (BitVec 16)) (k : Nat) : List (BitVec 16) :=
  (taken.drop (winLen w * k)).take (winLen w)

/-- Eight bytes are the statistics of one window that closed. -/
def OneWindow (w : Fin 3) (taken : List (BitVec 16)) (bytes : Nat → BitVec 8) : Prop :=
  ∃ k, winLen w * (k + 1) ≤ taken.length ∧ ∃ st : AdcStat,
    st.values = windowStats (numbers (windowBlock w taken k)) ∧ ∀ i < 8, bytes i = st.byte i

/-! ## The writes of a window -/

section Writes

variable {s : ClientSampler} {w : Fin 3} {x : AdcWrite} {xs : List AdcWrite}

/-- What the writes of a window change. -/
@[ext]
structure WinView where
  acc : AdcAccum
  stat : AdcStat
  seq : BitVec 16

def ClientSampler.view (s : ClientSampler) (w : Fin 3) : WinView := ⟨s.acc w, s.stat w, s.seq w⟩

/-- A write, seen from its window. -/
def WinView.write (d : WinView) : AdcWrite → WinView
  | .min _ v => { d with stat := { d.stat with min := v } }
  | .max _ v => { d with stat := { d.stat with max := v } }
  | .avg _ v => { d with stat := { d.stat with avg := v } }
  | .rms _ v => { d with stat := { d.stat with rms := v } }
  | .clear _ => { d with acc := AdcAccum.zero }
  | .seq _ => { d with seq := d.seq + 1 }

/-- The writes of a window that are left. -/
def ownWrites (w : Fin 3) (xs : List AdcWrite) : List AdcWrite :=
  xs.filter fun x => x.window = w

theorem view_write (s : ClientSampler) (x : AdcWrite) (w : Fin 3) :
    (s.write x).view w = if x.window = w then (s.view w).write x else s.view w := by
  by_cases h : x.window = w
  · rw [if_pos h]
    cases x <;> subst h <;>
      simp only [ClientSampler.view, ClientSampler.write, WinView.write, AdcWrite.window,
        Function.update_self]
  · rw [if_neg h]
    have hne : w ≠ x.window := Ne.symm h
    cases x <;>
      simp only [AdcWrite.window] at hne <;>
      simp only [ClientSampler.view, ClientSampler.write, Function.update_of_ne hne]

theorem ownWrites_cons (x : AdcWrite) (xs : List AdcWrite) (w : Fin 3) :
    ownWrites w (x :: xs) = if x.window = w then x :: ownWrites w xs else ownWrites w xs := by
  simp only [ownWrites, List.filter_cons, decide_eq_true_eq]

/-- A window sees its own writes only. -/
theorem view_foldl (s : ClientSampler) (xs : List AdcWrite) (w : Fin 3) :
    (xs.foldl ClientSampler.write s).view w =
      (ownWrites w xs).foldl WinView.write (s.view w) := by
  induction xs generalizing s with
  | nil => rfl
  | cons x xs ih =>
      rw [List.foldl_cons, ih, view_write, ownWrites_cons]
      split_ifs <;> rfl

theorem ownWrites_closeWrites (a : AdcAccum) (w w' : Fin 3) :
    ownWrites w (closeWrites a w') = if w' = w then closeWrites a w else [] := by
  by_cases h : w' = w
  · subst h
    rw [if_pos rfl]
    simp [ownWrites, closeWrites, AdcWrite.window]
  · rw [if_neg h]
    simp [ownWrites, closeWrites, AdcWrite.window, h]

/-- A window has writes of its own if and only if it is full. -/
theorem ownWrites_snapshot (s : ClientSampler) (w : Fin 3) :
    ownWrites w (snapshotWrites s) =
      if (s.acc w).count.toNat < winLen w then [] else closeWrites (s.acc w) w := by
  have hpart (w' : Fin 3) : ownWrites w
      (if (s.acc w').count.toNat < winLen w' then [] else closeWrites (s.acc w') w') =
      if w' = w then
        (if (s.acc w).count.toNat < winLen w then [] else closeWrites (s.acc w) w) else [] := by
    by_cases h : w' = w
    · subst h
      rw [if_pos rfl]
      split_ifs
      · rfl
      · rw [ownWrites_closeWrites, if_pos rfl]
    · rw [if_neg h]
      split_ifs
      · rfl
      · rw [ownWrites_closeWrites, if_neg h]
  have happend (xs ys : List AdcWrite) :
      ownWrites w (xs ++ ys) = ownWrites w xs ++ ownWrites w ys :=
    List.filter_append ..
  rw [snapshotWrites, List.flatMap_cons, List.flatMap_cons, List.flatMap_cons, List.flatMap_nil,
    happend, happend, happend, hpart, hpart, hpart]
  match w with
  | 0 | 1 | 2 => simp [ownWrites]

/-- Written one after the other, they come to what `adc_snapshot_full` does. -/
theorem foldl_snapshotWrites (s : ClientSampler) (w : Fin 3) :
    ((snapshotWrites s).foldl ClientSampler.write s).view w = s.adcSnapshotFull.view w := by
  rw [view_foldl, ownWrites_snapshot]
  by_cases hopen : (s.acc w).count.toNat < winLen w
  · simp only [hopen, if_true, List.foldl_nil, ClientSampler.view, ClientSampler.adcSnapshotFull]
  · simp only [hopen, if_false, ClientSampler.view, ClientSampler.adcSnapshotFull]
    rfl

end Writes

/-! ## The chip -/

section Chip

variable {c : AdcChip} {w : Fin 3} {v : BitVec 16}

/-- Between any two writes the chip is on its way to the state after the interrupt. -/
structure Consistent (c : AdcChip) : Prop where
  samples : Samples c.taken
  coarse : ∀ w, (c.todo.foldl ClientSampler.write c.mem).view w =
    (ClientSampler.setup.run c.taken).view w
  counted : ∀ w, c.mem.seq w = BitVec.ofNat 16 (c.closes w)
  total : ∀ w, c.closes w + c.todo.count (.seq w) = c.taken.length / winLen w
  ends : ∀ w, ∃ a, ownWrites w c.todo <:+ closeWrites a w

theorem consistent_setup : Consistent AdcChip.setup where
  samples _ hx := absurd hx List.not_mem_nil
  coarse _ := rfl
  counted _ := rfl
  total _ := (Nat.zero_div _).symm
  ends _ := ⟨AdcAccum.zero, List.nil_suffix⟩

theorem closing_iff : c.Closing w ↔ ownWrites w c.todo ≠ [] := by
  rw [ownWrites, Ne, List.filter_eq_nil_iff]
  simp only [AdcChip.Closing, decide_eq_true_eq, not_forall, not_not, exists_prop]

/-- Samples are clamped to 12 bits. -/
theorem adcAccum_latest (s : ClientSampler) (v : BitVec 16) :
    (s.adcAccum v).latest.toNat ≤ 4095 ∧
      ∀ w, (s.adcAccum v).acc w = (s.acc w).fold (s.adcAccum v).latest := by
  refine ⟨?_, fun w => rfl⟩
  show (if 4095 < v then 4095 else v).toNat ≤ 4095
  split_ifs with hlt
  · decide
  · exact BitVec.le_def.mp (BitVec.not_lt.mp hlt)

theorem view_adcSnapshotFull {s s' : ClientSampler} (h : s.view w = s'.view w) :
    s.adcSnapshotFull.view w = s'.adcSnapshotFull.view w := by
  obtain ⟨hacc, hstat, hseq⟩ := WinView.mk.inj h
  simp only [ClientSampler.view, ClientSampler.adcSnapshotFull, hacc, hstat, hseq]

theorem seq_write (s : ClientSampler) (x : AdcWrite) (w : Fin 3) :
    (s.write x).seq w = if x = .seq w then s.seq w + 1 else s.seq w := by
  cases x with
  | seq w' =>
      by_cases h : w' = w
      · subst h
        simp only [ClientSampler.write, Function.update_self, if_true]
      · simp only [ClientSampler.write, Function.update_of_ne (Ne.symm h), AdcWrite.seq.injEq, h,
          if_false]
  | _ => simp only [ClientSampler.write, reduceCtorEq, if_false]

theorem count_ownWrites (xs : List AdcWrite) (w : Fin 3) :
    (ownWrites w xs).count (.seq w) = xs.count (.seq w) :=
  List.count_filter (decide_eq_true rfl)

theorem Consistent.sample (h : Consistent c) (hidle : c.todo = []) (v : BitVec 16) :
    Consistent (c.step v) := by
  obtain ⟨hlatest, hfold⟩ := adcAccum_latest c.mem v
  generalize hu : (c.mem.adcAccum v).latest = u at hlatest hfold
  -- between two interrupts the memory is that of the samples taken
  have hmem (w : Fin 3) : c.mem.view w = (ClientSampler.setup.run c.taken).view w := by
    have hcoarse := h.coarse w
    rwa [hidle] at hcoarse
  have hsamples : Samples (c.taken ++ [u]) := by
    intro x hx
    rcases List.mem_append.mp hx with hx | hx
    · exact h.samples x hx
    · rwa [List.mem_singleton.mp hx]
  have hcount (w : Fin 3) :
      ((c.mem.adcAccum v).acc w).count.toNat = c.taken.length % winLen w + 1 := by
    have hacc : c.mem.acc w = (ClientSampler.setup.run c.taken).acc w :=
      congrArg WinView.acc (hmem w)
    rw [hfold, hacc]
    exact (published_run h.samples w).count_fold hsamples
  have hstep : c.step v =
      { mem := c.mem.adcAccum v
        todo := snapshotWrites (c.mem.adcAccum v)
        taken := c.taken ++ [u]
        done := c.done } := by
    rw [AdcChip.step, hidle, hu]
  rw [hstep]
  refine ⟨hsamples, fun w => ?_, h.counted, fun w => ?_, fun w => ?_⟩
  · rw [foldl_snapshotWrites, run_append_one]
    refine view_adcSnapshotFull ?_
    show (⟨_, c.mem.stat w, c.mem.seq w⟩ : WinView) = _
    obtain ⟨hacc, hstat, hseq⟩ := WinView.mk.inj (hmem w)
    rw [hfold, hacc, hstat, hseq, ← adcAccum_acc hlatest]
    rfl
  -- a window is full exactly when the number of samples reaches a multiple of its length
  · have hbefore := h.total w
    rw [hidle, List.count_nil, Nat.add_zero] at hbefore
    show c.closes w + (snapshotWrites (c.mem.adcAccum v)).count (.seq w) = _
    have hmod := Nat.mod_lt c.taken.length (winLen_pos w)
    rw [hbefore, ← count_ownWrites, ownWrites_snapshot, hcount,
      length_div_append_one (winLen_pos w)]
    by_cases hfull : c.taken.length % winLen w + 1 = winLen w
    · rw [if_pos hfull, if_neg (Nat.not_lt.mpr hfull.ge)]
      simp [closeWrites]
    · rw [if_neg hfull, if_pos (by omega)]
      rfl
  · refine ⟨(c.mem.adcAccum v).acc w, ?_⟩
    show ownWrites w (snapshotWrites (c.mem.adcAccum v)) <:+ _
    rw [ownWrites_snapshot]
    split_ifs
    · exact List.nil_suffix
    · exact List.suffix_rfl

theorem Consistent.write {x : AdcWrite} {xs : List AdcWrite} (h : Consistent c)
    (hbusy : c.todo = x :: xs) (v : BitVec 16) : Consistent (c.step v) := by
  have hstep : c.step v =
      { mem := c.mem.write x, todo := xs, taken := c.taken, done := c.done ++ [x] } := by
    rw [AdcChip.step, hbusy]
  have hcloses (w : Fin 3) : (c.done ++ [x]).count (.seq w) =
      c.closes w + if x = .seq w then 1 else 0 := by
    rw [List.count_append, List.count_singleton]
    simp only [beq_iff_eq]
    rfl
  rw [hstep]
  refine ⟨h.samples, fun w => ?_, fun w => ?_, fun w => ?_, fun w => ?_⟩
  · have hcoarse := h.coarse w
    rwa [hbusy] at hcoarse
  · show (c.mem.write x).seq w = BitVec.ofNat 16 ((c.done ++ [x]).count (.seq w))
    rw [hcloses, seq_write, h.counted]
    split_ifs
    · exact (BitVec.ofNat_add ..).symm
    · rfl
  · have htotal := h.total w
    rw [hbusy, List.count_cons] at htotal
    simp only [beq_iff_eq] at htotal
    show (c.done ++ [x]).count (.seq w) + xs.count (.seq w) = c.taken.length / winLen w
    rw [hcloses]
    omega
  · obtain ⟨a, hsuffix⟩ := h.ends w
    rw [hbusy, ownWrites_cons] at hsuffix
    refine ⟨a, ?_⟩
    show ownWrites w xs <:+ closeWrites a w
    split_ifs at hsuffix
    · exact (List.suffix_cons x _).trans hsuffix
    · exact hsuffix

theorem Consistent.advance (h : Consistent c) (vs : List (BitVec 16)) :
    Consistent (c.advance vs) := by
  induction vs generalizing c with
  | nil => exact h
  | cons v vs ih =>
      refine ih (c := c.step v) ?_
      match hbusy : c.todo with
      | [] => exact h.sample hbusy v
      | x :: xs => exact h.write hbusy v

/-! ## The lock -/

theorem closes_step (c : AdcChip) (v : BitVec 16) (w : Fin 3) :
    c.closes w ≤ (c.step v).closes w := by
  rw [AdcChip.step]
  split
  · exact Nat.le_refl _
  · show c.done.count _ ≤ (c.done ++ [_]).count _
    rw [List.count_append]
    exact Nat.le_add_right _ _

theorem closes_advance (c : AdcChip) (vs : List (BitVec 16)) (w : Fin 3) :
    c.closes w ≤ (c.advance vs).closes w := by
  induction vs generalizing c with
  | nil => exact Nat.le_refl _
  | cons v vs ih => exact (closes_step c v w).trans (ih _)

/-- A close that is under way stays so until it is counted. -/
theorem closing_step (h : Consistent c) (hclosing : c.Closing w) (v : BitVec 16) :
    (c.step v).Closing w ∨ c.closes w < (c.step v).closes w := by
  match hbusy : c.todo with
  | [] =>
      obtain ⟨x, hx, -⟩ := hclosing
      rw [hbusy] at hx
      exact absurd hx List.not_mem_nil
  | x :: xs =>
      rw [AdcChip.step, hbusy]
      obtain ⟨a, hsuffix⟩ := h.ends w
      rw [closing_iff, hbusy, ownWrites_cons] at hclosing
      rw [hbusy, ownWrites_cons] at hsuffix
      by_cases hown : x.window = w
      · rw [if_pos hown] at hsuffix
        by_cases hrest : ownWrites w xs = []
        · -- the last write of a close counts it
          right
          rw [hrest] at hsuffix
          have hlast : x = .seq w := by
            have hx := (List.IsSuffix.getLast hsuffix (List.cons_ne_nil _ _))
            exact hx
          show c.done.count _ < (c.done ++ [x]).count _
          rw [hlast, List.count_append, List.count_singleton_self]
          exact Nat.lt_succ_self _
        · exact Or.inl (closing_iff.mpr hrest)
      · rw [if_neg hown] at hclosing
        exact Or.inl (closing_iff.mpr hclosing)

theorem closing_advance (h : Consistent c) (hclosing : c.Closing w) (vs : List (BitVec 16)) :
    (c.advance vs).Closing w ∨ c.closes w < (c.advance vs).closes w := by
  induction vs generalizing c with
  | nil => exact Or.inl hclosing
  | cons v vs ih =>
      rcases closing_step h hclosing v with hstill | hclosed
      · rcases ih (h.advance [v]) hstill with hend | hend
        · exact Or.inl hend
        · exact Or.inr ((closes_step c v w).trans_lt hend)
      · exact Or.inr (hclosed.trans_le (closes_advance _ vs w))

/-- Without a close of the window its statistics stay. -/
theorem stat_step (hquiet : ¬c.Closing w) (v : BitVec 16) :
    (c.step v).mem.stat w = c.mem.stat w := by
  match hbusy : c.todo with
  | [] =>
      rw [AdcChip.step, hbusy]
      rfl
  | x :: xs =>
      have hother : x.window ≠ w := fun hown => hquiet ⟨x, hbusy ▸ List.mem_cons_self, hown⟩
      rw [AdcChip.step, hbusy]
      have hview := view_write c.mem x w
      rw [if_neg hother] at hview
      exact congrArg WinView.stat hview

/-- If the window has closed in between neither wholly nor in part, its statistics are the same
before and after. -/
theorem stat_advance (h : Consistent c) (vs : List (BitVec 16))
    (hcloses : (c.advance vs).closes w = c.closes w) (hquiet : ¬(c.advance vs).Closing w) :
    ¬c.Closing w ∧ (c.advance vs).mem.stat w = c.mem.stat w := by
  induction vs generalizing c with
  | nil => exact ⟨hquiet, rfl⟩
  | cons v vs ih =>
      have hnow : ¬c.Closing w := fun hclosing =>
        (closing_advance h hclosing (v :: vs)).elim hquiet fun hlt => Nat.ne_of_gt hlt hcloses
      have hle := closes_step c v w
      have hle' := closes_advance (c.step v) vs w
      have hnext : ((c.step v).advance vs).closes w = (c.step v).closes w := by
        have heq : ((c.step v).advance vs).closes w = c.closes w := hcloses
        omega
      exact ⟨hnow, (ih (h.advance [v]) hnext hquiet).2.trans (stat_step hnow v)⟩

/-- Outside of a close a window that has closed shows its last full block. -/
theorem stat_published (h : Consistent c) (hquiet : ¬c.Closing w) (hclosed : 1 ≤ c.closes w) :
    winLen w ≤ c.taken.length ∧ (c.mem.stat w).values =
      windowStats (numbers (lastBlock (winLen w) c.taken)) := by
  have hnone : ownWrites w c.todo = [] := not_not.mp fun hne => hquiet (closing_iff.mpr hne)
  have hcount : c.todo.count (.seq w) = 0 := by
    rw [← count_ownWrites, hnone, List.count_nil]
  have htotal := h.total w
  have hlength : winLen w ≤ c.taken.length := by
    refine (Nat.one_le_div_iff (winLen_pos w)).mp ?_
    omega
  have hcoarse := h.coarse w
  rw [view_foldl, hnone] at hcoarse
  have hstat : c.mem.stat w = (ClientSampler.setup.run c.taken).stat w :=
    congrArg WinView.stat hcoarse
  rw [hstat]
  exact ⟨hlength, (run_publishes h.samples w hlength).values⟩

end Chip

/-! ## The master -/

section Master

variable {gaps : Nat → List (BitVec 16)} {w : Fin 3}

theorem consistent_chipAt (gaps : Nat → List (BitVec 16)) (k : Nat) :
    Consistent (chipAt gaps k) := by
  induction k with
  | zero => exact consistent_setup.advance _
  | succ k ih => exact ih.advance _

theorem closes_chipAt {j k : Nat} (hjk : j ≤ k) :
    (chipAt gaps j).closes w ≤ (chipAt gaps k).closes w := by
  induction hjk with
  | refl => exact Nat.le_refl _
  | step _ ih => exact ih.trans (closes_advance _ _ w)

/-- The statistics that are read before a point are those at it. -/
theorem stat_chipAt {j k : Nat} (hjk : j ≤ k)
    (hcloses : (chipAt gaps k).closes w = (chipAt gaps j).closes w)
    (hquiet : ¬(chipAt gaps k).Closing w) :
    (chipAt gaps k).mem.stat w = (chipAt gaps j).mem.stat w := by
  induction hjk with
  | refl => rfl
  | @step k hjk ih =>
      have hle : (chipAt gaps j).closes w ≤ (chipAt gaps k).closes w := closes_chipAt hjk
      have hle' : (chipAt gaps k).closes w ≤ (chipAt gaps (k + 1)).closes w :=
        closes_chipAt k.le_succ
      have hlast : (chipAt gaps (k + 1)).closes w = (chipAt gaps k).closes w :=
        (hcloses.trans_le hle).antisymm hle'
      obtain ⟨hbefore, hstat⟩ := stat_advance (consistent_chipAt gaps k) _ hlast hquiet
      exact hstat.trans (ih (hlast.symm.trans hcloses) hbefore)

theorem byteRead_seq (k : Nat) (hk : k % 10 = 0) :
    byteRead gaps w k = BitVec.ofNat 8 ((chipAt gaps k).closes w) := by
  have hseq := (consistent_chipAt gaps k).counted w
  rw [byteRead, hk]
  show ((chipAt gaps k).mem.seq w).setWidth 8 = _
  rw [hseq]
  refine BitVec.eq_of_toNat_eq ?_
  rw [BitVec.toNat_setWidth, BitVec.toNat_ofNat, BitVec.toNat_ofNat]
  exact Nat.mod_mod_of_dvd _ (by decide)

theorem byteRead_stat (i : Nat) (hi : i < 8) :
    byteRead gaps w (i + 2) = ((chipAt gaps (i + 2)).mem.stat w).byte i := by
  rw [byteRead, Nat.mod_eq_of_lt (by omega)]
  match i with
  | 0 | 1 | 2 | 3 | 4 | 5 | 6 | 7 => rfl

/-- Equal sequence numbers around the statistics, with fewer than 255 closes in between, after the
window has closed, and with no close of it under way when the number is read again: the statistics
are those of one window. -/
theorem seqlock (w : Fin 3) (gaps : Nat → List (BitVec 16))
    (hequal : seqRead gaps w 0 = seqRead gaps w 10)
    (hfew : (chipAt gaps 11).closes w < (chipAt gaps 0).closes w + 255)
    (hclosed : 1 ≤ (chipAt gaps 0).closes w) (hquiet : ¬(chipAt gaps 10).Closing w) :
    OneWindow w (chipAt gaps 10).taken fun i => byteRead gaps w (i + 2) := by
  have hlow : byteRead gaps w 0 = byteRead gaps w 10 := by
    have hbyte (a b : BitVec 8) : (a ++ b).setWidth 8 = b := BitVec.setWidth_append_eq_right
    have hwords := congrArg (BitVec.setWidth 8) hequal
    rwa [seqRead, seqRead, hbyte, hbyte] at hwords
  rw [byteRead_seq 0 rfl, byteRead_seq 10 rfl] at hlow
  have hmod := congrArg BitVec.toNat hlow
  rw [BitVec.toNat_ofNat, BitVec.toNat_ofNat] at hmod
  have hle : (chipAt gaps 0).closes w ≤ (chipAt gaps 10).closes w := closes_chipAt (by decide)
  have hle' : (chipAt gaps 10).closes w ≤ (chipAt gaps 11).closes w := closes_chipAt (by decide)
  -- the low byte alone excludes a close
  have hcloses : (chipAt gaps 10).closes w = (chipAt gaps 0).closes w := by omega
  obtain ⟨hlength, hvalues⟩ :=
    stat_published (consistent_chipAt gaps 10) hquiet (hcloses ▸ hclosed)
  have hone : 1 ≤ (chipAt gaps 10).taken.length / winLen w :=
    (Nat.one_le_div_iff (winLen_pos w)).mpr hlength
  refine ⟨(chipAt gaps 10).taken.length / winLen w - 1, ?_, _, hvalues, fun i hi => ?_⟩
  · rw [Nat.sub_add_cancel hone]
    exact Nat.mul_div_le _ _
  · have hj : (chipAt gaps 0).closes w ≤ (chipAt gaps (i + 2)).closes w :=
      closes_chipAt (Nat.zero_le _)
    have hk : (chipAt gaps (i + 2)).closes w ≤ (chipAt gaps 10).closes w :=
      closes_chipAt (by omega)
    have hstat : (chipAt gaps 10).mem.stat w = (chipAt gaps (i + 2)).mem.stat w :=
      stat_chipAt (by omega) (by omega) hquiet
    exact (byteRead_stat i hi).trans (by rw [hstat])

end Master

/-- The shortest window has closed ten times before the master reads. The close of the next longer
one that comes with the tenth, and samples after it, fall between the reads. -/
def quietGaps : Nat → List (BitVec 16)
  | 0 => (List.replicate 10 (rippleSamples ++ List.replicate 6 0)).flatten
  | _ => [0]

theorem seqlock_quiet :
    (OneWindow 0 (chipAt quietGaps 10).taken fun i => byteRead quietGaps 0 (i + 2)) ∧
      (chipAt quietGaps 0).closes 1 = 0 ∧ (chipAt quietGaps 10).closes 1 = 1 ∧
      (chipAt quietGaps 0).taken.length < (chipAt quietGaps 10).taken.length := by
  have htodo : (chipAt quietGaps 10).todo = [] := by decide +kernel
  refine ⟨seqlock 0 quietGaps (by decide +kernel) (by decide +kernel) (by decide +kernel) ?_,
    by decide +kernel, by decide +kernel, by decide +kernel⟩
  rintro ⟨x, hx, -⟩
  exact List.not_mem_nil (htodo ▸ hx)

/-- Sixteen samples of 100 and their close, sixteen of 200, and the first write of their close
while the master reads. -/
def closingGaps : Nat → List (BitVec 16)
  | 0 => List.replicate 22 100 ++ List.replicate 16 200
  | 2 => [0]
  | _ => []

/-- Before the first close the bytes are no statistics; inside a close they are those of two
windows. -/
theorem not_seqlock :
    (seqRead (fun _ => []) 0 0 = seqRead (fun _ => []) 0 10 ∧
      (chipAt (fun _ => []) 11).closes 0 < (chipAt (fun _ => []) 0).closes 0 + 255 ∧
      ¬OneWindow 0 (chipAt (fun _ => []) 10).taken fun i => byteRead (fun _ => []) 0 (i + 2)) ∧
    seqRead closingGaps 0 0 = seqRead closingGaps 0 10 ∧
      (chipAt closingGaps 11).closes 0 < (chipAt closingGaps 0).closes 0 + 255 ∧
      ¬OneWindow 0 (chipAt closingGaps 10).taken fun i => byteRead closingGaps 0 (i + 2) := by
  refine ⟨⟨rfl, by decide, ?_⟩, by decide +kernel, by decide +kernel, ?_⟩
  · rintro ⟨k, hk, -⟩
    exact absurd (Nat.le_zero.mp hk) (Nat.ne_of_gt (Nat.mul_pos (winLen_pos 0) k.succ_pos))
  · rintro ⟨k, hk, st, hvalues, hbytes⟩
    have htaken : (chipAt closingGaps 10).taken =
        List.replicate 16 100 ++ List.replicate 16 200 := by decide +kernel
    rw [htaken] at hk hvalues
    -- the least sample read is that of the second window, the greatest that of the first
    have hmin : st.min.setWidth 8 = 200 := by
      have hbyte := hbytes 0 (by decide)
      exact hbyte.symm.trans (by decide +kernel)
    have hmax : st.max.setWidth 8 = 100 := by
      have hbyte := hbytes 2 (by decide)
      exact hbyte.symm.trans (by decide +kernel)
    have hk : k = 0 ∨ k = 1 := by
      have hlength : 16 * (k + 1) ≤ 32 := hk
      omega
    rcases hk with rfl | rfl
    · have hleast : st.min.toNat = 100 := congrArg WindowStats.min hvalues
      rw [BitVec.eq_of_toNat_eq (y := 100) hleast] at hmin
      exact absurd hmin (by decide)
    · have hgreatest : st.max.toNat = 200 := congrArg WindowStats.max hvalues
      rw [BitVec.eq_of_toNat_eq (y := 200) hgreatest] at hmax
      exact absurd hmax (by decide)

end SlowBus.Adc
