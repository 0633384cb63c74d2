import SlowBus.Adc.Controller
import Mathlib.Data.List.Infix

/-!
# The windows of the three channels

The channels of a round are told apart by counting, and the windows of a tier close when that of
the first channel is full. An overrun starts a new round, but keeps what the broken round has
folded into the windows. If every overrun is found at the end of a round, the channels stay level.
-/

namespace SlowBus.Adc

/-- Every window closes with as many samples of each channel as it is long. -/
def EqualCounts (log : List AdcEvent) : Prop :=
  ∀ w counts, .close w counts ∈ log → ∀ ch, counts ch = winLen w

/-- Each sample goes to the channel at its place in the round; `n` samples were taken since the
converter started at the first channel. -/
def InOrder : Nat → List AdcEvent → Prop
  | _, [] => True
  | n, .fold ch _ :: log => ch.val = n % 3 ∧ InOrder (n + 1) log
  | n, .close _ _ :: log => InOrder n log
  | _, .resync :: log => InOrder 0 log

/-- The samples of some interrupts. -/
def drained (irqs : List FifoIrq) : Nat := (irqs.map fun irq => irq.samples.length).sum

/-- Every overrun is found at the end of a round. -/
def Aligned (irqs : List FifoIrq) : Prop :=
  ∀ before irq, before ++ [irq] <+: irqs → irq.overrun = true → drained (before ++ [irq]) % 3 = 0

section Order

variable {n : Nat} {s : Sampler}

/-- The samples since the converter started, after some events. -/
def sinceResync : Nat → List AdcEvent → Nat
  | n, [] => n
  | n, .fold _ _ :: log => sinceResync (n + 1) log
  | n, .close _ _ :: log => sinceResync n log
  | _, .resync :: log => sinceResync 0 log

theorem inOrder_append (n : Nat) (log log' : List AdcEvent) :
    InOrder n (log ++ log') ↔ InOrder n log ∧ InOrder (sinceResync n log) log' := by
  induction log generalizing n with
  | nil => exact (iff_of_eq (true_and _)).symm
  | cons event log ih =>
      cases event with
      | fold ch raw => exact (and_congr_right' (ih (n + 1))).trans and_assoc.symm
      | close w counts => exact ih n
      | resync => exact ih 0

theorem sinceResync_append (n : Nat) (log log' : List AdcEvent) :
    sinceResync n (log ++ log') = sinceResync (sinceResync n log) log' := by
  induction log generalizing n with
  | nil => rfl
  | cons event log ih =>
      cases event with
      | fold ch raw => exact ih (n + 1)
      | close w counts => exact ih n
      | resync => exact ih 0

/-- An event log in order, from a place in the round to another. -/
def Moves (s : Sampler) (r : Sampler × List AdcEvent) : Prop :=
  ∀ n, s.phase.val = n % 3 →
    InOrder n r.2 ∧ r.1.phase.val = sinceResync n r.2 % 3

theorem Moves.trans {r r' : Sampler × List AdcEvent} (h : Moves s r) (h' : Moves r.1 r') :
    Moves s (r'.1, r.2 ++ r'.2) := by
  intro n hn
  obtain ⟨horder, hphase⟩ := h n hn
  obtain ⟨horder', hphase'⟩ := h' _ hphase
  rw [inOrder_append, sinceResync_append]
  exact ⟨⟨horder, horder'⟩, hphase'⟩

end Order

/-! ## One sample -/

section Sample

variable {s : Sampler}

/-- The windows of every tier are level before the round is at its end: the channels that had
their turn are one ahead. -/
def Level (s : Sampler) : Prop :=
  ∀ w, ∃ r < winLen w, ∀ ch,
    (s.winAcc ch w).count.toNat = r + if ch < s.phase then 1 else 0

/-- What closing the full windows does. -/
structure Closes (s : Sampler) (ws : List (Fin 3)) (r : Sampler × List AdcEvent) : Prop where
  phase : r.1.phase = s.phase
  acc : ∀ ch w, r.1.winAcc ch w =
    if w ∈ ws ∧ winLen w ≤ (s.winAcc 0 w).count.toNat then AdcAccum.zero else s.winAcc ch w
  log : ∀ event ∈ r.2, ∃ w, winLen w ≤ (s.winAcc 0 w).count.toNat ∧
    event = .close w fun ch => (s.winAcc ch w).count.toNat

theorem adcWinClose_acc (s : Sampler) (w ch w' : Fin 3) :
    (s.adcWinClose w).winAcc ch w' = if w' = w then AdcAccum.zero else s.winAcc ch w' := rfl

theorem closeFull_closes (s : Sampler) (ws : List (Fin 3)) : Closes s ws (s.closeFull ws) := by
  induction ws generalizing s with
  | nil =>
      refine ⟨rfl, fun ch w => ?_, fun event h => absurd h List.not_mem_nil⟩
      rw [if_neg fun h => List.not_mem_nil h.1]
      rfl
  | cons w ws ih =>
      rw [Sampler.closeFull]
      split_ifs with hfull
      · have ih := ih (s.adcWinClose w)
        refine ⟨ih.phase, fun ch w' => ?_, fun event hevent => ?_⟩
        · rw [ih.acc ch w', adcWinClose_acc, adcWinClose_acc]
          by_cases hw : w' = w
          · subst hw
            simp only [if_true, ite_self]
            rw [if_pos ⟨List.mem_cons_self, hfull⟩]
          · simp only [hw, if_false, List.mem_cons, false_or]
        · rcases List.mem_cons.mp hevent with rfl | hevent
          · exact ⟨w, hfull, rfl⟩
          · obtain ⟨w', hw', rfl⟩ := ih.log event hevent
            simp only [adcWinClose_acc] at hw' ⊢
            by_cases hw : w' = w
            · -- an empty window is not full
              rw [if_pos hw] at hw'
              exact absurd (winLen_pos w') (Nat.not_lt.mpr hw')
            · simp only [hw, if_false] at hw' ⊢
              exact ⟨w', hw', rfl⟩
      · have ih := ih s
        refine ⟨ih.phase, fun ch w' => ?_, ih.log⟩
        rw [ih.acc ch w']
        by_cases hw : w' = w
        · subst hw
          rw [if_neg fun h => hfull h.2, if_neg fun h => hfull h.2]
        · simp only [List.mem_cons, hw, false_or]

theorem Closes.inOrder {ws : List (Fin 3)} {r : Sampler × List AdcEvent} (h : Closes s ws r)
    (n : Nat) : InOrder n r.2 ∧ sinceResync n r.2 = n := by
  have hlog := h.log
  generalize r.2 = log at hlog
  induction log with
  | nil => exact ⟨trivial, rfl⟩
  | cons event log ih =>
      obtain ⟨w, -, rfl⟩ := hlog event List.mem_cons_self
      exact ih fun event hevent => hlog event (List.mem_cons_of_mem _ hevent)

/-- What the loop body folds, before it looks at the place in the round. -/
def Sampler.folded (s : Sampler) (sample : BitVec 16) : Sampler :=
  (s.decimate (sample &&& 0x0FFF)).foldRaw (sample &&& 0x0FFF)

theorem decimate_frame (s : Sampler) (raw : BitVec 16) :
    (s.decimate raw).phase = s.phase ∧ (s.decimate raw).winAcc = s.winAcc := by
  unfold Sampler.decimate
  dsimp only
  split_ifs <;> exact ⟨rfl, rfl⟩

theorem folded_acc (s : Sampler) (sample : BitVec 16) (ch w : Fin 3) :
    (s.folded sample).winAcc ch w =
      if ch = s.phase then (s.winAcc ch w).fold (sample &&& 0x0FFF) else s.winAcc ch w := by
  obtain ⟨hphase, hacc⟩ := decimate_frame s (sample &&& 0x0FFF)
  show (if ch = (s.decimate (sample &&& 0x0FFF)).phase then
    ((s.decimate (sample &&& 0x0FFF)).winAcc ch w).fold _ else _) = _
  rw [hphase, hacc]

theorem drain_last (sample : BitVec 16) (h : s.phase = 2) :
    s.drain sample =
      ((({ s.folded sample with phase := 0 } : Sampler).closeFull [0, 1, 2]).1,
        .fold s.phase (sample &&& 0x0FFF) ::
          (({ s.folded sample with phase := 0 } : Sampler).closeFull [0, 1, 2]).2) := if_pos h

theorem drain_inner (sample : BitVec 16) (h : s.phase ≠ 2) :
    s.drain sample = ({ s.folded sample with phase := s.phase + 1 },
      [.fold s.phase (sample &&& 0x0FFF)]) := if_neg h

theorem mem_tiers (w : Fin 3) : w ∈ [0, 1, 2] := by
  revert w
  decide

theorem drain_phase (s : Sampler) (sample : BitVec 16) :
    (s.drain sample).1.phase.val = (s.phase.val + 1) % 3 := by
  by_cases hlast : s.phase = 2
  · rw [drain_last sample hlast, (closeFull_closes _ _).phase, hlast]
    rfl
  · rw [drain_inner sample hlast]
    exact Fin.val_add s.phase 1

/-- The sample goes to the channel whose turn it is. -/
theorem drain_moves (s : Sampler) (sample : BitVec 16) : Moves s (s.drain sample) := by
  intro n hn
  have hphase := drain_phase s sample
  by_cases hlast : s.phase = 2
  · obtain ⟨horder, hsince⟩ :=
      (closeFull_closes { s.folded sample with phase := 0 } [0, 1, 2]).inOrder (n + 1)
    rw [drain_last sample hlast] at hphase ⊢
    refine ⟨⟨hn, horder⟩, hphase.trans ?_⟩
    rw [sinceResync, hsince, hn, Nat.mod_add_mod]
  · rw [drain_inner sample hlast] at hphase ⊢
    refine ⟨⟨hn, trivial⟩, hphase.trans ?_⟩
    rw [hn, Nat.mod_add_mod]
    rfl

/-- The channel whose turn it is draws one ahead. -/
theorem folded_count {w : Fin 3} {r : Nat} (sample : BitVec 16) (hr : r < winLen w)
    (h : ∀ ch, (s.winAcc ch w).count.toNat = r + if ch < s.phase then 1 else 0) (ch : Fin 3) :
    ((s.folded sample).winAcc ch w).count.toNat = r + if ch ≤ s.phase then 1 else 0 := by
  have hmax := winLen_le w
  have hch := h ch
  rw [folded_acc]
  by_cases hturn : ch = s.phase
  · rw [if_neg (not_lt.mpr hturn.ge), Nat.add_zero] at hch
    rw [if_pos hturn, if_pos hturn.le]
    show ((s.winAcc ch w).count + 1).toNat = _
    rw [BitVec.toNat_add_of_lt (by rw [hch]; show r + 1 < 2 ^ 16; omega), hch]
    rfl
  · rw [if_neg hturn, hch]
    simp only [le_iff_lt_or_eq, hturn, or_false]

theorem drain_level (h : Level s) (sample : BitVec 16) :
    Level (s.drain sample).1 ∧ EqualCounts (s.drain sample).2 := by
  by_cases hlast : s.phase = 2
  · -- the round is at its end, and all channels are one ahead
    have hcloses := closeFull_closes { s.folded sample with phase := 0 } [0, 1, 2]
    have heven (w : Fin 3) : ∃ r < winLen w, ∀ ch,
        ((s.folded sample).winAcc ch w).count.toNat = r + 1 := by
      obtain ⟨r, hr, hch⟩ := h w
      refine ⟨r, hr, fun ch => ?_⟩
      rw [folded_count sample hr hch, if_pos (hlast ▸ Fin.le_last ch)]
    rw [drain_last sample hlast]
    refine ⟨fun w => ?_, fun w counts hclose ch => ?_⟩
    · obtain ⟨r, hr, hch⟩ := heven w
      have hphase : ∀ ch : Fin 3,
          ¬ch < (({ s.folded sample with phase := 0 } : Sampler).closeFull [0, 1, 2]).1.phase := by
        intro ch
        rw [hcloses.phase]
        exact Fin.not_lt_zero ch
      by_cases hfull : winLen w ≤ r + 1
      · refine ⟨0, winLen_pos w, fun ch => ?_⟩
        rw [hcloses.acc, if_pos ⟨mem_tiers w, (hch 0).symm ▸ hfull⟩, if_neg (hphase ch)]
        rfl
      · refine ⟨r + 1, Nat.not_le.mp hfull, fun ch => ?_⟩
        rw [hcloses.acc, if_neg fun hc => hfull ((hch 0).symm ▸ hc.2), if_neg (hphase ch)]
        exact hch ch
    · rcases List.mem_cons.mp hclose with heq | hmem
      · cases heq
      · obtain ⟨w', hfull, heq⟩ := hcloses.log _ hmem
        obtain ⟨r, hr, hch⟩ := heven w'
        cases heq
        have hzero := hch 0
        have hfull : winLen w ≤ r + 1 := hzero ▸ hfull
        exact (hch ch).trans (by omega)
  -- inside a round no window closes
  · rw [drain_inner sample hlast]
    refine ⟨fun w => ?_, fun w counts hclose => ?_⟩
    · obtain ⟨r, hr, hch⟩ := h w
      refine ⟨r, hr, fun ch => ?_⟩
      have hne : s.phase.val ≠ 2 := fun h => hlast (Fin.ext h)
      have hnext : ch < s.phase + 1 ↔ ch ≤ s.phase := by
        rw [Fin.lt_def, Fin.le_def, Fin.val_add]
        show ch.val < (s.phase.val + 1) % 3 ↔ _
        omega
      refine (folded_count sample hr hch ch).trans ?_
      simp only [hnext]
    · rw [List.mem_singleton] at hclose
      cases hclose

end Sample

/-! ## Interrupts -/

section Interrupts

variable {s : Sampler}

theorem drainAll_moves (s : Sampler) (samples : List (BitVec 16)) :
    Moves s (s.drainAll samples) := by
  induction samples generalizing s with
  | nil => exact fun n hn => ⟨trivial, hn⟩
  | cons sample samples ih => exact (drain_moves s sample).trans (ih _)

theorem adcFifoIsr_moves (s : Sampler) (irq : FifoIrq) : Moves s (s.adcFifoIsr irq) := by
  have hdrain := drainAll_moves s irq.samples
  rw [Sampler.adcFifoIsr]
  split
  · have hresync : Moves (s.drainAll irq.samples).1
        ((s.drainAll irq.samples).1.resync, [.resync]) := fun n hn => ⟨trivial, rfl⟩
    exact hdrain.trans hresync
  · exact hdrain

theorem run_moves (s : Sampler) (irqs : List FifoIrq) : Moves s (s.run irqs) := by
  induction irqs generalizing s with
  | nil => exact fun n hn => ⟨trivial, hn⟩
  | cons irq irqs ih => exact (adcFifoIsr_moves s irq).trans (ih _)

theorem equalCounts_append {log log' : List AdcEvent} (h : EqualCounts log)
    (h' : EqualCounts log') : EqualCounts (log ++ log') := fun w counts hclose =>
  (List.mem_append.mp hclose).elim (h w counts) (h' w counts)

theorem drainAll_level (h : Level s) (samples : List (BitVec 16)) :
    Level (s.drainAll samples).1 ∧ EqualCounts (s.drainAll samples).2 ∧
      (s.drainAll samples).1.phase.val = (s.phase.val + samples.length) % 3 := by
  induction samples generalizing s with
  | nil =>
      exact ⟨h, fun w counts hclose => absurd hclose List.not_mem_nil,
        (Nat.mod_eq_of_lt s.phase.isLt).symm⟩
  | cons sample samples ih =>
      obtain ⟨hlevel, hcounts⟩ := drain_level h sample
      obtain ⟨hlevel', hcounts', hphase⟩ := ih hlevel
      refine ⟨hlevel', equalCounts_append hcounts hcounts', hphase.trans ?_⟩
      rw [drain_phase, Nat.mod_add_mod, List.length_cons, Nat.add_assoc, Nat.add_comm 1]

/-- An overrun at the end of a round does not touch the windows. -/
theorem adcFifoIsr_level (h : Level s) (irq : FifoIrq)
    (hover : irq.overrun = true → (s.phase.val + irq.samples.length) % 3 = 0) :
    Level (s.adcFifoIsr irq).1 ∧ EqualCounts (s.adcFifoIsr irq).2 ∧
      (s.adcFifoIsr irq).1.phase.val = (s.phase.val + irq.samples.length) % 3 := by
  obtain ⟨hlevel, hcounts, hphase⟩ := drainAll_level h irq.samples
  rw [Sampler.adcFifoIsr]
  split
  next hirq =>
    have hzero : (s.drainAll irq.samples).1.phase = 0 := Fin.ext (hphase.trans (hover hirq))
    refine ⟨fun w => ?_, equalCounts_append hcounts fun w counts hclose => ?_, (hover hirq).symm⟩
    · obtain ⟨r, hr, hch⟩ := hlevel w
      rw [hzero] at hch
      exact ⟨r, hr, hch⟩
    · cases List.mem_singleton.mp hclose
  next => exact ⟨hlevel, hcounts, hphase⟩

theorem drained_cons (irq : FifoIrq) (irqs : List FifoIrq) :
    drained (irq :: irqs) = irq.samples.length + drained irqs := rfl

/-- The overruns of a run that starts inside a round. -/
def AlignedFrom (n : Nat) (irqs : List FifoIrq) : Prop :=
  ∀ before irq, before ++ [irq] <+: irqs → irq.overrun = true →
    (n + drained (before ++ [irq])) % 3 = 0

theorem run_level {irqs : List FifoIrq} (h : Level s) (haligned : AlignedFrom s.phase.val irqs) :
    EqualCounts (s.run irqs).2 := by
  induction irqs generalizing s with
  | nil => exact fun w counts hclose => absurd hclose List.not_mem_nil
  | cons irq irqs ih =>
      have hfirst (hirq : irq.overrun = true) : (s.phase.val + irq.samples.length) % 3 = 0 :=
        haligned [] irq (List.prefix_append [irq] irqs) hirq
      obtain ⟨hlevel, hcounts, hphase⟩ := adcFifoIsr_level h irq hfirst
      refine equalCounts_append hcounts (ih hlevel fun before irq' hprefix hirq' => ?_)
      have hsum := haligned (irq :: before) irq' ((List.cons_prefix_cons).mpr ⟨rfl, hprefix⟩) hirq'
      rw [List.cons_append, drained_cons] at hsum
      rw [hphase, Nat.mod_add_mod, Nat.add_assoc]
      exact hsum

theorem level_init : Level Sampler.init := fun w => ⟨0, winLen_pos w, fun _ => rfl⟩

end Interrupts

/-- Every sample goes to the channel at its place in the round; if every overrun is found at the
end of a round, the windows close with equal counts. -/
theorem run_aligned (irqs : List FifoIrq) (h : Aligned irqs) :
    EqualCounts (Sampler.init.run irqs).2 ∧ InOrder 0 (Sampler.init.run irqs).2 := by
  refine ⟨run_level level_init fun before irq hprefix hirq => ?_, (run_moves _ irqs 0 rfl).1⟩
  exact (Nat.zero_add _).symm ▸ h before irq hprefix hirq

/-- The windows that close, with the counts of the channels. -/
def closings (log : List AdcEvent) : List (Fin 3 × List Nat) :=
  log.filterMap fun
    | .close w counts => some (w, [counts 0, counts 1, counts 2])
    | _ => none

/-- An overrun after a whole round, and fifteen rounds more. -/
def overrunAfterRound : List FifoIrq :=
  ⟨[10, 20, 30], true⟩ :: List.replicate 15 ⟨[10, 20, 30], false⟩

theorem run_aligned_overrun :
    (EqualCounts (Sampler.init.run overrunAfterRound).2 ∧
      InOrder 0 (Sampler.init.run overrunAfterRound).2) ∧
      closings (Sampler.init.run overrunAfterRound).2 = [(0, [16, 16, 16])] := by
  refine ⟨run_aligned _ fun before irq hprefix hirq => ?_, by decide +kernel⟩
  obtain ⟨tail, heq⟩ := hprefix
  cases before with
  | nil =>
      cases heq
      rfl
  | cons first before =>
      obtain ⟨-, hrest⟩ := List.cons.inj heq
      have hmem : irq ∈ List.replicate 15 (⟨[10, 20, 30], false⟩ : FifoIrq) := by
        have hlast : irq ∈ (before ++ [irq]) ++ tail :=
          List.mem_append_left _ (List.mem_append_right _ List.mem_cons_self)
        exact hrest ▸ hlast
      rw [List.eq_of_mem_replicate hmem] at hirq
      cases hirq

/-- A full queue of eight samples that ran over, and thirteen rounds. -/
def overrunInRound : List FifoIrq :=
  ⟨List.replicate 8 0, true⟩ :: List.replicate 13 ⟨List.replicate 3 0, false⟩

/-- They close the shortest window with 16, 16 and 15 samples. -/
theorem not_run_equalCounts : ¬EqualCounts (Sampler.init.run overrunInRound).2 := by
  intro h
  have hclosings : closings (Sampler.init.run overrunInRound).2 = [(0, [16, 16, 15])] := by
    decide +kernel
  have hmem : (0, [16, 16, 15]) ∈ closings (Sampler.init.run overrunInRound).2 :=
    hclosings ▸ List.mem_singleton_self _
  obtain ⟨event, hevent, hcounts⟩ := List.mem_filterMap.mp hmem
  cases event with
  | close w counts =>
      obtain ⟨hw, hlist⟩ := Prod.mk.inj (Option.some.inj hcounts)
      have hthird : counts 2 = 15 := (List.cons.inj (List.cons.inj (List.cons.inj hlist).2).2).1
      have hlength := h w counts hevent 2
      rw [hthird, hw] at hlength
      cases hlength
  | fold ch raw => cases hcounts
  | resync => cases hcounts

end SlowBus.Adc
