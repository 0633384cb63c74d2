import SlowBus.Adc.Statistics

/-!
# The sampler of the bus controller

The converter goes round three channels and fills one queue. The interrupt drains the queue,
tells the channels apart by counting, and folds each sample into the windows of its channel. All
windows of a tier close together at the end of a round.
-/

namespace SlowBus.Adc

/-- There are three channels and three tiers. -/
instance neZeroThree : NeZero 3 := ⟨by decide⟩

/-- `g_adc_win_len`. -/
def winLen (w : Fin 3) : Nat := if w = 0 then 16 else if w = 1 then 160 else 1600

theorem winLen_pos (w : Fin 3) : 0 < winLen w := by
  revert w
  decide

theorem winLen_le (w : Fin 3) : winLen w ≤ 1600 := by
  revert w
  decide

/-- The static variables of the sampler. -/
structure Sampler where
  latest : Fin 3 → BitVec 16
  decimCount : BitVec 32
  resyncs : BitVec 32
  acc : Fin 3 → BitVec 32
  accN : Fin 3 → BitVec 16
  phase : Fin 3
  winAcc : Fin 3 → Fin 3 → AdcAccum
  winStat : Fin 3 → Fin 3 → AdcStat
  winSeq : Fin 3 → BitVec 16

/-- The sampler after reset. -/
def Sampler.init : Sampler where
  latest _ := 0
  decimCount := 0
  resyncs := 0
  acc _ := 0
  accN _ := 0
  phase := 0
  winAcc _ _ := AdcAccum.zero
  winStat _ _ := { min := 0, max := 0, avg := 0, rms := 0 }
  winSeq _ := 0

/-- `adc_win_close`. -/
def Sampler.adcWinClose (s : Sampler) (w : Fin 3) : Sampler where
  latest := s.latest
  decimCount := s.decimCount
  resyncs := s.resyncs
  acc := s.acc
  accN := s.accN
  phase := s.phase
  winAcc ch w' := if w' = w then AdcAccum.zero else s.winAcc ch w'
  winStat ch w' := if w' = w then (s.winAcc ch w).stat Controller.isqrt32 else s.winStat ch w'
  winSeq w' := if w' = w then s.winSeq w + 1 else s.winSeq w'

/-- Stage A: the boxcar average of sixteen samples of a channel. -/
def Sampler.decimate (s : Sampler) (raw : BitVec 16) : Sampler :=
  let sum := s.acc s.phase + raw.setWidth 32
  let n := s.accN s.phase + 1
  if 16 ≤ n then
    { s with
      latest := Function.update s.latest s.phase ((sum / 16).setWidth 16)
      acc := Function.update s.acc s.phase 0
      accN := Function.update s.accN s.phase 0
      decimCount := if s.phase = 2 then s.decimCount + 1 else s.decimCount }
  else
    { s with
      acc := Function.update s.acc s.phase sum
      accN := Function.update s.accN s.phase n }

/-- Stage B: the raw sample goes into every window of its channel. -/
def Sampler.foldRaw (s : Sampler) (raw : BitVec 16) : Sampler :=
  { s with winAcc := fun ch w => if ch = s.phase then (s.winAcc ch w).fold raw else s.winAcc ch w }

/-- What an interrupt does, in order. -/
inductive AdcEvent where
  | fold (ch : Fin 3) (raw : BitVec 16)
  | close (w : Fin 3) (counts : Fin 3 → Nat)
  | resync

/-- Full windows are closed. -/
def Sampler.closeFull (s : Sampler) : List (Fin 3) → Sampler × List AdcEvent
  | [] => (s, [])
  | w :: ws =>
      if winLen w ≤ (s.winAcc 0 w).count.toNat then
        let r := (s.adcWinClose w).closeFull ws
        (r.1, .close w (fun ch => (s.winAcc ch w).count.toNat) :: r.2)
      else s.closeFull ws

/-- The loop body: one sample is taken from the queue. -/
def Sampler.drain (s : Sampler) (sample : BitVec 16) : Sampler × List AdcEvent :=
  let raw := sample &&& 0x0FFF
  let t := (s.decimate raw).foldRaw raw
  if s.phase = 2 then
    let r := { t with phase := 0 }.closeFull [0, 1, 2]
    (r.1, .fold s.phase raw :: r.2)
  else ({ t with phase := s.phase + 1 }, [.fold s.phase raw])

/-- The queue is drained. -/
def Sampler.drainAll (s : Sampler) : List (BitVec 16) → Sampler × List AdcEvent
  | [] => (s, [])
  | raw :: raws =>
      let r := s.drain raw
      let r' := r.1.drainAll raws
      (r'.1, r.2 ++ r'.2)

/-- Samples were lost: the converter starts again at the first channel. -/
def Sampler.resync (s : Sampler) : Sampler :=
  { s with acc := fun _ => 0, accN := fun _ => 0, phase := 0, resyncs := s.resyncs + 1 }

/-- What an interrupt finds: the samples in the queue, and whether it ran over. -/
structure FifoIrq where
  samples : List (BitVec 16)
  overrun : Bool

/-- `adc_fifo_isr`. -/
def Sampler.adcFifoIsr (s : Sampler) (irq : FifoIrq) : Sampler × List AdcEvent :=
  let r := s.drainAll irq.samples
  if irq.overrun then (r.1.resync, r.2 ++ [.resync]) else r

/-- One interrupt after the other. -/
def Sampler.run (s : Sampler) : List FifoIrq → Sampler × List AdcEvent
  | [] => (s, [])
  | irq :: irqs =>
      let r := s.adcFifoIsr irq
      let r' := r.1.run irqs
      (r'.1, r.2 ++ r'.2)

/-! ## A window that closes -/

/-- All channels publish the statistics of what was folded into their windows. -/
theorem adcWinClose_publishes {s : Sampler} {w : Fin 3} {xs : Fin 3 → List (BitVec 16)}
    (hfold : ∀ ch, s.winAcc ch w = (xs ch).foldl AdcAccum.fold AdcAccum.zero)
    (hsamples : ∀ ch, Samples (xs ch))
    (hlength : ∀ ch, 1 ≤ (xs ch).length ∧ (xs ch).length < 2 ^ 16) (ch : Fin 3) :
    Publishes (s.winAcc ch w) ((s.adcWinClose w).winStat ch w) (xs ch) := by
  show Publishes _ (if w = w then (s.winAcc ch w).stat Controller.isqrt32 else s.winStat ch w) _
  rw [if_pos rfl, hfold]
  exact publishes_stat Controller.toNat_isqrt32 (hsamples ch) (hlength ch)

end SlowBus.Adc
