import SlowBus.Adc.Controller
import SlowBus.Lib.Blocks

/-!
# The sampler of the client

The client has one channel in signal-processing mode. Each sample is folded into three windows, and
a window that is full publishes its statistics and counts up its sequence number.
-/

namespace SlowBus.Adc

open Blocks

/-- The static variables of the sampler; there is one channel. -/
structure ClientSampler where
  latest : BitVec 16
  acc : Fin 3 → AdcAccum
  stat : Fin 3 → AdcStat
  seq : Fin 3 → BitVec 16

/-- What `adc_mode_setup` leaves. -/
def ClientSampler.setup : ClientSampler where
  latest := 0
  acc _ := AdcAccum.zero
  stat _ := { min := 0, max := 0, avg := 0, rms := 0 }
  seq _ := 0

/-- The statistics of a window, with the client's square root. -/
def Client.stat (a : AdcAccum) : AdcStat :=
  a.stat fun v => (Client.isqrt32 v).setWidth 16

/-- `adc_accum`. -/
def ClientSampler.adcAccum (s : ClientSampler) (sample : BitVec 16) : ClientSampler :=
  let v := if 4095 < sample then 4095 else sample
  { s with latest := v, acc := fun w => (s.acc w).fold v }

/-- `adc_snapshot_full`. -/
def ClientSampler.adcSnapshotFull (s : ClientSampler) : ClientSampler where
  latest := s.latest
  acc w := if (s.acc w).count.toNat < winLen w then s.acc w else AdcAccum.zero
  stat w := if (s.acc w).count.toNat < winLen w then s.stat w else Client.stat (s.acc w)
  seq w := if (s.acc w).count.toNat < winLen w then s.seq w else s.seq w + 1

/-- `adc_isr_service` with a finished conversion. -/
def ClientSampler.sample (s : ClientSampler) (v : BitVec 16) : ClientSampler :=
  (s.adcAccum v).adcSnapshotFull

/-- One conversion after the other. -/
def ClientSampler.run (s : ClientSampler) (vs : List (BitVec 16)) : ClientSampler :=
  vs.foldl ClientSampler.sample s

/-! ## A run -/

section Run

variable {vs : List (BitVec 16)} {w : Fin 3}

/-- After a run a window holds the samples since it closed, shows the statistics of the block
before, and has counted the blocks. -/
structure Published (s : ClientSampler) (vs : List (BitVec 16)) (w : Fin 3) : Prop where
  acc : s.acc w = (openBlock (winLen w) vs).foldl AdcAccum.fold AdcAccum.zero
  stat : winLen w ≤ vs.length →
    s.stat w = Client.stat ((lastBlock (winLen w) vs).foldl AdcAccum.fold AdcAccum.zero)
  seq : s.seq w = BitVec.ofNat 16 (vs.length / winLen w)

theorem run_append_one (s : ClientSampler) (vs : List (BitVec 16)) (v : BitVec 16) :
    s.run (vs ++ [v]) = (s.run vs).sample v := by
  rw [ClientSampler.run, List.foldl_append]
  rfl

/-- Samples of 12 bits are not clamped. -/
theorem adcAccum_acc {s : ClientSampler} {v : BitVec 16} (hv : v.toNat ≤ 4095) (w : Fin 3) :
    (s.adcAccum v).acc w = (s.acc w).fold v := by
  have hle : ¬4095 < v := fun hlt => Nat.not_lt.mpr hv (BitVec.lt_def.mp hlt)
  show (s.acc w).fold (if 4095 < v then 4095 else v) = _
  rw [if_neg hle]

theorem foldl_count {xs : List (BitVec 16)} (h : Samples xs) (hlength : xs.length < 2 ^ 16) :
    (xs.foldl AdcAccum.fold AdcAccum.zero).count.toNat = xs.length := by
  rw [(holds_foldl h hlength).count, numbers, List.length_map]

theorem samples_lastBlock (L : Nat) (h : Samples vs) : Samples (lastBlock L vs) :=
  fun x hx => h x (List.mem_of_mem_drop (List.mem_of_mem_take hx))

/-- A sample makes the open block longer. -/
theorem Published.count_fold {s : ClientSampler} {v : BitVec 16} (h : Published s vs w)
    (hsamples : Samples (vs ++ [v])) :
    ((s.acc w).fold v).count.toNat = vs.length % winLen w + 1 := by
  have hmax := winLen_le w
  have hmod := Nat.mod_lt vs.length (winLen_pos w)
  have hblock : Samples (openBlock (winLen w) vs ++ [v]) := by
    intro x hx
    rcases List.mem_append.mp hx with hx | hx
    · exact hsamples x (List.mem_append_left _ (List.mem_of_mem_drop hx))
    · exact hsamples x (List.mem_append_right _ hx)
  have hlength : (openBlock (winLen w) vs ++ [v]).length = vs.length % winLen w + 1 := by
    rw [List.length_append, length_openBlock, List.length_singleton]
  have hcount := foldl_count hblock (by omega)
  rw [List.foldl_append, ← h.acc, hlength] at hcount
  exact hcount

/-- One more sample: it opens, extends or fills the block. -/
theorem Published.step {s : ClientSampler} {v : BitVec 16} (h : Published s vs w)
    (hsamples : Samples (vs ++ [v])) : Published (s.sample v) (vs ++ [v]) w := by
  have hpos := winLen_pos w
  have hmod := Nat.mod_lt vs.length hpos
  have hv := hsamples v (List.mem_append_right _ (List.mem_singleton_self v))
  have hacc : (s.adcAccum v).acc w =
      (openBlock (winLen w) vs ++ [v]).foldl AdcAccum.fold AdcAccum.zero := by
    rw [adcAccum_acc hv, h.acc, List.foldl_append]
    rfl
  have hcount : ((s.adcAccum v).acc w).count.toNat = vs.length % winLen w + 1 := by
    rw [adcAccum_acc hv]
    exact h.count_fold hsamples
  by_cases hfull : vs.length % winLen w + 1 = winLen w
  · have hclose : ¬((s.adcAccum v).acc w).count.toNat < winLen w := by omega
    refine ⟨?_, fun _ => ?_, ?_⟩
    · rw [openBlock_full hpos vs v hfull]
      exact if_neg hclose
    · rw [lastBlock_full hpos vs v hfull, ← hacc]
      exact if_neg hclose
    · rw [length_div_append_one hpos, if_pos hfull]
      refine (if_neg hclose).trans ?_
      show s.seq w + 1 = _
      rw [h.seq, BitVec.ofNat_add]
      rfl
  · have hopen : ((s.adcAccum v).acc w).count.toNat < winLen w := by omega
    refine ⟨?_, fun hclosed => ?_, ?_⟩
    · rw [openBlock_append hpos vs v hfull, ← hacc]
      exact if_pos hopen
    · have hbefore : winLen w ≤ vs.length := by
        rw [List.length_append, List.length_singleton] at hclosed
        by_contra hlt
        rw [Nat.mod_eq_of_lt (Nat.not_le.mp hlt)] at hfull
        omega
      rw [lastBlock_append hpos vs v hfull hbefore, ← h.stat hbefore]
      exact if_pos hopen
    · rw [length_div_append_one hpos, if_neg hfull, Nat.add_zero, ← h.seq]
      exact if_pos hopen

theorem published_run (hsamples : Samples vs) (w : Fin 3) :
    Published (ClientSampler.setup.run vs) vs w := by
  induction vs using List.reverseRecOn with
  | nil =>
      refine ⟨?_, fun hclosed => ?_, ?_⟩
      · rw [openBlock, List.drop_nil]
        rfl
      · exact absurd hclosed (Nat.not_le.mpr (winLen_pos w))
      · rw [List.length_nil, Nat.zero_div]
        rfl
  | append_singleton vs v ih =>
      rw [run_append_one]
      exact (ih fun x hx => hsamples x (List.mem_append_left _ hx)).step hsamples

theorem toNat_isqrt32_word (v : BitVec 32) :
    ((Client.isqrt32 v).setWidth 16).toNat = Nat.sqrt v.toNat := by
  rw [BitVec.toNat_setWidth, Client.toNat_isqrt32, Nat.mod_eq_of_lt (sqrt_lt v)]

/-- A window shows the statistics of its last full block. -/
theorem run_publishes (hsamples : Samples vs) (w : Fin 3) (hclosed : winLen w ≤ vs.length) :
    Publishes ((lastBlock (winLen w) vs).foldl AdcAccum.fold AdcAccum.zero)
      ((ClientSampler.setup.run vs).stat w) (lastBlock (winLen w) vs) := by
  have hpos := winLen_pos w
  have hmax := winLen_le w
  have hlength := length_lastBlock hpos hclosed
  rw [(published_run hsamples w).stat hclosed]
  exact publishes_stat toNat_isqrt32_word (samples_lastBlock (winLen w) hsamples) (by omega)

end Run

/-! ## Both chips -/

theorem values_injective {st st' : AdcStat} (h : st.values = st'.values) : st = st' := by
  obtain ⟨hmin, hmax, havg, hrms⟩ := WindowStats.mk.inj h
  obtain ⟨⟩ := st
  obtain ⟨⟩ := st'
  congr
  · exact BitVec.eq_of_toNat_eq hmin
  · exact BitVec.eq_of_toNat_eq hmax
  · exact BitVec.eq_of_toNat_eq havg
  · exact BitVec.eq_of_toNat_eq hrms

/-- Both square roots are right for every number, both chips publish the statistics of their
windows, and they publish the same for the same samples. -/
theorem chips_publish (v : BitVec 32) (s : Sampler) (w : Fin 3) (xs : Fin 3 → List (BitVec 16))
    (vs : List (BitVec 16))
    (hfold : ∀ ch, s.winAcc ch w = (xs ch).foldl AdcAccum.fold AdcAccum.zero)
    (hsamples : ∀ ch, Samples (xs ch))
    (hlength : ∀ ch, 1 ≤ (xs ch).length ∧ (xs ch).length ≤ 1600)
    (hvs : Samples vs) (hclosed : winLen w ≤ vs.length) :
    ((Controller.isqrt32 v).toNat = Nat.sqrt v.toNat ∧
        (Client.isqrt32 v).toNat = Nat.sqrt v.toNat) ∧
      (∀ ch, Publishes (s.winAcc ch w) ((s.adcWinClose w).winStat ch w) (xs ch)) ∧
      ((lastBlock (winLen w) vs).length = winLen w ∧
        Publishes ((lastBlock (winLen w) vs).foldl AdcAccum.fold AdcAccum.zero)
          ((ClientSampler.setup.run vs).stat w) (lastBlock (winLen w) vs)) ∧
      ∀ ch, xs ch = lastBlock (winLen w) vs →
        (s.adcWinClose w).winStat ch w = (ClientSampler.setup.run vs).stat w := by
  have hcontroller (ch : Fin 3) :
      Publishes (s.winAcc ch w) ((s.adcWinClose w).winStat ch w) (xs ch) :=
    adcWinClose_publishes hfold hsamples
      (fun ch => ⟨(hlength ch).1, Nat.lt_of_le_of_lt (hlength ch).2 (by decide)⟩) ch
  have hclient := run_publishes hvs w hclosed
  refine ⟨⟨Controller.toNat_isqrt32 v, Client.toNat_isqrt32 v⟩, hcontroller,
    ⟨length_lastBlock (winLen_pos w) hclosed, hclient⟩, fun ch hsame => values_injective ?_⟩
  rw [(hcontroller ch).values, hclient.values, hsame]

/-- Sixteen samples around a level. -/
def rippleSamples : List (BitVec 16) := (List.replicate 4 [100, 90, 100, 114]).flatten

/-- The controller's three channels about to close their windows on these samples. -/
def rippleSampler : Sampler :=
  { Sampler.init with winAcc := fun _ _ => rippleSamples.foldl AdcAccum.fold AdcAccum.zero }

theorem chips_publish_ripple :
    Publishes (rippleSamples.foldl AdcAccum.fold AdcAccum.zero)
      ((ClientSampler.setup.run rippleSamples).stat 0) rippleSamples ∧
    (rippleSampler.adcWinClose 0).winStat 1 0 = (ClientSampler.setup.run rippleSamples).stat 0 ∧
    ((ClientSampler.setup.run rippleSamples).stat 0).values =
      { min := 90, max := 114, avg := 101, rms := 8 } := by
  have hall : rippleSamples.all (·.toNat ≤ 4095) := by decide +kernel
  have hsamples : Samples rippleSamples :=
    fun x hx => of_decide_eq_true (List.all_eq_true.mp hall x hx)
  have hblock : lastBlock (winLen 0) rippleSamples = rippleSamples := by decide +kernel
  obtain ⟨-, -, ⟨-, hpublishes⟩, hsame⟩ := chips_publish 7 rippleSampler
    0 (fun _ => rippleSamples) rippleSamples (fun _ => rfl) (fun _ => hsamples)
    (fun _ => by decide) hsamples (by decide)
  rw [hblock] at hpublishes
  have hstats : windowStats (numbers rippleSamples) =
      { min := 90, max := 114, avg := 101, rms := 8 } := by decide +kernel
  exact ⟨hpublishes, hsame 1 hblock.symm, hpublishes.values.trans hstats⟩

end SlowBus.Adc
