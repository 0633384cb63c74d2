import SlowBus.Config.Service
import SlowBus.Lib.Runs

/-!
# The waveform command

`CMD_DAC_WAVEFORM_WRITE` plays a tone for some milliseconds. The interrupt of the tone
clock sends the converter a sample and counts the time down in interrupts, 48 to the
millisecond; a count of zero plays on for ever. The mode that follows an input uses the
same clock and takes all of its interrupts.
-/

namespace SlowBus.Modes

open Bus (Byte)
open Config (ShellStatus)
open Runs (run)

local instance tones_neZero : NeZero 2 := ⟨by decide⟩

def dacFsHz : BitVec 32 := 48000
def dacWfFreqMin : BitVec 32 := 50
def dacWfFreqMax : BitVec 32 := 2000

def dacToneOff : Byte := 0
def dacToneConst : Byte := 1
def dacToneSine : Byte := 2
def dacToneSquare : Byte := 3

/-- `g_sine_lut` -/
def sineLut : Vector Nat 64 := #v[
  512, 562, 612, 660, 708, 753, 796, 836, 873, 907, 937, 963, 984, 1001, 1013, 1021,
  1023, 1021, 1013, 1001, 984, 963, 937, 907, 873, 836, 796, 753, 708, 660, 612, 562,
  512, 462, 412, 364, 316, 271, 228, 188, 151, 117, 87, 61, 40, 23, 11, 3,
  1, 3, 11, 23, 40, 61, 87, 117, 151, 188, 228, 271, 316, 364, 412, 462]

/-- `dds_tone_sample`. No term leaves 32 bits, whatever the amplitude. -/
def ddsToneSample (type : Byte) (ph : BitVec 32) (amp : BitVec 16) : Int :=
  if type = dacToneConst then amp.toNat
  else if type = dacToneSine then
    (((sineLut.get (ph.extractLsb' 26 6).toFin : Int) - 512) * amp.toNat) >>> (9 : Nat)
  else if type = dacToneSquare then (if ph.msb then amp.toNat else -amp.toNat)
  else 0

structure Tone where
  type : Byte := dacToneOff
  amp : BitVec 16 := 0
  inc : BitVec 32 := 0
  ph : BitVec 32 := 0
  deriving DecidableEq

/-- `g_dds` -/
structure Dds where
  active : Bool := false
  tone : Fin 2 → Tone := fun _ => {}
  offset : BitVec 16 := 0
  /-- Zero plays on. -/
  isrsRemaining : BitVec 32 := 0

/-- TC3, and the two that it may drive. -/
structure ToneClock where
  running : Bool := false
  dds : Dds := {}
  /-- `g_dac_follow.active` -/
  follow : Bool := false

/-! ## The interrupt -/

def Tone.advance (t : Tone) : Tone :=
  if t.type = dacToneOff then t else { t with ph := t.ph + t.inc }

def Tone.sample (t : Tone) : Int :=
  if t.type = dacToneOff then 0 else ddsToneSample t.type t.ph t.amp

def clipSample (sample : Int) : Int :=
  let sample := if sample < 0 then 0 else sample
  if 1023 < sample then 1023 else sample

def Dds.advance (d : Dds) : Dds := { d with tone := fun t => (d.tone t).advance }

def Dds.sample (d : Dds) : Int :=
  clipSample (d.offset.toInt + (d.tone 0).sample + (d.tone 1).sample)

/-- `dac_follow_step`, by what the converter has ready. -/
def dacFollowStep (result : Option (BitVec 16)) : Option Int :=
  result.map fun v : BitVec 16 => ((v >>> 2).toNat : Int)

/-- `TC3_Handler`: the clock after it, and what it writes to the DAC. -/
def ToneClock.tc3Handler (c : ToneClock) (result : Option (BitVec 16)) :
    ToneClock × Option Int :=
  if c.follow then (c, dacFollowStep result)
  else if c.dds.active then
    let dds := c.dds.advance
    let sample := some dds.sample
    if dds.isrsRemaining ≠ 0 then
      let left := dds.isrsRemaining - 1
      if left = 0 then
        -- `tc3_stop`
        ({ c with running := false, dds := { dds with isrsRemaining := left, active := false } },
          sample)
      else ({ c with dds := { dds with isrsRemaining := left } }, sample)
    else ({ c with dds }, sample)
  else (c, none)

/-- One interrupt of the clock, if it runs. -/
def ToneClock.interrupt (c : ToneClock) (result : Option (BitVec 16)) : ToneClock × Option Int :=
  if c.running then c.tc3Handler result else (c, none)

def ToneClock.next (c : ToneClock) (result : Option (BitVec 16)) : ToneClock :=
  (c.interrupt result).1

/-! ## The command -/

structure WaveformArgs where
  waveform : Byte
  amplitude : BitVec 16
  offset : BitVec 16
  frequency : BitVec 32
  durationMs : BitVec 32
  deriving DecidableEq

/-- The arguments, if nothing is missing and nothing is left. -/
def readWaveform : List Byte → Option WaveformArgs
  | [wf, a0, a1, o0, o1, f0, f1, f2, f3, d0, d1, d2, d3] =>
      some {
        waveform := wf
        amplitude := a1 ++ a0
        offset := o1 ++ o0
        frequency := (f3 ++ f2 ++ f1 ++ f0 : BitVec 32)
        durationMs := (d3 ++ d2 ++ d1 ++ d0 : BitVec 32) }
  | _ => none

/-- The arguments are in range. -/
def WaveformArgs.Accepted (a : WaveformArgs) : Prop :=
  (dacToneConst ≤ a.waveform ∧ a.waveform ≤ dacToneSquare) ∧
    (a.amplitude ≤ 1023 ∧ a.offset ≤ 1023) ∧
    dacWfFreqMin ≤ a.frequency ∧ a.frequency ≤ dacWfFreqMax

instance (a : WaveformArgs) : Decidable a.Accepted :=
  inferInstanceAs (Decidable ((_ ∧ _) ∧ (_ ∧ _) ∧ _ ∧ _))

/-- The duration in interrupts. -/
def WaveformArgs.isrs (a : WaveformArgs) : BitVec 32 :=
  if a.durationMs = 0 then 0 else a.durationMs * dacFsHz / 1000

/-- The phase a tone gains at an interrupt. -/
def WaveformArgs.inc (a : WaveformArgs) : BitVec 32 :=
  if a.waveform = dacToneConst then 0
  else ((a.frequency.setWidth 64 <<< 32) / dacFsHz.setWidth 64).setWidth 32

/-- `cmd_dac_waveform_write`: one tone, and the other one off. -/
def ToneClock.cmdDacWaveformWrite (c : ToneClock) (args : List Byte) : ToneClock × ShellStatus :=
  match readWaveform args with
  | none => (c, .badArgs)
  | some a =>
      if a.Accepted then
        ({ c with
          running := true
          dds := {
            active := true
            tone := fun t =>
              if t = 0 then { type := a.waveform, amp := a.amplitude, inc := a.inc } else {}
            offset := a.offset
            isrsRemaining := a.isrs } }, .ok)
      else (c, .badArgs)

/-! ## How long it plays -/

/-- The waveform is active for `n` interrupts, each of which sends a sample of the range of
the converter, and it is over after them. -/
def ToneClock.PlaysFor (c : ToneClock) (n : Nat) : Prop :=
  ∀ results, let c' := run ToneClock.next c results
    (c'.dds.active = true ↔ results.length < n) ∧
      ∀ result, ((c'.interrupt result).2.isSome = true ↔ results.length < n) ∧
        ∀ sample ∈ (c'.interrupt result).2, 0 ≤ sample ∧ sample ≤ 1023

/-- The waveform has `n` interrupts to go. -/
structure ToneClock.Left (c : ToneClock) (n : Nat) : Prop where
  alone : c.follow = false
  running : c.running = decide (0 < n)
  active : c.dds.active = decide (0 < n)
  count : c.dds.isrsRemaining.toNat = n

/-- The waveform is never over: the interrupts go elsewhere, or none is counted. -/
structure ToneClock.Endless (c : ToneClock) : Prop where
  active : c.dds.active = true
  uncounted : c.follow = true ∨ c.dds.isrsRemaining = 0

variable {c : ToneClock} {n m : Nat} {a : WaveformArgs} {args : List Byte}

theorem clipSample_range (sample : Int) : 0 ≤ clipSample sample ∧ clipSample sample ≤ 1023 := by
  unfold clipSample
  dsimp only
  split_ifs <;> omega

/-- An interrupt that counts. -/
theorem tc3Handler_left (h : c.Left n) (hn : 0 < n) (result : Option (BitVec 16)) :
    (c.tc3Handler result).1.Left (n - 1) ∧
      (c.tc3Handler result).2 = some c.dds.advance.sample := by
  have hcounted : c.dds.advance.isrsRemaining ≠ 0 := by
    intro hzero
    have hcount := h.count
    rw [show c.dds.isrsRemaining = 0 from hzero] at hcount
    exact hn.ne hcount
  have hleft : (c.dds.isrsRemaining - 1).toNat = n - 1 := by
    have hcount := h.count
    bv_omega
  have halone : ¬ c.follow = true := Bool.not_eq_true _ ▸ h.alone
  have hactive : c.dds.active = true := h.active.trans (decide_eq_true hn)
  have hrunning : c.running = true := h.running.trans (decide_eq_true hn)
  unfold ToneClock.tc3Handler
  rw [if_neg halone, if_pos hactive]
  dsimp only
  rw [if_pos hcounted]
  split
  next hlast =>
    have hzero : n - 1 = 0 := by
      rw [← hleft]
      exact congrArg BitVec.toNat hlast
    rw [hzero]
    exact ⟨⟨h.alone, rfl, rfl, congrArg BitVec.toNat hlast⟩, rfl⟩
  next hmore =>
    have hpos : 0 < n - 1 := by
      refine Nat.pos_of_ne_zero fun hzero => hmore ?_
      exact BitVec.eq_of_toNat_eq (hleft.trans hzero)
    exact ⟨⟨h.alone, hrunning.trans (decide_eq_true hpos).symm,
      hactive.trans (decide_eq_true hpos).symm, hleft⟩, rfl⟩

/-- A clock that has stopped sends nothing. -/
theorem interrupt_over (h : c.Left 0) (result : Option (BitVec 16)) :
    c.interrupt result = (c, none) := by
  unfold ToneClock.interrupt
  rw [h.running]
  rfl

theorem interrupt_left (h : c.Left n) (hn : 0 < n) (result : Option (BitVec 16)) :
    c.interrupt result = c.tc3Handler result := by
  unfold ToneClock.interrupt
  rw [h.running, decide_eq_true hn]
  rfl

theorem next_left (h : c.Left n) (result : Option (BitVec 16)) :
    (c.next result).Left (n - 1) := by
  unfold ToneClock.next
  rcases Nat.eq_zero_or_pos n with rfl | hn
  · rw [interrupt_over h]
    exact h
  · rw [interrupt_left h hn]
    exact (tc3Handler_left h hn result).1

theorem run_left (h : c.Left n) (results : List (Option (BitVec 16))) :
    (run ToneClock.next c results).Left (n - results.length) := by
  induction results generalizing c n with
  | nil => exact h
  | cons result results ih =>
      rw [Runs.run_cons, List.length_cons, Nat.add_comm, ← Nat.sub_sub]
      exact ih (next_left h result)

theorem playsFor_left (h : c.Left n) : c.PlaysFor n := by
  intro results
  have hleft := run_left h results
  generalize run ToneClock.next c results = c' at hleft
  refine ⟨?_, fun result => ?_⟩
  · rw [hleft.active, decide_eq_true_iff, Nat.sub_pos_iff_lt]
  · by_cases hlt : results.length < n
    · have hpos : 0 < n - results.length := Nat.sub_pos_of_lt hlt
      rw [interrupt_left hleft hpos, (tc3Handler_left hleft hpos result).2]
      refine ⟨iff_of_true rfl hlt, fun sample hsample => ?_⟩
      obtain rfl := Option.some_inj.mp hsample
      exact clipSample_range _
    · have hzero : n - results.length = 0 := by omega
      rw [hzero] at hleft
      rw [interrupt_over hleft]
      exact ⟨iff_of_false Bool.false_ne_true hlt, fun sample hsample => nomatch hsample⟩

/-- There is one number of interrupts that a waveform plays for. -/
theorem playsFor_unique (h : c.PlaysFor n) (h' : c.PlaysFor m) : n = m := by
  have hiff (k : Nat) : k < n ↔ k < m := by
    have hn := (h (List.replicate k none)).1
    have hm := (h' (List.replicate k none)).1
    rw [List.length_replicate] at hn hm
    exact hn.symm.trans hm
  have hn := hiff n
  have hm := hiff m
  omega

theorem next_endless (h : c.Endless) (result : Option (BitVec 16)) : (c.next result).Endless := by
  unfold ToneClock.next ToneClock.interrupt ToneClock.tc3Handler
  split_ifs with hrunning hfollow hcounted
  · exact h
  · have hzero := h.uncounted.resolve_left hfollow
    have huncounted : ¬ c.dds.advance.isrsRemaining ≠ 0 := not_not_intro hzero
    dsimp only
    rw [if_neg huncounted]
    exact ⟨h.active, Or.inr hzero⟩
  · exact absurd h.active hcounted
  · exact h

theorem not_playsFor_endless (h : c.Endless) : ¬ c.PlaysFor n := by
  intro hplays
  have hendless : (run ToneClock.next c (List.replicate n none)).Endless :=
    Runs.run_invariant (fun _ result h => next_endless h result) h
  have hover := (hplays (List.replicate n none)).1.mp hendless.active
  rw [List.length_replicate] at hover
  exact lt_irrefl n hover

/-! ## What the command starts -/

/-- What an accepted command leaves of the clock. -/
structure ToneStarted (c : ToneClock) (a : WaveformArgs) (c' : ToneClock) : Prop where
  follow : c'.follow = c.follow
  running : c'.running = true
  active : c'.dds.active = true
  count : c'.dds.isrsRemaining = a.isrs

theorem write_toneStarted (hread : readWaveform args = some a)
    (hok : (c.cmdDacWaveformWrite args).2 = .ok) :
    ToneStarted c a (c.cmdDacWaveformWrite args).1 := by
  unfold ToneClock.cmdDacWaveformWrite at hok ⊢
  rw [hread] at hok ⊢
  dsimp only at hok ⊢
  split at hok
  next haccepted =>
    rw [if_pos haccepted]
    exact ⟨rfl, rfl, rfl, rfl⟩
  next => cases hok

theorem ToneStarted.left {c' : ToneClock} (h : ToneStarted c a c') (halone : c.follow = false)
    (hcount : 0 < a.isrs.toNat) : c'.Left a.isrs.toNat where
  alone := h.follow.trans halone
  running := h.running.trans (decide_eq_true hcount).symm
  active := h.active.trans (decide_eq_true hcount).symm
  count := congrArg BitVec.toNat h.count

theorem ToneStarted.endless {c' : ToneClock} (h : ToneStarted c a c')
    (hcount : c.follow = true ∨ a.isrs = 0) : c'.Endless where
  active := h.active
  uncounted := by
    rw [h.follow, h.count]
    exact hcount

theorem isrs_toNat (h : a.durationMs ≠ 0) :
    a.isrs.toNat = a.durationMs.toNat * 48000 % 2 ^ 32 / 1000 := by
  unfold WaveformArgs.isrs
  rw [if_neg h, BitVec.toNat_udiv, BitVec.toNat_mul]
  rfl

/-- The duration in interrupts is exact if the product fits, and wrong otherwise. -/
theorem isrs_exact_iff (h : a.durationMs ≠ 0) :
    a.isrs.toNat = a.durationMs.toNat * 48 ↔ a.durationMs.toNat * 48000 < 2 ^ 32 := by
  rw [isrs_toNat h]
  omega

/-- A finite waveform plays for its duration if and only if no input is being followed and
the duration fits the product. -/
theorem waveform_duration_iff (c : ToneClock) {args : List Byte} {a : WaveformArgs}
    (hread : readWaveform args = some a) (hok : (c.cmdDacWaveformWrite args).2 = .ok)
    (hfinite : a.durationMs ≠ 0) :
    (c.cmdDacWaveformWrite args).1.PlaysFor (a.durationMs.toNat * 48) ↔
      c.follow = false ∧ a.durationMs.toNat * 48000 < 2 ^ 32 := by
  have hstarted := write_toneStarted hread hok
  have hpos : 0 < a.durationMs.toNat := by
    refine Nat.pos_of_ne_zero fun hzero => hfinite ?_
    exact BitVec.eq_of_toNat_eq hzero
  rw [← isrs_exact_iff hfinite]
  constructor
  · intro hplays
    have halone : c.follow = false := by
      refine Bool.eq_false_of_not_eq_true fun hfollow => ?_
      exact not_playsFor_endless (hstarted.endless (Or.inl hfollow)) hplays
    have hcount : 0 < a.isrs.toNat := by
      refine Nat.pos_of_ne_zero fun hzero => ?_
      exact not_playsFor_endless
        (hstarted.endless (Or.inr (BitVec.eq_of_toNat_eq hzero))) hplays
    exact ⟨halone, playsFor_unique (playsFor_left (hstarted.left halone hcount)) hplays⟩
  · rintro ⟨halone, hexact⟩
    have hcount : 0 < a.isrs.toNat := by omega
    rw [← hexact]
    exact playsFor_left (hstarted.left halone hcount)

/-- A sine for as long as the product allows, 89478 ms. -/
theorem waveform_duration_longest :
    (({} : ToneClock).cmdDacWaveformWrite
      [2, 0x00, 0x02, 0x00, 0x02, 0xE8, 0x03, 0, 0, 0x86, 0x5D, 0x01, 0]).1.PlaysFor 4294944 :=
  (waveform_duration_iff {} (a := ⟨2, 512, 512, 1000, 89478⟩) (by decide)
    (by decide) (by decide)).mpr ⟨rfl, by decide⟩

/-- One millisecond more, and it is over after 24 interrupts. -/
theorem not_waveform_duration :
    ¬ ∀ (c : ToneClock) (args : List Byte) (a : WaveformArgs), readWaveform args = some a →
      (c.cmdDacWaveformWrite args).2 = .ok → a.durationMs ≠ 0 →
        (c.cmdDacWaveformWrite args).1.PlaysFor (a.durationMs.toNat * 48) := by
  intro hall
  have hread : readWaveform [2, 0, 2, 0, 2, 0xE8, 3, 0, 0, 0x87, 0x5D, 1, 0] =
      some ⟨2, 512, 512, 1000, 89479⟩ := by decide
  have hok : (({} : ToneClock).cmdDacWaveformWrite
      [2, 0, 2, 0, 2, 0xE8, 3, 0, 0, 0x87, 0x5D, 1, 0]).2 = .ok := by decide
  have hplays := hall {} _ _ hread hok (by decide)
  have hleft := (write_toneStarted hread hok).left rfl (by decide)
  exact absurd (playsFor_unique (playsFor_left hleft) hplays) (by decide)

end SlowBus.Modes
