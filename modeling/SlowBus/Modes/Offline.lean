import SlowBus.Lib.Runs
import SlowBus.Modes.Steps

/-!
# The offline state

The offline transition leaves the mode, releases the pads and stops the timers. What
follows keeps the chip there as long as no write to the mode register names another
mode: the register dispatch does not look at the offline flag.
-/

namespace SlowBus.Modes

open Bus (Byte)
open Runs (run)

/-- Idle, with every pad undriven. -/
def Chip.Quiescent (c : Chip) : Prop := c.mode = .idle ∧ ∀ ch, c.Undriven ch

/-- A write to the mode register that names a mode other than IDLE. -/
def ChipEvent.EntersMode (e : ChipEvent) : Prop :=
  ∃ val m, e = .regWrite regMode val ∧ Mode.ofByte val = some m ∧ m ≠ .idle

/-- What the offline transition leaves. -/
structure Chip.Quiet (c : Chip) : Prop where
  mode : c.mode = .idle
  trip : c.pio.ilTripped = false
  eoen : c.dac.eoen = false
  timer : c.servo.tc.running = false
  dir : ∀ ch, (c.port (channelPad ch)).dir = false

section Quiet

variable {c : Chip} {e : ChipEvent}

theorem Chip.Quiet.quiescent (h : c.Quiet) : c.Quiescent :=
  ⟨h.mode, fun ch => ⟨h.dir ch, fun ⟨_, heoen, _⟩ => by simp [h.eoen] at heoen⟩⟩

/-- Releasing a pad makes it an input, and the interrupt line stays one. -/
theorem offline_dir (port : Port) (ch : Fin 9) :
    (port.exec (offlinePads ++ pioIntAssert false) (channelPad ch)).dir = false := by
  rw [exec_append]
  refine exec_preserves (P := fun pad => pad.dir = false) (fun w hw _ pad hpad => ?_) ?_
  · obtain ⟨op, hop, rfl⟩ := List.mem_map.mp hw
    rw [if_neg Bool.false_ne_true] at hop
    simp only [List.mem_cons, List.not_mem_nil, or_false] at hop
    rcases hop with rfl | rfl | rfl
    · rfl
    · exact hpad
    · exact hpad
  · rw [offlinePads, exec_each channelPad_injective _ (List.nodup_finRange 9) (List.mem_finRange ch)]
    rfl

theorem quiet_goOffline (h : c.TripInPio) : c.goOffline.Quiet where
  mode := rfl
  trip := modeLeave_tripped h
  eoen := rfl
  timer := rfl
  dir := offline_dir _

theorem Chip.Quiet.tripInPio (h : c.Quiet) : c.TripInPio :=
  fun htrip => absurd (h.trip.symm.trans htrip) Bool.false_ne_true

theorem Chip.Quiet.mode_ne (h : c.Quiet) {m : Mode} (hm : m ≠ .idle) : c.mode ≠ m :=
  fun heq => hm (heq.symm.trans h.mode)

theorem bankWrite_idle (h : c.mode = .idle) (reg val : Byte) : c.bankWrite reg val = c := by
  unfold Chip.bankWrite
  rw [if_neg (by simp [h])]
  split
  next => rfl
  all_goals
    next hmode => cases hmode.symm.trans h

/-- No register write leaves the state, unless it enters a mode. -/
theorem quiet_regWrite (h : c.Quiet) {reg val : Byte}
    (he : ¬ (ChipEvent.regWrite reg val).EntersMode) : (c.regWrite reg val).Quiet := by
  have hstep := regStep_cases c reg val
  generalize c.regWrite reg val = c' at hstep ⊢
  cases hstep with
  | bank => rwa [bankWrite_idle h.mode]
  | keep => exact h
  | switch m hreg hval hne =>
      exact absurd ⟨val, m, by rw [hreg], hval, fun hm => hne (hm.trans h.mode.symm)⟩ he
  | ack =>
      rw [ackFlags_idle val (h.mode_ne (by decide)) (h.mode_ne (by decide)) h.trip]
      exact ⟨h.mode, h.trip, h.eoen, h.timer, h.dir⟩
  | client => exact ⟨h.mode, h.trip, h.eoen, h.timer, h.dir⟩

theorem quiet_next (h : c.Quiet) (he : ¬ e.EntersMode) : (c.next e).Quiet := by
  cases e with
  | world | service => exact ⟨h.mode, h.trip, h.eoen, h.timer, h.dir⟩
  | benchTick =>
      refine ⟨h.mode, h.trip, h.eoen, h.timer, fun ch => ?_⟩
      exact (benchTick_dir c (channelPad ch)).trans (h.dir ch)
  | pioTick =>
      rw [Chip.next, pioTick_of_ne (h.mode_ne (by decide))]
      exact h
  | adcTick =>
      rw [Chip.next, adcTick_of_ne (h.mode_ne (by decide))]
      exact h
  | mixedTick =>
      rw [Chip.next, mixedTick_of_ne (h.mode_ne (by decide))]
      exact h
  | servoTick =>
      rw [Chip.next, Chip.servoTick, if_neg (fun hc => h.mode_ne (by decide) hc.1)]
      exact h
  | mc0 =>
      rw [Chip.next, Chip.mc0, if_neg (by simp [h.timer])]
      exact h
  | mc1 =>
      rw [Chip.next, Chip.mc1, if_neg (by simp [h.timer])]
      exact h
  | goOffline => exact quiet_goOffline h.tripInPio
  | regWrite reg val => exact quiet_regWrite h he

/-- A mode named in IDLE is entered. -/
theorem enters_mode (hmode : c.mode = .idle) (he : e.EntersMode) : (c.next e).mode ≠ .idle := by
  obtain ⟨val, m, rfl, hval, hm⟩ := he
  have hset : c.next (.regWrite regMode val) = c.setMode m := by
    show c.regWrite regMode val = _
    rw [Chip.regWrite, if_neg (by decide), if_pos rfl, hval]
    rfl
  rw [hset, Chip.setMode, if_neg (fun heq => hm (heq.trans hmode)), modeEnter_mode]
  exact hm

end Quiet

theorem tripInPio_run (cfg : Config.Client) (es : List ChipEvent) :
    (run Chip.next (.powerOn cfg) es).TripInPio :=
  Runs.run_invariant (fun _ e h => h.next e) fun htrip => by cases htrip

/-- The offline state lasts exactly as long as no register write enters a mode. -/
theorem offline_quiescent (cfg : Config.Client) (es later : List ChipEvent) :
    let c := (run Chip.next (.powerOn cfg) es).goOffline
    (∀ soFar, soFar <+: later → (run Chip.next c soFar).Quiescent) ↔
      ∀ e ∈ later, ¬ e.EntersMode := by
  intro c
  constructor
  · intro hquiescent e he henters
    obtain ⟨before, after, rfl⟩ := List.append_of_mem he
    have hidle := (hquiescent before ⟨e :: after, rfl⟩).1
    have hnext := (hquiescent (before ++ [e]) ⟨after, by simp⟩).1
    rw [Runs.run_append] at hnext
    exact enters_mode hidle henters hnext
  · intro hlater soFar hpre
    have hquiet : (run Chip.next c soFar).Quiet := by
      refine Runs.run_along (C := fun _ e => ¬ e.EntersMode) (fun _ _ h he => quiet_next h he)
        ?_ (quiet_goOffline (tripInPio_run cfg es))
      have hall : ∀ e ∈ soFar, ¬ e.EntersMode := fun e he => hlater e (hpre.mem he)
      clear hpre
      generalize c = c₀
      induction soFar generalizing c₀ with
      | nil => trivial
      | cons e soFar ih =>
          obtain ⟨he, hrest⟩ := List.forall_mem_cons.mp hall
          exact ⟨he, ih hrest _⟩
    exact hquiet.quiescent

/-- Offline, the register still selects a mode: ADC routes D0 to the converter. -/
theorem not_offline_quiescent :
    let c := (run Chip.next (.powerOn (holding [])) []).goOffline
    c.Quiescent ∧
      ¬ (run Chip.next c [.regWrite regMode 2]).Undriven 0 ∧
      (run Chip.next c [.regWrite regMode 2]).mode = .adc := by
  refine ⟨(quiet_goOffline (tripInPio_run _ _)).quiescent, by decide +kernel, by decide +kernel⟩

end SlowBus.Modes
