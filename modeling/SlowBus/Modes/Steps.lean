import SlowBus.Modes.Chip

/-!
# Steps of the chip

What an event can do to the mode, and the latch of the GPIO interlock, which only
GPIO mode sets and every way out of it clears.
-/

namespace SlowBus.Modes

open Bus (Byte)

section Steps

variable {c c' : Chip} {e : ChipEvent} {m : Mode} {ops : List PortOp}

@[simp] theorem write_mode : (c.write ops).mode = c.mode := rfl
@[simp] theorem write_pio : (c.write ops).pio = c.pio := rfl
@[simp] theorem write_servo : (c.write ops).servo = c.servo := rfl
@[simp] theorem write_bench : (c.write ops).bench = c.bench := rfl
@[simp] theorem write_dac : (c.write ops).dac = c.dac := rfl
@[simp] theorem write_world : (c.write ops).world = c.world := rfl
@[simp] theorem write_port : (c.write ops).port = c.port.exec ops := rfl

theorem pioTick_of_ne (h : c.mode ≠ .pio) : c.pioTick = c := by
  unfold Chip.pioTick Chip.pioTickStart
  rw [if_neg h]
  rfl

theorem adcTick_of_ne (h : c.mode ≠ .adc) : c.adcTick = c := if_neg h

theorem mixedTick_of_ne (h : c.mode ≠ .mixed) : c.mixedTick = c := if_neg h

/-- A conversion makes no pad an output. -/
theorem benchTick_dir (c : Chip) (q : Pin) : (c.benchTick.port q).dir = (c.port q).dir := by
  obtain ⟨pmuxen, hpad⟩ := exec_tick_pad c.bench c.world.oneshot c.port q
  show (c.port.exec (c.bench.tick c.world.oneshot).2 q).dir = _
  rw [hpad]

/-- Outside the modes with bench tools a tick of theirs does nothing. -/
theorem benchTick_of_off (h : c.bench.active = false) : c.benchTick = c := by
  unfold Chip.benchTick
  rw [bench_tick_off h]
  rfl

/-- `servo_all_low` lowers levels. -/
theorem mem_servoAllLow {w : PortOp} (hw : w ∈ servoAllLow) : w.op = .outClr := by
  obtain ⟨ch, _, hw⟩ := List.mem_flatMap.mp hw
  obtain ⟨op, hop, rfl⟩ := List.mem_map.mp hw
  simpa using hop

theorem pioTick_mode (c : Chip) : c.pioTick.mode = c.mode := by
  unfold Chip.pioTick Chip.pioTickStart
  split <;> rfl

/-- Everything a register write can do; only a mode other than the one in force is entered. -/
inductive RegStep (c : Chip) (reg val : Byte) : Chip → Prop
  | bank : RegStep c reg val (c.bankWrite reg val)
  | keep : RegStep c reg val c
  | switch (m : Mode) (hreg : reg = regMode) (hval : Mode.ofByte val = some m) (hne : m ≠ c.mode) :
      RegStep c reg val ({ c.modeLeave c.mode with mode := m }.modeEnter m)
  | ack (hreg : reg = regIntFlags) : RegStep c reg val (c.ackFlags val)
  | client (cfg : Config.Client) : RegStep c reg val { c with cfg }

theorem regStep_cases (c : Chip) (reg val : Byte) : RegStep c reg val (c.regWrite reg val) := by
  unfold Chip.regWrite
  split
  next => exact .bank
  next =>
    split
    next hreg =>
      cases hval : Mode.ofByte val with
      | none => exact .keep
      | some m =>
          show RegStep c reg val (c.setMode m)
          unfold Chip.setMode
          split
          next => exact .keep
          next hne => exact .switch m hreg hval hne
    next =>
      split
      next hreg => exact .ack hreg
      next => exact .client _

/-- Everything an event can do to the mode. -/
inductive ModeStep (c : Chip) : Chip → Prop
  | same {c' : Chip} (h : c'.mode = c.mode) : ModeStep c c'
  | offline : ModeStep c c.goOffline
  | switch (m : Mode) (hne : m ≠ c.mode) :
      ModeStep c ({ c.modeLeave c.mode with mode := m }.modeEnter m)

theorem modeEnter_mode (c : Chip) (m : Mode) : (c.modeEnter m).mode = c.mode := by
  cases m
  case mixed =>
    show c.enterMixed.mode = c.mode
    have hpads : c.mixedPads.mode = c.mode := by
      unfold Chip.mixedPads
      dsimp only
      split <;> rfl
    unfold Chip.enterMixed
    exact hpads
  all_goals rfl

theorem bankWrite_mode (c : Chip) (reg val : Byte) : (c.bankWrite reg val).mode = c.mode := by
  unfold Chip.bankWrite
  split
  next => rfl
  next => split <;> rfl

theorem ackFlags_mode (c : Chip) (val : Byte) : (c.ackFlags val).mode = c.mode := by
  unfold Chip.ackFlags
  dsimp only
  split_ifs <;> rfl

theorem next_modeStep (c : Chip) (e : ChipEvent) : ModeStep c (c.next e) := by
  cases e with
  | world | service | benchTick => exact .same rfl
  | pioTick =>
      exact .same (pioTick_mode c)
  | adcTick =>
      refine .same ?_
      show c.adcTick.mode = c.mode
      unfold Chip.adcTick
      split <;> rfl
  | mixedTick =>
      refine .same ?_
      show c.mixedTick.mode = c.mode
      unfold Chip.mixedTick
      split <;> rfl
  | servoTick =>
      refine .same ?_
      show c.servoTick.mode = c.mode
      unfold Chip.servoTick
      split_ifs <;> rfl
  | mc0 =>
      refine .same ?_
      show c.mc0.mode = c.mode
      unfold Chip.mc0
      split <;> rfl
  | mc1 =>
      refine .same ?_
      show c.mc1.mode = c.mode
      unfold Chip.mc1
      split <;> rfl
  -- only `MODE` writes and the offline request change the mode
  | goOffline => exact .offline
  | regWrite reg val =>
      have hstep := regStep_cases c reg val
      change ModeStep c (c.regWrite reg val)
      generalize c.regWrite reg val = c' at hstep ⊢
      cases hstep with
      | bank => exact .same (bankWrite_mode c reg val)
      | keep => exact .same rfl
      | switch m _ _ hne => exact .switch m hne
      | ack => exact .same (ackFlags_mode c val)
      | client => exact .same rfl

/-! ## The latch of the GPIO interlock -/

/-- Only GPIO mode holds a tripped latch. -/
def Chip.TripInPio (c : Chip) : Prop := c.pio.ilTripped = true → c.mode = .pio

theorem modeLeave_tripped (h : c.TripInPio) : (c.modeLeave c.mode).pio.ilTripped = false := by
  cases hmode : c.mode
  case pio => rfl
  all_goals
    show c.pio.ilTripped = false
    exact Bool.eq_false_of_not_eq_true fun htrip => by simp [h htrip] at hmode

theorem arm_tripped (r : Pio) (file : Option (List Byte)) : (r.arm file).1.ilTripped = false := by
  unfold Pio.arm
  dsimp only
  split
  next => rfl
  next => rfl
  next => split <;> rfl

theorem mixedPads_pio (c : Chip) : c.mixedPads.pio = c.pio := by
  unfold Chip.mixedPads
  dsimp only
  split <;> rfl

theorem modeEnter_tripped (c : Chip) (m : Mode) (h : c.pio.ilTripped = false) :
    (c.modeEnter m).pio.ilTripped = false := by
  cases m
  case pio => exact arm_tripped _ _
  case mixed => exact (congrArg Pio.ilTripped (mixedPads_pio c)).trans h
  all_goals exact h

theorem manualReset_tripped (r : Pio) (snap : Snapshot) (w : World) :
    (r.manualReset snap w).1.ilTripped = false := by
  unfold Pio.manualReset
  split
  next => rfl
  next h => simpa using h

theorem ackFlags_pio (c : Chip) (val : Byte) : (c.ackFlags val).pio =
    if val.getLsbD 0 then (c.pio.manualReset c.snap c.world).1 else c.pio := by
  unfold Chip.ackFlags
  dsimp only
  split_ifs <;> rfl

/-- Without a trip to acknowledge, only the flags change. -/
theorem ackFlags_idle (val : Byte) (hmixed : c.mode ≠ .mixed) (hadc : c.mode ≠ .adc)
    (htrip : c.pio.ilTripped = false) :
    c.ackFlags val = { c with intFlags := c.intFlags &&& ~~~val } := by
  have hreset : c.pio.manualReset c.snap c.world = (c.pio, c.snap, []) := by
    unfold Pio.manualReset
    rw [if_neg (by simp [htrip])]
  have hflag : (if val.getLsbD 0 then
      ({ { c with intFlags := c.intFlags &&& ~~~val } with pio := c.pio, snap := c.snap }).write []
    else { c with intFlags := c.intFlags &&& ~~~val }) =
      { c with intFlags := c.intFlags &&& ~~~val } := by
    split <;> rfl
  unfold Chip.ackFlags
  dsimp only
  rw [hreset]
  dsimp only
  rw [hflag]
  dsimp only
  rw [if_neg (fun h : _ ∧ c.mode = .mixed => hmixed h.2),
    if_neg (fun h : _ ∧ c.mode = .adc => hadc h.2)]

theorem bankWrite_servo (h : c.mode = .servo) (reg val : Byte) :
    c.bankWrite reg val =
      let r := c.servo.regWrite c.bench c.dac c.world.levels reg val
      { c with servo := r.1, bench := r.2.1, dac := r.2.2.1 }.write r.2.2.2 := by
  unfold Chip.bankWrite
  rw [if_neg (by simp [h])]
  split
  case h_5 => rfl
  all_goals
    next hmode => cases hmode.symm.trans h

theorem bankWrite_tripped (c : Chip) (reg val : Byte) :
    (c.bankWrite reg val).pio.ilTripped = c.pio.ilTripped := by
  unfold Chip.bankWrite
  split
  next => rfl
  next =>
    split
    case h_2 =>
      show (c.pio.regWrite c.world reg val).1.ilTripped = _
      unfold Pio.regWrite
      split_ifs <;> rfl
    all_goals rfl

theorem Chip.TripInPio.next (h : c.TripInPio) (e : ChipEvent) : (c.next e).TripInPio := by
  have hkeep : ∀ c' : Chip, c'.pio.ilTripped = c.pio.ilTripped → c'.mode = c.mode →
      c'.TripInPio := fun c' htrip hmode ht => hmode.trans (h (htrip ▸ ht))
  have hclear : ∀ c' : Chip, c'.pio.ilTripped = false → c'.TripInPio :=
    fun c' hfalse htrip => absurd (hfalse.symm.trans htrip) Bool.false_ne_true
  cases e with
  | world | service | benchTick => exact hkeep _ rfl rfl
  | pioTick =>
      show c.pioTick.TripInPio
      by_cases hmode : c.mode = .pio
      · exact fun _ => (pioTick_mode c).trans hmode
      · rwa [pioTick_of_ne hmode]
  | adcTick =>
      show c.adcTick.TripInPio
      unfold Chip.adcTick
      split
      next => exact hkeep _ rfl rfl
      next => exact h
  | mixedTick =>
      show c.mixedTick.TripInPio
      unfold Chip.mixedTick
      split
      next => exact hkeep _ rfl rfl
      next => exact h
  | servoTick =>
      show c.servoTick.TripInPio
      unfold Chip.servoTick
      split_ifs
      · exact hkeep _ rfl rfl
      · exact hkeep _ rfl rfl
      · exact h
  | mc0 =>
      show c.mc0.TripInPio
      unfold Chip.mc0
      split
      next => exact hkeep _ rfl rfl
      next => exact h
  | mc1 =>
      show c.mc1.TripInPio
      unfold Chip.mc1
      split
      next => exact hkeep _ rfl rfl
      next => exact h
  -- leaving a mode clears the trip
  | goOffline => exact hclear _ (modeLeave_tripped h)
  | regWrite reg val =>
      have hstep := regStep_cases c reg val
      change (c.regWrite reg val).TripInPio
      generalize c.regWrite reg val = c' at hstep ⊢
      cases hstep with
      | bank => exact hkeep _ (bankWrite_tripped c reg val) (bankWrite_mode c reg val)
      | keep => exact h
      | switch m => exact hclear _ (modeEnter_tripped _ m (modeLeave_tripped h))
      | ack =>
          have hpio := ackFlags_pio c val
          split at hpio
          next => exact hclear _ (hpio ▸ manualReset_tripped _ _ _)
          next => exact hkeep _ (congrArg Pio.ilTripped hpio) (ackFlags_mode c val)
      | client => exact hkeep _ rfl rfl

end Steps

end SlowBus.Modes
