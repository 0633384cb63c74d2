import SlowBus.Modes.Leave

/-!
# Outputs of a tripped interlock

The GPIO tick makes its writes to the port one by one, and register writes come between
any two of them. Once the trip is latched, each output of the interlock is driven to its
error value by the tick; what the master writes into the output latch reaches the same
pads, and nothing in the latch path looks at the trip.
-/

namespace SlowBus.Modes

open Bus (Byte)
open Interlock (Inst Output)
open Runs (run Along)

/-! ## The tick, write by write -/

/-- The chip and the writes of the tick under way that are still to be made. -/
structure PioLoop where
  chip : Chip
  pending : List PortOp := []

inductive PioEvent where
  /-- The next write of the tick, or the next tick. -/
  | tick
  | chip (e : ChipEvent)

def PioLoop.tick (m : PioLoop) : PioLoop :=
  match m.pending with
  | [] => ⟨m.chip.pioTickStart.1, m.chip.pioTickStart.2⟩
  | w :: pending => ⟨m.chip.write [w], pending⟩

/-- The tick of the chip is that of the loop. -/
def PioLoop.next (m : PioLoop) : PioEvent → PioLoop
  | .tick | .chip .pioTick => m.tick
  | .chip e => { m with chip := m.chip.next e }

/-- After power-on, before the commissioned mode is entered. -/
def PioLoop.boot (cfg : Config.Client) : PioLoop := { chip := .powerOn cfg }

/-- The level a pad drives, if any. -/
def Pad.drive (pad : Pad) : Option Bool := if pad.dir then some pad.out else none

/-- The pin of an output. -/
def outPin (o : Output) : Pin := .ofPhys o.physId

/-- Whether a channel at the pad is open-drain. -/
def Pio.odAt (r : Pio) (p : Pin) : Bool := (bankAt p).any fun ch => r.od.getLsbD ch

/-- What an output drives at its error value; 1 on an open-drain channel releases the line. -/
def Pio.errDrive (r : Pio) (o : Output) : Option Bool :=
  if r.odAt (outPin o) && o.errValue != 0 then none else some (o.errValue != 0)

/-- What drives the pin of an output. -/
def Chip.outDrive (c : Chip) (o : Output) : Option Bool := (c.port (outPin o)).drive

/-- No output is to be high on D6, which the interrupt line pulls low. -/
def Pio.LineSpared (r : Pio) : Prop :=
  ∀ o ∈ r.il.outputs, outPin o = intPad → (o.errValue != 0) = false

/-- A write to the output latch, if it is one, has the error value in the bit of every
output that is an output channel. -/
def Chip.LatchAgrees (c : Chip) (e : ChipEvent) : Prop :=
  ∀ reg val, e = .regWrite reg val → reg = 0x13 ∨ reg = 0x14 →
    ∀ o ∈ c.pio.il.outputs, ∀ ch, bankPad ch = outPin o → c.pio.iodir.getLsbD ch = false →
      val.getLsbD ch = (o.errValue != 0)

/-- The trip stays latched, and the output latch agrees with it. -/
def PioLoop.Held (m : PioLoop) (e : PioEvent) : Prop :=
  (m.next e).chip.pio.ilTripped = true ∧ ∀ ce, e = .chip ce → m.chip.LatchAgrees ce

/-! ## Writes towards a level -/

/-- The write takes no pad away from the level. -/
def PadOp.Holds (d : Option Bool) (op : PadOp) : Prop :=
  ∀ pad : Pad, pad.drive = d → (op.apply pad).drive = d

/-- Each write leaves the pad as it is driven or drives it to the level, and the last does. -/
def Pad.Steady (d : Option Bool) : Pad → List PadOp → Prop
  | pad, [] => pad.drive = d
  | pad, op :: pops =>
      ((op.apply pad).drive = pad.drive ∨ (op.apply pad).drive = d) ∧ Steady d (op.apply pad) pops

section Drives

variable {d : Option Bool} {pad : Pad} {pops pops' : List PadOp} {od pullUp v : Bool}

theorem steady_of_holds (hholds : ∀ op ∈ pops, op.Holds d) (h : pad.drive = d) :
    pad.Steady d pops := by
  induction pops generalizing pad with
  | nil => exact h
  | cons op pops ih =>
      obtain ⟨hop, hpops⟩ := List.forall_mem_cons.mp hholds
      exact ⟨Or.inr (hop pad h), ih hpops (hop pad h)⟩

theorem Pad.Steady.append (h : pad.Steady d pops) (hholds : ∀ op ∈ pops', op.Holds d) :
    pad.Steady d (pops ++ pops') := by
  induction pops generalizing pad with
  | nil => exact steady_of_holds hholds h
  | cons op pops ih => exact ⟨h.1, ih h.2⟩

theorem Pad.Steady.exec (h : pad.Steady d pops) : (pad.exec pops).drive = d := by
  induction pops generalizing pad with
  | nil => exact h
  | cons op pops ih => exact ih h.2

/-- What a level means on a line that may be open-drain. -/
theorem driveOps_holds :
    ∀ op ∈ driveOps od pullUp v, op.Holds (if od && v then none else some v) := by
  intro op hop pad hpad
  obtain ⟨dir, out, pmuxen, inen, pullen⟩ := pad
  cases od <;> cases pullUp <;> cases v <;> cases dir <;>
    simp [driveOps, pullUpOps, outLevel, Pad.drive] at hop hpad ⊢
  all_goals rcases hop with rfl | rfl | rfl <;> simp_all [PadOp.apply]

theorem driveOps_steady (pad : Pad) :
    pad.Steady (if od && v then none else some v) (driveOps od pullUp v) := by
  obtain ⟨dir, out, pmuxen, inen, pullen⟩ := pad
  cases od <;> cases pullUp <;> cases v <;> cases dir <;>
    simp [driveOps, pullUpOps, outLevel, Pad.drive, Pad.Steady, PadOp.apply]

end Drives

/-! ## The outputs of a parsed interlock -/

section Outputs

variable {r : Pio} {inst : Inst} {o o' : Output} {p : Pin} {port : Port}

/-- An accepted text has its outputs on the board. -/
theorem ilParse_outputs {adcMode : Bool} {file : List Byte} (h : ilParse adcMode file = some inst) :
    ∀ o ∈ inst.outputs, (outPin o).phys = o.physId := by
  intro o ho
  obtain ⟨idx, hidx⟩ := hasPin_bench ((ilParse_resolved h).outputs o ho)
  rw [outPin, hidx, ofPhys_phys]

theorem outPins_nodup (h : r.Parsed) : (r.il.outputs.map outPin).Nodup := by
  rcases h with h | ⟨file, h⟩
  · rw [h]
    exact List.nodup_nil
  · have hphys : r.il.outputs.map (Pin.phys ∘ outPin) = r.il.outputs.map Output.physId :=
      List.map_congr_left (ilParse_outputs h)
    refine List.Nodup.of_map Pin.phys ?_
    rw [List.map_map, hphys]
    exact (ilParse_wellFormed h).outputs

/-- The writes that drive an output, as the tick and the latch make them. -/
theorem physDriveOps_eq (r : Pio) (p : Pin) (v : Bool) :
    r.physDriveOps p v =
      driveOps (r.odAt p) ((bankAt p).any fun ch => r.gppu.getLsbD ch) v := by
  unfold Pio.physDriveOps Pio.odAt
  cases bankAt p <;> rfl

theorem errDrive_eq (r : Pio) (o : Output) : r.errDrive o =
    if r.odAt (outPin o) && (o.errValue != 0) then none else some (o.errValue != 0) := rfl

/-- `pio_il_drive_safe` makes one list of writes for each output. -/
theorem opsAt_driveSafe (h : r.Parsed) (ho : o ∈ r.il.outputs) :
    opsAt r.driveSafe (outPin o) = r.physDriveOps (outPin o) (o.errValue != 0) := by
  have hnodup := outPins_nodup h
  obtain ⟨before, after, hsplit⟩ := List.append_of_mem ho
  rw [hsplit, List.map_append, List.map_cons, List.nodup_middle, List.nodup_cons] at hnodup
  have hother : ∀ os : List Output, (∀ o' ∈ os, o' ∈ before ++ after) →
      opsAt (os.flatMap fun o => r.physDrive o.physId (o.errValue != 0)) (outPin o) = [] := by
    refine fun os hos => opsAt_of_ne fun w hw heq => hnodup.1 ?_
    obtain ⟨o', ho', hw⟩ := List.mem_flatMap.mp hw
    have hpin : w.pin = outPin o' := pin_of_mem_on hw
    rw [← heq, hpin, ← List.map_append]
    exact List.mem_map_of_mem (hos o' ho')
  have hself : opsAt (r.physDrive o.physId (o.errValue != 0)) (outPin o) =
      r.physDriveOps (outPin o) (o.errValue != 0) := opsAt_on
  unfold Pio.driveSafe
  rw [hsplit, List.flatMap_append, List.flatMap_cons, opsAt_append, opsAt_append, hself,
    hother before fun o' h => List.mem_append_left _ h,
    hother after fun o' h => List.mem_append_right _ h, List.nil_append, List.append_nil]

theorem driveSafe_holds (h : r.Parsed) (ho : o ∈ r.il.outputs) :
    ∀ op ∈ opsAt r.driveSafe (outPin o), op.Holds (r.errDrive o) := by
  rw [opsAt_driveSafe h ho, physDriveOps_eq, errDrive_eq]
  exact driveOps_holds

theorem driveSafe_steady (h : r.Parsed) (ho : o ∈ r.il.outputs) (pad : Pad) :
    pad.Steady (r.errDrive o) (opsAt r.driveSafe (outPin o)) := by
  rw [opsAt_driveSafe h ho, physDriveOps_eq, errDrive_eq]
  exact driveOps_steady pad

/-- The interrupt line is pulled low over an output that is low there. -/
theorem int_holds (hline : r.LineSpared) (ho : o ∈ r.il.outputs) :
    ∀ op ∈ opsAt (pioIntAssert true) (outPin o), op.Holds (r.errDrive o) := by
  intro op hop
  have hmem := mem_opsAt.mp hop
  have hpin : outPin o = intPad := pin_of_mem_on hmem
  have herr : r.errDrive o = some false := by
    rw [errDrive_eq, hline o ho hpin, Bool.and_false]
    rfl
  obtain ⟨op', hop', heq⟩ := List.mem_map.mp hmem
  obtain rfl : op' = op := congrArg PortOp.op heq
  rw [if_pos rfl] at hop'
  simp only [List.mem_cons, List.not_mem_nil, or_false] at hop'
  rw [herr]
  rintro ⟨dir, out, pmuxen, inen, pullen⟩ hpad
  rcases hop' with rfl | rfl <;> cases dir <;> simp_all [Pad.drive, PadOp.apply]

end Outputs

/-! ## Events while the trip is latched -/

/-- In GPIO mode with the trip latched. -/
structure Chip.Tripped (c : Chip) : Prop where
  inv : c.Inv
  mode : c.mode = .pio
  trip : c.pio.ilTripped = true

/-- What such an event leaves: the pin of an output as it was, or at its error value. -/
structure SafeStep (c c' : Chip) : Prop where
  il : c'.pio.il = c.pio.il
  od : c'.pio.od = c.pio.od
  pad : ∀ o ∈ c.pio.il.outputs,
    c'.port (outPin o) = c.port (outPin o) ∨ c'.outDrive o = c.pio.errDrive o

section Events

variable {c c' : Chip} {o : Output} {reg val : Byte}

theorem SafeStep.of_eq (hil : c'.pio.il = c.pio.il) (hod : c'.pio.od = c.pio.od)
    (hport : c'.port = c.port) : SafeStep c c' :=
  ⟨hil, hod, fun _ _ => Or.inl (by rw [hport])⟩

theorem SafeStep.refl (c : Chip) : SafeStep c c := .of_eq rfl rfl rfl

theorem bankAt_bankPad (ch : Fin 8) : bankAt (bankPad ch) = some ch := by
  revert ch
  decide

/-- The latch reaches the pins of the output channels only. -/
theorem updateOutputs_pad {r : Pio} (hagrees : ∀ ch, bankPad ch = outPin o →
      r.iodir.getLsbD ch = false → r.olat.getLsbD ch = (o.errValue != 0)) (port : Port) :
    port.exec r.updateOutputs (outPin o) = port (outPin o) ∨
      (port.exec r.updateOutputs (outPin o)).drive = r.errDrive o := by
  by_cases hbank : ∃ ch, bankPad ch = outPin o
  · obtain ⟨ch, hch⟩ := hbank
    have hops : opsAt r.updateOutputs (bankPad ch) =
        if r.iodir.getLsbD ch then [] else r.driveChOut ch :=
      opsAt_each bankPad_injective _ (List.nodup_finRange 8) (List.mem_finRange ch)
    rw [exec_opsAt, ← hch, hops]
    cases hdir : r.iodir.getLsbD ch with
    | true => exact Or.inl rfl
    | false =>
        right
        have hod : r.odAt (bankPad ch) = r.od.getLsbD ch := by
          rw [Pio.odAt, bankAt_bankPad]
          rfl
        rw [if_neg Bool.false_ne_true, Pio.driveChOut, hagrees ch hch hdir, errDrive_eq, ← hch, hod]
        exact (driveOps_steady _).exec
  · refine Or.inl (exec_each_of_ne _ fun ch _ hch => hbank ⟨ch, hch⟩)

/-- A register of the bank. -/
theorem bankWrite_safe (hmode : c.mode = .pio) (hagrees : c.LatchAgrees (.regWrite reg val)) :
    SafeStep c (c.bankWrite reg val) := by
  unfold Chip.bankWrite
  split
  next => exact .of_eq rfl rfl rfl
  next =>
    split
    case h_2 =>
      show SafeStep c ({ c with pio := (c.pio.regWrite c.world reg val).1 }.write
        (c.pio.regWrite c.world reg val).2)
      unfold Pio.regWrite
      split_ifs with hipol hlatch
      · exact .of_eq rfl rfl rfl
      · exact ⟨rfl, rfl, fun o ho =>
          updateOutputs_pad (r := { c.pio with olat := val })
            (hagrees reg val rfl hlatch o ho) c.port⟩
      · exact .of_eq rfl rfl rfl
    all_goals
      next hne => cases hne.symm.trans hmode

/-- What a tick makes of the trip, and its writes. -/
structure TickResult (r : Pio) (t : PioTick) : Prop where
  il : t.pio.il = r.il
  od : t.pio.od = r.od
  ops : t.pio.ilTripped = r.ilTripped ∧ (t.ops = [] ∨ r.ilTripped = true ∧ t.ops = r.driveSafe) ∨
    r.ilTripped = false ∧ t.pio.ilTripped = true ∧ t.ops = r.driveSafe ++ pioIntAssert true

theorem tick_result (r : Pio) (snap : Snapshot) (w : World) : TickResult r (r.tick snap w) := by
  have hquiet : ∀ t : PioTick, t.pio.il = r.il → t.pio.od = r.od →
      t.pio.ilTripped = r.ilTripped → t.ops = [] → TickResult r t :=
    fun t hil hod htrip hops => ⟨hil, hod, Or.inl ⟨htrip, Or.inl hops⟩⟩
  unfold Pio.tick
  split
  next => exact hquiet _ rfl rfl rfl rfl
  next =>
    dsimp only
    split
    next => exact hquiet _ rfl rfl rfl rfl
    next =>
      split
      next => exact hquiet _ rfl rfl rfl rfl
      next =>
        split
        next htrip => exact ⟨rfl, rfl, Or.inl ⟨rfl, Or.inr ⟨htrip, rfl⟩⟩⟩
        next htrip =>
          split
          next => exact hquiet _ rfl rfl rfl rfl
          next =>
            exact ⟨rfl, rfl, Or.inr ⟨Bool.eq_false_of_not_eq_true htrip, rfl, rfl⟩⟩

/-- A tick up to its writes. -/
structure Started (c c' : Chip) (ops : List PortOp) : Prop where
  mode : c'.mode = c.mode
  port : c'.port = c.port
  tick : TickResult c.pio { pio := c'.pio, snap := c'.snap, ops }

theorem started (hmode : c.mode = .pio) : Started c c.pioTickStart.1 c.pioTickStart.2 := by
  unfold Chip.pioTickStart
  rw [if_pos hmode]
  have ht := tick_result c.pio c.snap c.world
  exact ⟨rfl, rfl, ht.il, ht.od, ht.ops⟩

theorem errDrive_congr {r r' : Pio} (h : r'.od = r.od) : r'.errDrive o = r.errDrive o := by
  rw [errDrive_eq, errDrive_eq, Pio.odAt, Pio.odAt, h]

theorem Chip.Tripped.tripInPio (h : c.Tripped) : c.TripInPio := fun _ => h.mode

/-- An acknowledgement that leaves the trip latched is none of the trip. -/
theorem ackFlags_held (hmode : c.mode = .pio) (htrip : (c.ackFlags val).pio.ilTripped = true) :
    c.ackFlags val = { c with intFlags := c.intFlags &&& ~~~val } := by
  have hpio := ackFlags_pio c val
  split at hpio
  next =>
    rw [hpio, manualReset_tripped] at htrip
    exact absurd htrip Bool.false_ne_true
  next hbit =>
    unfold Chip.ackFlags
    dsimp only
    rw [if_neg hbit, if_neg (fun h => by simp [hmode] at h), if_neg (fun h => by simp [hmode] at h)]

/-- Every event but the tick. -/
theorem next_safe (h : c.Tripped) {e : ChipEvent} (he : e ≠ .pioTick) (hagrees : c.LatchAgrees e)
    (htrip : (c.next e).pio.ilTripped = true) : SafeStep c (c.next e) := by
  cases e with
  | world | service => exact .of_eq rfl rfl rfl
  | benchTick =>
      rw [Chip.next, benchTick_of_off (h.inv.bench (by simp [h.mode]) (by simp [h.mode]))]
      exact .refl c
  | pioTick => exact absurd rfl he
  | adcTick =>
      rw [Chip.next, adcTick_of_ne (by simp [h.mode])]
      exact .refl c
  | mixedTick =>
      rw [Chip.next, mixedTick_of_ne (by simp [h.mode])]
      exact .refl c
  | servoTick =>
      rw [Chip.next, Chip.servoTick, if_neg (fun hc => by simp [h.mode] at hc)]
      exact .refl c
  | mc0 =>
      rw [Chip.next, Chip.mc0, if_neg (by simp [h.inv.timer (by simp [h.mode])])]
      exact .refl c
  | mc1 =>
      rw [Chip.next, Chip.mc1, if_neg (by simp [h.inv.timer (by simp [h.mode])])]
      exact .refl c
  -- what leaves the mode leaves no trip
  | goOffline =>
      exact absurd ((modeLeave_tripped h.tripInPio).symm.trans htrip) Bool.false_ne_true
  | regWrite reg val =>
      have hstep := regStep_cases c reg val
      change (c.regWrite reg val).pio.ilTripped = true at htrip
      change SafeStep c (c.regWrite reg val)
      generalize c.regWrite reg val = c' at hstep htrip ⊢
      cases hstep with
      | bank => exact bankWrite_safe h.mode hagrees
      | keep => exact .refl c
      | switch m =>
          have hleft : ({ c.modeLeave c.mode with mode := m } : Chip).pio.ilTripped = false :=
            modeLeave_tripped h.tripInPio
          rw [modeEnter_tripped _ m hleft] at htrip
          exact absurd htrip Bool.false_ne_true
      | ack =>
          rw [ackFlags_held h.mode htrip]
          exact .of_eq rfl rfl rfl
      | client => exact .of_eq rfl rfl rfl

end Events

/-! ## The loop while the trip is latched -/

/-- The writes still to be made bring every output to its error value and keep it there. -/
structure PioLoop.Safe (m : PioLoop) : Prop where
  tripped : m.chip.Tripped
  holds : ∀ o ∈ m.chip.pio.il.outputs, ∀ op ∈ opsAt m.pending (outPin o),
    op.Holds (m.chip.pio.errDrive o)
  steady : ∀ o ∈ m.chip.pio.il.outputs,
    (m.chip.port (outPin o)).Steady (m.chip.pio.errDrive o) (opsAt m.pending (outPin o))

/-- What a step does to the outputs. -/
structure OutStep (m m' : PioLoop) : Prop where
  il : m'.chip.pio.il = m.chip.pio.il
  od : m'.chip.pio.od = m.chip.pio.od
  drive : ∀ o ∈ m.chip.pio.il.outputs,
    m'.chip.outDrive o = m.chip.outDrive o ∨ m'.chip.outDrive o = m.chip.pio.errDrive o

section Loop

variable {m m' : PioLoop} {o : Output} {e : PioEvent}

theorem next_chip {ce : ChipEvent} (he : ce ≠ .pioTick) :
    m.next (.chip ce) = { m with chip := m.chip.next ce } := by
  cases ce
  case pioTick => exact absurd rfl he
  all_goals rfl

theorem Chip.Inv.write {c : Chip} (h : c.Inv) (ops : List PortOp) : (c.write ops).Inv :=
  ⟨h.safe, h.parsed, h.free, h.ofMixed, h.timer, h.bench⟩

theorem Chip.Inv.pioTickStart {c : Chip} (h : c.Inv) : c.pioTickStart.1.Inv :=
  have hnext := h.next .pioTick
  ⟨hnext.safe, hnext.parsed, hnext.free, hnext.ofMixed, hnext.timer, hnext.bench⟩

/-- The next write of a tick under way. -/
theorem safe_write {w : PortOp} {pending : List PortOp} (h : m.Safe)
    (hpending : m.pending = w :: pending) :
    (⟨m.chip.write [w], pending⟩ : PioLoop).Safe ∧ OutStep m ⟨m.chip.write [w], pending⟩ := by
  have hpad : ∀ o ∈ m.chip.pio.il.outputs,
      ((m.chip.port.exec [w] (outPin o)).drive = m.chip.outDrive o ∨
        (m.chip.port.exec [w] (outPin o)).drive = m.chip.pio.errDrive o) ∧
      (m.chip.port.exec [w] (outPin o)).Steady (m.chip.pio.errDrive o)
        (opsAt pending (outPin o)) ∧
      ∀ op ∈ opsAt pending (outPin o), op ∈ opsAt m.pending (outPin o) := by
    intro o ho
    have hsteady := h.steady o ho
    have hops : opsAt m.pending (outPin o) = opsAt [w] (outPin o) ++ opsAt pending (outPin o) := by
      rw [hpending, ← opsAt_append]
      rfl
    rw [hops] at hsteady ⊢
    rw [exec_opsAt]
    by_cases hw : w.pin = outPin o
    · have hone : opsAt [w] (outPin o) = [w.op] := by simp [opsAt, hw]
      rw [hone] at hsteady ⊢
      exact ⟨hsteady.1, hsteady.2, fun op => List.mem_cons_of_mem _⟩
    · have hnone : opsAt [w] (outPin o) = [] := opsAt_of_ne (by simpa using hw)
      rw [hnone] at hsteady ⊢
      exact ⟨Or.inl rfl, hsteady, fun op hop => hop⟩
  refine ⟨⟨⟨h.tripped.inv.write _, h.tripped.mode, h.tripped.trip⟩, fun o ho op hop => ?_,
    fun o ho => (hpad o ho).2.1⟩, rfl, rfl, fun o ho => (hpad o ho).1⟩
  exact h.holds o ho op ((hpad o ho).2.2 op hop)

/-- The writes of a tick that leaves the trip latched: the tick that trips brings the outputs
to their error values, and a later one keeps them there. -/
theorem Started.safe {c c' : Chip} {ops : List PortOp} (h : Started c c' ops)
    (hparsed : c.pio.Parsed) (htripped : c'.Tripped)
    (hheld : c.pio.ilTripped = true → ∀ o ∈ c.pio.il.outputs, c.outDrive o = c.pio.errDrive o)
    (hline : c.pio.ilTripped = false → c.pio.LineSpared) :
    (⟨c', ops⟩ : PioLoop).Safe := by
  have hil : c'.pio.il = c.pio.il := h.tick.il
  have herr : ∀ o, c'.pio.errDrive o = c.pio.errDrive o := fun o => errDrive_congr h.tick.od
  have hwrites : ∀ o ∈ c.pio.il.outputs,
      (∀ op ∈ opsAt ops (outPin o), op.Holds (c.pio.errDrive o)) ∧
        (c.port (outPin o)).Steady (c.pio.errDrive o) (opsAt ops (outPin o)) := by
    intro o ho
    rcases h.tick.ops with ⟨htrip, hops⟩ | ⟨hfree, -, hops⟩ <;> dsimp only at hops
    · have hholds : ∀ op ∈ opsAt ops (outPin o), op.Holds (c.pio.errDrive o) := by
        rcases hops with hops | ⟨-, hops⟩ <;> rw [hops]
        · exact fun op hop => absurd hop List.not_mem_nil
        · exact driveSafe_holds hparsed ho
      exact ⟨hholds, steady_of_holds hholds (hheld (htrip.symm.trans htripped.trip) o ho)⟩
    · have hint := int_holds (hline hfree) ho
      rw [hops, opsAt_append]
      refine ⟨fun op hop => ?_, (driveSafe_steady hparsed ho _).append hint⟩
      rcases List.mem_append.mp hop with hop | hop
      · exact driveSafe_holds hparsed ho op hop
      · exact hint op hop
  refine ⟨htripped, fun o ho => ?_, fun o ho => ?_⟩
  · rw [herr]
    exact (hwrites o (hil ▸ ho)).1
  · rw [herr, h.port]
    exact (hwrites o (hil ▸ ho)).2

/-- Nothing pending, the outputs are at their error values. -/
theorem PioLoop.Safe.drive (h : m.Safe) (hpending : m.pending = []) (ho : o ∈ m.chip.pio.il.outputs) :
    m.chip.outDrive o = m.chip.pio.errDrive o := by
  have hsteady := h.steady o ho
  rw [hpending] at hsteady
  exact hsteady

theorem safe_tick (h : m.Safe) (htrip : m.tick.chip.pio.ilTripped = true) :
    m.tick.Safe ∧ OutStep m m.tick := by
  unfold PioLoop.tick at htrip ⊢
  split
  next hpending =>
    rw [hpending] at htrip
    have hs := started h.tripped.mode
    have hdrive := fun o ho => h.drive (o := o) hpending ho
    refine ⟨hs.safe h.tripped.inv.parsed ⟨h.tripped.inv.pioTickStart, hs.mode.trans h.tripped.mode,
      htrip⟩ (fun _ => hdrive) (fun hfree => ?_), hs.tick.il, hs.tick.od, fun o _ => Or.inl ?_⟩
    · exact absurd (hfree.symm.trans h.tripped.trip) Bool.false_ne_true
    · exact congrArg (fun port : Port => (port (outPin o)).drive) hs.port
  next w pending hpending => exact safe_write h hpending

/-- An event that comes between two writes of a tick. -/
theorem safe_chip (h : m.Safe) {ce : ChipEvent} (he : ce ≠ .pioTick)
    (hagrees : m.chip.LatchAgrees ce) (htrip : (m.chip.next ce).pio.ilTripped = true) :
    ({ m with chip := m.chip.next ce } : PioLoop).Safe ∧
      OutStep m { m with chip := m.chip.next ce } := by
  have hs := next_safe h.tripped he hagrees htrip
  have herr : ∀ o, (m.chip.next ce).pio.errDrive o = m.chip.pio.errDrive o :=
    fun o => errDrive_congr hs.od
  have htripped : (m.chip.next ce).Tripped :=
    ⟨h.tripped.inv.next ce, h.tripped.tripInPio.next ce htrip, htrip⟩
  refine ⟨⟨htripped, fun o ho => ?_, fun o ho => ?_⟩, hs.il, hs.od, fun o ho => ?_⟩
  · rw [herr]
    exact h.holds o (hs.il ▸ ho)
  · have ho' : o ∈ m.chip.pio.il.outputs := hs.il ▸ ho
    rw [herr]
    rcases hs.pad o ho' with hsame | herr'
    · rw [hsame]
      exact h.steady o ho'
    · exact steady_of_holds (h.holds o ho') herr'
  · exact (hs.pad o ho).imp (congrArg Pad.drive) id

theorem safe_next (h : m.Safe) (hheld : m.Held e) : (m.next e).Safe ∧ OutStep m (m.next e) := by
  obtain ⟨htrip, hagrees⟩ := hheld
  cases e with
  | tick => exact safe_tick h htrip
  | chip ce =>
      by_cases he : ce = .pioTick
      · subst he
        exact safe_tick h htrip
      · rw [next_chip he] at htrip ⊢
        exact safe_chip h he (hagrees ce rfl) htrip

/-! ## Runs -/

structure PioLoop.Inv (m : PioLoop) : Prop where
  chip : m.chip.Inv
  trip : m.chip.TripInPio

theorem inv_tick (h : m.Inv) : m.tick.Inv := by
  unfold PioLoop.tick
  split
  next => exact ⟨h.chip.pioTickStart, h.trip.next .pioTick⟩
  next => exact ⟨h.chip.write _, h.trip⟩

theorem inv_next (h : m.Inv) (e : PioEvent) : (m.next e).Inv := by
  cases e with
  | tick => exact inv_tick h
  | chip ce =>
      by_cases he : ce = .pioTick
      · subst he
        exact inv_tick h
      · rw [next_chip he]
        exact ⟨h.chip.next ce, h.trip.next ce⟩

theorem loop_inv (cfg : Config.Client) (es : List PioEvent) :
    (run PioLoop.next (.boot cfg) es).Inv :=
  Runs.run_invariant (fun _ e h => inv_next h e)
    ⟨chip_inv cfg [], fun htrip => absurd htrip Bool.false_ne_true⟩

/-- What a run leaves of the outputs. -/
theorem run_safe (h : m.Safe) {es : List PioEvent} (halong : Along PioLoop.next PioLoop.Held m es) :
    let s := run PioLoop.next m es
    s.Safe ∧ s.chip.pio.il = m.chip.pio.il ∧ s.chip.pio.od = m.chip.pio.od :=
  Runs.run_along
    (P := fun s => s.Safe ∧ s.chip.pio.il = m.chip.pio.il ∧ s.chip.pio.od = m.chip.pio.od)
    (fun _ _ ⟨h, hil, hod⟩ hheld =>
      have hstep := safe_next h hheld
      ⟨hstep.1, hstep.2.il.trans hil, hstep.2.od.trans hod⟩) halong ⟨h, rfl, rfl⟩

/-- An output that is at its error value stays there. -/
theorem run_drive (h : m.Safe) {es : List PioEvent}
    (halong : Along PioLoop.next PioLoop.Held m es) (ho : o ∈ m.chip.pio.il.outputs)
    (hdrive : m.chip.outDrive o = m.chip.pio.errDrive o) :
    (run PioLoop.next m es).chip.outDrive o = m.chip.pio.errDrive o := by
  refine (Runs.run_along
    (P := fun s => s.Safe ∧ o ∈ s.chip.pio.il.outputs ∧
      s.chip.pio.errDrive o = m.chip.pio.errDrive o ∧ s.chip.outDrive o = m.chip.pio.errDrive o)
    (fun s e ⟨hsafe, ho, herr, hdrive⟩ hheld => ?_) halong ⟨h, ho, rfl, hdrive⟩).2.2.2
  obtain ⟨hsafe', hstep⟩ := safe_next hsafe hheld
  refine ⟨hsafe', hstep.il ▸ ho, (errDrive_congr hstep.od).trans herr, ?_⟩
  rcases hstep.drive o ho with hsame | hsame
  · exact hsame.trans hdrive
  · exact hsame.trans herr

end Loop

/-- From the tick that trips on, while the trip stays latched and the output latch agrees with
it, nothing drives an output of the interlock to anything but its error value, and once the
writes of that tick are made each output is at it. -/
theorem tripped_safe (cfg : Config.Client) (before : List PioEvent) :
    let m := run PioLoop.next (.boot cfg) before
    m.pending = [] → m.chip.pio.ilTripped = false →
      (m.next .tick).chip.pio.ilTripped = true → m.chip.pio.LineSpared →
      ∀ es, Along PioLoop.next PioLoop.Held (m.next .tick) es →
        let s := run PioLoop.next (m.next .tick) es
        ∀ o ∈ s.chip.pio.il.outputs,
          (∀ e, s.Held e → (s.next e).chip.outDrive o = s.chip.outDrive o ∨
            (s.next e).chip.outDrive o = s.chip.pio.errDrive o) ∧
          ((∃ soFar, soFar <+: es ∧ (run PioLoop.next (m.next .tick) soFar).pending = []) →
            s.chip.outDrive o = s.chip.pio.errDrive o) := by
  intro m hpending hfree htrip hline es halong s o ho
  have hinv : m.Inv := loop_inv cfg before
  have hnext : m.next .tick = ⟨m.chip.pioTickStart.1, m.chip.pioTickStart.2⟩ := by
    show m.tick = _
    rw [PioLoop.tick, hpending]
  have hmode : m.chip.mode = .pio := by
    by_contra hne
    rw [hnext, Chip.pioTickStart, if_neg hne] at htrip
    exact absurd (hfree.symm.trans htrip) Bool.false_ne_true
  have hstart : (m.next .tick).Safe := by
    rw [hnext] at htrip ⊢
    have hs := started hmode
    exact hs.safe hinv.chip.parsed ⟨hinv.chip.pioTickStart, hs.mode.trans hmode, htrip⟩
      (fun h => absurd (hfree.symm.trans h) Bool.false_ne_true) (fun _ => hline)
  obtain ⟨hsafe, -, -⟩ := run_safe hstart halong
  refine ⟨fun e hheld => (safe_next hsafe hheld).2.drive o ho, ?_⟩
  rintro ⟨soFar, ⟨rest, rfl⟩, hdone⟩
  obtain ⟨hsoFar, hrest⟩ := Runs.along_append.mp halong
  obtain ⟨hmid, -, -⟩ := run_safe hstart hsoFar
  have hs : s = run PioLoop.next (run PioLoop.next (m.next .tick) soFar) rest := Runs.run_append
  obtain ⟨-, hil, hod⟩ := run_safe hmid hrest
  rw [hs] at ho ⊢
  have ho' := hil ▸ ho
  exact (run_drive hmid hrest ho' (hmid.drive hdone ho')).trans (errDrive_congr hod).symm

/-- D1 is an output channel and the output of an interlock on D0. -/
def lampFiles : List (Config.Name × List Byte) :=
  [(gpmpName, [1, 2, 0, 0, 0]),
    (ilcfName, "a;cfg[D0:in,D1:out];watch[D0:eq:1];out_ok[D1:1];out_err[D1:0]".toList.map
      fun c => .ofNat 8 c.toNat)]

theorem tick_trip {m : PioLoop} (h : m.chip.pio.ilTripped = true) :
    m.tick.chip.pio.ilTripped = true := by
  unfold PioLoop.tick
  split
  next =>
    by_cases hmode : m.chip.mode = .pio
    · rcases (started hmode).tick.ops with ⟨htrip, -⟩ | ⟨-, htrip, -⟩
      · exact htrip.trans h
      · exact htrip
    · rw [Chip.pioTickStart, if_neg hmode]
      exact h
  next => exact h

/-- Ticks leave a trip latched. -/
theorem along_held_ticks (n : Nat) {m : PioLoop} (h : m.chip.pio.ilTripped = true) :
    Along PioLoop.next PioLoop.Held m (List.replicate n .tick) := by
  induction n generalizing m with
  | zero => trivial
  | succ n ih => exact ⟨⟨tick_trip h, fun _ hce => PioEvent.noConfusion hce⟩, ih (tick_trip h)⟩

/-- The writes of the trip, the master writes the error value to the latch, and more ticks. -/
def latchLow : List PioEvent :=
  List.replicate 4 .tick ++ [.chip (.regWrite 0x14 0), .tick, .tick]

theorem tripped_safe_lamp :
    let m := run PioLoop.next (.boot (holding lampFiles)) [.chip (.regWrite regMode 1)]
    let s := run PioLoop.next (m.next .tick) latchLow
    s.chip.pio.il.outputs.length = 1 ∧
      ∀ o ∈ s.chip.pio.il.outputs, s.chip.outDrive o = s.chip.pio.errDrive o := by
  have hsafe := tripped_safe (holding lampFiles) [.chip (.regWrite regMode 1)]
  dsimp only at hsafe ⊢
  generalize hm : run PioLoop.next (.boot (holding lampFiles)) [.chip (.regWrite regMode 1)] = m
    at hsafe ⊢
  have htrip : (m.next .tick).chip.pio.ilTripped = true := by subst hm; decide +kernel
  have hline : m.chip.pio.LineSpared := by
    unfold Pio.LineSpared
    subst hm
    decide +kernel
  generalize hwritten : run PioLoop.next (m.next .tick) (List.replicate 4 .tick) = w
  have herr : ∀ o ∈ w.chip.pio.il.outputs, o.errValue = 0 := by
    subst hwritten hm
    decide +kernel
  have hlatch : (w.next (.chip (.regWrite 0x14 0))).chip.pio.ilTripped = true := by
    subst hwritten hm
    decide +kernel
  have halong : Along PioLoop.next PioLoop.Held (m.next .tick) latchLow := by
    refine Runs.along_append.mpr ⟨along_held_ticks 4 htrip, ?_⟩
    rw [hwritten]
    refine ⟨⟨hlatch, ?_⟩, along_held_ticks 2 hlatch⟩
    rintro _ ⟨⟩ reg val ⟨⟩ _ o ho ch _ _
    rw [herr o ho]
    simp
  have hheld := hsafe (by subst hm; decide +kernel) (by subst hm; decide +kernel) htrip hline
    latchLow halong
  have hdone : (run PioLoop.next (m.next .tick) latchLow).pending = [] := by
    subst hm
    decide +kernel
  refine ⟨?_, fun o ho => (hheld o ho).2 ⟨_, List.prefix_refl _, hdone⟩⟩
  subst hm
  decide +kernel

/-- After the trip, a write to the latch drives the output against its error value. -/
theorem not_tripped_safe :
    let m := run PioLoop.next (.boot (holding lampFiles)) [.chip (.regWrite regMode 1)]
    let s := run PioLoop.next (m.next .tick) (List.replicate 4 .tick)
    let s' := s.next (.chip (.regWrite 0x14 2))
    s.pending = [] ∧ s'.chip.pio.ilTripped = true ∧
      ∃ o ∈ s'.chip.pio.il.outputs, s'.chip.pio.errDrive o = some false ∧
        s'.chip.outDrive o = some true := by
  decide +kernel

end SlowBus.Modes
