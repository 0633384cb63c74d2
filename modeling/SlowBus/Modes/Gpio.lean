import SlowBus.Modes.Board

/-!
# The GPIO expander and its interlock

Eight channels with a commissioned direction, pull and open-drain map; the master only
writes levels. A tick evaluates the armed interlock against the pins. A trip is latched:
the outputs of the interlock go to their error values, over what the master wrote, and
the interrupt line is asserted until the master acknowledges it.
-/

namespace SlowBus.Modes

open Bus (Byte)
open Interlock (Inst Watch ilDnfResult)

/-! ## The trip snapshot, shared by the interlocks -/

/-- `g_il_snap` and its index: what the inputs read at the trip, with their roles, and
what the outputs were driven to. -/
structure Snapshot where
  valid : Bool := false
  inVals : List (Nat × Nat) := []
  outVals : List (Nat × Nat) := []
  sel : Byte := 0
  deriving DecidableEq, Repr

/-- `il_snap_capture`; the first trip is kept. -/
def Snapshot.capture (s : Snapshot) (inst : Inst) (vals : List Nat) : Snapshot :=
  if s.valid then s
  else { s with
    valid := true
    inVals := (inst.inputs.zip vals).map fun iv =>
      (iv.2, if iv.1.mode = .adc ∨ iv.1.mode = .adcStream then 2 else 1)
    outVals := inst.outputs.map fun o => (o.physId, o.errValue) }

/-- `il_snap_clear` -/
def Snapshot.clear (s : Snapshot) : Snapshot := { s with valid := false, sel := 0 }

/-- `il_snap_reg_write` -/
def Snapshot.regWrite (s : Snapshot) (reg val : Byte) : Snapshot :=
  if reg = 0x33 then { s with sel := val } else s

/-! ## The expander -/

structure Pio where
  /-- Input channels. -/
  iodir : Byte := 0xFF
  gppu : Byte := 0
  gppd : Byte := 0
  od : Byte := 0
  ipol : Byte := 0
  olat : Byte := 0
  inShadow : Byte := 0
  il : Inst := {}
  ilValid : Bool := false
  ilTripped : Bool := false
  ilState : Byte := 0
  ilNextMs : BitVec 32 := 0

/-- The pad as an input with the pull-up on. -/
def pullUpOps : List PadOp := [.outSet, .pincfg true true]

/-- A level on an output that may be open-drain: 1 releases the line. -/
def driveOps (od pullUp level : Bool) : List PadOp :=
  if od && level then .dirClr :: (if pullUp then pullUpOps else [])
  else [outLevel level, .dirSet]

/-- `pio_drive_ch_out` -/
def Pio.driveChOut (r : Pio) (ch : Fin 8) : List PadOp :=
  driveOps (r.od.getLsbD ch) (r.gppu.getLsbD ch) (r.olat.getLsbD ch)

/-- `pio_apply_ch` -/
def Pio.applyCh (r : Pio) (ch : Fin 8) : List PadOp :=
  if r.iodir.getLsbD ch then
    .dirClr :: (if r.gppu.getLsbD ch then pullUpOps
      else if r.gppd.getLsbD ch then [.outClr, .pincfg true true]
      else [.pincfg true false])
  else .pincfg true false :: r.driveChOut ch

/-- `pio_apply_all` -/
def Pio.applyAll (r : Pio) : List PortOp :=
  (List.finRange 8).flatMap fun ch => (bankPad ch).on (r.applyCh ch)

/-- The writes of `pio_update_outputs`. -/
def Pio.updateOutputs (r : Pio) : List PortOp :=
  (List.finRange 8).flatMap fun ch =>
    (bankPad ch).on (if r.iodir.getLsbD ch then [] else r.driveChOut ch)

/-- `pio_sample_inputs` -/
def Pio.sampleInputs (r : Pio) (w : World) : Pio :=
  { r with
    inShadow := (List.finRange 8).foldl
      (fun v ch => if w.levels (bankPad ch) then v ||| .twoPow 8 ch else v) 0 }

/-- `pio_safe_all` -/
def Pio.safeAll (r : Pio) : Pio × List PortOp :=
  ({ r with iodir := 0xFF, olat := 0, gppu := 0, gppd := 0, od := 0 },
    (List.finRange 8).flatMap fun ch => (bankPad ch).on [.dirClr, .pincfg true false])

/-- `gpmp_apply` -/
def Pio.gpmpApply (r : Pio) (file : Option (List Byte)) : Pio :=
  match file with
  | some (ver :: dir :: pullen :: out :: last :: rest) =>
      let map (od : Byte) : Pio := { r with
        od
        iodir := ~~~dir
        olat := out
        gppu := pullen &&& out
        gppd := pullen &&& ~~~out }
      if ver = 2 ∧ rest ≠ [] then map last
      else if ver = 1 then map 0
      else r
  | _ => r

/-! ## Driving interlock outputs -/

/-- The channel at a pad. -/
def bankAt (p : Pin) : Option (Fin 8) := (List.finRange 8).find? fun ch => bankPad ch = p

/-- The writes of `pio_phys_drive`, which knows the channels that are open-drain. -/
def Pio.physDriveOps (r : Pio) (p : Pin) (v : Bool) : List PadOp :=
  match bankAt p with
  | some ch => driveOps (r.od.getLsbD ch) (r.gppu.getLsbD ch) v
  | none => driveOps false false v

/-- `pio_phys_drive` -/
def Pio.physDrive (r : Pio) (phys : Nat) (v : Bool) : List PortOp :=
  (Pin.ofPhys phys).on (r.physDriveOps (.ofPhys phys) v)

/-- `il_drive_output`, for the modes whose outputs carry their own open-drain flag. -/
def ilDriveOutput (phys : Nat) (value : Bool) (od : Nat) : List PortOp :=
  (Pin.ofPhys phys).on
    (if od ≠ 0 ∧ value then
      .dirClr :: (if od = 2 then [.outSet] else []) ++ [.pincfg true (decide (od = 2))]
    else [.pincfg true false, outLevel value, .dirSet])

/-- `pio_int_assert` -/
def pioIntAssert (on : Bool) : List PortOp :=
  intPad.on (if on then [.outClr, .dirSet] else [.dirClr, .outSet, .pincfg true true])

/-! ## The interlock -/

/-- `pio_watch_pass`: the pin is read as a digital level, whatever the input is. -/
def pioWatchPass (inst : Inst) (w : World) (watch : Watch) : Bool :=
  let phys := (inst.inputs[watch.inputIdx]?).elim 0 (·.physId)
  watch.op.holds (if w.levels (.ofPhys phys) then 1 else 0) watch.threshold

/-- The condition of a GPIO tick. -/
def pioCondition (inst : Inst) (w : World) : Option Bool :=
  ilDnfResult inst.watches (inst.watches.map (pioWatchPass inst w))

/-- `pio_il_drive_safe` -/
def Pio.driveSafe (r : Pio) : List PortOp :=
  r.il.outputs.flatMap fun o => r.physDrive o.physId (o.errValue != 0)

/-- The state byte of an interlock after an evaluation. -/
def ilStateByte (tripped allPass : Bool) : Byte :=
  (if tripped then 1 else 0) ||| (if allPass then 2 else 0) ||| 4

/-- `pio_il_arm` -/
def Pio.arm (r : Pio) (file : Option (List Byte)) : Pio × List PortOp :=
  let r := { r with ilValid := false, ilTripped := false, ilState := 0 }
  let armed :=
    match file with
    | none | some [] => r
    | some bytes =>
        match ilParse false bytes with
        | some inst => { r with il := inst, ilValid := !inst.watches.isEmpty }
        | none => r
  (armed, pioIntAssert false)

/-- `pio_il_disarm` -/
def Pio.disarm (r : Pio) : Pio × List PortOp :=
  ({ r with ilValid := false, ilTripped := false }, pioIntAssert false)

/-- Whether the millisecond gate of a tick is open. -/
def gateOpen (now next : BitVec 32) : Bool := decide (0 ≤ (now - next).toInt)

/-- What a tick leaves: the expander, the trip flag to raise, the snapshot and the
writes still to be made. -/
structure PioTick where
  pio : Pio
  trip : Bool := false
  snap : Snapshot
  ops : List PortOp := []

/-- `pio_tick` in GPIO mode, up to its writes to the port. -/
def Pio.tick (r : Pio) (snap : Snapshot) (w : World) : PioTick :=
  if !gateOpen w.millis r.ilNextMs then { pio := r, snap }
  else
    let r := { r with ilNextMs := w.millis + 1 }.sampleInputs w
    if !r.ilValid then { pio := r, snap }
    else
      match pioCondition r.il w with
      | none => { pio := r, snap }
      | some allPass =>
          let r := { r with ilState := ilStateByte r.ilTripped allPass }
          if r.ilTripped then { pio := r, snap, ops := r.driveSafe }
          else if allPass then { pio := r, snap }
          else
            let vals := r.il.inputs.map fun i => if w.levels (.ofPhys i.physId) then 1 else 0
            { pio := { r with ilTripped := true }
              trip := true
              snap := snap.capture r.il vals
              ops := r.driveSafe ++ pioIntAssert true }

/-- `pio_il_manual_reset` -/
def Pio.manualReset (r : Pio) (snap : Snapshot) (w : World) : Pio × Snapshot × List PortOp :=
  if r.ilTripped then
    let r := { r with ilTripped := false }
    (r.sampleInputs w, snap.clear, pioIntAssert false ++ r.updateOutputs)
  else (r, snap, [])

/-- `pio_reg_write`: the wiring is fixed, the levels and the read polarity are not. -/
def Pio.regWrite (r : Pio) (w : World) (reg val : Byte) : Pio × List PortOp :=
  if reg = 0x12 then ({ r with ipol := val }, [])
  else if reg = 0x13 ∨ reg = 0x14 then
    let r := { r with olat := val }
    (r.sampleInputs w, r.updateOutputs)
  else (r, [])

end SlowBus.Modes
