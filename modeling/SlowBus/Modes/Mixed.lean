import SlowBus.Modes.Bench
import SlowBus.Modes.Gpio

/-!
# The mixed and the converter mode

MIXED configures its eight pads from the `mxmp` file and runs an interlock over digital
and converted inputs, whose pins it claims from the hardware layer. ADC samples one
channel and runs an interlock over its statistics.
-/

namespace SlowBus.Modes

open Bus (Byte)
open Interlock (Inst Input Watch ilDnfResult HalMode ClaimStatus debounceStep)

/-! ## MIXED -/

def mxmpVersion : Byte := 1
def mxmpIn : Byte := 1
def mxmpInPu : Byte := 2
def mxmpInPd : Byte := 3
def mxmpOut : Byte := 4
def mxmpOc : Byte := 5
def mxmpOcPu : Byte := 6
def mxmpAdc : Byte := 7
def mxmpDac : Byte := 8

/-- The slot under which MIXED claims its pins. -/
def mixedIlSlot : Nat := 7

structure Mixed where
  role : Fin 8 → Byte := fun _ => 0
  deb : Fin 8 → Byte := fun _ => 0
  dacEn : Bool := false
  il : Inst := {}
  ilValid : Bool := false
  ilTripped : Bool := false
  ilState : Byte := 0
  chSel : Byte := 0
  sr : Nat → Nat := fun _ => 0
  debounced : Nat → Nat := fun _ => 0
  adcVal : Nat → Nat := fun _ => 0
  gpioRaw : Byte := 0
  gpioDeb : Byte := 0
  nextMs : BitVec 32 := 0

/-- `mxmp_pad_safe` -/
def mxmpPadSafe : List PadOp := [.pmuxen false, .dirClr, .outClr, .pincfg false false]

/-- The writes that give a pad its role; `dac` is routed on entry to the mode. -/
def mxmpRoleOps (role : Byte) : List PadOp :=
  if role = mxmpIn then [.pmuxen false, .dirClr, .pincfg true false]
  else if role = mxmpInPu then [.pmuxen false, .dirClr, .outSet, .pincfg true true]
  else if role = mxmpInPd then [.pmuxen false, .dirClr, .outClr, .pincfg true true]
  else if role = mxmpOut then [.pmuxen false, .outClr, .dirSet, .pincfg true false]
  else if role = mxmpOc then [.pmuxen false, .dirClr, .pincfg true false]
  else if role = mxmpOcPu then [.pmuxen false, .dirClr, .outSet, .pincfg true true]
  else if role = mxmpAdc then [.pmuxen true]
  else if role = mxmpDac then []
  else mxmpPadSafe

/-- The byte of a pad in a `mxmp` file; zero, a safe pad, without a file to read. -/
def mxmpByte (file : Option (List Byte)) (ch : Fin 8) : Byte :=
  match file with
  | some (v :: bytes) => if v = mxmpVersion ∧ 8 ≤ bytes.length then bytes.getD ch 0 else 0
  | _ => 0

def mxmpRole (file : Option (List Byte)) (ch : Fin 8) : Byte := mxmpByte file ch &&& 0x0F

/-- `mxmp_apply` -/
def Mixed.apply (m : Mixed) (file : Option (List Byte)) : Mixed × List PortOp :=
  ({ m with
      role := mxmpRole file
      deb := fun ch => mxmpByte file ch >>> 4
      dacEn := (List.finRange 8).any fun ch => mxmpRole file ch == mxmpDac },
    (List.finRange 8).flatMap fun ch => (bankPad ch).on (mxmpRoleOps (mxmpRole file ch)))

/-- The claims of the inputs and then the outputs, up to the first that fails. -/
structure ClaimRun where
  status : ClaimStatus := .ok
  claims : Claims
  ops : List PortOp := []

def ClaimRun.next (c : ClaimRun) (r : ClaimStatus × Claims × List PortOp) : ClaimRun :=
  ⟨r.1, r.2.1, c.ops ++ r.2.2⟩

/-- The claim of one input; a virtual input has no pin. -/
def ClaimRun.input (c : ClaimRun) (i : Input) : ClaimRun :=
  if c.status ≠ .ok then c
  else
    match i.mode with
    | .virtual => c
    | .adc => c.next (halPinClaimAdc c.claims i.physId mixedIlSlot i.oversampleExp i.shCyc)
    | .input => c.next (halPinClaim c.claims i.physId mixedIlSlot .gpioIn)
    | .inputPullUp => c.next (halPinClaim c.claims i.physId mixedIlSlot .gpioInPu)
    | .inputPullDown => c.next (halPinClaim c.claims i.physId mixedIlSlot .gpioInPd)
    | _ => { c with status := .badMode }

def ClaimRun.output (c : ClaimRun) (o : Interlock.Output) : ClaimRun :=
  if c.status ≠ .ok then c
  else c.next (halPinClaimOutput c.claims o.physId mixedIlSlot o.okValue o.errValue)

/-- `mixed_claim_pins` -/
def mixedClaimPins (inst : Inst) (claims : Claims) : ClaimRun :=
  let c := inst.outputs.foldl ClaimRun.output (inst.inputs.foldl ClaimRun.input { claims })
  if c.status = .ok then c
  else
    let (claims, ops) := halPinReleaseSlot c.claims mixedIlSlot
    { c with claims, ops := c.ops ++ ops }

/-- `mixed_il_arm` -/
def Mixed.arm (m : Mixed) (claims : Claims) (file : Option (List Byte)) (w : World) :
    Mixed × Claims × List PortOp :=
  let m := { m with
    ilValid := false
    ilTripped := false
    ilState := 0
    sr := fun _ => 0
    debounced := fun _ => 0
    adcVal := fun _ => 0
    gpioRaw := 0
    gpioDeb := 0
    nextMs := w.millis }
  let int := intPad.on [.pincfg true false, .dirClr]
  match file with
  | none | some [] => (m, claims, int)
  | some bytes =>
      match ilParse false bytes with
      | none => (m, claims, int)
      | some inst =>
          let m := { m with il := inst }
          if inst.watches.isEmpty then (m, claims, int)
          else
            let c := mixedClaimPins inst claims
            ({ m with ilValid := decide (c.status = .ok) }, c.claims, int ++ c.ops)

/-- `mixed_il_disarm` -/
def Mixed.disarm (m : Mixed) (claims : Claims) : Mixed × Claims × List PortOp :=
  let (claims, ops) := halPinReleaseSlot claims mixedIlSlot
  ({ m with ilValid := false, ilTripped := false }, claims, pioIntAssert false ++ ops)

/-- `mixed_il_drive_safe` and `mixed_il_drive_ok` -/
def Mixed.drive (m : Mixed) (ok : Bool) : List PortOp :=
  m.il.outputs.flatMap fun o =>
    ilDriveOutput o.physId ((if ok then o.okValue else o.errValue) != 0) o.openDrain

/-- `mixed_il_manual_reset` -/
def Mixed.manualReset (m : Mixed) (snap : Snapshot) : Mixed × Snapshot × List PortOp :=
  if m.ilTripped then
    ({ m with ilTripped := false }, snap.clear, pioIntAssert false ++ m.drive true)
  else (m, snap, [])

/-- One input of a MIXED tick: the value the watches see, and the input's own cells. -/
def Mixed.readInput (m : Mixed) (claims : Claims) (w : World) (k : Nat) (i : Input) : Nat × Mixed :=
  if i.mode = .adc then
    let v := halPinReadAdc claims w i.physId
    (v, { m with adcVal := Function.update m.adcVal k v })
  else
    let raw := halPinRead w i.physId
    let (level, m) :=
      if 2 ≤ i.debounceDepth then
        let (sr, deb) := debounceStep i.debounceDepth (m.sr k) (m.debounced k) raw
        (deb, { m with
          sr := Function.update m.sr k sr
          debounced := Function.update m.debounced k deb })
      else (raw, { m with debounced := Function.update m.debounced k raw })
    (level, { m with
      gpioRaw := if raw ≠ 0 then m.gpioRaw ||| .twoPow 8 k else m.gpioRaw
      gpioDeb := if level ≠ 0 then m.gpioDeb ||| .twoPow 8 k else m.gpioDeb })

/-- The input loop of `mixed_tick`, from index `k`. -/
def Mixed.readInputs (claims : Claims) (w : World) : Nat → List Input → Mixed → List Nat × Mixed
  | _, [], m => ([], m)
  | k, i :: rest, m =>
      let (v, m) := m.readInput claims w k i
      let (vals, m) := Mixed.readInputs claims w (k + 1) rest m
      (v :: vals, m)

/-- The pads that the input loop gives to the converter. -/
def Mixed.readOps (m : Mixed) (claims : Claims) : List PortOp :=
  m.il.inputs.flatMap fun i => if i.mode = .adc then halPinReadAdcOps claims i.physId else []

/-- `mixed_watch_pass` -/
def mixedWatchPass (vals : List Nat) (watch : Watch) : Bool :=
  watch.op.holds (vals.getD watch.inputIdx 0) watch.threshold

/-- The condition of a MIXED tick, and the cells it leaves. -/
def Mixed.condition (m : Mixed) (claims : Claims) (w : World) : Option Bool × List Nat × Mixed :=
  let (vals, m) := Mixed.readInputs claims w 0 m.il.inputs { m with gpioRaw := 0, gpioDeb := 0 }
  (ilDnfResult m.il.watches (m.il.watches.map (mixedWatchPass vals)), vals, m)

structure MixedTick where
  mixed : Mixed
  trip : Bool := false
  snap : Snapshot
  ops : List PortOp := []

/-- `mixed_tick` in MIXED mode. -/
def Mixed.tick (m : Mixed) (snap : Snapshot) (claims : Claims) (w : World) : MixedTick :=
  if !m.ilValid || !gateOpen w.millis m.nextMs then { mixed := m, snap }
  else
    let reads := m.readOps claims
    match { m with nextMs := w.millis + 10 }.condition claims w with
    | (none, _, m) => { mixed := m, snap, ops := reads }
    | (some allPass, vals, m) =>
        let m := { m with ilState := ilStateByte m.ilTripped allPass }
        if m.ilTripped then { mixed := m, snap, ops := reads ++ m.drive false }
        else if allPass then { mixed := m, snap, ops := reads ++ m.drive true }
        else
          { mixed := { m with ilTripped := true }
            trip := true
            snap := snap.capture m.il vals
            ops := reads ++ (m.drive false ++ pioIntAssert true) }

/-- `mixed_reg_write`; the generator is open when D0 was commissioned as its output. -/
def Mixed.regWrite (m : Mixed) (d : Dac) (reg val : Byte) : Mixed × Dac × List PortOp :=
  if reg = 0x10 then
    (if val.toNat < ilMaxInputs then { m with chSel := val } else m, d, [])
  else if m.dacEn then
    match d.regWrite false reg val with
    | some (d, ops) => (m, d, ops)
    | none => (m, d, [])
  else (m, d, [])

/-! ## ADC -/

/-- The sampler's channel, A1. -/
def adcPad : Pin := channelPad 1

structure Adc where
  running : Bool := false
  winSel : Byte := 0
  il : Inst := {}
  ilValid : Bool := false
  ilTripped : Bool := false
  ilState : Byte := 0

/-- `adc_mode_setup` -/
def Adc.setup (a : Adc) (d : Dac) : Adc × Dac × List PortOp :=
  let (d, ops) := d.bringUp
  ({ a with running := true }, { d with active := true }, adcPad.on [.pmuxen true] ++ ops)

/-- `adc_sampler_stop` -/
def Adc.stop (a : Adc) (d : Dac) : Adc × Dac :=
  ({ a with running := false }, { d with active := false })

/-- `adc_stream_value`; A1 is the only channel. -/
def adcStreamValue (w : World) (i : Input) : Nat :=
  if i.physId = 4 then
    w.stream (if i.oversampleExp ≤ 4 then i.oversampleExp else 0) (if i.shCyc < 3 then i.shCyc else 0)
  else 0

/-- `adc_il_drive` -/
def Adc.drive (a : Adc) (ok : Bool) : List PortOp :=
  a.il.outputs.flatMap fun o =>
    ilDriveOutput o.physId ((if ok then o.okValue else o.errValue) != 0) o.openDrain

/-- `adc_il_arm` -/
def Adc.arm (a : Adc) (file : Option (List Byte)) : Adc × List PortOp :=
  let a := { a with ilValid := false, ilTripped := false, ilState := 0 }
  match file.bind (ilParse true) with
  | none => (a, [])
  | some inst =>
      let a := { a with il := inst }
      if inst.watches.isEmpty then (a, [])
      else
        ({ a with ilValid := true },
          (inst.outputs.flatMap fun o => (Pin.ofPhys o.physId).on [.pincfg true false]) ++
            a.drive true)

structure AdcTick where
  adc : Adc
  trip : Bool := false
  snap : Snapshot
  ops : List PortOp := []

/-- `adc_il_tick` in ADC mode. -/
def Adc.tick (a : Adc) (snap : Snapshot) (w : World) : AdcTick :=
  if !a.ilValid then { adc := a, snap }
  else
    let pass (watch : Watch) : Bool :=
      watch.op.holds ((a.il.inputs[watch.inputIdx]?).elim 0 (adcStreamValue w)) watch.threshold
    match ilDnfResult a.il.watches (a.il.watches.map pass) with
    | none => { adc := a, snap }
    | some allPass =>
        let trip := !a.ilTripped && !allPass
        let tripped := a.ilTripped || trip
        let a := { a with ilState := ilStateByte a.ilTripped allPass, ilTripped := tripped }
        { adc := a
          trip
          snap := if trip then snap.capture a.il (a.il.inputs.map (adcStreamValue w)) else snap
          ops := a.drive (!tripped) }

/-- `adc_il_manual_reset` -/
def Adc.manualReset (a : Adc) (snap : Snapshot) : Adc × Snapshot × List PortOp :=
  if a.ilTripped then ({ a with ilTripped := false }, snap.clear, a.drive true) else (a, snap, [])

/-- `adc_reg_write` -/
def Adc.regWrite (a : Adc) (d : Dac) (reg val : Byte) : Adc × Dac × List PortOp :=
  if reg = 0x11 then (if val < 3 then { a with winSel := val } else a, d, [])
  else
    match d.regWrite true reg val with
    | some (d, ops) => (a, d, ops)
    | none => (a, d, [])

end SlowBus.Modes
