import SlowBus.Config.FileBank
import SlowBus.Modes.Counter
import SlowBus.Modes.Mixed
import SlowBus.Modes.Servo

/-!
# The client chip

The modes over one set of pads: `mode_leave` and `mode_enter`, the register dispatch, the
ticks of the main loop and the offline transition. What lies around the chip, its pin
levels, its clock and its converter readings, changes by events of its own.
-/

namespace SlowBus.Modes

open Bus (Byte)
open Config (Client Name)

inductive Mode where
  | idle | pio | adc | mixed | servo | counter
  deriving DecidableEq, Repr

/-- The values of the mode register up to `MODE_MAX`. -/
def Mode.ofByte (v : Byte) : Option Mode :=
  if v = 0 then some .idle
  else if v = 1 then some .pio
  else if v = 2 then some .adc
  else if v = 3 then some .mixed
  else if v = 4 then some .servo
  else if v = 5 then some .counter
  else none

/-- The names "gpmp", "mxmp", "cntr", "srvo" and "ilcf". -/
def gpmpName : Name := #v[0x67, 0x70, 0x6D, 0x70]
def mxmpName : Name := #v[0x6D, 0x78, 0x6D, 0x70]
def cntrName : Name := #v[0x63, 0x6E, 0x74, 0x72]
def srvoName : Name := #v[0x73, 0x72, 0x76, 0x6F]
def ilcfName : Name := #v[0x69, 0x6C, 0x63, 0x66]

structure Chip where
  cfg : Client
  mode : Mode := .idle
  intFlags : Byte := 0
  port : Port := .reset
  dac : Dac := {}
  bench : Bench := {}
  pio : Pio := {}
  adc : Adc := {}
  mixed : Mixed := {}
  servo : Servo := {}
  counter : Counter := {}
  snap : Snapshot := {}
  claims : Claims := fun _ => {}
  world : World := {}

/-- `store_find_str` and the bytes of the slot. -/
def Chip.file (c : Chip) (name : Name) : Option (List Byte) := c.cfg.store.lookup name

def Chip.write (c : Chip) (ops : List PortOp) : Chip := { c with port := c.port.exec ops }

def Chip.setEoen (c : Chip) (on : Bool) : Chip := { c with dac := { c.dac with eoen := on } }

/-! ## Leaving and entering a mode -/

/-- `mode_leave` -/
def Chip.modeLeave (c : Chip) : Mode → Chip
  | .idle => c
  | .pio =>
      let (pio, int) := c.pio.disarm
      let (pio, pads) := pio.safeAll
      ({ c with pio }.write (int ++ pads)).setEoen true
  | .adc =>
      let (adc, dac) := c.adc.stop c.dac
      { c with adc, dac }
  | .mixed =>
      let (mixed, claims, ops) := c.mixed.disarm c.claims
      { c with mixed, claims, dac := { c.dac with active := false } }.write ops
  | .servo =>
      let (servo, bench, ops) := c.servo.exit c.bench
      ({ c with servo, bench }.write ops).setEoen true
  | .counter =>
      let (counter, bench, dac) := c.counter.exit c.bench c.dac
      { c with counter, bench, dac }.setEoen true

/-- `mode_enter` of GPIO mode. -/
def Chip.enterPio (c : Chip) : Chip :=
  let pio := c.pio.gpmpApply (c.file gpmpName)
  let pads := pio.applyAll
  let (pio, int) := (pio.sampleInputs c.world).arm (c.file ilcfName)
  ({ c with pio, snap := c.snap.clear }.setEoen false).write (pads ++ int)

/-- `mode_enter` of ADC mode. -/
def Chip.enterAdc (c : Chip) : Chip :=
  let (adc, dac, pads) := c.adc.setup c.dac
  let (adc, outs) := adc.arm (c.file ilcfName)
  { c with adc, dac, snap := c.snap.clear }.write (pads ++ outs)

/-- `mode_enter` of MIXED mode up to its interlock. -/
def Chip.mixedPads (c : Chip) : Chip :=
  let (mixed, pads) := c.mixed.apply (c.file mxmpName)
  if mixed.dacEn then
    let (dac, ops) := c.dac.bringUp
    { c with mixed, dac := dac.idle }.write (pads ++ ops)
  else ({ c with mixed }.write pads).setEoen false

/-- `mode_enter` of MIXED mode. -/
def Chip.enterMixed (c : Chip) : Chip :=
  let c := c.mixedPads
  let (mixed, claims, ops) := c.mixed.arm c.claims (c.file ilcfName) c.world
  { c with mixed, claims, snap := c.snap.clear }.write ops

/-- `mode_enter` of SERVO mode. -/
def Chip.enterServo (c : Chip) : Chip :=
  let (servo, bench, ops) := c.servo.enter c.bench (c.file srvoName)
  ({ c with servo, bench }.setEoen false).write ops

/-- `mode_enter` of COUNTER mode. -/
def Chip.enterCounter (c : Chip) : Chip :=
  let c := c.setEoen false
  let (counter, bench, dac, ops) :=
    c.counter.enter c.bench c.dac c.world.levels (c.file cntrName)
  { c with counter, bench, dac }.write ops

/-- `mode_enter` -/
def Chip.modeEnter (c : Chip) : Mode → Chip
  | .idle => c
  | .pio => c.enterPio
  | .adc => c.enterAdc
  | .mixed => c.enterMixed
  | .servo => c.enterServo
  | .counter => c.enterCounter

/-- A write to the mode register. -/
def Chip.setMode (c : Chip) (m : Mode) : Chip :=
  if m = c.mode then c else { c.modeLeave c.mode with mode := m }.modeEnter m

/-- The nine channel pads as `mode_go_offline` leaves them, before the interrupt line. -/
def offlinePads : List PortOp :=
  (List.finRange 9).flatMap fun ch => (channelPad ch).on [.dirClr, .pincfg true false]

/-- `mode_go_offline` -/
def Chip.goOffline (c : Chip) : Chip :=
  let c := (c.modeLeave c.mode).setEoen false
  { c with
    servo := { c.servo with tc := c.servo.tc.stop }
    counter := { c.counter with running := false }
    mode := .idle
    cfg := { c.cfg with offline := true } }.write (offlinePads ++ pioIntAssert false)

/-! ## Register writes -/

/-- The mode bank, registers 0x10 to 0x3F. -/
def Chip.bankWrite (c : Chip) (reg val : Byte) : Chip :=
  if 0x30 ≤ reg ∧ (c.mode = .pio ∨ c.mode = .adc ∨ c.mode = .mixed) then
    { c with snap := c.snap.regWrite reg val }
  else
    match c.mode with
    | .idle => c
    | .pio =>
        let (pio, ops) := c.pio.regWrite c.world reg val
        { c with pio }.write ops
    | .adc =>
        let (adc, dac, ops) := c.adc.regWrite c.dac reg val
        { c with adc, dac }.write ops
    | .mixed =>
        let (mixed, dac, ops) := c.mixed.regWrite c.dac reg val
        { c with mixed, dac }.write ops
    | .servo =>
        let (servo, bench, dac, ops) := c.servo.regWrite c.bench c.dac c.world.levels reg val
        { c with servo, bench, dac }.write ops
    | .counter =>
        let (counter, bench, dac, ops) := c.counter.regWrite c.bench c.dac reg val
        { c with counter, bench, dac }.write ops

/-- `INT_FLAGS`: writing the bit of a trip acknowledges it. -/
def Chip.ackFlags (c : Chip) (val : Byte) : Chip :=
  let c : Chip := { c with intFlags := c.intFlags &&& ~~~val }
  let c : Chip :=
    if val.getLsbD 0 then
      let (pio, snap, ops) := c.pio.manualReset c.snap c.world
      { c with pio, snap }.write ops
    else c
  let c : Chip :=
    if val.getLsbD 1 ∧ c.mode = .mixed then
      let (mixed, snap, ops) := c.mixed.manualReset c.snap
      { c with mixed, snap }.write ops
    else c
  if val.getLsbD 3 ∧ c.mode = .adc then
    let (adc, snap, ops) := c.adc.manualReset c.snap
    { c with adc, snap }.write ops
  else c

def regMode : Byte := 0x02
def regIntFlags : Byte := 0x04

/-- `i2c_reg_write` -/
def Chip.regWrite (c : Chip) (reg val : Byte) : Chip :=
  if 0x10 ≤ reg ∧ reg ≤ 0x3F then c.bankWrite reg val
  else if reg = regMode then (Mode.ofByte val).elim c c.setMode
  else if reg = regIntFlags then c.ackFlags val
  else { c with cfg := c.cfg.regWrite reg val }

/-! ## Ticks of the main loop -/

/-- `pio_tick`, with its writes still to be made. -/
def Chip.pioTickStart (c : Chip) : Chip × List PortOp :=
  if c.mode = .pio then
    let t := c.pio.tick c.snap c.world
    ({ c with
        pio := t.pio
        snap := t.snap
        intFlags := if t.trip then c.intFlags ||| 0x01 else c.intFlags }, t.ops)
  else (c, [])

/-- `pio_tick` -/
def Chip.pioTick (c : Chip) : Chip := c.pioTickStart.1.write c.pioTickStart.2

/-- `adc_sample_tick` -/
def Chip.adcTick (c : Chip) : Chip :=
  if c.mode = .adc then
    let t := c.adc.tick c.snap c.world
    { c with
      adc := t.adc
      snap := t.snap
      intFlags := if t.trip then c.intFlags ||| 0x08 else c.intFlags }.write t.ops
  else c

/-- `mixed_tick` -/
def Chip.mixedTick (c : Chip) : Chip :=
  if c.mode = .mixed then
    let t := c.mixed.tick c.snap c.claims c.world
    { c with
      mixed := t.mixed
      snap := t.snap
      intFlags := if t.trip then c.intFlags ||| 0x02 else c.intFlags }.write t.ops
  else c

/-- `bench_tick` -/
def Chip.benchTick (c : Chip) : Chip :=
  let (bench, ops) := c.bench.tick c.world.oneshot
  { c with bench }.write ops

/-- `servo_tick` -/
def Chip.servoTick (c : Chip) : Chip :=
  if c.mode = .servo ∧ servoEstopActive c.world.levels then
    if c.servo.run then
      { c with servo := { c.servo with latched := true, run := false } }.write servoAllLow
    else { c with servo := { c.servo with latched := true } }
  else c

/-! ## Frame interrupts -/

/-- The frame boundary, while the timer runs. -/
def Chip.mc0 (c : Chip) : Chip :=
  if c.servo.tc.running then
    let (servo, port) := c.servo.mc0 c.port
    { c with servo, port }
  else c

/-- A compare interrupt, while the timer runs and the channel is armed. -/
def Chip.mc1 (c : Chip) : Chip :=
  if c.servo.tc.running && c.servo.tc.mc1 then
    let (servo, port) := c.servo.mc1 c.port
    { c with servo, port }
  else c

/-! ## What happens to a chip -/

inductive ChipEvent where
  | world (w : World)
  /-- One step of the store service at the head of a pass. -/
  | service
  | pioTick
  | adcTick
  | mixedTick
  | benchTick
  | servoTick
  | mc0
  | mc1
  | regWrite (reg val : Byte)
  | goOffline

def Chip.next (c : Chip) : ChipEvent → Chip
  | .world w => { c with world := w }
  | .service => { c with cfg := { c.cfg with toDevice := c.cfg.service } }
  | .pioTick => c.pioTick
  | .adcTick => c.adcTick
  | .mixedTick => c.mixedTick
  | .benchTick => c.benchTick
  | .servoTick => c.servoTick
  | .mc0 => c.mc0
  | .mc1 => c.mc1
  | .regWrite reg val => c.regWrite reg val
  | .goOffline => c.goOffline

/-- A chip after power-on with these files, before its commissioned mode is entered. The
converter output is up already: `dac_init` runs at boot. -/
def Chip.powerOn (cfg : Client) : Chip :=
  let (dac, ops) := Dac.init {}
  ({ cfg, dac } : Chip).write ops

/-- Nothing drives the pad: it is an input and, on D0, not the output of the converter. -/
def Chip.Undriven (c : Chip) (ch : Fin 9) : Prop :=
  (c.port (channelPad ch)).dir = false ∧
    ¬ (channelPad ch = dacPad ∧ c.dac.eoen = true ∧ (c.port dacPad).pmuxen = true)

instance Chip.instDecidableUndriven (c : Chip) (ch : Fin 9) : Decidable (c.Undriven ch) :=
  inferInstanceAs (Decidable (_ ∧ ¬ (_ ∧ _ ∧ _)))

/-- A client whose store holds these files. -/
def holding (files : List (Name × List Byte)) : Client where
  store := { Config.Store.erased with
    slots := fun i =>
      match files[i.val]? with
      | some (name, bytes) =>
          { used := true
            name
            data := .ofFn fun k => bytes.getD k 0
            len := .ofNat 8 bytes.length }
      | none => {} }

end SlowBus.Modes
