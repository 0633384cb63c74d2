import SlowBus.Interlock.Parser
import Mathlib.Logic.Function.Basic
import Mathlib.Data.List.FinRange

/-!
# The pin hardware-abstraction layer

The ownership table `g_claims` and the pads it drives. A GPIO input has one
owner, an ADC channel any number of readers, an output any number of slots that
agree on its levels. `trace` records every call of `hal_pin_apply_output`, oldest
first; no operation reads it.
-/

namespace SlowBus.Interlock

/-- `il_slotmask_t`: bit `i` is slot `i`. -/
abbrev SlotMask := BitVec 16

def slotBit (slot : Nat) : SlotMask := BitVec.twoPow 16 slot

/-- `hal_pin_mode_t` -/
inductive HalMode where
  | unclaimed | gpioIn | gpioInPu | gpioInPd | gpioOut | adcScan
  deriving DecidableEq, Repr

/-- `hal_pin_claim_status_t` -/
inductive ClaimStatus where
  | ok | noSuchPin | reserved | taken | capMissing | badMode | valueMismatch
  deriving DecidableEq, Repr

def ClaimStatus.code : ClaimStatus → Nat
  | .ok => 0 | .noSuchPin => 1 | .reserved => 2 | .taken => 3 | .capMissing => 4
  | .badMode => 5 | .valueMismatch => 6

abbrev Pin := Fin pinTableSize

/-- `hal_pin_claim_record_t` -/
structure ClaimRecord where
  slotMask : SlotMask
  mode : HalMode
  okValue : Nat
  errValue : Nat
  adcChannel : Nat
  openDrain : Nat
  deriving DecidableEq, Repr

/-- The state `ensure_initialised` and a final release leave a record in. -/
def ClaimRecord.unclaimed : ClaimRecord := ⟨0, .unclaimed, 0, 0, adcNone, 0⟩

inductive Pull where
  | none | up | down
  deriving DecidableEq, Repr

/-- One GPIO pad: its direction, its output register and its pull. -/
structure Pad where
  dirOut : Bool
  level : Bool
  pull : Pull
  deriving DecidableEq, Repr

/-- The pad after a chip reset. -/
def Pad.reset : Pad := ⟨false, false, .down⟩

/-- `gpio_init` of the SDK: an input with a cleared output register. -/
def Pad.init (pad : Pad) : Pad := { pad with dirOut := false, level := false }

/-- Which caller applied a value to an output. -/
inductive DriveCause where
  | firstClaim | drivePhase
  deriving DecidableEq, Repr

structure DriveEvent where
  pin : Pin
  value : Nat
  cause : DriveCause
  deriving DecidableEq, Repr

structure Hal where
  claims : Pin → ClaimRecord
  pads : Pin → Pad
  trace : List DriveEvent

/-- The layer after a chip reset, with the claim table initialised. -/
def Hal.boot (trace : List DriveEvent) : Hal :=
  ⟨fun _ => .unclaimed, fun _ => .reset, trace⟩

/-! ## Platform seam -/

/-- `HWIO_ROLE_*` -/
inductive HwioRole where
  | unused | input | inputPullUp | inputPullDown | output | oc | ocPu
  deriving DecidableEq, Repr

/-- The frozen pin roles `g_hwio_role` of GP2 to GP9. -/
structure Platform where
  hwioRole : Nat → HwioRole

def interlockVetoPin : Nat := 0
def interlockInPin : Nat := 1
def hilGpioBase : Nat := 2
def hilGpioCount : Nat := 8
def adc0Gpio : Nat := 26
def adcNch : Nat := 3

def inHilBlock (gpio : Nat) : Bool := hilGpioBase ≤ gpio && gpio < hilGpioBase + hilGpioCount

def inAdcBlock (gpio : Nat) : Bool := adc0Gpio ≤ gpio && gpio < adc0Gpio + adcNch

/-- `il_plat_pin_reserved` -/
def ilPlatPinReserved (gpio : Nat) : Bool :=
  if gpio = interlockVetoPin then false
  else if gpio = interlockInPin then false
  else if inHilBlock gpio then false
  else if inAdcBlock gpio then false
  else true

/-- `il_plat_pin_cap` -/
def ilPlatPinCap (plat : Platform) (gpio : Nat) (mode : HalMode) : Bool :=
  if mode = .gpioOut then
    if gpio = interlockVetoPin then true
    else if inHilBlock gpio then plat.hwioRole (gpio - hilGpioBase) == .output
    else false
  else if gpio = interlockInPin then true
  else if inHilBlock gpio then
    let r := plat.hwioRole (gpio - hilGpioBase)
    r == .input || r == .inputPullUp || r == .inputPullDown
  else false

/-- `il_plat_adc_channel` -/
def ilPlatAdcChannel (gpio : Nat) : Nat :=
  if inAdcBlock gpio then gpio - adc0Gpio else adcNone

/-! ## Claims -/

def HalMode.isGpioIn : HalMode → Bool
  | .gpioIn | .gpioInPu | .gpioInPd => true
  | _ => false

def Hal.setClaim (hal : Hal) (pin : Pin) (r : ClaimRecord) : Hal :=
  { hal with claims := Function.update hal.claims pin r }

/-- `hal_pin_claim`: single-owner inputs; no pad is touched. -/
def halPinClaim (plat : Platform) (hal : Hal) (physId slot : Nat) (mode : HalMode) :
    ClaimStatus × Hal :=
  if h : physId < pinTableSize then
    let pin : Pin := ⟨physId, h⟩
    let r := hal.claims pin
    if !mode.isGpioIn then (.badMode, hal)
    else if ilPlatPinReserved physId then (.reserved, hal)
    else if !ilPlatPinCap plat physId mode then (.capMissing, hal)
    else if r.slotMask ≠ 0 ∧ r.slotMask ≠ slotBit slot then (.taken, hal)
    else (.ok, hal.setClaim pin
      { r with slotMask := slotBit slot, mode := mode, okValue := 0, errValue := 0 })
  else (.noSuchPin, hal)

/-- `hal_pin_claim_adc`: a shared read, so there is no conflict to report. -/
def halPinClaimAdc (hal : Hal) (physId slot : Nat) : ClaimStatus × Hal :=
  if h : physId < pinTableSize then
    let pin : Pin := ⟨physId, h⟩
    let r := hal.claims pin
    let ch := ilPlatAdcChannel physId
    if ch = adcNone then (.capMissing, hal)
    else if ilPlatPinReserved physId then (.reserved, hal)
    else (.ok, hal.setClaim pin { r with
      slotMask := r.slotMask ||| slotBit slot, mode := .adcScan
      okValue := 0, errValue := 0, adcChannel := ch })
  else (.noSuchPin, hal)

/-- The pad after a logical value is applied: push-pull drives the level, open
drain drives low for 0 and releases for 1. -/
def Pad.apply (pad : Pad) (openDrain value : Nat) : Pad :=
  if openDrain ≠ 0 then
    if value ≠ 0 then { pad with dirOut := false, pull := if openDrain = 2 then .up else .none }
    else { pad with dirOut := true, level := false }
  else { pad with dirOut := true, level := decide (value ≠ 0) }

/-- `hal_pin_apply_output` -/
def halPinApplyOutput (hal : Hal) (pin : Pin) (value : Nat) (cause : DriveCause) : Hal :=
  { hal with
    pads := Function.update hal.pads pin
      ((hal.pads pin).apply (hal.claims pin).openDrain value)
    trace := hal.trace ++ [⟨pin, value, cause⟩] }

/-- `gpio_init` -/
def Hal.gpioInit (hal : Hal) (pin : Pin) : Hal :=
  { hal with pads := Function.update hal.pads pin (hal.pads pin).init }

/-- `hal_pin_claim_output`: shared when the declared levels agree; the first
claim configures the pad and drives the OK level. -/
def halPinClaimOutput (plat : Platform) (hal : Hal)
    (physId slot okValue errValue openDrain : Nat) : ClaimStatus × Hal :=
  if h : physId < pinTableSize then
    let pin : Pin := ⟨physId, h⟩
    let r := hal.claims pin
    if okValue > 1 ∨ errValue > 1 ∨ openDrain > 2 then (.badMode, hal)
    else if okValue = errValue then (.valueMismatch, hal)
    else if ilPlatPinReserved physId then (.reserved, hal)
    else if !ilPlatPinCap plat physId .gpioOut then (.capMissing, hal)
    else if r.slotMask ≠ 0 then
      if r.mode ≠ .gpioOut then (.taken, hal)
      else if r.okValue ≠ okValue ∨ r.errValue ≠ errValue ∨ r.openDrain ≠ openDrain then
        (.valueMismatch, hal)
      else (.ok, hal.setClaim pin { r with slotMask := r.slotMask ||| slotBit slot })
    else
      let hal := hal.gpioInit pin
      let hal := hal.setClaim pin { r with openDrain, okValue, errValue }
      let hal := halPinApplyOutput hal pin okValue .firstClaim
      (.ok, hal.setClaim pin { hal.claims pin with slotMask := slotBit slot, mode := .gpioOut })
  else (.noSuchPin, hal)

/-- One record of the loop in `hal_pin_release_slot`. -/
def ClaimRecord.release (r : ClaimRecord) (slot : Nat) : ClaimRecord :=
  if r.slotMask &&& slotBit slot = 0 then r
  else if r.slotMask &&& ~~~slotBit slot = 0 then .unclaimed
  else { r with slotMask := r.slotMask &&& ~~~slotBit slot }

/-- The pad of that record: an output that lost its last owner floats. -/
def Pad.release (pad : Pad) (r : ClaimRecord) (slot : Nat) : Pad :=
  if r.slotMask &&& slotBit slot ≠ 0 ∧ r.slotMask &&& ~~~slotBit slot = 0 ∧ r.mode = .gpioOut then
    { pad with dirOut := false, pull := .none }
  else pad

/-- `hal_pin_release_slot` -/
def halPinReleaseSlot (hal : Hal) (slot : Nat) : Hal :=
  { hal with
    claims := fun pin => (hal.claims pin).release slot
    pads := fun pin => (hal.pads pin).release (hal.claims pin) slot }

/-- The population count of the consistency check, `m &= m - 1` per turn. -/
def popcount : Nat → SlotMask → Nat
  | 0, _ => 0
  | fuel + 1, m => if m = 0 then 0 else popcount fuel (m &&& (m - 1)) + 1

/-- `hal_pin_check_consistency` -/
def halPinCheckConsistency (hal : Hal) : Bool :=
  (List.finRange pinTableSize).all fun pin =>
    let r := hal.claims pin
    if r.slotMask = 0 then true
    else if r.mode = .gpioOut ∨ r.mode = .adcScan then true
    else decide (popcount 16 r.slotMask ≤ 1)

/-! ## Driving -/

/-- Whether the drive phase writes this pin. -/
def ClaimRecord.managed (r : ClaimRecord) (managedMask : SlotMask) : Bool :=
  r.slotMask != 0 && r.mode == .gpioOut && (r.slotMask &&& managedMask) != 0

/-- The level an output is given for a veto mask. -/
def ClaimRecord.vote (r : ClaimRecord) (vetoMask : SlotMask) : Nat :=
  if r.slotMask &&& vetoMask ≠ 0 then r.errValue else r.okValue

/-- `hal_pin_drive_outputs`: each managed output is written once. -/
def halPinDriveOutputs (hal : Hal) (vetoMask managedMask : SlotMask) : Hal :=
  { hal with
    pads := fun pin =>
      let r := hal.claims pin
      if r.managed managedMask then (hal.pads pin).apply r.openDrain (r.vote vetoMask)
      else hal.pads pin
    trace := hal.trace ++ (List.finRange pinTableSize).filterMap fun pin =>
      let r := hal.claims pin
      if r.managed managedMask then some ⟨pin, r.vote vetoMask, .drivePhase⟩ else none }

/-- The logical value an output pad shows: open drain released is 1. A pad that
was never applied a value shows none. -/
def Pad.shows (pad : Pad) (openDrain : Nat) : Option Nat :=
  if openDrain ≠ 0 then
    if pad.dirOut then (if pad.level then none else some 0) else some 1
  else if pad.dirOut then some (if pad.level then 1 else 0) else none

end SlowBus.Interlock
