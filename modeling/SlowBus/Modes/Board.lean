import SlowBus.Interlock.Eval
import SlowBus.Modes.Pads

/-!
# The board of the client chip

Its labels and converter channels, the interlock texts it accepts, and the table of
pin claims its hardware layer keeps.
-/

namespace SlowBus.Modes

open Bus (Byte)
open Interlock (Inst Text Board BoardPin HalMode ClaimStatus)

/-- What the chip reads of the world around it. -/
structure World where
  /-- `PORT->IN` -/
  levels : Pin → Bool := fun _ => false
  /-- `board_millis` -/
  millis : BitVec 32 := 0
  /-- `samd21_adc_read_oneshot`: channel, oversampling and sample-hold. -/
  oneshot : Nat → Nat → Nat → Nat := fun _ _ _ => 0
  /-- What the sampler holds of A1: statistic and window. -/
  stream : Nat → Nat → Nat := fun _ _ => 0

/-! ## Labels -/

def Pin.phys (p : Pin) : Nat := p.group.val * 32 + p.pin.val

/-- `g_board_pins`, by silkscreen index: pad and converter channel. -/
def boardPin (idx : Fin 11) : BoardPin :=
  ⟨(benchPad idx).phys, (![0, 4, 18, 19, 16, 17, 2, 3, 7, 5, 6] : Fin 11 → Nat) idx⟩

/-- Whether a label names a pad: `D` or `A`, and its index. -/
def labels (s : Text) (idx : Fin 11) : Bool :=
  let digits := (Nat.toDigits 10 idx.val)
  s == 'D' :: digits || s == 'A' :: digits

/-- `board_pin_lookup` -/
def boardPinLookup (s : Text) : Option BoardPin :=
  ((List.finRange 11).find? (labels s)).map boardPin

def samd21 : Board where
  pinLookup := boardPinLookup
  virtPins := [("_t_since_m2s".toList, Interlock.virtTSinceM2s),
    ("_uptime".toList, Interlock.virtUptime), ("_stack_hwm".toList, Interlock.virtStackHwm)]

def ilMaxInputs : Nat := 4

/-- `il_parse` and `il_parse_adc` on this board. The grammar is that of the bus
controller; the room for inputs is smaller, and an instance that needs more is refused. -/
def ilParse (adcMode : Bool) (file : List Byte) : Option Inst :=
  match Interlock.ilParseImpl samd21 adcMode (file.map fun b => Char.ofNat b.toNat) with
  | .ok inst => if inst.inputs.length ≤ ilMaxInputs then some inst else none
  | .error _ => none

/-! ## Claims -/

/-- `hal_pin_claim_record_t` -/
structure ClaimRecord where
  slotMask : Byte := 0
  mode : HalMode := .unclaimed
  okValue : Nat := 0
  errValue : Nat := 0
  oversampleExp : Nat := 0
  shCyc : Nat := 0
  adcChannel : Nat := Interlock.adcNone
  deriving DecidableEq, Repr

abbrev Claims := Nat → ClaimRecord

def claimTableSize : Nat := 64

/-- `find_board_pin` -/
def findBoardPin (phys : Nat) : Option (Fin 11) :=
  (List.finRange 11).find? fun idx => (benchPad idx).phys = phys

/-- `board_pin_is_reserved`: the pads of the bus. -/
def boardPinReserved (idx : Fin 11) : Bool := idx == 4 || idx == 5

/-- `port_configure_input` -/
def portConfigureInput (mode : HalMode) : List PadOp :=
  [.dirClr, .pmuxen false, .inen true] ++
    match mode with
    | .gpioInPu => [.pullen true, .outSet]
    | .gpioInPd => [.pullen true, .outClr]
    | _ => [.pullen false]

/-- `port_configure_output` -/
def portConfigureOutput : List PadOp := [.pmuxen false, .inen false, .pullen false, .dirSet]

/-- `port_reset_to_safe` -/
def portResetToSafe : List PadOp :=
  [.dirClr, .inen false, .pullen false, .pmuxen false, .outClr]

def claimBit (slot : Nat) : Byte := .twoPow 8 slot

def Claims.set (claims : Claims) (phys : Nat) (r : ClaimRecord) : Claims :=
  Function.update claims phys r

/-- `hal_pin_claim`, of an input. -/
def halPinClaim (claims : Claims) (phys slot : Nat) (mode : HalMode) :
    ClaimStatus × Claims × List PortOp :=
  if ¬ phys < claimTableSize then (.noSuchPin, claims, [])
  else if !mode.isGpioIn then (.badMode, claims, [])
  else
    match findBoardPin phys with
    | none => (.noSuchPin, claims, [])
    | some idx =>
        let r := claims phys
        if boardPinReserved idx then (.reserved, claims, [])
        else if r.slotMask ≠ 0 ∧ r.slotMask ≠ claimBit slot then (.taken, claims, [])
        else (.ok, claims.set phys
            { r with slotMask := claimBit slot, mode, okValue := 0, errValue := 0 },
          (benchPad idx).on (portConfigureInput mode))

/-- `hal_pin_claim_adc`; the pad is not touched. -/
def halPinClaimAdc (claims : Claims) (phys slot oversampleExp shCyc : Nat) :
    ClaimStatus × Claims × List PortOp :=
  if ¬ phys < claimTableSize then (.noSuchPin, claims, [])
  else if 7 < oversampleExp ∨ 63 < shCyc then (.badMode, claims, [])
  else
    match findBoardPin phys with
    | none => (.noSuchPin, claims, [])
    | some idx =>
        let r := claims phys
        if boardPinReserved idx then (.reserved, claims, [])
        else if r.slotMask ≠ 0 ∧ r.slotMask ≠ claimBit slot then (.taken, claims, [])
        else if r.slotMask = claimBit slot ∧ r.mode ≠ .adcScan then (.taken, claims, [])
        else (.ok, claims.set phys { r with
            slotMask := claimBit slot
            mode := .adcScan
            okValue := 0
            errValue := 0
            oversampleExp
            shCyc
            adcChannel := (boardPin idx).adcChannel }, [])

/-- `hal_pin_claim_output`; the first claim makes the pad an output. -/
def halPinClaimOutput (claims : Claims) (phys slot okValue errValue : Nat) :
    ClaimStatus × Claims × List PortOp :=
  if ¬ phys < claimTableSize then (.noSuchPin, claims, [])
  else if 1 < okValue ∨ 1 < errValue then (.badMode, claims, [])
  else if okValue = errValue then (.valueMismatch, claims, [])
  else
    match findBoardPin phys with
    | none => (.noSuchPin, claims, [])
    | some idx =>
        let r := claims phys
        if boardPinReserved idx then (.reserved, claims, [])
        else if r.slotMask ≠ 0 then
          if r.mode ≠ .gpioOut then (.taken, claims, [])
          else if r.okValue ≠ okValue ∨ r.errValue ≠ errValue then (.valueMismatch, claims, [])
          else (.ok, claims.set phys { r with slotMask := r.slotMask ||| claimBit slot }, [])
        else (.ok, claims.set phys
            { r with slotMask := claimBit slot, mode := .gpioOut, okValue, errValue },
          (benchPad idx).on portConfigureOutput)

/-- Whether a release of this slot frees the record. -/
def ClaimRecord.freedBy (r : ClaimRecord) (slot : Nat) : Bool :=
  r.slotMask &&& claimBit slot != 0 && r.slotMask &&& ~~~claimBit slot == 0

def ClaimRecord.release (r : ClaimRecord) (slot : Nat) : ClaimRecord :=
  let r' := { r with slotMask := r.slotMask &&& ~~~claimBit slot }
  if r.freedBy slot then { r' with mode := .unclaimed, okValue := 0, errValue := 0 } else r'

/-- `hal_pin_release_slot`: a pad nobody claims any more is made safe. -/
def halPinReleaseSlot (claims : Claims) (slot : Nat) : Claims × List PortOp :=
  (fun phys => if phys < claimTableSize then (claims phys).release slot else claims phys,
    (List.range claimTableSize).flatMap fun phys =>
      (Pin.ofPhys phys).on (if (claims phys).freedBy slot then portResetToSafe else []))

/-- `hal_pin_read_adc` -/
def halPinReadAdc (claims : Claims) (w : World) (phys : Nat) : Nat :=
  let r := claims phys
  if ¬ phys < claimTableSize then 0
  else if r.mode ≠ .adcScan ∨ r.adcChannel = Interlock.adcNone then 0
  else w.oneshot r.adcChannel r.oversampleExp r.shCyc

/-- What `hal_pin_read_adc` writes. -/
def halPinReadAdcOps (claims : Claims) (phys : Nat) : List PortOp :=
  let r := claims phys
  if ¬ phys < claimTableSize then []
  else if r.mode ≠ .adcScan ∨ r.adcChannel = Interlock.adcNone then []
  else oneshotOps r.adcChannel

/-- `hal_pin_read`; `pio_phys_read` reads the same bit. -/
def halPinRead (w : World) (phys : Nat) : Nat :=
  if phys < claimTableSize then (if w.levels (.ofPhys phys) then 1 else 0) else 0

end SlowBus.Modes
