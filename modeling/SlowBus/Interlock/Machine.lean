import SlowBus.Interlock.Eval
import SlowBus.Interlock.Persist

/-!
# The interlock framework

The persistent record, the pin layer, the runtime arrays, the clear request and
the grace deadline, with the operations of `interlock.c` over them. Every public
operation first verifies the header of the persistent record and panics on a
mismatch; a tick may also hang in a group scan. Both are faults here.
-/

namespace SlowBus.Interlock

/-- `panic_code_t`, the codes `verify_persist_or_panic` raises. -/
inductive PanicCode where
  | persistMagicBad | persistVersionBad | persistSizeBad
  deriving DecidableEq, Repr

inductive Fault where
  | panic (code : PanicCode)
  | hang
  deriving DecidableEq, Repr

/-- `verify_persist_or_panic` -/
def verifyPersistOrPanic (p : Persist) : Except Fault Unit :=
  if p.magic ≠ interlockMagic then .error (.panic .persistMagicBad)
  else if p.version ≠ persistVersion then .error (.panic .persistVersionBad)
  else if p.selfSize ≠ persistSize then .error (.panic .persistSizeBad)
  else .ok ()

/-! ## Status buffer -/

/-- `il_status_slot_t` -/
structure StatusSlot where
  state : SlotState
  id : Nat
  tf : TfState
  bc : Nat
  name : Text
  veto : Bool
  deriving DecidableEq, Repr

/-- `il_status_buffer_t` -/
structure StatusBuffer where
  version : Nat
  numSlots : Nat
  statusSeq : Nat
  crashPanicCode : Nat
  stackHwmBytes : Nat
  slots : Slot → StatusSlot
  inputVals : Slot → List Nat

def statusBufferVersion : Nat := 3
def statusSlotNameMax : Nat := 8

/-- The zeroed buffer the loader provides. -/
def StatusBuffer.zero : StatusBuffer :=
  ⟨0, 0, 0, 0, 0,
    fun _ => ⟨.empty, 0, .unevaluated, 0, List.replicate statusSlotNameMax '\x00', false⟩,
    fun _ => List.replicate maxInputs 0⟩

/-! ## State -/

structure Machine where
  persist : Persist
  hal : Hal
  runtime : Slot → SlotRuntime
  clearRequest : Bool
  graceUntilMs : BitVec 32
  status : StatusBuffer

/-- Volatile memory and pins as a chip reset leaves them, over a persistent
record. The trace of earlier drives is kept. -/
def Machine.boot (persist : Persist) (trace : List DriveEvent) : Machine where
  persist := persist
  hal := .boot trace
  runtime := fun _ => .clear
  clearRequest := false
  graceUntilMs := 0
  status := .zero

/-- Slot `s` is armed. -/
abbrev Machine.Armed (m : Machine) (s : Slot) : Prop := (m.persist.slots s).state = .armed

/-- The latch of slot `s` is set. -/
abbrev Machine.Latched (m : Machine) (s : Slot) : Prop := (m.persist.slots s).latched = true

def graceMs : Nat := 250

/-- `interlock_begin_grace` at a real instant. -/
def interlockBeginGrace (ms : Nat) (m : Machine) : Machine :=
  { m with graceUntilMs := boardMillis ms + BitVec.ofNat 32 graceMs }

/-- `il_in_grace`: the signed distance to the deadline is positive. -/
def ilInGrace (m : Machine) (ms : Nat) : Bool :=
  decide (0 < (m.graceUntilMs - boardMillis ms).toInt)

/-- `interlock_request_global_clear` -/
def interlockRequestGlobalClear (m : Machine) : Machine := { m with clearRequest := true }

/-! ## Slot administration -/

/-- `SHELL_STATUS_*` -/
inductive ShellStatus where
  | ok | badArgs | busy
  deriving DecidableEq, Repr

def ShellStatus.code : ShellStatus → Nat
  | .ok => 0 | .badArgs => 2 | .busy => 5

/-- What an administration call returns: the status and the error payload. -/
structure AdminResult where
  status : ShellStatus
  errPayload : Nat × Nat × Nat := (0, 0, 0)
  deriving DecidableEq, Repr

def Persist.setSlot (p : Persist) (s : Slot) (r : SlotPersist) : Persist :=
  { p with slots := Function.update p.slots s r }

/-- Record an instance and its text in a slot. The bytes past the terminator
keep their old contents. -/
def Persist.storeDsl (p : Persist) (s : Slot) (inst : Inst) (text : Text) : Persist :=
  { p with
    inst := Function.update p.inst s inst
    dslLen := Function.update p.dslLen s text.length
    dslText := Function.update p.dslText s
      (text ++ '\x00' :: (p.dslText s).drop (text.length + 1)) }

def Machine.clearRuntime (m : Machine) (s : Slot) : Machine :=
  { m with runtime := Function.update m.runtime s .clear }

/-- `map_input_mode` -/
def mapInputMode : PinMode → HalMode
  | .input => .gpioIn
  | .inputPullUp => .gpioInPu
  | .inputPullDown => .gpioInPd
  | .adc => .adcScan
  | _ => .unclaimed

/-- One input of the claim loop. -/
def claimInput (plat : Platform) (slot : Nat) (hal : Hal) (i : Input) : ClaimStatus × Hal :=
  match i.mode with
  | .virtual => (.ok, hal)
  | .adc => halPinClaimAdc hal i.physId slot
  | mode =>
      if mapInputMode mode = .unclaimed then (.badMode, hal)
      else halPinClaim plat hal i.physId slot (mapInputMode mode)

/-- One output of the claim loop. -/
def claimOutput (plat : Platform) (slot : Nat) (hal : Hal) (o : Output) : ClaimStatus × Hal :=
  halPinClaimOutput plat hal o.physId slot o.okValue o.errValue o.openDrain

/-- A claim loop: it stops at the first claim that is refused. -/
def claimLoop {α : Type} (claim : Hal → α → ClaimStatus × Hal) :
    List α → Hal → ClaimStatus × Hal
  | [], hal => (.ok, hal)
  | a :: rest, hal =>
      match claim hal a with
      | (.ok, hal) => claimLoop claim rest hal
      | (st, hal) => (st, hal)

/-- `claim_inst_pins`: inputs, then outputs; any refusal releases the slot. -/
def claimInstPins (plat : Platform) (hal : Hal) (slot : Nat) (inst : Inst) : ClaimStatus × Hal :=
  match claimLoop (claimInput plat slot) inst.inputs hal with
  | (.ok, hal) =>
      match claimLoop (claimOutput plat slot) inst.outputs hal with
      | (.ok, hal) => (.ok, hal)
      | (st, hal) => (st, halPinReleaseSlot hal slot)
  | (st, hal) => (st, halPinReleaseSlot hal slot)

/-- `interlock_arm_slot_compiled`; the no-op's `init` claims nothing. -/
def interlockArmSlotCompiled (slot id : Nat) (m : Machine) :
    Except Fault (AdminResult × Machine) := do
  verifyPersistOrPanic m.persist
  if h : slot < maxSlots then
    if id = idNone ∨ id = idDsl ∨ id > interlockCount then .ok ({ status := .badArgs }, m)
    else
      let s : Slot := ⟨slot, h⟩
      if (m.persist.slots s).state = .armed then .ok ({ status := .busy }, m)
      else
        let p := m.persist.setSlot s ⟨.armed, id, 0, false⟩
        let p := { p with inst := Function.update p.inst s {} }
        .ok ({ status := .ok }, { m with persist := p }.clearRuntime s)
  else .ok ({ status := .badArgs }, m)

/-- `interlock_disarm_slot`; the no-op's `terminate` does nothing. -/
def interlockDisarmSlot (slot : Nat) (m : Machine) : Except Fault (AdminResult × Machine) := do
  verifyPersistOrPanic m.persist
  if h : slot < maxSlots then
    let s : Slot := ⟨slot, h⟩
    let p := m.persist.setSlot s ⟨.empty, idNone, 0, false⟩
    let p := { p with
      inst := Function.update p.inst s {}
      dslLen := Function.update p.dslLen s 0 }
    let hal := halPinReleaseSlot m.hal slot
    .ok ({ status := .ok }, { m with persist := p, hal }.clearRuntime s)
  else .ok ({ status := .badArgs }, m)

/-- `interlock_set_slot_dsl` -/
def interlockSetSlotDsl (plat : Platform) (slot : Nat) (text : Text) (m : Machine) :
    Except Fault (AdminResult × Machine) := do
  verifyPersistOrPanic m.persist
  if h : slot < maxSlots then
    let s : Slot := ⟨slot, h⟩
    if text.length = 0 ∨ text.length ≥ dslMax then .ok ({ status := .badArgs }, m)
    else if (m.persist.slots s).state = .armed then .ok ({ status := .busy }, m)
    else
      match ilParse text with
      | .error (pst, off) =>
          .ok ({ status := .badArgs, errPayload := (pst.code, off % 256, off / 256 % 256) }, m)
      | .ok parsed =>
          match claimInstPins plat m.hal slot parsed with
          | (.ok, hal) =>
              let p := (m.persist.storeDsl s parsed text).setSlot s ⟨.armed, idDsl, 0, false⟩
              .ok ({ status := .ok }, { m with persist := p, hal }.clearRuntime s)
          | (cs, hal) =>
              .ok ({ status := .busy, errPayload := (0xFF, cs.code, 0) }, { m with hal })
  else .ok ({ status := .badArgs }, m)

/-! ## Warm restore -/

def Machine.poison (m : Machine) (s : Slot) : Machine :=
  { m with persist := m.persist.setSlot s { m.persist.slots s with state := .poisoned } }

/-- One slot of `interlock_warm_restore`. -/
def warmRestoreSlot (plat : Platform) (m : Machine) (s : Slot) : Machine :=
  if (m.persist.slots s).state ≠ .armed then m
  else if (m.persist.slots s).id ≠ idDsl then m.clearRuntime s
  else if m.persist.dslLen s = 0 ∨ m.persist.dslLen s ≥ dslMax then m.poison s
  else
    match ilParse (m.persist.text s) with
    | .error _ => m.poison s
    | .ok parsed =>
        match claimInstPins plat m.hal s parsed with
        | (.ok, hal) =>
            let inst := { parsed with tfState := .unevaluated }
            let p := { m.persist with inst := Function.update m.persist.inst s inst }
            { m with persist := p, hal }.clearRuntime s
        | (_, hal) => { m with hal }.poison s

/-- `interlock_warm_restore` -/
def interlockWarmRestore (plat : Platform) (m : Machine) : Except Fault Machine := do
  verifyPersistOrPanic m.persist
  .ok ((List.finRange maxSlots).foldl (warmRestoreSlot plat) m)

/-! ## The tick -/

/-- The samples each slot reads during a tick, and the instants at which the
clear and the latch phase read the clock. -/
structure TickEnv where
  samples : Slot → Samples
  clearMs : Nat
  latchMs : Nat
  stackHwmBytes : Nat

/-- Phase 0: a pending request drops every latch and opens the grace window. -/
def tickClear (env : TickEnv) (m : Machine) : Machine :=
  if m.clearRequest then
    let p := { m.persist with slots := fun s => { m.persist.slots s with latched := false } }
    interlockBeginGrace env.clearMs { m with clearRequest := false, persist := p }
  else m

/-- Phase 1 for one slot: a DSL slot is evaluated, the no-op votes true. -/
def tickEvalSlot (env : TickEnv) (m : Machine) (s : Slot) : Except Fault Machine :=
  let sp := m.persist.slots s
  if sp.state ≠ .armed then .ok m
  else if sp.id = idDsl then
    match evalSlot m.hal (env.samples s) (m.persist.inst s) (m.runtime s) with
    | none => .error .hang
    | some e =>
        let vals := (e.inputVals ++ List.replicate maxInputs 0).take maxInputs
        .ok { m with
          persist := { m.persist with inst := Function.update m.persist.inst s e.inst }
          runtime := Function.update m.runtime s e.runtime
          status := { m.status with inputVals := Function.update m.status.inputVals s vals } }
  else if sp.id ≠ idNone ∧ sp.id ≤ interlockCount then
    .ok { m with persist := { m.persist with
      inst := Function.update m.persist.inst s { m.persist.inst s with tfState := .isTrue } } }
  else .ok m

/-- Phase 1 -/
def tickEval (env : TickEnv) (m : Machine) : Except Fault Machine :=
  (List.finRange maxSlots).foldlM (tickEvalSlot env) m

/-- Phase 1b: outside the grace window every armed slot that is false latches. -/
def tickLatch (env : TickEnv) (m : Machine) : Machine :=
  if ilInGrace m env.latchMs then m
  else { m with persist := { m.persist with slots := fun s =>
    let sp := m.persist.slots s
    if sp.state = .armed ∧ (m.persist.inst s).tfState = .isFalse then { sp with latched := true }
    else sp } }

/-- The veto mask: the armed slots that are latched. -/
def vetoMask (p : Persist) : SlotMask :=
  (List.finRange maxSlots).foldl (fun mask s =>
    let sp := p.slots s
    if sp.state = .armed ∧ sp.latched then mask ||| slotBit s else mask) 0

/-- The framework slots `0 .. maxSlots - 1`. -/
def managedMask : SlotMask := BitVec.ofNat 16 (2 ^ maxSlots - 1)

/-- Phase 2 -/
def tickDrive (m : Machine) : Machine :=
  { m with hal := halPinDriveOutputs m.hal (vetoMask m.persist) managedMask }

/-- The truth value Phase 3 reports for a slot. -/
def reportedTf (p : Persist) (s : Slot) : TfState :=
  if (p.slots s).state = .armed then (p.inst s).tfState else .unevaluated

/-- The eight name bytes Phase 3 reports for a slot. -/
def reportedName (p : Persist) (s : Slot) : Text :=
  let sp := p.slots s
  let name : Text :=
    if sp.state = .armed ∧ sp.id = idDsl then (p.inst s).name
    else if sp.state = .armed ∧ sp.id ≠ idNone ∧ sp.id ≤ interlockCount then "noop".toList
    else []
  (name ++ List.replicate statusSlotNameMax '\x00').take statusSlotNameMax

/-- Whether Phase 3 sees a transition of a slot since the last report. -/
def statusChanged (p : Persist) (b : StatusBuffer) (s : Slot) : Bool :=
  (b.slots s).state != (p.slots s).state || (b.slots s).tf != reportedTf p s

/-- Phase 3 -/
def tickStatus (env : TickEnv) (m : Machine) : Machine :=
  let p := m.persist
  let mask := vetoMask p
  { m with status :=
    { version := statusBufferVersion
      numSlots := maxSlots
      statusSeq := (List.finRange maxSlots).foldl (fun seq s =>
        if statusChanged p m.status s then (seq + 1) % 2 ^ 16 else seq) m.status.statusSeq
      crashPanicCode := p.crash.panicCode
      stackHwmBytes := env.stackHwmBytes
      slots := fun s =>
        { state := (p.slots s).state
          id := (p.slots s).id
          tf := reportedTf p s
          bc := (p.slots s).bootCounter
          name := reportedName p s
          veto := mask.getLsbD s }
      inputVals := m.status.inputVals } }

/-- `interlock_tick_all` -/
def interlockTickAll (env : TickEnv) (m : Machine) : Except Fault Machine := do
  verifyPersistOrPanic m.persist
  let m ← tickEval env (tickClear env m)
  .ok (tickStatus env (tickDrive (tickLatch env m)))

end SlowBus.Interlock
