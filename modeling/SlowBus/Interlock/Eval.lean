import SlowBus.Interlock.Hal

/-!
# Evaluating one slot

`eval_slot` samples every input of an instance, filters GPIO samples through the
debounce shift register, compares each watch with its hysteresis-relaxed
threshold and aggregates the passes in disjunctive normal form.
-/

namespace SlowBus.Interlock

/-! ## Sampling -/

/-- What the hardware and the shared counters return while a slot is evaluated. -/
structure Samples where
  gpioGet : Nat → Bool
  adcLatest : Nat → Nat
  adcStat : Nat → Nat → Nat
  /-- Milliseconds since boot, unbounded; `board_millis` is its low word. -/
  millis : Nat
  lastM2sRxMs : Nat
  stackHwmBytes : Nat
  nodesDead : Nat

/-- `board_millis` at a real instant. -/
def boardMillis (ms : Nat) : BitVec 32 := BitVec.ofNat 32 ms

/-- `il_plat_adc_latest` -/
def ilPlatAdcLatest (s : Samples) (ch : Nat) : Nat := if ch < adcNch then s.adcLatest ch else 0

/-- `il_plat_adc_stat`; the statistics are those of the 10 Hz window. -/
def ilPlatAdcStat (s : Samples) (ch stat : Nat) : Nat :=
  if ch ≥ adcNch then 0
  else if stat = 0 then s.adcLatest ch
  else if stat ≤ 4 then s.adcStat ch stat
  else 0

/-- Seconds, saturated so that a long silence cannot look fresh. -/
def saturatedSeconds (ms : BitVec 32) : Nat := min (ms.toNat / 1000) 65535

/-- `read_virtual_input` -/
def readVirtualInput (s : Samples) (virtId : Nat) : Nat :=
  let now := boardMillis s.millis
  if virtId = virtTSinceM2s then saturatedSeconds (now - BitVec.ofNat 32 s.lastM2sRxMs)
  else if virtId = virtUptime then saturatedSeconds now
  else if virtId = virtStackHwm then s.stackHwmBytes
  else if virtId = virtNodesDead then s.nodesDead
  else if virtAdcBase ≤ virtId ∧ virtId < virtAdcBase + virtAdcCount then
    ilPlatAdcStat s ((virtId - virtAdcBase) / 4) ((virtId - virtAdcBase) % 4 + 1)
  else 0

/-- `hal_pin_read_adc`: zero unless the pin is claimed for conversion. -/
def halPinReadAdc (hal : Hal) (s : Samples) (physId : Nat) : Nat :=
  if h : physId < pinTableSize then
    let r := hal.claims ⟨physId, h⟩
    if r.mode ≠ .adcScan ∨ r.adcChannel = adcNone then 0 else ilPlatAdcLatest s r.adcChannel
  else 0

/-- `hal_pin_read` -/
def halPinRead (s : Samples) (physId : Nat) : Nat :=
  if physId < pinTableSize then (if s.gpioGet physId then 1 else 0) else 0

/-- The sample of an input before debouncing. -/
def rawSample (hal : Hal) (s : Samples) (i : Input) : Nat :=
  match i.mode with
  | .adc => halPinReadAdc hal s i.physId
  | .virtual => readVirtualInput s i.physId
  | _ => halPinRead s i.physId

/-! ## Runtime state -/

/-- The per-slot arrays kept outside the persistent record. -/
structure SlotRuntime where
  shiftReg : Nat → Nat
  debounced : Nat → Nat
  lastPass : Nat → Bool

/-- `clear_slot_runtime` -/
def SlotRuntime.clear : SlotRuntime := ⟨fun _ => 0, fun _ => 0, fun _ => false⟩

/-- Whether the debounce filter applies to an input. -/
def Input.debounces (i : Input) : Bool :=
  match i.mode with
  | .adc | .virtual => false
  | _ => decide (2 ≤ i.debounceDepth)

/-- One sample through the shift register: the output flips only when all
`depth` bits agree. -/
def debounceStep (depth sr debounced raw : Nat) : Nat × Nat :=
  let mask := (1 <<< depth) - 1
  let sr := ((sr <<< 1) ||| (raw &&& 1)) &&& mask
  (sr, if sr = mask then 1 else if sr = 0 then 0 else debounced)

/-- The input loop of `eval_slot`, from index `k`. -/
def readInputs (hal : Hal) (s : Samples) : Nat → List Input → SlotRuntime → List Nat × SlotRuntime
  | _, [], rt => ([], rt)
  | k, i :: rest, rt =>
      let raw := rawSample hal s i
      if i.debounces then
        let (sr, deb) := debounceStep i.debounceDepth (rt.shiftReg k) (rt.debounced k) raw
        let (vals, rt) := readInputs hal s (k + 1) rest { rt with
          shiftReg := Function.update rt.shiftReg k sr
          debounced := Function.update rt.debounced k deb }
        (deb :: vals, rt)
      else
        let (vals, rt) := readInputs hal s (k + 1) rest rt
        (raw :: vals, rt)

/-! ## Watches -/

/-- The threshold of a directional comparison that passed last time is relaxed
by the hysteresis, saturating at the 16-bit bounds. -/
def effectiveThreshold (w : Watch) (hyst : Nat) (lastPass : Bool) : Nat :=
  if hyst ≠ 0 ∧ lastPass then
    match w.op with
    | .gt | .ge => if w.threshold > hyst then w.threshold - hyst else 0
    | .lt | .le => if w.threshold + hyst > 65535 then 65535 else w.threshold + hyst
    | .eq | .ne => w.threshold
  else w.threshold

/-- One watch against the sampled values. -/
def watchPasses (inputs : List Input) (vals : List Nat) (lastPass : Bool) (w : Watch) : Bool :=
  let hyst := ((inputs[w.inputIdx]?).map Input.hyst).getD 0
  w.op.holds (vals.getD w.inputIdx 0) (effectiveThreshold w hyst lastPass)

/-- The watch loop of `eval_slot`, from index `k`; every watch is updated. -/
def evalWatches (inputs : List Input) (vals : List Nat) :
    Nat → List Watch → SlotRuntime → List Bool × SlotRuntime
  | _, [], rt => ([], rt)
  | k, w :: rest, rt =>
      let pass := watchPasses inputs vals (rt.lastPass k) w
      let (passes, rt) := evalWatches inputs vals (k + 1) rest
        { rt with lastPass := Function.update rt.lastPass k pass }
      (pass :: passes, rt)

/-! ## Aggregation -/

def maxGroup (ws : List Watch) : Nat :=
  ws.foldl (fun m w => if w.group > m then w.group else m) 0

/-- The inner scan for one group: it has a clause and all of them passed. -/
def groupPasses (g : Nat) : List (Watch × Bool) → Bool → Bool
  | [], has => has
  | (w, pass) :: rest, has =>
      if w.group ≠ g then groupPasses g rest has
      else if !pass then false
      else groupPasses g rest true

/-- The scan over groups with its 8-bit counter. A counter that runs through all
its 256 values without leaving the loop never leaves it: `none`. -/
def dnfScan (clauses : List (Watch × Bool)) (top : Nat) : Nat → Nat → Option Bool
  | 0, _ => none
  | fuel + 1, g =>
      if g ≤ top then
        if groupPasses g clauses false then some true
        else dnfScan clauses top fuel ((g + 1) % 256)
      else some false

/-- `il_dnf_result`; `none` when the scan does not terminate. -/
def ilDnfResult (watches : List Watch) (wpass : List Bool) : Option Bool :=
  if watches.isEmpty then some true
  else dnfScan (watches.zip wpass) (maxGroup watches) 256 0

/-- What `eval_slot` leaves behind: the instance with its new truth value, the
runtime state and the captured samples. -/
structure SlotEval where
  inst : Inst
  runtime : SlotRuntime
  inputVals : List Nat

/-- `eval_slot`; `none` when it does not return. -/
def evalSlot (hal : Hal) (s : Samples) (inst : Inst) (rt : SlotRuntime) : Option SlotEval :=
  let (vals, rt) := readInputs hal s 0 inst.inputs rt
  let (wpass, rt) := evalWatches inst.inputs vals 0 inst.watches rt
  (ilDnfResult inst.watches wpass).map fun b =>
    { inst := { inst with tfState := if b then .isTrue else .isFalse }
      runtime := rt
      inputVals := vals }

end SlowBus.Interlock
