import SlowBus.Interlock.Aggregate
import SlowBus.Interlock.Sampled
import SlowBus.Modes.Leave

/-!
# The evaluators of the interlock

One parser feeds `eval_slot` of the framework and the hand-written conditions of GPIO and
MIXED mode. The framework is run beside a mode, on the instance the mode has armed and
on the same samples, and the conditions of the two are compared.
-/

namespace SlowBus.Modes

open Bus (Byte)
open Interlock (Inst Input SlotRuntime SlotEval evalSampled evalSampled_eq evalSampled_filters
  sampledInputs sampledInputs_map ilDnfResult)
open Runs (run Along)

/-! ## The framework beside a mode -/

/-- Samples that no pin level gives: converted and virtual inputs. -/
structure Analog where
  adc : Nat → Nat
  virt : Nat → Nat

/-- What the framework samples of an input. MIXED has claimed its converter inputs, and the
framework reads the same claims. -/
def Chip.sample (c : Chip) (a : Analog) (i : Input) : Nat :=
  match i.mode with
  | .adc => if c.mode = .mixed then halPinReadAdc c.claims c.world i.physId else a.adc i.physId
  | .virtual => a.virt i.physId
  | _ => halPinRead c.world i.physId

/-- The instance the mode has armed. -/
def Chip.armed (c : Chip) : Option Inst :=
  match c.mode with
  | .pio => if c.pio.ilValid then some c.pio.il else none
  | .mixed => if c.mixed.ilValid then some c.mixed.il else none
  | _ => none

/-- The condition the mode computes at a tick. -/
def Chip.condition (c : Chip) : Option Bool :=
  match c.mode with
  | .pio => pioCondition c.pio.il c.world
  | .mixed => (c.mixed.condition c.claims c.world).1
  | _ => none

/-- Whether the event is a tick of the mode that evaluates its interlock. -/
def Chip.evaluates (c : Chip) : ChipEvent → Bool
  | .pioTick => decide (c.mode = .pio) && gateOpen c.world.millis c.pio.ilNextMs && c.pio.ilValid
  | .mixedTick =>
      decide (c.mode = .mixed) && c.mixed.ilValid && gateOpen c.world.millis c.mixed.nextMs
  | _ => false

/-- A mode with a slot of the framework beside it. -/
structure Twin where
  chip : Chip
  inst : Inst
  rt : SlotRuntime := .clear

/-- The condition of the framework. -/
def Twin.frame (m : Twin) (a : Analog) : Option Bool :=
  (evalSampled (m.chip.sample a) m.inst m.rt).map fun ev => ev.inst.tfState == .isTrue

/-- The framework evaluates its slot at the ticks of the mode. -/
def Twin.next (m : Twin) (e : ChipEvent × Analog) : Twin :=
  { m with
    chip := m.chip.next e.1
    rt := if m.chip.evaluates e.1 then
        (evalSampled (m.chip.sample e.2) m.inst m.rt).elim m.rt SlotEval.runtime
      else m.rt }

/-- The mode is not left. -/
def Twin.Stays (m : Twin) (e : ChipEvent × Analog) : Prop := (m.chip.next e.1).mode = m.chip.mode

/-- What the evaluator of the mode does with an input as the framework does. -/
def Mode.Implements (m : Mode) (i : Input) : Prop :=
  match m with
  | .pio => i.mode ≠ .adc ∧ i.mode ≠ .virtual ∧ i.debounceDepth < 2
  | _ => i.mode ≠ .virtual ∧ i.hyst = 0

/-- The mode arms no text with a feature it does not implement, and computes the condition of
the framework in every run. -/
def Chip.EvaluatorsAgree (c : Chip) : Prop :=
  ∀ inst, c.armed = some inst → (∀ i ∈ inst.inputs, c.mode.Implements i) ∧
    ∀ es, Along Twin.next Twin.Stays { chip := c, inst } es →
      let m := run Twin.next { chip := c, inst } es
      ∀ a, m.chip.condition = m.frame a

/-- The text that entering the mode arms. -/
def Chip.Arms (c : Chip) (m : Mode) (inst : Inst) : Prop :=
  (c.file ilcfName).bind (ilParse false) = some inst ∧ inst.watches ≠ [] ∧
    (m = .mixed → (mixedClaimPins inst (c.modeLeave c.mode).claims).status = .ok)

/-! ## Conditions over samples -/

section Conditions

variable {inst : Inst} {w : World} {claims : Claims} {raw : Input → Nat} {m : Mixed}
  {rt : SlotRuntime} {inputs is : List Input} {k : Nat}

theorem halPinRead_pin (w : World) {phys : Nat} (h : samd21.HasPin phys) :
    halPinRead w phys = if w.levels (.ofPhys phys) then 1 else 0 := by
  obtain ⟨idx, rfl⟩ := hasPin_bench h
  exact if_pos (phys_lt _)

/-- GPIO mode compares the level of each input. -/
theorem pioCondition_eq (hresolved : inst.Resolved samd21 false)
    (hvirt : ∀ i ∈ inst.inputs, i.mode ≠ .virtual)
    (hraw : ∀ i ∈ inst.inputs, raw i = halPinRead w i.physId) :
    pioCondition inst w = ilDnfResult inst.watches (inst.watches.map fun watch =>
      watch.op.holds ((inst.inputs.map raw).getD watch.inputIdx 0) watch.threshold) := by
  unfold pioCondition
  congr 1
  refine List.map_congr_left fun watch hwatch => ?_
  have hidx := hresolved.watches watch hwatch
  have hmem := List.getElem_mem hidx
  have hpin := hresolved.inputs _ hmem (hvirt _ hmem) (hresolved.stream rfl _ hmem)
  have hval : (inst.inputs.map raw).getD watch.inputIdx 0 =
      if w.levels (.ofPhys inst.inputs[watch.inputIdx].physId) then 1 else 0 := by
    rw [← halPinRead_pin w hpin, ← hraw _ hmem]
    simp [List.getD_eq_getElem?_getD, hidx]
  unfold pioWatchPass
  rw [hval, List.getElem?_eq_getElem hidx]
  rfl

/-- The cells of the debounce filters of MIXED mode are those of the framework; the mode also
stores the level of an input without a filter. -/
structure Filters (inputs : List Input) (m : Mixed) (rt : SlotRuntime) : Prop where
  sr : m.sr = rt.shiftReg
  debounced : ∀ k i, inputs[k]? = some i → i.debounces = true → m.debounced k = rt.debounced k

theorem debounces_iff {i : Input} (hvirt : i.mode ≠ .virtual) :
    i.debounces = true ↔ i.mode ≠ .adc ∧ 2 ≤ i.debounceDepth := by
  unfold Input.debounces
  split
  next h => simp [h]
  next h => exact absurd h hvirt
  next hadc _ =>
    rw [decide_eq_true_iff]
    exact (and_iff_right hadc).symm

/-- An update of the cells of one input. -/
theorem Filters.update (h : Filters inputs m rt) {m' : Mixed} (k sr deb : Nat)
    (hsr : m'.sr = Function.update m.sr k sr)
    (hdeb : m'.debounced = Function.update m.debounced k deb) :
    Filters inputs m' { rt with
      shiftReg := Function.update rt.shiftReg k sr
      debounced := Function.update rt.debounced k deb } := by
  refine ⟨by rw [hsr, h.sr], fun j i hi hdebounces => ?_⟩
  rw [hdeb]
  by_cases hj : j = k
  · subst hj
    simp
  · exact (Function.update_of_ne hj ..).trans
      ((h.debounced j i hi hdebounces).trans (Function.update_of_ne hj ..).symm)

/-- An input of MIXED mode that is filtered. -/
theorem readInput_debounced (claims : Claims) {i : Input} (hhead : inputs[k]? = some i)
    (hdeb : i.debounces = true)
    (hvirt : i.mode ≠ .virtual) (hraw : raw i = halPinRead w i.physId)
    (h : Filters inputs m rt) :
    let r := Interlock.debounceStep i.debounceDepth (rt.shiftReg k) (rt.debounced k) (raw i)
    (m.readInput claims w k i).1 = r.2 ∧
      Filters inputs (m.readInput claims w k i).2 { rt with
        shiftReg := Function.update rt.shiftReg k r.1
        debounced := Function.update rt.debounced k r.2 } := by
  obtain ⟨hadc, hdepth⟩ := (debounces_iff hvirt).mp hdeb
  have hstep : Interlock.debounceStep i.debounceDepth (m.sr k) (m.debounced k)
      (halPinRead w i.physId) =
      Interlock.debounceStep i.debounceDepth (rt.shiftReg k) (rt.debounced k) (raw i) := by
    rw [hraw, h.sr, h.debounced k i hhead hdeb]
  unfold Mixed.readInput
  rw [if_neg hadc]
  dsimp only
  rw [if_pos hdepth, hstep]
  exact ⟨rfl, h.update k _ _ rfl rfl⟩

/-- An input of MIXED mode that is not. -/
theorem readInput_plain {i : Input} (hhead : inputs[k]? = some i) (hdeb : i.debounces = false)
    (hvirt : i.mode ≠ .virtual)
    (hraw : raw i =
      if i.mode = .adc then halPinReadAdc claims w i.physId else halPinRead w i.physId)
    (h : Filters inputs m rt) :
    (m.readInput claims w k i).1 = raw i ∧ Filters inputs (m.readInput claims w k i).2 rt := by
  unfold Mixed.readInput
  split
  next hadc =>
    rw [hraw, if_pos hadc]
    exact ⟨rfl, h.sr, h.debounced⟩
  next hadc =>
    have hdepth : ¬ 2 ≤ i.debounceDepth := fun hdepth => by
      rw [(debounces_iff hvirt).mpr ⟨hadc, hdepth⟩] at hdeb
      cases hdeb
    dsimp only
    rw [if_neg hdepth, hraw, if_neg hadc]
    refine ⟨rfl, h.sr, fun j i' hi' hdebounces => ?_⟩
    have hj : j ≠ k := by
      rintro rfl
      obtain rfl : i = i' := Option.some_inj.mp (hhead.symm.trans hi')
      rw [hdeb] at hdebounces
      cases hdebounces
    exact (Function.update_of_ne hj ..).trans (h.debounced j i' hi' hdebounces)

/-- The inputs of MIXED mode are sampled and filtered as the framework does. -/
theorem readInputs_agree (claims : Claims) (w : World) (hsub : ∀ j, is[j]? = inputs[k + j]?)
    (hraw : ∀ i ∈ is, raw i =
      if i.mode = .adc then halPinReadAdc claims w i.physId else halPinRead w i.physId)
    (hvirt : ∀ i ∈ is, i.mode ≠ .virtual) (h : Filters inputs m rt) :
    (Mixed.readInputs claims w k is m).1 = (sampledInputs raw k is rt).1 ∧
      Filters inputs (Mixed.readInputs claims w k is m).2 (sampledInputs raw k is rt).2 := by
  induction is generalizing k m rt with
  | nil => exact ⟨rfl, h⟩
  | cons i is ih =>
      obtain ⟨hrawi, hraw⟩ := List.forall_mem_cons.mp hraw
      obtain ⟨hvirti, hvirt⟩ := List.forall_mem_cons.mp hvirt
      have hhead : inputs[k]? = some i := (hsub 0).symm
      have htail : ∀ j, is[j]? = inputs[k + 1 + j]? := fun j => by
        have hj := hsub (j + 1)
        rw [List.getElem?_cons_succ] at hj
        rw [hj, Nat.add_right_comm, Nat.add_assoc]
      unfold Mixed.readInputs sampledInputs
      dsimp only
      cases hdeb : i.debounces with
      | true =>
          have hadc := ((debounces_iff hvirti).mp hdeb).1
          obtain ⟨hval, hfilters⟩ := readInput_debounced claims hhead hdeb hvirti
            (hrawi.trans (if_neg hadc)) h
          obtain ⟨hvals, hrest⟩ := ih htail hraw hvirt hfilters
          rw [if_pos rfl, hval, hvals]
          exact ⟨rfl, hrest⟩
      | false =>
          obtain ⟨hval, hfilters⟩ := readInput_plain hhead hdeb hvirti hrawi h
          obtain ⟨hvals, hrest⟩ := ih htail hraw hvirt hfilters
          rw [if_neg Bool.false_ne_true, hval, hvals]
          exact ⟨rfl, hrest⟩

end Conditions

/-! ## Ticks of MIXED mode -/

/-- The part of MIXED mode that its evaluator reads is unchanged. -/
structure Mixed.SameCells (m m' : Mixed) : Prop where
  il : m'.il = m.il
  sr : m'.sr = m.sr
  debounced : m'.debounced = m.debounced

theorem Filters.of_same {inputs : List Input} {m m' : Mixed} {rt : SlotRuntime}
    (h : Filters inputs m rt) (hsame : m.SameCells m') : Filters inputs m' rt :=
  ⟨hsame.sr.trans h.sr, fun k i hi hdeb => hsame.debounced ▸ h.debounced k i hi hdeb⟩

theorem Mixed.SameCells.of_eq {m m' : Mixed} (h : m' = m) : m.SameCells m' :=
  h ▸ ⟨rfl, rfl, rfl⟩

section Ticks

variable {c : Chip} {m : Mixed} {claims : Claims} {w : World} {snap : Snapshot}

theorem readInputs_il (is : List Input) (k : Nat) (m : Mixed) :
    (Mixed.readInputs claims w k is m).2.il = m.il := by
  induction is generalizing k m with
  | nil => rfl
  | cons i is ih =>
      unfold Mixed.readInputs
      refine (ih (k + 1) _).trans ?_
      unfold Mixed.readInput
      dsimp only
      split_ifs <;> rfl

/-- The inputs as a tick reads them. -/
def Mixed.reading (m : Mixed) (claims : Claims) (w : World) : List Nat × Mixed :=
  Mixed.readInputs claims w 0 m.il.inputs
    { m with nextMs := w.millis + 10, gpioRaw := 0, gpioDeb := 0 }

/-- The cells that a tick leaves when it evaluates. -/
theorem tick_cells (hvalid : m.ilValid = true) (hgate : gateOpen w.millis m.nextMs = true) :
    (m.reading claims w).2.SameCells (m.tick snap claims w).mixed := by
  have hcond : ({ m with nextMs := w.millis + 10 }.condition claims w).2.2 =
      (m.reading claims w).2 := rfl
  unfold Mixed.tick
  rw [if_neg (by simp [hvalid, hgate]), ← hcond]
  generalize Mixed.condition { m with nextMs := w.millis + 10 } claims w = t
  obtain ⟨b, vals, m'⟩ := t
  cases b with
  | none => exact ⟨rfl, rfl, rfl⟩
  | some allPass =>
      dsimp only
      split_ifs <;> exact ⟨rfl, rfl, rfl⟩

/-- A tick that does not evaluate. -/
theorem tick_idle (h : (m.ilValid && gateOpen w.millis m.nextMs) = false) :
    (m.tick snap claims w).mixed = m := by
  unfold Mixed.tick
  rw [if_pos (by rw [← Bool.not_and, h]; rfl)]

theorem bankWrite_sameCells (hmode : c.mode = .mixed) (reg val : Byte) :
    c.mixed.SameCells (c.bankWrite reg val).mixed := by
  unfold Chip.bankWrite
  split
  next => exact .of_eq rfl
  next =>
    rw [hmode]
    show c.mixed.SameCells (c.mixed.regWrite c.dac reg val).1
    unfold Mixed.regWrite
    split_ifs
    · exact ⟨rfl, rfl, rfl⟩
    · exact .of_eq rfl
    · split <;> exact .of_eq rfl
    · exact .of_eq rfl

/-- Every other event that stays in the mode leaves the evaluator alone. -/
theorem next_sameCells (hmode : c.mode = .mixed) {e : ChipEvent} (he : e ≠ .mixedTick)
    (hstay : (c.next e).mode = .mixed) : c.mixed.SameCells (c.next e).mixed := by
  cases e with
  | world | service | benchTick => exact .of_eq rfl
  | mixedTick => exact absurd rfl he
  | pioTick =>
      rw [Chip.next, pioTick_of_ne (by simp [hmode])]
      exact .of_eq rfl
  | adcTick =>
      rw [Chip.next, adcTick_of_ne (by simp [hmode])]
      exact .of_eq rfl
  | servoTick =>
      rw [Chip.next, Chip.servoTick, if_neg (fun hc => by simp [hmode] at hc)]
      exact .of_eq rfl
  | mc0 =>
      refine .of_eq ?_
      show c.mc0.mixed = c.mixed
      unfold Chip.mc0
      split <;> rfl
  | mc1 =>
      refine .of_eq ?_
      show c.mc1.mixed = c.mixed
      unfold Chip.mc1
      split <;> rfl
  | goOffline => cases hstay
  | regWrite reg val =>
      have hstep := regStep_cases c reg val
      change (c.regWrite reg val).mode = .mixed at hstay
      change c.mixed.SameCells (c.regWrite reg val).mixed
      generalize c.regWrite reg val = c' at hstep hstay ⊢
      cases hstep with
      | bank => exact bankWrite_sameCells hmode reg val
      | keep => exact .of_eq rfl
      | switch m _ _ hne =>
          rw [modeEnter_mode] at hstay
          exact absurd (hstay.trans hmode.symm) hne
      | ack =>
          -- a manual reset clears the latch, not the filters
          have hreset : ∀ snap, c.mixed.SameCells (c.mixed.manualReset snap).1 := fun snap => by
            unfold Mixed.manualReset
            split <;> exact ⟨rfl, rfl, rfl⟩
          unfold Chip.ackFlags
          dsimp only
          split_ifs <;> first | exact .of_eq rfl | exact hreset _
      | client => exact .of_eq rfl

end Ticks

/-! ## Arming -/

section Arming

variable {c : Chip} {inst : Inst}

theorem ilParse_nil (adcMode : Bool) : ilParse adcMode [] = none := rfl

theorem pio_arm_iff (r : Pio) (file : Option (List Byte)) :
    (if (r.arm file).1.ilValid then some (r.arm file).1.il else none) = some inst ↔
      file.bind (ilParse false) = some inst ∧ inst.watches ≠ [] := by
  unfold Pio.arm
  dsimp only
  split
  next => simp
  next => simp [ilParse_nil]
  next bytes _ =>
    rw [Option.bind_some]
    split
    next inst' hparse =>
      rw [hparse]
      by_cases hw : inst'.watches = []
      · simp only [hw, List.isEmpty_nil, Bool.not_true, Bool.false_eq_true, if_false, reduceCtorEq,
          Option.some.injEq, false_iff, not_and, not_not]
        rintro rfl
        exact hw
      · simp only [List.isEmpty_eq_false_iff.mpr hw, Bool.not_false, if_true, Option.some.injEq,
          ne_eq, iff_self_and]
        rintro rfl
        exact hw
    next hparse => simp [hparse]

theorem mixed_arm_iff (m : Mixed) (claims : Claims) (file : Option (List Byte)) (w : World) :
    (if (m.arm claims file w).1.ilValid then some (m.arm claims file w).1.il else none) = some inst ↔
      file.bind (ilParse false) = some inst ∧ inst.watches ≠ [] ∧
        (mixedClaimPins inst claims).status = .ok := by
  unfold Mixed.arm
  dsimp only
  split
  next => simp
  next => simp [ilParse_nil]
  next bytes _ =>
    rw [Option.bind_some]
    split
    next hparse => simp [hparse]
    next inst' hparse =>
      rw [hparse]
      by_cases hw : inst'.watches = []
      · simp only [hw, List.isEmpty_nil, if_true, Bool.false_eq_true, if_false, reduceCtorEq,
          Option.some.injEq, false_iff, not_and]
        rintro rfl hne
        exact absurd hw hne
      · simp only [List.isEmpty_eq_false_iff.mpr hw, Bool.false_eq_true, if_false]
        by_cases hok : (mixedClaimPins inst' claims).status = .ok
        · simp only [hok, decide_true, if_true, Option.some.injEq]
          constructor
          · rintro rfl
            exact ⟨rfl, hw, hok⟩
          · rintro ⟨rfl, -, -⟩
            rfl
        · simp only [hok, decide_false, Bool.false_eq_true, if_false, reduceCtorEq,
            Option.some.injEq, false_iff, not_and]
          rintro rfl -
          exact hok

theorem armed_iff {m : Mode} (hm : m = .pio ∨ m = .mixed) (hne : m ≠ c.mode) :
    (c.setMode m).armed = some inst ↔ c.Arms m inst := by
  have hset : c.setMode m = ({ c.modeLeave c.mode with mode := m } : Chip).modeEnter m :=
    if_neg hne
  have hfile : ∀ name, ({ c.modeLeave c.mode with mode := m } : Chip).file name = c.file name := by
    intro name
    cases c.mode <;> rfl
  have hclaims : ({ c.modeLeave c.mode with mode := m } : Chip).claims =
    (c.modeLeave c.mode).claims := rfl
  rw [hset, Chip.Arms, ← hfile, ← hclaims]
  generalize hc : ({ c.modeLeave c.mode with mode := m } : Chip) = c₀
  have hmode : (c₀.modeEnter m).mode = m := (modeEnter_mode c₀ m).trans (hc ▸ rfl)
  rw [Chip.armed, hmode]
  rcases hm with rfl | rfl
  · refine (pio_arm_iff ((c₀.pio.gpmpApply (c₀.file gpmpName)).sampleInputs c₀.world)
      (c₀.file ilcfName)).trans ?_
    simp
  · refine (mixed_arm_iff c₀.mixedPads.mixed c₀.mixedPads.claims (c₀.mixedPads.file ilcfName)
      c₀.mixedPads.world).trans ?_
    have hpads : c₀.mixedPads.file ilcfName = c₀.file ilcfName := by
      unfold Chip.mixedPads
      dsimp only
      split <;> rfl
    rw [hpads, mixedPads_claims]
    simp

end Arming

/-! ## Runs beside the framework -/

/-- The mode still evaluates the instance of the slot, and the filters agree. -/
def Twin.Beside (m : Twin) : Prop :=
  m.chip.mode = .pio ∧ m.chip.pio.il = m.inst ∨
    m.chip.mode = .mixed ∧ m.chip.mixed.il = m.inst ∧ Filters m.inst.inputs m.chip.mixed m.rt

section Beside

variable {m : Twin} {e : ChipEvent × Analog}

theorem sample_mixed (hmode : m.chip.mode = .mixed) (a : Analog) {i : Input}
    (hvirt : i.mode ≠ .virtual) : m.chip.sample a i =
      if i.mode = .adc then halPinReadAdc m.chip.claims m.chip.world i.physId
      else halPinRead m.chip.world i.physId := by
  unfold Chip.sample
  rw [if_pos hmode]
  split
  next h => rw [if_pos h]
  next h => exact absurd h hvirt
  next hadc _ => rw [if_neg hadc]

theorem sample_level (a : Analog) {i : Input} (hadc : i.mode ≠ .adc) (hvirt : i.mode ≠ .virtual) :
    m.chip.sample a i = halPinRead m.chip.world i.physId := by
  unfold Chip.sample
  split
  next h => exact absurd h hadc
  next h => exact absurd h hvirt
  next => rfl

/-- The mode and the framework compute one condition. -/
theorem condition_frame (h : m.Beside) (hresolved : m.inst.Resolved samd21 false)
    (himpl : ∀ i ∈ m.inst.inputs, m.chip.mode.Implements i) (a : Analog) :
    m.chip.condition = m.frame a := by
  unfold Twin.frame Chip.condition
  rcases h with ⟨hmode, hil⟩ | ⟨hmode, hil, hfilters⟩ <;> rw [hmode] at himpl ⊢
  · have hhyst : ∀ i ∈ m.inst.inputs, i.hyst = 0 := fun i hi => hresolved.hyst i hi (himpl i hi).1
    have hdeb : ∀ i ∈ m.inst.inputs, i.debounces = false := fun i hi => by
      refine Bool.eq_false_of_not_eq_true fun hdeb => ?_
      have hdepth := ((debounces_iff (himpl i hi).2.1).mp hdeb).2
      exact absurd (himpl i hi).2.2 (not_lt.mpr hdepth)
    rw [evalSampled_eq hhyst, sampledInputs_map hdeb, hil]
    exact pioCondition_eq hresolved (fun i hi => (himpl i hi).2.1)
      fun i hi => sample_level a (himpl i hi).1 (himpl i hi).2.1
  · have hvirt : ∀ i ∈ m.inst.inputs, i.mode ≠ .virtual := fun i hi => (himpl i hi).1
    have hagree := readInputs_agree m.chip.claims m.chip.world (k := 0)
      (m := { m.chip.mixed with gpioRaw := 0, gpioDeb := 0 }) (fun j => by rw [Nat.zero_add])
      (fun i hi => sample_mixed hmode a (hvirt i hi)) hvirt (hfilters.of_same ⟨rfl, rfl, rfl⟩)
    rw [evalSampled_eq fun i hi => (himpl i hi).2, ← hagree.1]
    unfold Mixed.condition
    dsimp only
    rw [readInputs_il, ← hil]
    rfl

/-- A tick of MIXED mode that evaluates. -/
theorem filters_evaluated (hmode : m.chip.mode = .mixed) (hil : m.chip.mixed.il = m.inst)
    (hfilters : Filters m.inst.inputs m.chip.mixed m.rt) (hwf : m.inst.WellFormed)
    (hvirt : ∀ i ∈ m.inst.inputs, i.mode ≠ .virtual) (hvalid : m.chip.mixed.ilValid = true)
    (hgate : gateOpen m.chip.world.millis m.chip.mixed.nextMs = true) (a : Analog)
    (snap : Snapshot) :
    let m' := (m.chip.mixed.tick snap m.chip.claims m.chip.world).mixed
    m'.il = m.inst ∧ Filters m.inst.inputs m'
      ((evalSampled (m.chip.sample a) m.inst m.rt).elim m.rt SlotEval.runtime) := by
  intro m'
  have hcells : (m.chip.mixed.reading m.chip.claims m.chip.world).2.SameCells m' :=
    tick_cells hvalid hgate
  have hread := readInputs_agree m.chip.claims m.chip.world (k := 0)
    (m := { m.chip.mixed with nextMs := m.chip.world.millis + 10, gpioRaw := 0, gpioDeb := 0 })
    (fun j => by rw [Nat.zero_add]) (fun i hi => sample_mixed hmode a (hvirt i hi)) hvirt
    (hfilters.of_same ⟨rfl, rfl, rfl⟩)
  obtain ⟨ev, hev⟩ : ∃ ev, evalSampled (m.chip.sample a) m.inst m.rt = some ev := by
    obtain ⟨b, hb⟩ := Option.ne_none_iff_exists'.mp (hwf.ilDnfResult_ne_none
      (Interlock.evalWatches m.inst.inputs
        (sampledInputs (m.chip.sample a) 0 m.inst.inputs m.rt).1 0 m.inst.watches
        (sampledInputs (m.chip.sample a) 0 m.inst.inputs m.rt).2).1)
    exact ⟨_, Option.map_eq_some_iff.mpr ⟨b, hb, rfl⟩⟩
  obtain ⟨hsr, hdeb⟩ := evalSampled_filters hev
  constructor
  · exact hcells.il.trans ((readInputs_il ..).trans hil)
  · have hfilters' := hread.2
    have hreading : m.chip.mixed.reading m.chip.claims m.chip.world =
        Mixed.readInputs m.chip.claims m.chip.world 0 m.inst.inputs
          { m.chip.mixed with nextMs := m.chip.world.millis + 10, gpioRaw := 0, gpioDeb := 0 } :=
      congrArg (fun inst : Inst => Mixed.readInputs m.chip.claims m.chip.world 0 inst.inputs
        { m.chip.mixed with nextMs := m.chip.world.millis + 10, gpioRaw := 0, gpioDeb := 0 }) hil
    rw [hev]
    rw [hreading] at hcells
    exact ⟨hcells.sr.trans (hfilters'.sr.trans hsr.symm), fun k i hi hd =>
      (congrFun hcells.debounced k).trans ((hfilters'.debounced k i hi hd).trans
        (congrFun hdeb k).symm)⟩

/-- A step that stays in the mode. -/
theorem beside_next (h : m.Beside) (hwf : m.inst.WellFormed)
    (himpl : ∀ i ∈ m.inst.inputs, m.chip.mode.Implements i) (hstay : m.Stays e) :
    (m.next e).Beside := by
  rcases h with ⟨hmode, hil⟩ | ⟨hmode, hil, hfilters⟩
  · exact Or.inl ⟨hstay.trans hmode, (next_keeps m.chip e.1 hstay).il.trans hil⟩
  · have hmode' : (m.chip.next e.1).mode = .mixed := hstay.trans hmode
    refine Or.inr ⟨hmode', ?_⟩
    rw [hmode] at himpl
    obtain ⟨ce, a⟩ := e
    -- an event that does not evaluate leaves both sides
    have hquiet : m.chip.evaluates ce = false → m.chip.mixed.SameCells (m.chip.next ce).mixed →
        (m.next (ce, a)).chip.mixed.il = m.inst ∧
          Filters m.inst.inputs (m.next (ce, a)).chip.mixed (m.next (ce, a)).rt := by
      intro hidle hsame
      have hrt : (m.next (ce, a)).rt = m.rt := if_neg (by simp [hidle])
      rw [hrt]
      exact ⟨hsame.il.trans hil, hfilters.of_same hsame⟩
    -- the mixed tick evaluates when it is due and a script is valid
    by_cases hce : ce = .mixedTick
    · subst hce
      have htick : (m.chip.next .mixedTick).mixed =
          (m.chip.mixed.tick m.chip.snap m.chip.claims m.chip.world).mixed :=
        congrArg Chip.mixed (if_pos hmode)
      cases hruns : m.chip.mixed.ilValid && gateOpen m.chip.world.millis m.chip.mixed.nextMs with
      | true =>
          obtain ⟨hvalid, hgate⟩ := Bool.and_eq_true_iff.mp hruns
          have heval : m.chip.evaluates .mixedTick = true := by
            simp [Chip.evaluates, hmode, hvalid, hgate]
          have hrt : (m.next (.mixedTick, a)).rt =
              (evalSampled (m.chip.sample a) m.inst m.rt).elim m.rt SlotEval.runtime :=
            if_pos heval
          rw [hrt]
          show (m.chip.next .mixedTick).mixed.il = _ ∧
            Filters _ (m.chip.next .mixedTick).mixed _
          rw [htick]
          exact filters_evaluated hmode hil hfilters hwf (fun i hi => (himpl i hi).1) hvalid hgate
            a m.chip.snap
      | false =>
          have heval : m.chip.evaluates .mixedTick = false := by
            simpa [Chip.evaluates, hmode] using hruns
          exact hquiet heval (.of_eq (htick.trans (tick_idle hruns)))
    · refine hquiet ?_ (next_sameCells hmode hce hmode')
      cases ce <;> simp [Chip.evaluates, hmode] at hce ⊢

/-- Arming clears the filters, as the framework does. -/
theorem mixed_arm_filters (m : Mixed) (claims : Claims) (file : Option (List Byte)) (w : World)
    (inputs : List Input) : Filters inputs (m.arm claims file w).1 .clear := by
  have hclear : ∀ m' : Mixed, m'.sr = (fun _ => 0) → m'.debounced = (fun _ => 0) →
      Filters inputs m' .clear := fun _ hsr hdeb => ⟨hsr, fun k _ _ _ => congrFun hdeb k⟩
  unfold Mixed.arm
  dsimp only
  split
  next => exact hclear _ rfl rfl
  next => exact hclear _ rfl rfl
  next =>
    split
    next => exact hclear _ rfl rfl
    next => split <;> exact hclear _ rfl rfl

theorem armed_beside {c : Chip} {m : Mode} {inst : Inst} (hm : m = .pio ∨ m = .mixed)
    (hne : m ≠ c.mode) (harmed : (c.setMode m).armed = some inst) :
    ({ chip := c.setMode m, inst } : Twin).Beside := by
  have hset : c.setMode m = ({ c.modeLeave c.mode with mode := m } : Chip).modeEnter m :=
    if_neg hne
  have hmode : (c.setMode m).mode = m := by
    rw [hset, modeEnter_mode]
  have hvalid : ∀ {b : Bool} {i : Inst}, (if b then some i else none) = some inst → i = inst := by
    intro b i h
    cases b
    · cases h
    · exact Option.some_inj.mp h
  rw [Chip.armed, hmode] at harmed
  rcases hm with rfl | rfl
  · exact Or.inl ⟨hmode, hvalid harmed⟩
  · refine Or.inr ⟨hmode, hvalid harmed, ?_⟩
    rw [hset]
    exact mixed_arm_filters ..

end Beside

/-- Entering GPIO or MIXED mode arms no text the evaluator of the mode does not implement, and
the mode computes the condition of the framework at every tick, exactly when the text it
arms, if any, has only inputs of the kinds it implements. -/
theorem evaluators_agree (cfg : Config.Client) (before : List ChipEvent) (m : Mode)
    (hm : m = .pio ∨ m = .mixed) :
    let c := run Chip.next (.powerOn cfg) before
    m ≠ c.mode → ((c.setMode m).EvaluatorsAgree ↔
      ∀ inst, c.Arms m inst → ∀ i ∈ inst.inputs, m.Implements i) := by
  intro c hne
  have hset : c.setMode m = ({ c.modeLeave c.mode with mode := m } : Chip).modeEnter m :=
    if_neg hne
  have hmode : (c.setMode m).mode = m := by
    rw [hset, modeEnter_mode]
  constructor
  · intro hagree inst harms
    have hall := (hagree inst ((armed_iff hm hne).mpr harms)).1
    rwa [hmode] at hall
  · intro himpl inst harmed
    have harms := (armed_iff hm hne).mp harmed
    have hall := himpl inst harms
    refine ⟨by rwa [hmode], fun es halong => ?_⟩
    intro s a
    obtain ⟨bytes, -, hparse⟩ := Option.bind_eq_some_iff.mp harms.1
    have hwf := ilParse_wellFormed hparse
    have hbeside : ({ chip := c.setMode m, inst } : Twin).Beside := armed_beside hm hne harmed
    have hrun := Runs.run_along
      (P := fun t : Twin => t.Beside ∧ t.chip.mode = m ∧ t.inst = inst)
      (fun t e ⟨ht, hmode, hinst⟩ hstay =>
        ⟨beside_next ht (hinst ▸ hwf) (by rw [hinst, hmode]; exact hall) hstay,
          hstay.trans hmode, hinst⟩) halong ⟨hbeside, hmode, rfl⟩
    obtain ⟨hs, hsmode, hsinst⟩ := hrun
    refine condition_frame hs ?_ ?_ a
    · rw [hsinst]
      exact ilParse_resolved hparse
    · rw [hsinst, hsmode]
      exact hall

/-- A converter input, watched for a value that no digital level reaches. -/
def analogFiles : List (Config.Name × List Byte) :=
  [(ilcfName, "a;cfg[D1:adc];watch[D1:gt:100]".toList.map fun c => .ofNat 8 c.toNat)]

/-- A plain digital input. -/
def digitalFiles : List (Config.Name × List Byte) :=
  [(ilcfName, "a;cfg[D1:in];watch[D1:eq:1]".toList.map fun c => .ofNat 8 c.toNat)]

theorem evaluators_agree_digital :
    ((run Chip.next (.powerOn (holding digitalFiles)) []).setMode .pio).EvaluatorsAgree := by
  have hagree := evaluators_agree (holding digitalFiles) [] .pio (Or.inl rfl)
  dsimp only at hagree
  generalize hc : run Chip.next (.powerOn (holding digitalFiles)) [] = c at hagree ⊢
  have hall : ((c.file ilcfName).bind (ilParse false)).all (fun inst => inst.inputs.all fun i =>
      decide (i.mode ≠ .adc ∧ i.mode ≠ .virtual ∧ i.debounceDepth < 2)) = true := by
    subst hc
    decide +kernel
  refine (hagree (by subst hc; decide +kernel)).mpr fun inst harms => ?_
  rw [harms.1, Option.all_some, List.all_eq_true] at hall
  intro i hi
  have hi' : i.mode ≠ .adc ∧ i.mode ≠ .virtual ∧ i.debounceDepth < 2 :=
    of_decide_eq_true (hall i hi)
  exact hi'

/-- GPIO mode arms the text, and reads a high level as 1 where the framework converts. -/
theorem not_evaluators_agree :
    let c := (run Chip.next (.powerOn (holding analogFiles)) []).setMode .pio
    let m : Twin := { chip := c, inst := c.pio.il }
    c.armed = some m.inst ∧ c.condition = some false ∧
      m.frame { adc := fun _ => 4000, virt := fun _ => 0 } = some true := by
  decide +kernel

end SlowBus.Modes
