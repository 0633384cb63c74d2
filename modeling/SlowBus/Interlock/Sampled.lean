import SlowBus.Interlock.Eval

/-!
# Evaluation over given samples

`eval_slot` looks at its platform through the sample of each input only. Over given
samples it is a function that any platform's evaluator can be compared with.
-/

namespace SlowBus.Interlock

/-- The input loop of `eval_slot`, from index `k`, over a sample for each input. -/
def sampledInputs (raw : Input → Nat) : Nat → List Input → SlotRuntime → List Nat × SlotRuntime
  | _, [], rt => ([], rt)
  | k, i :: rest, rt =>
      if i.debounces then
        let (sr, deb) := debounceStep i.debounceDepth (rt.shiftReg k) (rt.debounced k) (raw i)
        let (vals, rt) := sampledInputs raw (k + 1) rest { rt with
          shiftReg := Function.update rt.shiftReg k sr
          debounced := Function.update rt.debounced k deb }
        (deb :: vals, rt)
      else
        let (vals, rt) := sampledInputs raw (k + 1) rest rt
        (raw i :: vals, rt)

/-- `eval_slot` on a platform with these samples. -/
def evalSampled (raw : Input → Nat) (inst : Inst) (rt : SlotRuntime) : Option SlotEval :=
  let (vals, rt) := sampledInputs raw 0 inst.inputs rt
  let (wpass, rt) := evalWatches inst.inputs vals 0 inst.watches rt
  (ilDnfResult inst.watches wpass).map fun b =>
    { inst := { inst with tfState := if b then .isTrue else .isFalse }
      runtime := rt
      inputVals := vals }

section Sampled

variable {raw : Input → Nat} {inputs : List Input} {inst : Inst} {rt : SlotRuntime}

theorem readInputs_sampled (hal : Hal) (s : Samples) (k : Nat) (is : List Input)
    (rt : SlotRuntime) : readInputs hal s k is rt = sampledInputs (rawSample hal s) k is rt := by
  induction is generalizing k rt with
  | nil => rfl
  | cons i is ih =>
      unfold readInputs sampledInputs
      dsimp only
      split
      · rw [ih]
      · rw [ih]

/-- The bus controller evaluates over the samples of its own platform. -/
theorem evalSlot_sampled (hal : Hal) (s : Samples) (inst : Inst) (rt : SlotRuntime) :
    evalSlot hal s inst rt = evalSampled (rawSample hal s) inst rt := by
  unfold evalSlot evalSampled
  rw [readInputs_sampled]

/-- Without debouncing, an input has the value of its sample. -/
theorem sampledInputs_map (hdeb : ∀ i ∈ inputs, i.debounces = false) (k : Nat)
    (rt : SlotRuntime) : sampledInputs raw k inputs rt = (inputs.map raw, rt) := by
  induction inputs generalizing k with
  | nil => rfl
  | cons i inputs ih =>
      obtain ⟨hi, hdeb⟩ := List.forall_mem_cons.mp hdeb
      rw [sampledInputs, hi, if_neg Bool.false_ne_true, ih hdeb]
      rfl

/-- Without hysteresis, a watch compares with its threshold. -/
theorem evalWatches_map (hhyst : ∀ i ∈ inputs, i.hyst = 0) (vals : List Nat) (ws : List Watch)
    (k : Nat) (rt : SlotRuntime) :
    (evalWatches inputs vals k ws rt).1 =
      ws.map fun w => w.op.holds (vals.getD w.inputIdx 0) w.threshold := by
  induction ws generalizing k rt with
  | nil => rfl
  | cons w ws ih =>
      have hnone : ((inputs[w.inputIdx]?).map Input.hyst).getD 0 = 0 := by
        cases hi : inputs[w.inputIdx]? with
        | none => rfl
        | some i => exact hhyst i (List.mem_of_getElem? hi)
      rw [evalWatches]
      simp [ih, watchPasses, hnone, effectiveThreshold]

/-- The watches leave the debounce filters alone. -/
theorem evalWatches_filters (vals : List Nat) (ws : List Watch) (k : Nat) (rt : SlotRuntime) :
    (evalWatches inputs vals k ws rt).2.shiftReg = rt.shiftReg ∧
      (evalWatches inputs vals k ws rt).2.debounced = rt.debounced := by
  induction ws generalizing k rt with
  | nil => exact ⟨rfl, rfl⟩
  | cons w ws ih =>
      rw [evalWatches]
      exact ih (k + 1) _

/-- The truth value over given samples, without hysteresis. -/
theorem evalSampled_eq (hhyst : ∀ i ∈ inst.inputs, i.hyst = 0) :
    (evalSampled raw inst rt).map (fun ev => ev.inst.tfState == .isTrue) =
      ilDnfResult inst.watches (inst.watches.map fun w =>
        w.op.holds ((sampledInputs raw 0 inst.inputs rt).1.getD w.inputIdx 0) w.threshold) := by
  unfold evalSampled
  dsimp only
  rw [evalWatches_map hhyst, Option.map_map]
  refine (congrFun (congrArg Option.map (funext fun b => ?_)) _).trans Option.map_id'
  cases b <;> rfl

/-- What an evaluation leaves in the debounce filters. -/
theorem evalSampled_filters {ev : SlotEval} (h : evalSampled raw inst rt = some ev) :
    ev.runtime.shiftReg = (sampledInputs raw 0 inst.inputs rt).2.shiftReg ∧
      ev.runtime.debounced = (sampledInputs raw 0 inst.inputs rt).2.debounced := by
  obtain ⟨b, -, rfl⟩ := Option.map_eq_some_iff.mp h
  exact evalWatches_filters ..

end Sampled

end SlowBus.Interlock
