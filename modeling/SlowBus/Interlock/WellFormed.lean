import SlowBus.Interlock.Holdings
import SlowBus.Lib.Fallible

/-!
# Parsed instances are well formed

No pin is declared twice, every watch names a declared input, and the group
numbers stay below the watch limit. Each edit the parser makes keeps this, so
every instance it returns has it.
-/

namespace SlowBus.Interlock

open Fallible

/-- What the parser guarantees of an instance. -/
structure Inst.WellFormed (inst : Inst) : Prop where
  inputs : (inst.inputs.map Input.physId).Nodup
  outputs : (inst.outputs.map Output.physId).Nodup
  disjoint : ∀ i ∈ inst.inputs, i.mode ≠ .virtual → ∀ o ∈ inst.outputs, i.physId ≠ o.physId
  count : inst.watches.length ≤ maxWatches
  groups : ∀ w ∈ inst.watches, w.group < maxWatches

theorem wellFormed_empty (name : Text) : ({ name } : Inst).WellFormed where
  inputs := .nil
  outputs := .nil
  disjoint := nofun
  count := Nat.zero_le _
  groups := nofun

section Edits

variable {board : Board} {inst inst' : Inst}

theorem findInputIdx_eq_none {physId : Nat} :
    findInputIdx inst physId = none ↔ physId ∉ inst.inputs.map Input.physId := by
  rw [findInputIdx, List.findIdx?_eq_none_iff]
  simp

theorem findOutputIdx_eq_none {physId : Nat} :
    findOutputIdx inst physId = none ↔ physId ∉ inst.outputs.map Output.physId := by
  rw [findOutputIdx, List.findIdx?_eq_none_iff]
  simp

theorem Inst.WellFormed.addInput (h : inst.WellFormed) {i : Input}
    (hfresh : i.physId ∉ inst.inputs.map Input.physId)
    (hout : i.mode ≠ .virtual → i.physId ∉ inst.outputs.map Output.physId) :
    { inst with inputs := inst.inputs ++ [i] }.WellFormed where
  inputs := by
    rw [List.map_append, List.nodup_append]
    refine ⟨h.inputs, by simp, ?_⟩
    intro a ha b hb hab
    obtain rfl : b = i.physId := by simpa using hb
    exact hfresh (hab ▸ ha)
  outputs := h.outputs
  disjoint := by
    intro j hj hmode o ho heq
    rcases List.mem_append.mp hj with hj | hj
    · exact h.disjoint j hj hmode o ho heq
    · obtain rfl : j = i := by simpa using hj
      exact hout hmode (heq ▸ List.mem_map_of_mem ho)
  count := h.count
  groups := h.groups

theorem Inst.WellFormed.addOutput (h : inst.WellFormed) {o : Output}
    (hfresh : o.physId ∉ inst.outputs.map Output.physId)
    (hin : o.physId ∉ inst.inputs.map Input.physId) :
    { inst with outputs := inst.outputs ++ [o] }.WellFormed where
  inputs := h.inputs
  outputs := by
    rw [List.map_append, List.nodup_append]
    refine ⟨h.outputs, by simp, ?_⟩
    intro a ha b hb hab
    obtain rfl : b = o.physId := by simpa using hb
    exact hfresh (hab ▸ ha)
  disjoint := by
    intro i hi hmode o' ho heq
    rcases List.mem_append.mp ho with ho | ho
    · exact h.disjoint i hi hmode o' ho heq
    · obtain rfl : o' = o := by simpa using ho
      exact hin (heq ▸ List.mem_map_of_mem hi)
  count := h.count
  groups := h.groups

theorem declarePin_wellFormed {g : GroupCfg} {label : Text} (h : inst.WellFormed)
    (hrun : declarePin board g inst label = .ok inst') : inst'.WellFormed := by
  unfold declarePin at hrun
  split at hrun
  · cases hrun
  next bp _ =>
    split at hrun
    · cases hrun
    next hin =>
      split at hrun
      · cases hrun
      next hout =>
        rw [Bool.not_eq_true, Option.isSome_eq_false_iff, Option.isNone_iff_eq_none] at hin hout
        rw [findInputIdx_eq_none] at hin
        rw [findOutputIdx_eq_none] at hout
        split at hrun
        · split at hrun
          · cases hrun
          · cases hrun
            exact h.addInput hin fun _ => hout
        · split at hrun
          · cases hrun
          · cases hrun
            exact h.addOutput hout hin

/-- A level changes no pin. -/
theorem setOutput_physIds {isOk : Bool} {label : Text} {val : Nat}
    (hrun : setOutput board isOk inst label val = .ok inst') :
    inst'.outputs.map Output.physId = inst.outputs.map Output.physId := by
  unfold setOutput at hrun
  split at hrun
  · cases hrun
  split at hrun
  · cases hrun
  split at hrun
  · cases hrun
  next idx _ =>
    cases hrun
    apply List.ext_getElem?
    intro k
    simp only [List.getElem?_map, List.getElem?_modify]
    by_cases hk : idx = k
    · cases isOk <;> simp [hk, Function.comp_def]
    · simp [hk]

theorem setOutput_frame {isOk : Bool} {label : Text} {val : Nat}
    (hrun : setOutput board isOk inst label val = .ok inst') :
    inst'.inputs = inst.inputs ∧ inst'.watches = inst.watches := by
  unfold setOutput at hrun
  split at hrun
  · cases hrun
  split at hrun
  · cases hrun
  split at hrun
  · cases hrun
  · cases hrun
    exact ⟨rfl, rfl⟩

theorem setOutput_wellFormed {isOk : Bool} {label : Text} {val : Nat} (h : inst.WellFormed)
    (hrun : setOutput board isOk inst label val = .ok inst') : inst'.WellFormed := by
  have hsame := setOutput_physIds hrun
  obtain ⟨hinputs, hwatches⟩ := setOutput_frame hrun
  refine ⟨hinputs ▸ h.inputs, hsame ▸ h.outputs, ?_, hwatches ▸ h.count, hwatches ▸ h.groups⟩
  intro i hi hmode o ho heq
  have hmem : o.physId ∈ inst.outputs.map Output.physId := hsame ▸ List.mem_map_of_mem ho
  obtain ⟨o', ho', heq'⟩ := List.mem_map.mp hmem
  exact h.disjoint i (hinputs ▸ hi) hmode o' ho' (heq.trans heq'.symm)

theorem resolveAdcStream_frame {label : Text} {idx : Nat}
    (hrun : resolveAdcStream board inst label = .ok (inst', idx)) :
    inst'.watches = inst.watches ∧ inst'.outputs = inst.outputs := by
  unfold resolveAdcStream at hrun
  split at hrun
  · cases hrun
  obtain ⟨⟨stat, win⟩, -, hrun⟩ := bind_eq_ok.mp hrun
  dsimp only at hrun
  split at hrun
  · cases hrun
    exact ⟨rfl, rfl⟩
  · split_ifs at hrun
    cases hrun
    exact ⟨rfl, rfl⟩

/-- Resolving a label at most declares an input. -/
theorem resolveOperand_frame {adcMode : Bool} {label : Text} {idx : Nat}
    (hrun : resolveOperand board adcMode inst label = .ok (inst', idx)) :
    inst'.watches = inst.watches ∧ inst'.outputs = inst.outputs := by
  unfold resolveOperand at hrun
  split at hrun
  · exact resolveAdcStream_frame hrun
  split at hrun
  · split at hrun
    · cases hrun
    split at hrun
    · cases hrun
      exact ⟨rfl, rfl⟩
    · split_ifs at hrun
      cases hrun
      exact ⟨rfl, rfl⟩
  · split at hrun
    · cases hrun
    split at hrun
    · cases hrun
      exact ⟨rfl, rfl⟩
    · cases hrun

/-- What a clause appends. -/
theorem addClause_appends {adcMode : Bool} {group : Nat} {c : Clause}
    (hrun : addClause board adcMode group inst c = .ok inst') :
    ∃ mid idx, resolveOperand board adcMode inst c.label = .ok (mid, idx) ∧
      mid.watches.length < maxWatches ∧
      inst' = { mid with watches := mid.watches ++ [⟨idx, c.op, c.value, group⟩] } := by
  unfold addClause at hrun
  obtain ⟨⟨mid, idx⟩, hres, hrun⟩ := bind_eq_ok.mp hrun
  dsimp only at hrun
  split_ifs at hrun with hhyst hroom
  cases hrun
  exact ⟨mid, idx, hres, not_le.mp hroom, rfl⟩

theorem addClause_length {adcMode : Bool} {group : Nat} {c : Clause}
    (hrun : addClause board adcMode group inst c = .ok inst') :
    inst'.watches.length = inst.watches.length + 1 := by
  obtain ⟨mid, idx, hres, -, rfl⟩ := addClause_appends hrun
  simp [(resolveOperand_frame hres).1]

theorem addClause_outputs {adcMode : Bool} {group : Nat} {c : Clause}
    (hrun : addClause board adcMode group inst c = .ok inst') : inst'.outputs = inst.outputs := by
  obtain ⟨mid, idx, hres, -, rfl⟩ := addClause_appends hrun
  exact (resolveOperand_frame hres).2

theorem resolveOperand_wellFormed {label : Text} {idx : Nat} (h : inst.WellFormed)
    (hrun : resolveOperand board false inst label = .ok (inst', idx)) : inst'.WellFormed := by
  unfold resolveOperand at hrun
  simp only [Bool.false_eq_true, if_false] at hrun
  split at hrun
  · split at hrun
    · cases hrun
    split at hrun
    · cases hrun
      exact h
    next hnone =>
      split_ifs at hrun
      cases hrun
      exact h.addInput (findInputIdx_eq_none.mp hnone) (fun hmode => absurd rfl hmode)
  · split at hrun
    · cases hrun
    split at hrun
    · cases hrun
      exact h
    · cases hrun

theorem addClause_wellFormed {group : Nat} {c : Clause} (h : inst.WellFormed)
    (hgroup : group ≤ inst.watches.length)
    (hrun : addClause board false group inst c = .ok inst') : inst'.WellFormed := by
  obtain ⟨mid, idx, hres, hroom, rfl⟩ := addClause_appends hrun
  have hmid := resolveOperand_wellFormed h hres
  have hwatches := (resolveOperand_frame hres).1
  refine ⟨hmid.inputs, hmid.outputs, hmid.disjoint, ?_, ?_⟩
  · simpa using Nat.succ_le_of_lt hroom
  · intro w hw
    rcases List.mem_append.mp hw with hw | hw
    · exact hmid.groups w hw
    · obtain rfl := List.mem_singleton.mp hw
      rw [hwatches] at hroom
      exact lt_of_le_of_lt hgroup hroom

end Edits

/-! ## The loops -/

/-- Every edit the parser makes to an instance keeps a property. -/
structure EditsKeep (board : Board) (adcMode : Bool) (P : Inst → Prop) : Prop where
  pin : ∀ {mods g inst inst' label}, resolveGroup mods = .ok g → P inst →
    declarePin board g inst label = .ok inst' → P inst'
  output : ∀ {isOk inst inst' label val}, P inst →
    setOutput board isOk inst label val = .ok inst' → P inst'
  clause : ∀ {group inst inst' c}, P inst → group ≤ inst.watches.length →
    addClause board adcMode group inst c = .ok inst' → P inst'

section Loops

variable {board : Board} {adcMode : Bool} {P : Inst → Prop} {inst inst' : Inst} {p q : Text}

theorem atText_eq_ok {α : Type} {x : Except ParseStatus α} {a : α} :
    atText p x = .ok a ↔ x = .ok a := by
  cases x <;> simp [atText]

/-- What the pins of a group keep, a configuration section keeps. -/
theorem parseCfg_keeps (hpin : ∀ {mods g inst inst' label}, resolveGroup mods = .ok g → P inst →
    declarePin board g inst label = .ok inst' → P inst') {fuel : Nat} (h : P inst)
    (hrun : parseCfg board fuel inst p = .ok (inst', q)) : P inst' := by
  induction fuel generalizing inst p with
  | zero => cases hrun
  | succ fuel ih =>
      rw [Interlock.parseCfg] at hrun
      obtain ⟨⟨labels, p₁⟩, -, hrun⟩ := bind_eq_ok.mp hrun
      obtain ⟨p₂, -, hrun⟩ := bind_eq_ok.mp hrun
      obtain ⟨⟨mods, p₃⟩, -, hrun⟩ := bind_eq_ok.mp hrun
      obtain ⟨g, hg, hrun⟩ := bind_eq_ok.mp hrun
      obtain ⟨mid, hmid, hrun⟩ := bind_eq_ok.mp hrun
      have hpins : P mid :=
        foldlM_invariant (fun _ _ _ => hpin (atText_eq_ok.mp hg)) h (atText_eq_ok.mp hmid)
      split at hrun
      · exact ih hpins hrun
      · cases hrun
        exact hpins

/-- What a clause keeps, a watch section keeps. -/
theorem parseWatch_keeps (hclause : ∀ {group inst inst' c}, P inst →
    group ≤ inst.watches.length → addClause board adcMode group inst c = .ok inst' → P inst')
    {fuel group : Nat} (h : P inst) (hgroup : group ≤ inst.watches.length)
    (hrun : parseWatch board adcMode fuel group inst p = .ok (inst', q)) : P inst' := by
  induction fuel generalizing group inst p with
  | zero => cases hrun
  | succ fuel ih =>
      rw [Interlock.parseWatch] at hrun
      obtain ⟨⟨c, p₁⟩, -, hrun⟩ := bind_eq_ok.mp hrun
      obtain ⟨mid, hmid, hrun⟩ := bind_eq_ok.mp hrun
      have hkept := hclause h hgroup (atText_eq_ok.mp hmid)
      have hlen := addClause_length (atText_eq_ok.mp hmid)
      split at hrun
      · exact ih hkept (by omega) hrun
      · split at hrun
        · exact ih hkept ((Nat.mod_le _ _).trans (by omega)) hrun
        · cases hrun
          exact hkept

theorem EditsKeep.parseOutBlock (hkeep : EditsKeep board adcMode P) {isOk : Bool} {fuel : Nat}
    (h : P inst) (hrun : parseOutBlock board isOk fuel inst p = .ok (inst', q)) : P inst' := by
  induction fuel generalizing inst p with
  | zero => cases hrun
  | succ fuel ih =>
      rw [Interlock.parseOutBlock] at hrun
      obtain ⟨⟨label, p₁⟩, -, hrun⟩ := bind_eq_ok.mp hrun
      obtain ⟨p₂, -, hrun⟩ := bind_eq_ok.mp hrun
      obtain ⟨⟨val, p₃⟩, -, hrun⟩ := bind_eq_ok.mp hrun
      obtain ⟨mid, hmid, hrun⟩ := bind_eq_ok.mp hrun
      have hlevel := hkeep.output h (atText_eq_ok.mp hmid)
      split at hrun
      · exact ih hlevel hrun
      · cases hrun
        exact hlevel

theorem EditsKeep.parseSection (hkeep : EditsKeep board adcMode P) {kw : Text} {d d' : Draft}
    (h : P d.inst) (hrun : parseSection board adcMode kw d p = .ok (d', q)) : P d'.inst := by
  unfold Interlock.parseSection at hrun
  dsimp only at hrun
  split_ifs at hrun
  all_goals
    obtain ⟨⟨inst', p₁⟩, hbody, hrun⟩ := bind_eq_ok.mp hrun
    cases hrun
  · exact parseCfg_keeps hkeep.pin h hbody
  · exact parseWatch_keeps hkeep.clause h (Nat.zero_le _) hbody
  · exact hkeep.parseOutBlock h hbody
  · exact hkeep.parseOutBlock h hbody

theorem EditsKeep.parseSections (hkeep : EditsKeep board adcMode P) {fuel : Nat} {d d' : Draft}
    (h : P d.inst) (hrun : parseSections board adcMode fuel d p = .ok (d', q)) : P d'.inst := by
  induction fuel generalizing d p with
  | zero => cases hrun
  | succ fuel ih =>
      rw [Interlock.parseSections] at hrun
      split at hrun
      · cases hrun
        exact h
      · obtain ⟨⟨kw, p₁⟩, -, hrun⟩ := bind_eq_ok.mp hrun
        obtain ⟨p₂, -, hrun⟩ := bind_eq_ok.mp hrun
        obtain ⟨⟨d₁, p₃⟩, hsec, hrun⟩ := bind_eq_ok.mp hrun
        obtain ⟨p₄, -, hrun⟩ := bind_eq_ok.mp hrun
        exact ih (hkeep.parseSection h hsec) hrun

end Loops

/-- A text the parser accepts was read to its end as a name and sections. -/
theorem ilParseImpl_eq_ok {board : Board} {adcMode : Bool} {text : Text} {inst : Inst}
    (hrun : ilParseImpl board adcMode text = .ok inst) :
    ∃ name p d q, expectIdent text = .ok (name, p) ∧ name.length < nameMax ∧
      parseSections board adcMode (p.length + 1) { inst := { name } } p = .ok (d, q) ∧
      skipWs q = [] ∧ finishDraft d = .ok inst := by
  unfold ilParseImpl at hrun
  split at hrun
  · cases hrun
  split at hrun
  · cases hrun
  next d q₁ hmsg =>
    split at hrun
    · cases hrun
    next inst' hfinish =>
      cases hrun
      obtain ⟨⟨name, p⟩, hname, hmsg⟩ := bind_eq_ok.mp hmsg
      dsimp only at hmsg
      split at hmsg
      · cases hmsg
      next hlen =>
        obtain ⟨⟨d', q⟩, hsecs, hmsg⟩ := bind_eq_ok.mp hmsg
        dsimp only at hmsg
        split at hmsg
        next hend =>
          cases hmsg
          exact ⟨name, p, d, q, hname, not_le.mp hlen, hsecs, by simpa using hend, hfinish⟩
        · cases hmsg

/-- The final checks accept the draft as it stands. -/
theorem finishDraft_eq_ok {d : Draft} {inst : Inst} (hrun : finishDraft d = .ok inst) :
    inst = { d.inst with tfState := .unevaluated } := by
  unfold finishDraft at hrun
  split_ifs at hrun <;> cases hrun <;> rfl

/-- What every edit keeps holds of an accepted text's instance. -/
theorem EditsKeep.ilParseImpl {board : Board} {adcMode : Bool} {P : Inst → Prop}
    (hkeep : EditsKeep board adcMode P) (hstart : ∀ name, P { name })
    (htf : ∀ inst : Inst, P inst → P { inst with tfState := .unevaluated }) {text : Text}
    {inst : Inst} (hrun : ilParseImpl board adcMode text = .ok inst) : P inst := by
  obtain ⟨name, p, d, q, -, -, hsecs, -, hfinish⟩ := ilParseImpl_eq_ok hrun
  obtain rfl := finishDraft_eq_ok hfinish
  exact htf _ (hkeep.parseSections (hstart name) hsecs)

theorem ilParseImpl_wellFormed {board : Board} {text : Text} {inst : Inst}
    (hrun : ilParseImpl board false text = .ok inst) : inst.WellFormed :=
  EditsKeep.ilParseImpl
    ⟨fun _ => declarePin_wellFormed, setOutput_wellFormed, addClause_wellFormed⟩
    wellFormed_empty (fun _ h => ⟨h.inputs, h.outputs, h.disjoint, h.count, h.groups⟩) hrun

theorem ilParse_wellFormed {text : Text} {inst : Inst} (hrun : ilParse text = .ok inst) :
    inst.WellFormed :=
  ilParseImpl_wellFormed hrun

/-! ## Names resolved -/

/-- A pin of the board. -/
def Board.HasPin (board : Board) (physId : Nat) : Prop :=
  ∃ label bp, board.pinLookup label = some bp ∧ physId = bp.gpio

/-- Inputs and outputs are pins of the board, only converter inputs have a hysteresis, only
ADC mode has streams, and watches read inputs of the instance. -/
structure Inst.Resolved (board : Board) (adcMode : Bool) (inst : Inst) : Prop where
  inputs : ∀ i ∈ inst.inputs, i.mode ≠ .virtual → i.mode ≠ .adcStream → board.HasPin i.physId
  hyst : ∀ i ∈ inst.inputs, i.mode ≠ .adc → i.hyst = 0
  stream : adcMode = false → ∀ i ∈ inst.inputs, i.mode ≠ .adcStream
  outputs : ∀ o ∈ inst.outputs, board.HasPin o.physId
  watches : ∀ w ∈ inst.watches, w.inputIdx < inst.inputs.length

section Resolved

variable {board : Board} {adcMode : Bool} {inst inst' : Inst} {label : Text}

theorem Inst.Resolved.addInput (h : inst.Resolved board adcMode) {i : Input}
    (hpin : i.mode ≠ .virtual → i.mode ≠ .adcStream → board.HasPin i.physId)
    (hhyst : i.mode ≠ .adc → i.hyst = 0) (hstream : adcMode = false → i.mode ≠ .adcStream) :
    { inst with inputs := inst.inputs ++ [i] }.Resolved board adcMode where
  inputs := List.forall_mem_append.mpr ⟨h.inputs, by simpa using hpin⟩
  hyst := List.forall_mem_append.mpr ⟨h.hyst, by simpa using hhyst⟩
  stream := fun hmode => List.forall_mem_append.mpr ⟨h.stream hmode, by simpa using hstream hmode⟩
  outputs := h.outputs
  watches := fun w hw => (h.watches w hw).trans (by simp)

theorem findInputIdx_lt {physId idx : Nat} (h : findInputIdx inst physId = some idx) :
    idx < inst.inputs.length :=
  (List.findIdx?_eq_some_iff_getElem.mp h).1

/-- A modifier changes the mode to that of a pulled input only. -/
theorem applyModifier_mode {g g' : GroupCfg} {m : Text} (hrun : applyModifier g m = .ok g') :
    g'.mode = g.mode ∨ g'.mode = .inputPullUp ∨ g'.mode = .inputPullDown := by
  have hnum : ∀ {x : Except ParseStatus Nat} {f : Nat → Except ParseStatus GroupCfg},
      (∀ n g', f n = .ok g' → g'.mode = g.mode) → (x >>= f) = .ok g' → g'.mode = g.mode := by
    intro x f hf hrun
    obtain ⟨n, -, hrun⟩ := bind_eq_ok.mp hrun
    exact hf n g' hrun
  unfold applyModifier at hrun
  split_ifs at hrun
  · refine Or.inl (hnum (fun n g' h => ?_) hrun)
    split at h <;> cases h
    rfl
  · refine Or.inl (hnum (fun n g' h => ?_) hrun)
    split_ifs at h
    cases h
    rfl
  · refine Or.inl (hnum (fun n g' h => ?_) hrun)
    cases h
    rfl
  · cases hrun
    exact Or.inr (Or.inl rfl)
  · cases hrun
    exact Or.inr (Or.inr rfl)
  · refine Or.inl (hnum (fun n g' h => ?_) hrun)
    split_ifs at h
    cases h
    rfl
  · cases hrun
    exact Or.inl rfl

/-- The mode of a group is that of a pin. -/
theorem resolveGroup_mode {mods : List Text} {g : GroupCfg} (hg : resolveGroup mods = .ok g) :
    g.mode ≠ .virtual ∧ g.mode ≠ .adcStream := by
  cases mods with
  | nil => cases hg
  | cons m mods =>
      obtain ⟨g₀, hmode, hmods⟩ := bind_eq_ok.mp hg
      refine foldlM_invariant (P := fun g => g.mode ≠ .virtual ∧ g.mode ≠ .adcStream)
        (fun g m g' h hrun => ?_) ?_ hmods
      · rcases applyModifier_mode hrun with hkept | hup | hdown
        · rwa [hkept]
        · simp [hup]
        · simp [hdown]
      · unfold resolveMode at hmode
        split_ifs at hmode <;> cases hmode <;> exact ⟨nofun, nofun⟩

theorem declarePin_resolved {mods : List Text} {g : GroupCfg} (hg : resolveGroup mods = .ok g)
    (h : inst.Resolved board adcMode)
    (hrun : declarePin board g inst label = .ok inst') : inst'.Resolved board adcMode := by
  unfold declarePin at hrun
  split at hrun
  · cases hrun
  next bp hbp =>
    split at hrun
    · cases hrun
    split at hrun
    · cases hrun
    split at hrun
    · split at hrun
      · cases hrun
      · cases hrun
        refine h.addInput (fun _ _ => ⟨label, bp, hbp, rfl⟩) (fun hmode => ?_)
          fun _ => (resolveGroup_mode hg).2
        have hadc : g.isAdc = false := by simpa [GroupCfg.isAdc] using hmode
        simp [hadc]
    · split at hrun
      · cases hrun
      · cases hrun
        refine ⟨h.inputs, h.hyst, h.stream, fun o ho => ?_, h.watches⟩
        rcases List.mem_append.mp ho with ho | ho
        · exact h.outputs o ho
        · obtain rfl := List.mem_singleton.mp ho
          exact ⟨label, bp, hbp, rfl⟩

theorem setOutput_resolved {isOk : Bool} {val : Nat} (h : inst.Resolved board adcMode)
    (hrun : setOutput board isOk inst label val = .ok inst') : inst'.Resolved board adcMode := by
  obtain ⟨hinputs, hwatches⟩ := setOutput_frame hrun
  refine ⟨hinputs ▸ h.inputs, hinputs ▸ h.hyst, hinputs ▸ h.stream, fun o ho => ?_, ?_⟩
  · have hmem : o.physId ∈ inst.outputs.map Output.physId :=
      setOutput_physIds hrun ▸ List.mem_map_of_mem ho
    obtain ⟨o', ho', heq⟩ := List.mem_map.mp hmem
    exact heq ▸ h.outputs o' ho'
  · rw [hinputs, hwatches]
    exact h.watches

theorem resolveAdcStream_resolved {idx : Nat} (h : inst.Resolved board true)
    (hrun : resolveAdcStream board inst label = .ok (inst', idx)) :
    inst'.Resolved board true ∧ idx < inst'.inputs.length := by
  unfold resolveAdcStream at hrun
  split at hrun
  · cases hrun
  obtain ⟨⟨stat, win⟩, -, hrun⟩ := bind_eq_ok.mp hrun
  dsimp only at hrun
  split at hrun
  next hidx =>
    cases hrun
    exact ⟨h, (List.findIdx?_eq_some_iff_getElem.mp hidx).1⟩
  · split_ifs at hrun
    cases hrun
    exact ⟨h.addInput (fun _ hmode => absurd rfl hmode) (fun _ => rfl) nofun, by simp⟩

theorem resolveOperand_resolved {idx : Nat} (h : inst.Resolved board adcMode)
    (hrun : resolveOperand board adcMode inst label = .ok (inst', idx)) :
    inst'.Resolved board adcMode ∧ idx < inst'.inputs.length := by
  unfold resolveOperand at hrun
  split at hrun
  next hmode =>
    subst hmode
    exact resolveAdcStream_resolved h hrun
  split at hrun
  · split at hrun
    · cases hrun
    split at hrun
    next hidx =>
      cases hrun
      exact ⟨h, findInputIdx_lt hidx⟩
    · split_ifs at hrun
      cases hrun
      exact ⟨h.addInput (fun hmode => absurd rfl hmode) (fun _ => rfl) (fun _ => nofun), by simp⟩
  · split at hrun
    · cases hrun
    split at hrun
    next hidx =>
      cases hrun
      exact ⟨h, findInputIdx_lt hidx⟩
    · cases hrun

theorem addClause_resolved {group : Nat} {c : Clause} (h : inst.Resolved board adcMode)
    (hrun : addClause board adcMode group inst c = .ok inst') : inst'.Resolved board adcMode := by
  obtain ⟨mid, idx, hres, -, rfl⟩ := addClause_appends hrun
  obtain ⟨hmid, hidx⟩ := resolveOperand_resolved h hres
  refine ⟨hmid.inputs, hmid.hyst, hmid.stream, hmid.outputs, fun w hw => ?_⟩
  rcases List.mem_append.mp hw with hw | hw
  · exact hmid.watches w hw
  · obtain rfl := List.mem_singleton.mp hw
    exact hidx

theorem ilParseImpl_resolved {text : Text} (hrun : ilParseImpl board adcMode text = .ok inst) :
    inst.Resolved board adcMode :=
  EditsKeep.ilParseImpl
    ⟨declarePin_resolved, setOutput_resolved, fun h _ => addClause_resolved h⟩
    (fun _ => ⟨nofun, nofun, fun _ => nofun, nofun, nofun⟩)
    (fun _ h => ⟨h.inputs, h.hyst, h.stream, h.outputs, h.watches⟩) hrun

end Resolved

/-! ## Consequences -/

/-- The pins of a well-formed instance are used in one way each. -/
theorem Inst.WellFormed.coherent {inst : Inst} (h : inst.WellFormed) :
    Coherent {x | x ∈ inst.uses} := by
  have hinput : ∀ (q : Nat) u, (q, u) ∈ inst.inputs.filterMap Input.use? →
      ∃ i ∈ inst.inputs, i.physId = q ∧ i.mode ≠ .virtual ∧ i.use? = some (q, u) := by
    intro q u hmem
    obtain ⟨i, hi, huse⟩ := List.mem_filterMap.mp hmem
    refine ⟨i, hi, ?_, ?_, huse⟩
    · unfold Input.use? at huse
      split at huse <;> cases huse <;> rfl
    · intro hmode
      rw [Input.use?, hmode] at huse
      cases huse
  have houtput : ∀ (q : Nat) u, (q, u) ∈ inst.outputs.map Output.use →
      ∃ o ∈ inst.outputs, o.physId = q ∧ o.use = (q, u) := by
    intro q u hmem
    obtain ⟨o, ho, huse⟩ := List.mem_map.mp hmem
    exact ⟨o, ho, congrArg Prod.fst huse, huse⟩
  intro q u v hu hv
  rcases List.mem_append.mp hu with hu | hu <;> rcases List.mem_append.mp hv with hv | hv
  · obtain ⟨i, hi, hiq, -, hiu⟩ := hinput q u hu
    obtain ⟨j, hj, hjq, -, hjv⟩ := hinput q v hv
    obtain rfl := List.inj_on_of_nodup_map h.inputs hi hj (hiq.trans hjq.symm)
    rw [hiu] at hjv
    cases hjv
    rfl
  · obtain ⟨i, hi, hiq, hmode, -⟩ := hinput q u hu
    obtain ⟨o, ho, hoq, -⟩ := houtput q v hv
    exact absurd (hiq.trans hoq.symm) (h.disjoint i hi hmode o ho)
  · obtain ⟨o, ho, hoq, -⟩ := houtput q u hu
    obtain ⟨i, hi, hiq, hmode, -⟩ := hinput q v hv
    exact absurd (hiq.trans hoq.symm) (h.disjoint i hi hmode o ho)
  · obtain ⟨o, ho, hoq, hou⟩ := houtput q u hu
    obtain ⟨o', ho', hoq', hov⟩ := houtput q v hv
    obtain rfl := List.inj_on_of_nodup_map h.outputs ho ho' (hoq.trans hoq'.symm)
    rw [hou] at hov
    cases hov
    rfl

end SlowBus.Interlock
