import SlowBus.Interlock.Restore

/-!
# Who owns a pin

Any sequence of administration calls and restores, over whatever the persistent
memory held at boot. An input has one owner, the owners of an output agree on
its levels, and from the first restore on the owners of a pin are the armed
slots whose instances name it.
-/

namespace SlowBus.Interlock

open Fallible

/-- A call that may change claims. -/
inductive AdminOp where
  | setSlotDsl (slot : Nat) (text : Text)
  | armCompiled (slot id : Nat)
  | disarm (slot : Nat)
  | warmRestore
  deriving DecidableEq

def AdminOp.run (plat : Platform) (m : Machine) (op : AdminOp) : Except Fault Machine :=
  match op with
  | .setSlotDsl slot text => (interlockSetSlotDsl plat slot text m).map Prod.snd
  | .armCompiled slot id => (interlockArmSlotCompiled slot id m).map Prod.snd
  | .disarm slot => (interlockDisarmSlot slot m).map Prod.snd
  | .warmRestore => interlockWarmRestore plat m

/-- An instance declares a physical pin. -/
def Inst.Names (inst : Inst) (physId : Nat) : Prop :=
  (∃ i ∈ inst.inputs, i.mode ≠ .virtual ∧ i.physId = physId) ∨
    ∃ o ∈ inst.outputs, o.physId = physId

theorem Input.use?_fst {i : Input} {use : Nat × PinUse} (h : i.use? = some use) :
    i.mode ≠ .virtual ∧ i.physId = use.1 := by
  obtain ⟨physId, mode, _, _, _, _⟩ := i
  cases mode with
  | virtual => cases h
  | _ =>
      cases h
      exact ⟨nofun, rfl⟩

theorem Inst.exists_use_iff {inst : Inst} {physId : Nat} :
    (∃ u, (physId, u) ∈ inst.uses) ↔ inst.Names physId := by
  simp only [Inst.uses, List.mem_append, List.mem_filterMap, List.mem_map, exists_or]
  refine or_congr ?_ ?_
  · constructor
    · rintro ⟨u, i, hi, huse⟩
      exact ⟨i, hi, Input.use?_fst huse⟩
    · rintro ⟨i, hi, hmode, rfl⟩
      cases huse : i.use? with
      | none =>
          obtain ⟨physId, mode, _, _, _, _⟩ := i
          cases mode with
          | virtual => exact absurd rfl hmode
          | _ => cases huse
      | some use => exact ⟨use.2, i, hi, by rw [huse, (Input.use?_fst huse).2]⟩
  · constructor
    · rintro ⟨u, o, ho, huse⟩
      exact ⟨o, ho, congrArg Prod.fst huse⟩
    · rintro ⟨o, ho, rfl⟩
      exact ⟨_, o, ho, rfl⟩

/-! ## One table -/

section Table

variable {plat : Platform} {hal : Hal} {held : Holdings} {pin : Pin}

/-- A GPIO input has one owner. -/
theorem Holds.input_owner (h : Holds plat hal held) (hmode : (hal.claims pin).mode.isGpioIn = true)
    {i j : Nat} (hi : (hal.claims pin).slotMask.getLsbD i = true)
    (hj : (hal.claims pin).slotMask.getLsbD j = true) : i = j := by
  have hilt := h.bounded pin i hi
  have hjlt := h.bounded pin j hj
  obtain ⟨u, hu⟩ := (h.mask pin ⟨i, hilt⟩).mp hi
  obtain ⟨v, hv⟩ := (h.mask pin ⟨j, hjlt⟩).mp hj
  by_contra hne
  have hts : (⟨j, hjlt⟩ : Slot) ≠ ⟨i, hilt⟩ := fun heq => hne (congrArg Fin.val heq).symm
  obtain ⟨-, hshared⟩ := h.agrees _ _ u hu _ hts v hv
  rw [h.record pin _ u hu] at hmode
  cases u with
  | gpioIn mode => exact hshared
  | adc => cases hmode
  | output ok err od => cases hmode

/-- The owners of an output declared its levels. -/
theorem Holds.output_use (h : Holds plat hal held) (hmode : (hal.claims pin).mode = .gpioOut)
    {s : Slot} (hs : (hal.claims pin).slotMask.getLsbD s = true) :
    (pin.val, PinUse.output (hal.claims pin).okValue (hal.claims pin).errValue
      (hal.claims pin).openDrain) ∈ held s := by
  obtain ⟨u, hu⟩ := (h.mask pin s).mp hs
  have hrec := h.record pin s u hu
  have hadm := h.admissible s pin u hu
  cases u with
  | gpioIn mode =>
      rw [hrec] at hmode
      change mode = .gpioOut at hmode
      rw [hmode] at hadm
      cases hadm.2.1
  | adc =>
      rw [hrec] at hmode
      cases hmode
  | output ok err od =>
      rw [hrec]
      exact hu

theorem popcount_slotBit (s : Slot) : popcount 16 (slotBit s) ≤ 1 := by
  revert s
  decide

/-- The consistency check passes. -/
theorem Holds.consistent (h : Holds plat hal held) : halPinCheckConsistency hal = true := by
  rw [halPinCheckConsistency, List.all_eq_true]
  intro pin _
  dsimp only
  split_ifs with hzero hshared
  · rfl
  · rfl
  · rw [decide_eq_true_eq]
    obtain ⟨s, u, hu⟩ := h.exists_holder hzero
    have hrec := h.record pin s u hu
    have hin : (hal.claims pin).mode.isGpioIn = true := by
      rw [hrec] at hshared ⊢
      cases u with
      | gpioIn mode => exact (h.admissible s pin _ hu).2.1
      | adc => exact absurd (.inr rfl) hshared
      | output ok err od => exact absurd (.inl rfl) hshared
    have hbit : (hal.claims pin).slotMask.getLsbD s = true := (h.mask pin s).mpr ⟨u, hu⟩
    have hsingle : (hal.claims pin).slotMask = slotBit s := by
      apply BitSet.ext_bits
      intro j
      rw [Bool.eq_iff_iff, slotBit, BitSet.getLsbD_single (slot_lt_width s)]
      constructor
      · exact fun hj => h.input_owner hin hbit hj
      · rintro rfl
        exact hbit
    rw [hsingle]
    exact popcount_slotBit s

end Table

/-! ## Whole sequences -/

theorem AdminOp.run_sound {plat : Platform} {m : Machine} {held : Holdings} (op : AdminOp)
    (h : Sound plat m held) : ∃ m' held', op.run plat m = .ok m' ∧ Sound plat m' held' := by
  have hheader := Persist.headerOk_of_isValid h.valid
  cases op with
  | setSlotDsl slot text =>
      obtain ⟨r, m', hrun, hout⟩ := interlockSetSlotDsl_outcome plat slot text hheader
      obtain ⟨held', h', -⟩ := h.setSlotDsl hout
      exact ⟨m', held', by rw [AdminOp.run, hrun]; rfl, h'⟩
  | armCompiled slot id =>
      obtain ⟨r, m', hrun, hout⟩ := interlockArmSlotCompiled_outcome slot id hheader
      exact ⟨m', held, by rw [AdminOp.run, hrun]; rfl, (h.armCompiled hout).1⟩
  | disarm slot =>
      obtain ⟨r, m', hrun, hout⟩ := interlockDisarmSlot_outcome slot hheader
      obtain ⟨held', h', -⟩ := h.disarm hout
      exact ⟨m', held', by rw [AdminOp.run, hrun]; rfl, h'⟩
  | warmRestore =>
      obtain ⟨m', held', hrun, h'⟩ := h.warmRestore
      exact ⟨m', held', hrun, h'.toSound⟩

theorem AdminOp.run_settled {plat : Platform} {m m' : Machine} {held : Holdings} {op : AdminOp}
    (h : Settled plat m held) (hrun : op.run plat m = .ok m') :
    ∃ held', Settled plat m' held' := by
  have hheader := Persist.headerOk_of_isValid h.valid
  cases op with
  | setSlotDsl slot text =>
      obtain ⟨r, m₁, hrun₁, hout⟩ := interlockSetSlotDsl_outcome plat slot text hheader
      rw [AdminOp.run, hrun₁] at hrun
      cases hrun
      exact h.setSlotDsl hout
  | armCompiled slot id =>
      obtain ⟨r, m₁, hrun₁, hout⟩ := interlockArmSlotCompiled_outcome slot id hheader
      rw [AdminOp.run, hrun₁] at hrun
      cases hrun
      exact ⟨held, h.armCompiled hout⟩
  | disarm slot =>
      obtain ⟨r, m₁, hrun₁, hout⟩ := interlockDisarmSlot_outcome slot hheader
      rw [AdminOp.run, hrun₁] at hrun
      cases hrun
      exact h.disarm hout
  | warmRestore =>
      obtain ⟨m₁, held', hrun₁, h'⟩ := h.warmRestore
      cases hrun₁.symm.trans hrun
      exact ⟨held', h'⟩

/-- A sequence of calls keeps a machine sound; a restore among them settles it. -/
theorem runAdmin_sound {plat : Platform} (ops : List AdminOp) {m : Machine} {held : Holdings}
    (h : Sound plat m held) :
    ∃ m' held', ops.foldlM (AdminOp.run plat) m = .ok m' ∧ Sound plat m' held' ∧
      (.warmRestore ∈ ops → Settled plat m' held') := by
  induction ops generalizing m held with
  | nil => exact ⟨m, held, rfl, h, nofun⟩
  | cons op ops ih =>
      obtain ⟨m₁, held₁, hop, h₁⟩ := op.run_sound h
      by_cases hsettles : op = .warmRestore
      · subst op
        obtain ⟨m₂, held₂, hrun₂, hsettled⟩ := h.warmRestore
        cases hrun₂.symm.trans hop
        have hstep : ∀ m (op : AdminOp), (∃ held, Settled plat m held) →
            ∃ m', op.run plat m = .ok m' ∧ ∃ held, Settled plat m' held := by
          rintro m op ⟨held, h⟩
          obtain ⟨m', held', hrun, -⟩ := op.run_sound h.toSound
          exact ⟨m', hrun, AdminOp.run_settled h hrun⟩
        obtain ⟨m', hrun, held', h'⟩ := foldlM_total hstep ops ⟨held₂, hsettled⟩
        refine ⟨m', held', ?_, h'.toSound, fun _ => h'⟩
        rw [List.foldlM_cons, bind_eq_ok]
        exact ⟨_, hop, hrun⟩
      · obtain ⟨m', held', hrun, h', hsettled⟩ := ih h₁
        refine ⟨m', held', ?_, h', fun hmem => hsettled ?_⟩
        · rw [List.foldlM_cons, bind_eq_ok]
          exact ⟨_, hop, hrun⟩
        · exact (List.mem_cons.mp hmem).resolve_left fun heq => hsettles heq.symm

/-- Pin ownership, after any sequence of administration calls and restores from
the empty claim table that a boot leaves. -/
theorem pin_ownership (plat : Platform) (persist : Persist) (trace : List DriveEvent)
    (ops : List AdminOp) :
    ∃ m, ops.foldlM (AdminOp.run plat) (.boot (interlockBootDecide persist) trace) = .ok m ∧
      (∀ pin i j, (m.hal.claims pin).mode.isGpioIn = true →
        (m.hal.claims pin).slotMask.getLsbD i = true →
        (m.hal.claims pin).slotMask.getLsbD j = true → i = j) ∧
      (∀ pin j, (m.hal.claims pin).mode = .gpioOut →
        (m.hal.claims pin).slotMask.getLsbD j = true →
        ∃ s : Slot, s.val = j ∧ ∃ o ∈ (m.persist.inst s).outputs, o.physId = pin ∧
          o.okValue = (m.hal.claims pin).okValue ∧ o.errValue = (m.hal.claims pin).errValue ∧
          o.openDrain = (m.hal.claims pin).openDrain) ∧
      (.warmRestore ∈ ops → ∀ pin (s : Slot), (m.hal.claims pin).slotMask.getLsbD s = true ↔
        m.persist.Runs s ∧ (m.persist.inst s).Names pin) ∧
      halPinCheckConsistency m.hal = true := by
  obtain ⟨m, held, hrun, h, hsettled⟩ := runAdmin_sound ops (sound_boot plat persist trace)
  refine ⟨m, hrun, fun pin i j hmode hi hj => h.table.input_owner hmode hi hj, ?_, ?_,
    h.table.consistent⟩
  · intro pin j hmode hj
    have hlt := h.table.bounded pin j hj
    have huse := h.table.output_use (s := ⟨j, hlt⟩) hmode hj
    refine ⟨⟨j, hlt⟩, rfl, ?_⟩
    -- a slot that holds a pin runs, and holds the pins of its instance
    rcases h.slots ⟨j, hlt⟩ with hempty | ⟨-, -, hpins⟩
    · rw [hempty] at huse
      cases huse
    · rw [hpins] at huse
      rcases List.mem_append.mp huse with hin | hout
      · obtain ⟨i, -, hi⟩ := List.mem_filterMap.mp hin
        obtain ⟨physId, mode, _, _, _, _⟩ := i
        cases mode <;> cases hi
      · obtain ⟨o, ho, heq⟩ := List.mem_map.mp hout
        simp only [Output.use, Prod.mk.injEq, PinUse.output.injEq] at heq
        exact ⟨o, ho, heq⟩
  · intro hmem pin s
    have h' := hsettled hmem
    rw [h.table.mask]
    by_cases hruns : m.persist.Runs s
    · rw [h'.held_eq hruns]
      exact Inst.exists_use_iff.trans (by simp [hruns])
    · rw [h.held_empty hruns]
      simp [hruns]

end SlowBus.Interlock
