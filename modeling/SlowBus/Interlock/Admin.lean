import SlowBus.Interlock.Aggregate

/-!
# What the administration calls can do

Each call either leaves the machine as it was, or rewrites the record of the one
slot it names. The outcomes are listed once here; every invariant is checked
against them.
-/

namespace SlowBus.Interlock

open Fallible

/-- The header words are the expected ones, so no operation panics. -/
abbrev Persist.HeaderOk (p : Persist) : Prop := verifyPersistOrPanic p = .ok ()

/-- The record of a slot that was armed from a text. -/
def Persist.armDsl (p : Persist) (s : Slot) (inst : Inst) (text : Text) : Persist :=
  (p.storeDsl s inst text).setSlot s ⟨.armed, idDsl, 0, false⟩

/-- The record of a slot that was armed with the no-op. -/
def Persist.armCompiled (p : Persist) (s : Slot) (id : Nat) : Persist :=
  let p := p.setSlot s ⟨.armed, id, 0, false⟩
  { p with inst := Function.update p.inst s {} }

/-- The record of a slot that was disarmed. -/
def Persist.disarm (p : Persist) (s : Slot) : Persist :=
  let p := p.setSlot s ⟨.empty, idNone, 0, false⟩
  { p with
    inst := Function.update p.inst s {}
    dslLen := Function.update p.dslLen s 0 }

/-- Why `interlock_set_slot_dsl` turns a text down before it claims anything. -/
def DslRejected (slot : Nat) (text : Text) (m : Machine) : Prop :=
  maxSlots ≤ slot ∨ text.length = 0 ∨ dslMax ≤ text.length ∨
    (∃ s : Slot, s.val = slot ∧ m.Armed s) ∨ ∃ e, ilParse text = .error e

/-- The outcomes of `interlock_set_slot_dsl`. -/
inductive DslOutcome (plat : Platform) (slot : Nat) (text : Text) (m : Machine) :
    AdminResult → Machine → Prop where
  | rejected {r : AdminResult} (hr : r.status ≠ .ok) (hwhy : DslRejected slot text m) :
      DslOutcome plat slot text m r m
  | refused {r : AdminResult} {s : Slot} {inst : Inst} (hr : r.status ≠ .ok)
      (hslot : slot = s) (hfree : ¬m.Armed s) (hparse : ilParse text = .ok inst)
      (hclaim : (claimInstPins plat m.hal s inst).1 ≠ .ok) :
      DslOutcome plat slot text m r { m with hal := (claimInstPins plat m.hal s inst).2 }
  | armed {s : Slot} {inst : Inst} (hslot : slot = s) (hfree : ¬m.Armed s)
      (hlen : 0 < text.length ∧ text.length < dslMax) (hparse : ilParse text = .ok inst)
      (hclaim : (claimInstPins plat m.hal s inst).1 = .ok) :
      DslOutcome plat slot text m { status := .ok }
        ({ m with persist := m.persist.armDsl s inst text
                  hal := (claimInstPins plat m.hal s inst).2 }.clearRuntime s)

/-- The outcomes of `interlock_arm_slot_compiled`. -/
inductive CompiledOutcome (slot id : Nat) (m : Machine) : AdminResult → Machine → Prop where
  | rejected {r : AdminResult} (hr : r.status ≠ .ok) : CompiledOutcome slot id m r m
  | armed {s : Slot} (hslot : slot = s) (hfree : ¬m.Armed s) (hid : id = idNoop) :
      CompiledOutcome slot id m { status := .ok }
        ({ m with persist := m.persist.armCompiled s id }.clearRuntime s)

/-- The outcomes of `interlock_disarm_slot`. -/
inductive DisarmOutcome (slot : Nat) (m : Machine) : AdminResult → Machine → Prop where
  | rejected {r : AdminResult} (hr : r.status ≠ .ok) (hslot : maxSlots ≤ slot) :
      DisarmOutcome slot m r m
  | disarmed {s : Slot} (hslot : slot = s) :
      DisarmOutcome slot m { status := .ok }
        ({ m with persist := m.persist.disarm s
                  hal := halPinReleaseSlot m.hal s }.clearRuntime s)

section Outcomes

variable {m : Machine}

theorem interlockSetSlotDsl_outcome (plat : Platform) (slot : Nat) (text : Text)
    (hheader : m.persist.HeaderOk) :
    ∃ r m', interlockSetSlotDsl plat slot text m = .ok (r, m') ∧
      DslOutcome plat slot text m r m' := by
  unfold interlockSetSlotDsl
  rw [hheader]
  show ∃ r m', (if h : slot < maxSlots then _ else _) = _ ∧ _
  split
  next hslot =>
    dsimp only
    split
    next hlen =>
      exact ⟨_, m, rfl, .rejected (by simp) (.inr (hlen.elim .inl fun h => .inr (.inl h)))⟩
    next hlen =>
      split
      next harmed =>
        exact ⟨_, m, rfl, .rejected (by simp) (.inr (.inr (.inr (.inl ⟨⟨slot, hslot⟩, rfl, harmed⟩))))⟩
      next hfree =>
        split
        next hparse =>
          exact ⟨_, m, rfl, .rejected (by simp) (.inr (.inr (.inr (.inr ⟨_, hparse⟩))))⟩
        next inst hparse =>
          split
          next hal hclaim =>
            have hal_eq : hal = (claimInstPins plat m.hal slot inst).2 := by rw [hclaim]
            subst hal_eq
            have hlen' : 0 < text.length ∧ text.length < dslMax := by omega
            have hst : (claimInstPins plat m.hal slot inst).1 = .ok := by rw [hclaim]
            exact ⟨_, _, rfl, .armed (s := ⟨slot, hslot⟩) rfl hfree hlen' hparse hst⟩
          next st hal hne hclaim =>
            have hal_eq : hal = (claimInstPins plat m.hal slot inst).2 := by rw [hclaim]
            subst hal_eq
            have hst : (claimInstPins plat m.hal slot inst).1 ≠ .ok := by
              rw [hclaim]
              exact hne
            exact ⟨_, _, rfl, .refused (s := ⟨slot, hslot⟩) (by simp) rfl hfree hparse hst⟩
  next hslot => exact ⟨_, m, rfl, .rejected (by simp) (.inl (not_lt.mp hslot))⟩

theorem interlockArmSlotCompiled_outcome (slot id : Nat) (hheader : m.persist.HeaderOk) :
    ∃ r m', interlockArmSlotCompiled slot id m = .ok (r, m') ∧ CompiledOutcome slot id m r m' := by
  unfold interlockArmSlotCompiled
  rw [hheader]
  show ∃ r m', (if h : slot < maxSlots then _ else _) = _ ∧ _
  split
  next hslot =>
    split
    · exact ⟨_, m, rfl, .rejected (by simp)⟩
    next hid =>
      dsimp only
      split
      · exact ⟨_, m, rfl, .rejected (by simp)⟩
      next hfree =>
        have hid' : id = idNoop := by
          unfold idNone idDsl interlockCount at hid
          unfold idNoop
          omega
        exact ⟨_, _, rfl, .armed (s := ⟨slot, hslot⟩) rfl hfree hid'⟩
  · exact ⟨_, m, rfl, .rejected (by simp)⟩

theorem interlockDisarmSlot_outcome (slot : Nat) (hheader : m.persist.HeaderOk) :
    ∃ r m', interlockDisarmSlot slot m = .ok (r, m') ∧ DisarmOutcome slot m r m' := by
  unfold interlockDisarmSlot
  rw [hheader]
  show ∃ r m', (if h : slot < maxSlots then _ else _) = _ ∧ _
  split
  next hslot => exact ⟨_, _, rfl, .disarmed (s := ⟨slot, hslot⟩) rfl⟩
  next hslot => exact ⟨_, m, rfl, .rejected (by simp) (not_lt.mp hslot)⟩

end Outcomes

end SlowBus.Interlock
