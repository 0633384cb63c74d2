import SlowBus.Interlock.Admin

/-!
# The soundness invariant

Three tables have to agree: the persistent slot records, the parsed instances
and the claim table. A machine is sound when the claim table represents holdings
in which a slot holds nothing, or is armed from a text and holds exactly the
pins of the instance that text parses to. It is settled when every slot armed
from a text does so.
-/

namespace SlowBus.Interlock

/-- Slot `s` is armed from a text. -/
def Persist.Runs (p : Persist) (s : Slot) : Prop :=
  (p.slots s).state = .armed ∧ (p.slots s).id = idDsl

/-- The text stored for slot `s` parses to its instance. -/
def Persist.Backed (p : Persist) (s : Slot) : Prop :=
  (0 < p.dslLen s ∧ p.dslLen s < dslMax) ∧
    ilParse (p.text s) = .ok { p.inst s with tfState := .unevaluated }

/-- The pins slot `s` is to hold. -/
def Persist.pins (p : Persist) (s : Slot) : Set (Nat × PinUse) := {x | x ∈ (p.inst s).uses}

structure Sound (plat : Platform) (m : Machine) (held : Holdings) : Prop where
  valid : m.persist.isValid = true
  table : Holds plat m.hal held
  slots : ∀ s, held s = ∅ ∨ (m.persist.Runs s ∧ m.persist.Backed s ∧ held s = m.persist.pins s)

structure Settled (plat : Platform) (m : Machine) (held : Holdings) : Prop
    extends Sound plat m held where
  complete : ∀ s, m.persist.Runs s → m.persist.Backed s ∧ held s = m.persist.pins s

/-! ## Validity -/

theorem Persist.isValid_iff {p : Persist} : p.isValid = true ↔
    p.HeaderOk ∧ (∀ s, p.slotValid s = true) ∧
      (p.crash.lastCrashedSlot = crashedSlotNone ∨ p.crash.lastCrashedSlot < maxSlots) := by
  have hheader : p.HeaderOk ↔
      p.magic = interlockMagic ∧ p.version = persistVersion ∧ p.selfSize = persistSize := by
    unfold Persist.HeaderOk verifyPersistOrPanic
    split_ifs <;> simp_all
  rw [hheader]
  simp [Persist.isValid, and_assoc]

theorem Persist.headerOk_of_isValid {p : Persist} (h : p.isValid = true) : p.HeaderOk :=
  (isValid_iff.mp h).1

theorem isValid_cold : Persist.cold.isValid = true := by decide

/-- Rewriting one slot with a valid record keeps the whole record valid. -/
theorem Persist.isValid_of_slot {p p' : Persist} {s : Slot} (h : p.isValid = true)
    (hheader : verifyPersistOrPanic p' = verifyPersistOrPanic p) (hcrash : p'.crash = p.crash)
    (hothers : ∀ t, t ≠ s → p'.slotValid t = p.slotValid t) (hslot : p'.slotValid s = true) :
    p'.isValid = true := by
  obtain ⟨h1, h2, h3⟩ := isValid_iff.mp h
  refine isValid_iff.mpr ⟨hheader.trans h1, ?_, hcrash ▸ h3⟩
  intro t
  by_cases hts : t = s
  · exact hts ▸ hslot
  · exact (hothers t hts).trans (h2 t)

/-- What validity says of a slot's record. -/
theorem Persist.slotValid_iff {p : Persist} {s : Slot} : p.slotValid s = true ↔
    (p.slots s).state ≠ .garbage ∧
      ((p.slots s).id = idNone ∨ (p.slots s).id = idNoop ∨ (p.slots s).id = idDsl) ∧
      ((p.slots s).state = .armed → (p.slots s).id ≠ idNone) ∧
      ((p.slots s).state = .armed → (p.slots s).id = idDsl →
        0 < p.dslLen s ∧ p.dslLen s < dslMax) := by
  simp only [Persist.slotValid, Bool.and_eq_true, Bool.or_eq_true, bne_iff_ne, beq_iff_eq,
    Bool.not_eq_true', Bool.and_eq_false_iff, beq_eq_false_iff_ne, Bool.or_eq_false_iff,
    decide_eq_false_iff_not, and_assoc, or_assoc, not_le, ge_iff_le]
  refine and_congr_right fun _ => and_congr_right fun _ => and_congr ?_ ?_
  · exact imp_iff_not_or.symm
  · rw [← imp_iff_not_or, ← imp_iff_not_or, Nat.pos_iff_ne_zero]

/-! ## Slots an operation leaves alone -/

/-- Slot `t` keeps its state, its text and its instance; only its latch and its
truth value may differ. -/
structure KeepsSlot (p p' : Persist) (t : Slot) : Prop where
  state : (p'.slots t).state = (p.slots t).state
  id : (p'.slots t).id = (p.slots t).id
  bootCounter : (p'.slots t).bootCounter = (p.slots t).bootCounter
  inst : { p'.inst t with tfState := .unevaluated } = { p.inst t with tfState := .unevaluated }
  len : p'.dslLen t = p.dslLen t
  text : p'.dslText t = p.dslText t

namespace KeepsSlot

variable {p p' p'' : Persist} {t : Slot}

theorem refl (p : Persist) (t : Slot) : KeepsSlot p p t := ⟨rfl, rfl, rfl, rfl, rfl, rfl⟩

theorem trans (h : KeepsSlot p p' t) (h' : KeepsSlot p' p'' t) : KeepsSlot p p'' t :=
  ⟨h'.state.trans h.state, h'.id.trans h.id, h'.bootCounter.trans h.bootCounter,
    h'.inst.trans h.inst, h'.len.trans h.len, h'.text.trans h.text⟩

theorem runs (h : KeepsSlot p p' t) : p'.Runs t ↔ p.Runs t := by
  unfold Persist.Runs
  rw [h.state, h.id]

theorem backed (h : KeepsSlot p p' t) : p'.Backed t ↔ p.Backed t := by
  unfold Persist.Backed Persist.text
  rw [h.len, h.text, h.inst]

theorem pins (h : KeepsSlot p p' t) : p'.pins t = p.pins t := by
  have hinputs := congrArg Inst.inputs h.inst
  have houtputs := congrArg Inst.outputs h.inst
  unfold Persist.pins Inst.uses
  dsimp only at hinputs houtputs
  rw [hinputs, houtputs]

theorem slotValid (h : KeepsSlot p p' t) : p'.slotValid t = p.slotValid t := by
  unfold Persist.slotValid
  dsimp only
  rw [h.state, h.id, h.len]

end KeepsSlot

/-- An operation that keeps every slot keeps the invariant, whatever it does to
the pads. -/
theorem Sound.of_keeps {plat : Platform} {m m' : Machine} {held : Holdings}
    (h : Sound plat m held)
    (hheader : verifyPersistOrPanic m'.persist = verifyPersistOrPanic m.persist)
    (hcrash : m'.persist.crash = m.persist.crash)
    (hkeeps : ∀ t, KeepsSlot m.persist m'.persist t) (hclaims : m'.hal.claims = m.hal.claims) :
    Sound plat m' held where
  valid := Persist.isValid_of_slot (s := 0) h.valid hheader hcrash (fun t _ => (hkeeps t).slotValid)
    ((hkeeps 0).slotValid.trans ((Persist.isValid_iff.mp h.valid).2.1 0))
  table := h.table.of_claims_eq hclaims
  slots := by
    intro s
    rw [(hkeeps s).runs, (hkeeps s).backed, (hkeeps s).pins]
    exact h.slots s

theorem Settled.of_keeps {plat : Platform} {m m' : Machine} {held : Holdings}
    (h : Settled plat m held)
    (hheader : verifyPersistOrPanic m'.persist = verifyPersistOrPanic m.persist)
    (hcrash : m'.persist.crash = m.persist.crash)
    (hkeeps : ∀ t, KeepsSlot m.persist m'.persist t) (hclaims : m'.hal.claims = m.hal.claims) :
    Settled plat m' held where
  toSound := h.toSound.of_keeps hheader hcrash hkeeps hclaims
  complete := by
    intro s
    rw [(hkeeps s).runs, (hkeeps s).backed, (hkeeps s).pins]
    exact h.complete s

theorem Settled.held_eq {plat : Platform} {m : Machine} {held : Holdings}
    (h : Settled plat m held) {s : Slot} (hruns : m.persist.Runs s) :
    held s = m.persist.pins s := (h.complete s hruns).2

/-- A slot that is not armed from a text holds nothing. -/
theorem Sound.held_empty {plat : Platform} {m : Machine} {held : Holdings}
    (h : Sound plat m held) {s : Slot} (hruns : ¬m.persist.Runs s) : held s = ∅ := by
  rcases h.slots s with hempty | ⟨hr, -⟩
  · exact hempty
  · exact absurd hr hruns

theorem Persist.Backed.wellFormed {p : Persist} {s : Slot} (h : p.Backed s) :
    (p.inst s).WellFormed := by
  have hwf := ilParse_wellFormed h.2
  exact ⟨hwf.inputs, hwf.outputs, hwf.disjoint, hwf.count, hwf.groups⟩

/-! ## The administration calls -/

section Admin

variable {plat : Platform} {slot id : Nat} {text : Text} {m m' : Machine} {held : Holdings}
  {r : AdminResult}

theorem armDsl_keeps {p : Persist} {s t : Slot} {inst : Inst} (hts : t ≠ s) :
    KeepsSlot p (p.armDsl s inst text) t := by
  constructor <;> simp [Persist.armDsl, Persist.storeDsl, Persist.setSlot, hts]

theorem armCompiled_keeps {p : Persist} {s t : Slot} (hts : t ≠ s) :
    KeepsSlot p (p.armCompiled s id) t := by
  constructor <;> simp [Persist.armCompiled, Persist.setSlot, hts]

theorem disarm_keeps {p : Persist} {s t : Slot} (hts : t ≠ s) : KeepsSlot p (p.disarm s) t := by
  constructor <;> simp [Persist.disarm, Persist.setSlot, hts]

theorem armDsl_slots_self (p : Persist) (s : Slot) (inst : Inst) (text : Text) :
    (p.armDsl s inst text).slots s = ⟨.armed, idDsl, 0, false⟩ := Function.update_self ..

theorem armCompiled_slots_self (p : Persist) (s : Slot) (id : Nat) :
    (p.armCompiled s id).slots s = ⟨.armed, id, 0, false⟩ := Function.update_self ..

theorem disarm_slots_self (p : Persist) (s : Slot) :
    (p.disarm s).slots s = ⟨.empty, idNone, 0, false⟩ := Function.update_self ..

/-- A slot armed from a text runs it. -/
theorem armDsl_runs (p : Persist) (s : Slot) (inst : Inst) (text : Text) :
    (p.armDsl s inst text).Runs s := by
  rw [Persist.Runs, armDsl_slots_self]
  exact ⟨rfl, rfl⟩

theorem armDsl_pins (p : Persist) (s : Slot) (inst : Inst) (text : Text) :
    (p.armDsl s inst text).pins s = {x | x ∈ inst.uses} := by
  simp [Persist.pins, Persist.armDsl, Persist.storeDsl, Persist.setSlot]

theorem armDsl_text (p : Persist) (s : Slot) (inst : Inst) (text : Text) :
    (p.armDsl s inst text).text s = text := by
  simp [Persist.text, Persist.armDsl, Persist.storeDsl, Persist.setSlot]

/-- The parser leaves the truth value unevaluated. -/
theorem ilParse_unevaluated {inst : Inst} (hparse : ilParse text = .ok inst) :
    { inst with tfState := .unevaluated } = inst := by
  obtain ⟨_, _, d, _, -, -, -, -, hfinish⟩ := ilParseImpl_eq_ok hparse
  rw [finishDraft_eq_ok hfinish]

theorem armDsl_backed {p : Persist} {s : Slot} {inst : Inst}
    (hlen : 0 < text.length ∧ text.length < dslMax) (hparse : ilParse text = .ok inst) :
    (p.armDsl s inst text).Backed s := by
  have hlen' : (p.armDsl s inst text).dslLen s = text.length := by
    simp [Persist.armDsl, Persist.storeDsl, Persist.setSlot]
  have hinst : (p.armDsl s inst text).inst s = inst := by
    simp [Persist.armDsl, Persist.storeDsl, Persist.setSlot]
  unfold Persist.Backed
  rw [hlen', hinst, armDsl_text, ilParse_unevaluated hparse]
  exact ⟨hlen, hparse⟩

theorem armDsl_isValid {p : Persist} {s : Slot} {inst : Inst} (h : p.isValid = true)
    (hlen : 0 < text.length ∧ text.length < dslMax) (hparse : ilParse text = .ok inst) :
    (p.armDsl s inst text).isValid = true := by
  refine Persist.isValid_of_slot h rfl rfl (fun t hts => (armDsl_keeps hts).slotValid)
    (Persist.slotValid_iff.mpr ?_)
  have hruns := armDsl_runs p s inst text
  rw [hruns.1, hruns.2]
  exact ⟨by decide, by decide, by decide, fun _ _ => (armDsl_backed hlen hparse).1⟩

theorem armCompiled_isValid {p : Persist} {s : Slot} (h : p.isValid = true) (hid : id = idNoop) :
    (p.armCompiled s id).isValid = true := by
  refine Persist.isValid_of_slot h rfl rfl (fun t hts => (armCompiled_keeps hts).slotValid)
    (Persist.slotValid_iff.mpr ?_)
  rw [armCompiled_slots_self, hid]
  exact ⟨by decide, by decide, by decide, fun _ hdsl => absurd hdsl (by decide)⟩

theorem disarm_isValid {p : Persist} {s : Slot} (h : p.isValid = true) :
    (p.disarm s).isValid = true := by
  refine Persist.isValid_of_slot h rfl rfl (fun t hts => (disarm_keeps hts).slotValid)
    (Persist.slotValid_iff.mpr ?_)
  rw [disarm_slots_self]
  exact ⟨by decide, by decide, by decide, fun harmed => absurd harmed (by decide)⟩

/-- An operation that rewrites one slot keeps the invariant if it is right about
that slot. -/
theorem Sound.of_slot {held' : Holdings} (h : Sound plat m held) (s : Slot)
    (hvalid : m'.persist.isValid = true) (htable : Holds plat m'.hal held')
    (hothers : ∀ t, t ≠ s → KeepsSlot m.persist m'.persist t ∧ held' t = held t)
    (hslot : held' s = ∅ ∨
      (m'.persist.Runs s ∧ m'.persist.Backed s ∧ held' s = m'.persist.pins s)) :
    Sound plat m' held' := by
  refine ⟨hvalid, htable, fun t => ?_⟩
  by_cases hts : t = s
  · exact hts ▸ hslot
  · obtain ⟨hkeep, hheld⟩ := hothers t hts
    rw [hheld, hkeep.runs, hkeep.backed, hkeep.pins]
    exact h.slots t

/-- Dropping a slot that holds nothing changes nothing. -/
theorem Holdings.drop_of_empty {s : Slot} (hempty : held s = ∅) : held.drop s = held := by
  rw [Holdings.drop, ← hempty, Function.update_eq_self]

/-- A free slot can be armed from a text without disturbing the others. -/
theorem Sound.setSlotDsl (h : Sound plat m held) (hout : DslOutcome plat slot text m r m') :
    ∃ held', Sound plat m' held' ∧
      (∀ t : Slot, t.val ≠ slot ∨ r.status ≠ .ok →
        KeepsSlot m.persist m'.persist t ∧ held' t = held t) ∧
      ∀ t : Slot, t.val = slot → r.status = .ok →
        m'.persist.Backed t ∧ held' t = m'.persist.pins t := by
  have hcoh : ∀ {s : Slot} {inst : Inst}, held s = ∅ → ilParse text = .ok inst →
      Coherent (held s ∪ {x | x ∈ inst.uses}) := by
    intro s inst hempty hparse
    rw [hempty, Set.empty_union]
    exact (ilParse_wellFormed hparse).coherent
  cases hout with
  | rejected hr =>
      exact ⟨held, h, fun t _ => ⟨.refl _ t, rfl⟩, fun t _ hok => absurd hok hr⟩
  | @refused _ s inst hr hslot hfree hparse hclaim =>
      have hempty : held s = ∅ := h.held_empty fun hruns => hfree hruns.1
      rcases claimInstPins_outcome h.table (hcoh hempty hparse) with ⟨hok, -⟩ | ⟨-, -, htable⟩
      · exact absurd hok hclaim
      · rw [Holdings.drop_of_empty hempty] at htable
        exact ⟨held, ⟨h.valid, htable, h.slots⟩, fun t _ => ⟨.refl _ t, rfl⟩,
          fun t _ hok => absurd hok hr⟩
  | @armed s inst hslot hfree hlen hparse hclaim =>
      have hempty : held s = ∅ := h.held_empty fun hruns => hfree hruns.1
      rcases claimInstPins_outcome h.table (hcoh hempty hparse) with ⟨-, -, htable⟩ | ⟨hno, -⟩
      · have hself : held.add s {x | x ∈ inst.uses} s = (m.persist.armDsl s inst text).pins s := by
          rw [Holdings.add_self, hempty, Set.empty_union, armDsl_pins]
        have hbacked : (m.persist.armDsl s inst text).Backed s := armDsl_backed hlen hparse
        have hothers : ∀ t, t ≠ s → KeepsSlot m.persist (m.persist.armDsl s inst text) t ∧
            held.add s {x | x ∈ inst.uses} t = held t :=
          fun t hts => ⟨armDsl_keeps hts, Holdings.add_of_ne hts _⟩
        refine ⟨_, h.of_slot s (armDsl_isValid h.valid hlen hparse) htable hothers
          (.inr ⟨armDsl_runs .., hbacked, hself⟩), ?_, ?_⟩
        · rintro t (hts | hno)
          · exact hothers t fun heq => hts (heq ▸ hslot.symm)
          · exact absurd rfl hno
        · intro t hts _
          obtain rfl : t = s := Fin.ext (hts.trans hslot)
          exact ⟨hbacked, hself⟩
      · exact absurd hclaim hno

/-- The no-op claims nothing. -/
theorem Sound.armCompiled (h : Sound plat m held) (hout : CompiledOutcome slot id m r m') :
    Sound plat m' held ∧
      (∀ t : Slot, t.val ≠ slot ∨ r.status ≠ .ok → KeepsSlot m.persist m'.persist t) ∧
      ∀ t : Slot, t.val = slot → r.status = .ok → ¬m'.persist.Runs t := by
  cases hout with
  | rejected hr => exact ⟨h, fun t _ => .refl _ t, fun t _ hok => absurd hok hr⟩
  | @armed s hslot hfree hid =>
      have hempty : held s = ∅ := h.held_empty fun hruns => hfree hruns.1
      refine ⟨h.of_slot s (armCompiled_isValid h.valid hid) h.table
        (fun t hts => ⟨armCompiled_keeps hts, rfl⟩) (.inl hempty), ?_, ?_⟩
      · rintro t (hts | hno)
        · exact armCompiled_keeps fun heq => hts (heq ▸ hslot.symm)
        · exact absurd rfl hno
      · rintro t hts - ⟨-, hdsl⟩
        obtain rfl : t = s := Fin.ext (hts.trans hslot)
        change ((m.persist.armCompiled t id).slots t).id = idDsl at hdsl
        rw [armCompiled_slots_self] at hdsl
        exact absurd (hid.symm.trans hdsl) (by decide)

/-- A disarmed slot holds nothing. -/
theorem Sound.disarm (h : Sound plat m held) (hout : DisarmOutcome slot m r m') :
    ∃ held', Sound plat m' held' ∧
      (∀ t : Slot, t.val ≠ slot → KeepsSlot m.persist m'.persist t ∧ held' t = held t) ∧
      ∀ t : Slot, t.val = slot → (m'.persist.slots t).state = .empty := by
  cases hout with
  | rejected hr hslot =>
      exact ⟨held, h, fun t _ => ⟨.refl _ t, rfl⟩,
        fun t hts => absurd t.isLt (not_lt.mpr (hts ▸ hslot))⟩
  | @disarmed s hslot =>
      have hothers : ∀ t, t ≠ s → KeepsSlot m.persist (m.persist.disarm s) t ∧
          held.drop s t = held t := fun t hts => ⟨disarm_keeps hts, Holdings.drop_of_ne hts⟩
      refine ⟨held.drop s, h.of_slot s (disarm_isValid h.valid) (h.table.release s) hothers
        (.inl Holdings.drop_self), ?_, ?_⟩
      · exact fun t hts => hothers t fun heq => hts (heq ▸ hslot.symm)
      · intro t hts
        obtain rfl : t = s := Fin.ext (hts.trans hslot)
        exact congrArg SlotPersist.state (disarm_slots_self m.persist t)

/-- A settled machine stays settled when an operation keeps some slots and gets
the others right. -/
theorem Settled.of_slots {held' : Holdings} (h : Settled plat m held) (h' : Sound plat m' held')
    {K : Slot → Prop}
    (hkeep : ∀ t, K t → KeepsSlot m.persist m'.persist t ∧ held' t = held t)
    (hrest : ∀ t, ¬K t → m'.persist.Runs t →
      m'.persist.Backed t ∧ held' t = m'.persist.pins t) :
    Settled plat m' held' := by
  refine ⟨h', fun t hruns => ?_⟩
  by_cases hkt : K t
  · obtain ⟨hk, hheld⟩ := hkeep t hkt
    rw [hk.runs] at hruns
    rw [hk.backed, hk.pins, hheld]
    exact h.complete t hruns
  · exact hrest t hkt hruns

theorem Settled.setSlotDsl (h : Settled plat m held) (hout : DslOutcome plat slot text m r m') :
    ∃ held', Settled plat m' held' := by
  obtain ⟨held', hsound, hkeep, harmed⟩ := h.toSound.setSlotDsl hout
  refine ⟨held', h.of_slots hsound hkeep ?_⟩
  intro t hnot _
  rw [not_or, not_not, not_not] at hnot
  exact harmed t hnot.1 hnot.2

theorem Settled.armCompiled (h : Settled plat m held) (hout : CompiledOutcome slot id m r m') :
    Settled plat m' held := by
  obtain ⟨hsound, hkeep, harmed⟩ := h.toSound.armCompiled hout
  refine h.of_slots hsound (fun t ht => ⟨hkeep t ht, rfl⟩) ?_
  intro t hnot hruns
  rw [not_or, not_not, not_not] at hnot
  exact absurd hruns (harmed t hnot.1 hnot.2)

theorem Settled.disarm (h : Settled plat m held) (hout : DisarmOutcome slot m r m') :
    ∃ held', Settled plat m' held' := by
  obtain ⟨held', hsound, hkeep, hempty⟩ := h.toSound.disarm hout
  refine ⟨held', h.of_slots hsound hkeep ?_⟩
  intro t hnot hruns
  rw [not_not] at hnot
  cases hruns.1.symm.trans (hempty t hnot)

end Admin

end SlowBus.Interlock
