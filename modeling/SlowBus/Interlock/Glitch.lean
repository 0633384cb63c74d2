import SlowBus.Interlock.Survival

/-!
# What drives a latched output

Every write to an output is in the drive trace. While a slot is armed and
latched the ticks drive its outputs to their error level and claims made by other
slots do not touch them. The one write of the OK level is the first claim of the
pin when a boot sequence arms the slots again.
-/

namespace SlowBus.Interlock

open Fallible

/-- Some claims were made: only pins that nobody held were driven, by a first
claim, and a held pin stays held. -/
structure Claims (hal hal' : Hal) : Prop where
  trace : ∃ new, hal'.trace = hal.trace ++ new ∧
    ∀ e ∈ new, e.cause = .firstClaim ∧ (hal.claims e.pin).slotMask = 0
  held : ∀ pin, (hal.claims pin).slotMask ≠ 0 → (hal'.claims pin).slotMask ≠ 0

theorem Claims.refl (hal : Hal) : Claims hal hal := ⟨⟨[], by simp, nofun⟩, fun _ h => h⟩

theorem Claims.trans {hal hal' hal'' : Hal} (h : Claims hal hal') (h' : Claims hal' hal'') :
    Claims hal hal'' := by
  obtain ⟨⟨new, htrace, hnew⟩, hheld⟩ := h
  obtain ⟨⟨new', htrace', hnew'⟩, hheld'⟩ := h'
  refine ⟨⟨new ++ new', by rw [htrace', htrace, List.append_assoc], ?_⟩,
    fun pin hpin => hheld' pin (hheld pin hpin)⟩
  intro e he
  rcases List.mem_append.mp he with he | he
  · exact hnew e he
  · obtain ⟨hcause, hmask⟩ := hnew' e he
    exact ⟨hcause, by_contra fun hne => hheld e.pin hne hmask⟩

section Claim

variable (plat : Platform) (hal : Hal) (s : Slot)

theorem slotBit_ne_zero : slotBit s ≠ 0 :=
  BitSet.ne_zero_iff.mpr ⟨s, (BitSet.getLsbD_single (slot_lt_width s)).mpr rfl⟩

theorem or_slotBit_ne_zero (mask : SlotMask) : mask ||| slotBit s ≠ 0 :=
  BitSet.ne_zero_iff.mpr ⟨s, (BitSet.getLsbD_insert (slot_lt_width s)).mpr (.inr rfl)⟩

/-- Rewriting a record with some owner leaves every held pin held. -/
theorem setClaim_held {hal : Hal} {pin : Pin} {r : ClaimRecord} (hr : r.slotMask ≠ 0) (q : Pin)
    (hq : (hal.claims q).slotMask ≠ 0) : ((hal.setClaim pin r).claims q).slotMask ≠ 0 := by
  by_cases hqp : q = pin
  · subst q
    simpa [Hal.setClaim] using hr
  · simpa [Hal.setClaim, hqp] using hq

theorem claims_setClaim {hal : Hal} {pin : Pin} {r : ClaimRecord} (hr : r.slotMask ≠ 0) :
    Claims hal (hal.setClaim pin r) :=
  ⟨⟨[], by simp [Hal.setClaim], nofun⟩, setClaim_held hr⟩

theorem halPinClaim_claims (physId : Nat) (mode : HalMode) :
    Claims hal (halPinClaim plat hal physId s mode).2 := by
  unfold halPinClaim
  dsimp only
  split_ifs
  all_goals first | exact .refl hal | exact claims_setClaim (slotBit_ne_zero s)

theorem halPinClaimAdc_claims (physId : Nat) : Claims hal (halPinClaimAdc hal physId s).2 := by
  unfold halPinClaimAdc
  dsimp only
  split_ifs
  all_goals first | exact .refl hal | exact claims_setClaim (or_slotBit_ne_zero s _)

theorem halPinClaimOutput_claims (physId okValue errValue openDrain : Nat) :
    Claims hal (halPinClaimOutput plat hal physId s okValue errValue openDrain).2 := by
  unfold halPinClaimOutput
  dsimp only
  split_ifs with hlt _ _ _ _ hclaimed
  all_goals try exact .refl hal
  · exact claims_setClaim (or_slotBit_ne_zero s _)
  · have hzero : (hal.claims ⟨physId, hlt⟩).slotMask = 0 := not_not.mp hclaimed
    constructor
    · refine ⟨[⟨⟨physId, hlt⟩, okValue, .firstClaim⟩], rfl, ?_⟩
      intro e he
      obtain rfl := List.mem_singleton.mp he
      exact ⟨rfl, hzero⟩
    · intro q hq
      have hne : q ≠ ⟨physId, hlt⟩ := by
        rintro rfl
        exact hq hzero
      simpa [Hal.setClaim, Hal.gpioInit, halPinApplyOutput, hne] using hq

theorem claimInput_claims (i : Input) : Claims hal (claimInput plat s hal i).2 := by
  unfold claimInput
  split
  · exact .refl hal
  · exact halPinClaimAdc_claims ..
  · split
    · exact .refl hal
    · exact halPinClaim_claims ..

theorem claimOutput_claims (o : Output) : Claims hal (claimOutput plat s hal o).2 :=
  halPinClaimOutput_claims ..

theorem claimLoop_claims {α : Type} {claim : Hal → α → ClaimStatus × Hal}
    (hclaim : ∀ hal a, Claims hal (claim hal a).2) (items : List α) :
    Claims hal (claimLoop claim items hal).2 := by
  induction items generalizing hal with
  | nil => exact .refl hal
  | cons a items ih =>
      by_cases hok : (claim hal a).1 = .ok
      · rw [claimLoop_cons_ok items hok]
        exact (hclaim hal a).trans (ih _)
      · rw [claimLoop_cons_refused items hok]
        exact hclaim hal a

/-- Claiming an instance's pins drives only pins that nobody held. -/
theorem claimInstPins_trace (inst : Inst) : ∃ new,
    (claimInstPins plat hal s inst).2.trace = hal.trace ++ new ∧
      ∀ e ∈ new, e.cause = .firstClaim ∧ (hal.claims e.pin).slotMask = 0 := by
  have hins := claimLoop_claims hal (fun hal i => claimInput_claims plat hal s i) inst.inputs
  unfold claimInstPins
  split
  next hal₁ heq =>
    rw [heq] at hins
    have houts := claimLoop_claims hal₁ (fun hal o => claimOutput_claims plat hal s o) inst.outputs
    have hboth := hins.trans houts
    split
    next hal₂ heq' =>
      rw [heq'] at hboth
      exact hboth.trace
    next st hal₂ _ heq' =>
      rw [heq'] at hboth
      exact hboth.trace
  next st hal₁ _ heq =>
    rw [heq] at hins
    exact hins.trace

end Claim

/-! ## While the machine is up -/

section Up

variable {plat : Platform} {m m' : Machine} {held : Holdings} {s : Slot}

/-- A running slot owns its outputs, with the levels it declared. -/
theorem Settled.output_claim (h : Settled plat m held) (hruns : m.persist.Runs s) {o : Output}
    (ho : o ∈ (m.persist.inst s).outputs) {pin : Pin} (hpin : o.physId = pin) :
    (m.hal.claims pin).slotMask.getLsbD s = true ∧ (m.hal.claims pin).okValue = o.okValue ∧
      (m.hal.claims pin).errValue = o.errValue ∧ o.okValue ≠ o.errValue := by
  have hmem : (pin.val, PinUse.output o.okValue o.errValue o.openDrain) ∈ held s := by
    rw [h.held_eq hruns, ← hpin]
    exact List.mem_append_right _ (List.mem_map_of_mem ho)
  have hrec := h.table.record pin s _ hmem
  have hadm := h.table.admissible s _ _ hmem
  refine ⟨(h.table.mask pin s).mpr ⟨_, hmem⟩, ?_, ?_, hadm.2.2.1⟩
  · rw [hrec]
    rfl
  · rw [hrec]
    rfl

/-- None of these drives gives an output of the list its OK level. -/
def Spares (outs : List Output) (new : List DriveEvent) : Prop :=
  ∀ e ∈ new, ∀ o ∈ outs, o.physId = e.pin → e.value ≠ o.okValue

/-- A running slot that is latched, on a settled machine, with its outputs. -/
structure Holding (plat : Platform) (s : Slot) (outs : List Output) (m : Machine) : Prop where
  settled : ∃ held, Settled plat m held
  runs : m.persist.Runs s
  latched : m.Latched s
  outputs : (m.persist.inst s).outputs = outs

theorem KeepsSlot.outputs {p p' : Persist} (h : KeepsSlot p p' s) :
    (p'.inst s).outputs = (p.inst s).outputs := by
  have houtputs := congrArg Inst.outputs h.inst
  exact houtputs

/-- A call that does not release a slot keeps its record. -/
theorem Op.keepsSlot_of_run {op : Op} {r : AdminResult} (h : Settled plat m held)
    (hrun : op.run plat m = .ok (r, m')) (hkeep : ¬op.Releases s m r) :
    KeepsSlot m.persist m'.persist s := by
  have hheader := Persist.headerOk_of_isValid h.valid
  cases op with
  | setSlotDsl slot text =>
      obtain ⟨r₁, m₁, hrun₁, hout⟩ := interlockSetSlotDsl_outcome plat slot text hheader
      cases hrun₁.symm.trans hrun
      obtain ⟨held', -, hothers, -⟩ := h.toSound.setSlotDsl hout
      refine (hothers s ?_).1
      rw [Op.Releases, not_and_or] at hkeep
      exact hkeep.imp_left Ne.symm
  | armCompiled slot id =>
      obtain ⟨r₁, m₁, hrun₁, hout⟩ := interlockArmSlotCompiled_outcome slot id hheader
      cases hrun₁.symm.trans hrun
      refine (h.toSound.armCompiled hout).2.1 s ?_
      rw [Op.Releases, not_and_or] at hkeep
      exact hkeep.imp_left Ne.symm
  | disarm slot =>
      obtain ⟨r₁, m₁, hrun₁, hout⟩ := interlockDisarmSlot_outcome slot hheader
      cases hrun₁.symm.trans hrun
      obtain ⟨held', -, hothers, -⟩ := h.toSound.disarm hout
      exact (hothers s (Ne.symm hkeep)).1
  | requestClear =>
      cases hrun
      exact .refl _ s
  | tick env =>
      obtain ⟨m₁, hrun₁, heffect, -⟩ := interlockTickAll_effect env h
      rw [Op.run, hrun₁] at hrun
      cases hrun
      exact heffect.keeps s

theorem DslOutcome.trace {slot : Nat} {text : Text} {r : AdminResult}
    (hout : DslOutcome plat slot text m r m') :
    ∃ new, m'.hal.trace = m.hal.trace ++ new ∧
      ∀ e ∈ new, e.cause = .firstClaim ∧ (m.hal.claims e.pin).slotMask = 0 := by
  cases hout with
  | rejected => exact ⟨[], by simp, nofun⟩
  | refused => exact claimInstPins_trace ..
  | armed => exact claimInstPins_trace ..

theorem DisarmOutcome.trace_eq {slot : Nat} {r : AdminResult} (hout : DisarmOutcome slot m r m') :
    m'.hal.trace = m.hal.trace := by
  cases hout <;> rfl

/-- A tick drives the outputs of an armed and latched slot to their error level. -/
theorem TickEffect.spares {env : TickEnv} (heffect : TickEffect env m m')
    (h : Settled plat m held) (hruns : m.persist.Runs s) (hlatched : m'.Latched s) :
    ∃ new, m'.hal.trace = m.hal.trace ++ new ∧ Spares (m.persist.inst s).outputs new := by
  rw [heffect.hal]
  refine ⟨_, rfl, ?_⟩
  intro e he o ho hpin
  obtain ⟨pin, -, hevent⟩ := List.mem_filterMap.mp he
  dsimp only at hevent
  split at hevent
  · obtain rfl := Option.some.inj hevent
    obtain ⟨hbit, hok, herr, hne⟩ := h.output_claim hruns ho hpin
    have harmed : m'.Armed s := ((heffect.keeps s).runs.mpr hruns).1
    have hveto : (m.hal.claims pin).slotMask &&& vetoMask m'.persist ≠ 0 := by
      refine BitSet.ne_zero_iff.mpr ⟨s, ?_⟩
      rw [BitVec.getLsbD_and, hbit, getLsbD_vetoMask.mpr ⟨harmed, hlatched⟩]
      rfl
    show (m.hal.claims pin).vote _ ≠ _
    rw [ClaimRecord.vote, if_pos hveto, herr]
    exact hne.symm
  · cases hevent

/-- A call that does not release a latched slot keeps it and spares its outputs. -/
theorem Holding.keepStep {outs : List Output} (h : Holding plat s outs m)
    (hstep : KeepStep plat s m m') :
    Holding plat s outs m' ∧ ∃ new, m'.hal.trace = m.hal.trace ++ new ∧ Spares outs new := by
  obtain ⟨op, r, hrun, hkeep⟩ := hstep
  obtain ⟨held, hsettled⟩ := h.settled
  have hslot := Op.keepsSlot_of_run hsettled hrun hkeep
  have hlatched := Op.latched_of_run hsettled hrun hkeep h.latched
  refine ⟨⟨Op.settled_of_run hsettled hrun, hslot.runs.mpr h.runs, hlatched,
    hslot.outputs.trans h.outputs⟩, ?_⟩
  have hheader := Persist.headerOk_of_isValid hsettled.valid
  have hquiet : m'.hal.trace = m.hal.trace →
      ∃ new, m'.hal.trace = m.hal.trace ++ new ∧ Spares outs new :=
    fun htrace => ⟨[], by simpa using htrace, nofun⟩
  cases op with
  | setSlotDsl slot text =>
      obtain ⟨r₁, m₁, hrun₁, hout⟩ := interlockSetSlotDsl_outcome plat slot text hheader
      cases hrun₁.symm.trans hrun
      obtain ⟨new, htrace, hnew⟩ := hout.trace
      refine ⟨new, htrace, fun e he o ho hpin => ?_⟩
      obtain ⟨hbit, -⟩ := hsettled.output_claim h.runs (h.outputs ▸ ho) hpin
      exact absurd (hnew e he).2 (BitSet.ne_zero_iff.mpr ⟨s, hbit⟩)
  | armCompiled slot id =>
      obtain ⟨r₁, m₁, hrun₁, hout⟩ := interlockArmSlotCompiled_outcome slot id hheader
      cases hrun₁.symm.trans hrun
      exact hquiet (by cases hout <;> rfl)
  | disarm slot =>
      obtain ⟨r₁, m₁, hrun₁, hout⟩ := interlockDisarmSlot_outcome slot hheader
      cases hrun₁.symm.trans hrun
      exact hquiet hout.trace_eq
  | requestClear =>
      cases hrun
      exact hquiet rfl
  | tick env =>
      obtain ⟨m₁, hrun₁, heffect, -⟩ := interlockTickAll_effect env hsettled
      rw [Op.run, hrun₁] at hrun
      cases hrun
      rw [← h.outputs]
      exact heffect.spares hsettled h.runs hlatched

end Up

/-! ## Across a reset -/

section Reset

variable {plat : Platform} {m m' : Machine} {held : Holdings} {s : Slot}

/-- A trace grew by first claims only. -/
def FirstClaimsOnly (trace trace' : List DriveEvent) : Prop :=
  ∃ new, trace' = trace ++ new ∧ ∀ e ∈ new, e.cause = .firstClaim

theorem FirstClaimsOnly.refl (trace : List DriveEvent) : FirstClaimsOnly trace trace :=
  ⟨[], by simp, nofun⟩

theorem FirstClaimsOnly.append {trace trace' : List DriveEvent} {new : List DriveEvent}
    (h : FirstClaimsOnly trace trace') (hnew : ∀ e ∈ new, e.cause = .firstClaim) :
    FirstClaimsOnly trace (trace' ++ new) := by
  obtain ⟨old, rfl, hold⟩ := h
  refine ⟨old ++ new, List.append_assoc .., fun e he => ?_⟩
  exact (List.mem_append.mp he).elim (hold e) (hnew e)

theorem adminClosed_firstClaims (plat : Platform) (trace : List DriveEvent) :
    AdminClosed plat fun m => FirstClaimsOnly trace m.hal.trace where
  disarm := fun h hout => hout.trace_eq ▸ h
  setSlotDsl := by
    intro m m' slot text r h hout
    obtain ⟨new, htrace, hnew⟩ := hout.trace
    rw [htrace]
    exact h.append fun e he => (hnew e he).1
  fingerprint := fun h => h

theorem RestoreOutcome.trace (hout : RestoreOutcome plat m s m') {trace : List DriveEvent}
    (h : FirstClaimsOnly trace m.hal.trace) : FirstClaimsOnly trace m'.hal.trace := by
  have hclaim : ∀ inst, FirstClaimsOnly trace (claimInstPins plat m.hal s inst).2.trace := by
    intro inst
    obtain ⟨new, htrace, hnew⟩ := claimInstPins_trace plat m.hal s inst
    rw [htrace]
    exact h.append fun e he => (hnew e he).1
  cases hout with
  | skipped => exact h
  | compiled => exact h
  | poisoned => exact h
  | refused => exact hclaim _
  | restored => exact hclaim _

/-- The identifier and the text of slot `s` are those of another record. -/
def KeepsText (p p' : Persist) (s : Slot) : Prop :=
  (p'.slots s).id = (p.slots s).id ∧ p'.dslLen s = p.dslLen s ∧ p'.dslText s = p.dslText s

theorem KeepsSlot.keepsText {p p' : Persist} (h : KeepsSlot p p' s) : KeepsText p p' s :=
  ⟨h.id, h.len, h.text⟩

theorem KeepsText.trans {p p' p'' : Persist} (h : KeepsText p p' s) (h' : KeepsText p' p'' s) :
    KeepsText p p'' s :=
  ⟨h'.1.trans h.1, h'.2.1.trans h.2.1, h'.2.2.trans h.2.2⟩

theorem RestoreOutcome.keepsText {t : Slot} (hout : RestoreOutcome plat m t m') :
    KeepsText m.persist m'.persist s := by
  have hpoison : ∀ m : Machine, KeepsText m.persist (m.poison t).persist s := by
    intro m
    by_cases hst : s = t
    · subst t
      refine ⟨?_, rfl, rfl⟩
      rw [poison_slots_self]
    · exact (poison_keeps hst).keepsText
  cases hout with
  | skipped => exact (KeepsSlot.refl _ s).keepsText
  | compiled => exact (KeepsSlot.refl _ s).keepsText
  | poisoned => exact hpoison m
  | refused => exact hpoison _
  | restored => exact ⟨rfl, rfl, rfl⟩

/-- A slot that vetoes after the boot sequence was not armed by it. -/
theorem adminClosed_keepsText (plat : Platform) (p : Persist) (s : Slot) :
    AdminClosed plat fun m => m.Vetoes s → KeepsText p m.persist s where
  disarm := by
    intro m m' slot r h hout hvetoes
    by_cases hs : slot = s
    · cases hout with
      | rejected => exact h hvetoes
      | @disarmed t hslot =>
          obtain rfl : t = s := Fin.ext (hslot.symm.trans hs)
          exact absurd hvetoes (not_vetoes_of_slot (disarm_slots_self ..))
    · have hsame := (vetoes_congr (hout.slots_eq hs)).mp hvetoes
      refine (h hsame).trans ?_
      cases hout with
      | rejected => exact (KeepsSlot.refl _ s).keepsText
      | @disarmed t hslot =>
          have hne : s ≠ t := fun heq => hs (heq ▸ hslot)
          exact (disarm_keeps hne).keepsText
  setSlotDsl := by
    intro m m' slot text r h hout hvetoes
    have hs := hout.of_vetoes hvetoes
    have hsame := (vetoes_congr (hout.slots_eq hs)).mp hvetoes
    refine (h hsame).trans ?_
    cases hout with
    | rejected => exact (KeepsSlot.refl _ s).keepsText
    | refused => exact (KeepsSlot.refl _ s).keepsText
    | @armed t inst hslot =>
        have hne : s ≠ t := fun heq => hs ⟨heq ▸ hslot, rfl⟩
        exact (armDsl_keeps hne).keepsText
  fingerprint := fun h hvetoes => h hvetoes

/-- The restore makes first claims only and keeps the texts. -/
theorem interlockWarmRestore_trace (hrun : interlockWarmRestore plat m = .ok m') :
    FirstClaimsOnly m.hal.trace m'.hal.trace ∧ ∀ s, KeepsText m.persist m'.persist s := by
  obtain ⟨-, -, hrun⟩ := bind_eq_ok.mp hrun
  obtain rfl := Except.ok.inj hrun
  refine List.foldlRecOn (motive := fun m' : Machine => FirstClaimsOnly m.hal.trace m'.hal.trace ∧
    ∀ s, KeepsText m.persist m'.persist s) _ _ ⟨.refl _, fun s => (KeepsSlot.refl _ s).keepsText⟩ ?_
  intro m' h t _
  have hout := warmRestoreSlot_outcome plat m' t
  exact ⟨hout.trace h.1, fun s => (h.2 s).trans hout.keepsText⟩

/-- A slot that is still armed and latched after a reset has kept its outputs, and
only first claims were made. -/
theorem Holding.reset {outs : List Output} {cfg : Config} {ms : Nat} {b : Bringup}
    (h : Holding plat s outs m) (hboot : bootUp plat cfg ms m.persist m.hal.trace = .ok b)
    (hvetoes : b.machine.Vetoes s) :
    Holding plat s outs b.machine ∧ FirstClaimsOnly m.hal.trace b.machine.hal.trace := by
  obtain ⟨held, hsettled⟩ := h.settled
  obtain ⟨held', hsettled'⟩ := (Reachable.boot hboot).settled
  have htext : KeepsText m.persist b.machine.persist s := by
    refine (adminClosed_keepsText plat m.persist s).bootUp hboot (fun _ hm => hm) ?_ hvetoes
    intro m₁ hrestore _
    refine KeepsText.trans ?_ ((interlockWarmRestore_trace hrestore).2 s)
    show KeepsText m.persist (interlockBootDecide m.persist) s
    rw [interlockBootDecide_of_isValid hsettled.valid]
    refine ⟨?_, rfl, rfl⟩
    show (m.persist.slots s).countBoot.id = _
    unfold SlotPersist.countBoot
    split_ifs <;> rfl
  have htrace : FirstClaimsOnly m.hal.trace b.machine.hal.trace := by
    refine (adminClosed_firstClaims plat m.hal.trace).bootUp hboot (fun _ hm => hm) ?_
    exact fun m₁ hrestore => (interlockWarmRestore_trace hrestore).1
  have hruns : b.machine.persist.Runs s := ⟨hvetoes.1, htext.1.trans h.runs.2⟩
  refine ⟨⟨⟨held', hsettled'⟩, hruns, hvetoes.2, ?_⟩, htrace⟩
  -- the same text parses to the same instance
  have hparse := (hsettled.complete s h.runs).1.2
  have hparse' := (hsettled'.complete s hruns).1.2
  have hsame : b.machine.persist.text s = m.persist.text s := by
    unfold Persist.text
    rw [htext.2.1, htext.2.2]
  rw [hsame, hparse] at hparse'
  have houts := congrArg Inst.outputs (Except.ok.inj hparse')
  exact houts.symm.trans h.outputs

end Reset

/-! ## Whole runs -/

/-- A step of a run during which slot `s` stays armed and latched: a call that
does not release it, or a warm reset after which it is still armed and latched. -/
inductive HoldStep (plat : Platform) (s : Slot) (m : Machine) : Machine → Prop where
  | call {m' : Machine} (hstep : KeepStep plat s m m') : HoldStep plat s m m'
  | reset {cfg : Config} {ms : Nat} {b : Bringup}
      (hboot : bootUp plat cfg ms m.persist m.hal.trace = .ok b)
      (hkept : b.machine.Armed s ∧ b.machine.Latched s) : HoldStep plat s m b.machine

/-- While a slot stays armed and latched, a run of calls never drives one of its
outputs to the OK level; a run that includes warm resets does so by first claims
only, those of the boot sequences. -/
theorem latched_outputs_spared {plat : Platform} {m m' : Machine} {s : Slot}
    (hreach : Reachable plat m) (hruns : m.persist.Runs s) (hlatched : m.Latched s) :
    (Relation.ReflTransGen (KeepStep plat s) m m' → ∃ new, m'.hal.trace = m.hal.trace ++ new ∧
      ∀ e ∈ new, ∀ o ∈ (m.persist.inst s).outputs, o.physId = e.pin → e.value ≠ o.okValue) ∧
    (Relation.ReflTransGen (HoldStep plat s) m m' → ∃ new, m'.hal.trace = m.hal.trace ++ new ∧
      ∀ e ∈ new, ∀ o ∈ (m.persist.inst s).outputs, o.physId = e.pin → e.value = o.okValue →
        e.cause = .firstClaim) := by
  have hstart : Holding plat s (m.persist.inst s).outputs m :=
    ⟨hreach.settled, hruns, hlatched, rfl⟩
  constructor
  · intro hrun
    refine (Runs.preserved (P := fun x => Holding plat s (m.persist.inst s).outputs x ∧
      ∃ new, x.hal.trace = m.hal.trace ++ new ∧ Spares (m.persist.inst s).outputs new)
      ?_ hrun ⟨hstart, [], by simp, nofun⟩).2
    rintro a b ⟨ha, new, htrace, hnew⟩ hstep
    obtain ⟨hb, new', htrace', hnew'⟩ := ha.keepStep hstep
    refine ⟨hb, new ++ new', by rw [htrace', htrace, List.append_assoc], fun e he => ?_⟩
    exact (List.mem_append.mp he).elim (hnew e) (hnew' e)
  · intro hrun
    refine (Runs.preserved (P := fun x => Holding plat s (m.persist.inst s).outputs x ∧
      ∃ new, x.hal.trace = m.hal.trace ++ new ∧ ∀ e ∈ new, ∀ o ∈ (m.persist.inst s).outputs,
        o.physId = e.pin → e.value = o.okValue → e.cause = .firstClaim)
      ?_ hrun ⟨hstart, [], by simp, nofun⟩).2
    rintro a b ⟨ha, new, htrace, hnew⟩ hstep
    cases hstep with
    | call hstep =>
        obtain ⟨hb, new', htrace', hnew'⟩ := ha.keepStep hstep
        refine ⟨hb, new ++ new', by rw [htrace', htrace, List.append_assoc], fun e he => ?_⟩
        refine (List.mem_append.mp he).elim (hnew e) fun he o ho hpin hvalue => ?_
        exact absurd hvalue (hnew' e he o ho hpin)
    | reset hboot hkept =>
        obtain ⟨hb, new', htrace', hnew'⟩ := ha.reset hboot hkept
        refine ⟨hb, new ++ new', by rw [htrace', htrace, List.append_assoc], fun e he => ?_⟩
        exact (List.mem_append.mp he).elim (hnew e) fun he _ _ _ _ => hnew' e he

/-- The bench slot, latched, over one reset: the boot sequence claims the veto line
afresh and so drives it to the OK level once. -/
theorem benchLatched_reset : ∃ m b, UpWith benchPlatform (fun _ => none) m ∧
    m.persist.Runs 1 ∧ m.Latched 1 ∧ (⟨0, 1, 0, 2⟩ : Output) ∈ (m.persist.inst 1).outputs ∧
    bootUp benchPlatform (fun _ => none) 0 m.persist m.hal.trace = .ok b ∧
    (b.machine.Armed 1 ∧ b.machine.Latched 1) ∧
    b.machine.hal.trace = m.hal.trace ++ [⟨0, 1, .firstClaim⟩] := by
  obtain ⟨m, hm, htest⟩ := exists_of_succeedsWith (x := benchLatched)
    (p := fun m => decide (m.Armed 1 ∧ (m.persist.slots 1).id = idDsl ∧ m.Latched 1 ∧
      (⟨0, 1, 0, 2⟩ : Output) ∈ (m.persist.inst 1).outputs) &&
      succeedsWith (bootUp benchPlatform (fun _ => none) 0 m.persist m.hal.trace) fun b =>
        decide ((b.machine.Armed 1 ∧ b.machine.Latched 1) ∧
          b.machine.hal.trace = m.hal.trace ++ [⟨0, 1, .firstClaim⟩]))
    (by decide +kernel)
  rw [Bool.and_eq_true] at htest
  obtain ⟨harmed, hid, hlatched, hout⟩ := of_decide_eq_true htest.1
  obtain ⟨b, hboot, htest'⟩ := exists_of_succeedsWith htest.2
  obtain ⟨hkept, htrace⟩ := of_decide_eq_true htest'
  exact ⟨m, b, benchLatched_upWith hm, ⟨harmed, hid⟩, hlatched, hout, hboot, hkept, htrace⟩

theorem latched_outputs_spared_bench : ∃ m m', Reachable benchPlatform m ∧ m.Latched 1 ∧
    Relation.ReflTransGen (HoldStep benchPlatform 1) m m' ∧
    ∃ new, m'.hal.trace = m.hal.trace ++ new ∧ ∀ e ∈ new, ∀ o ∈ (m.persist.inst 1).outputs,
      o.physId = e.pin → e.value = o.okValue → e.cause = .firstClaim := by
  obtain ⟨m, b, hup, hruns, hlatched, -, hboot, hkept, -⟩ := benchLatched_reset
  have hrun : Relation.ReflTransGen (HoldStep benchPlatform 1) m b.machine :=
    .single (.reset hboot hkept)
  exact ⟨m, b.machine, hup.reachable, hlatched, hrun,
    (latched_outputs_spared hup.reachable hruns hlatched).2 hrun⟩

/-- A run with a warm reset does drive an output of a latched slot to its OK
level. -/
theorem not_spared_over_resets : ¬∀ (plat : Platform) (m m' : Machine) (s : Slot),
    Reachable plat m → m.persist.Runs s → m.Latched s →
    Relation.ReflTransGen (HoldStep plat s) m m' → ∃ new, m'.hal.trace = m.hal.trace ++ new ∧
      ∀ e ∈ new, ∀ o ∈ (m.persist.inst s).outputs, o.physId = e.pin → e.value ≠ o.okValue := by
  intro hall
  obtain ⟨m, b, hup, hruns, hlatched, hout, hboot, hkept, htrace⟩ := benchLatched_reset
  obtain ⟨new, hnew, hspares⟩ := hall benchPlatform m b.machine 1 hup.reachable hruns hlatched
    (.single (.reset hboot hkept))
  obtain rfl : [⟨0, 1, .firstClaim⟩] = new := List.append_cancel_left (htrace.symm.trans hnew)
  exact hspares ⟨0, 1, .firstClaim⟩ (by simp) ⟨0, 1, 0, 2⟩ hout rfl rfl

end SlowBus.Interlock
