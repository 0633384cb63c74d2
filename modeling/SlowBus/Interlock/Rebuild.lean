import SlowBus.Interlock.Survival

/-!
# A warm restore is a fresh arm

The holdings of a settled machine are the pins of its armed texts, so they do not depend on the
order in which the slots were armed. A restore that poisons no slot leaves the same holdings,
hence the same claim table, and instances that were parsed from the same texts.
-/

namespace SlowBus.Interlock

open Fallible

section Rebuild

variable {plat : Platform} {m m' : Machine} {held held' : Holdings} {s : Slot}

/-! ## Restored instances -/

/-- A restored slot has not been evaluated. -/
theorem warmRestoreSlot_inst (plat : Platform) (m : Machine) (s : Slot) :
    (∀ t, t ≠ s → (warmRestoreSlot plat m s).persist.inst t = m.persist.inst t) ∧
      ((warmRestoreSlot plat m s).persist.Runs s →
        ((warmRestoreSlot plat m s).persist.inst s).tfState = .unevaluated) := by
  have hout := warmRestoreSlot_outcome plat m s
  generalize warmRestoreSlot plat m s = m' at hout
  cases hout with
  | skipped hruns => exact ⟨fun _ _ => rfl, fun h => absurd h hruns⟩
  | compiled hruns => exact ⟨fun _ _ => rfl, fun h => absurd h hruns⟩
  | poisoned => exact ⟨fun _ _ => rfl, fun h => absurd h (not_runs_poison _ s)⟩
  | refused => exact ⟨fun _ _ => rfl, fun h => absurd h (not_runs_poison _ s)⟩
  | @restored inst hruns hlen hparse hclaim =>
      refine ⟨fun t hts => Function.update_of_ne hts .., fun _ => ?_⟩
      show ((m.persist.setInst s inst).inst s).tfState = .unevaluated
      rw [setInst_inst_self, ← ilParse_unevaluated hparse]

theorem warmRestoreSlot_runs (plat : Platform) (m : Machine) {s t : Slot} (hts : t ≠ s) :
    (warmRestoreSlot plat m s).persist.Runs t ↔ m.persist.Runs t := by
  have hout := warmRestoreSlot_outcome plat m s
  generalize warmRestoreSlot plat m s = m' at hout
  cases hout with
  | skipped => exact Iff.rfl
  | compiled => exact Iff.rfl
  | poisoned => exact (poison_keeps hts).runs
  | refused => exact (poison_keeps hts).runs
  | restored => exact (setInst_keeps hts).runs

/-- After the restore no running slot has been evaluated. -/
theorem warmRestore_unevaluated (hrun : interlockWarmRestore plat m = .ok m')
    (hruns : m'.persist.Runs s) : (m'.persist.inst s).tfState = .unevaluated := by
  obtain ⟨-, -, hrun⟩ := bind_eq_ok.mp hrun
  obtain rfl := Except.ok.inj hrun
  have hall : ∀ (slots : List Slot) (m : Machine),
      (s ∈ slots ∨ (m.persist.Runs s → (m.persist.inst s).tfState = .unevaluated)) →
      (slots.foldl (warmRestoreSlot plat) m).persist.Runs s →
      ((slots.foldl (warmRestoreSlot plat) m).persist.inst s).tfState = .unevaluated := by
    intro slots
    induction slots with
    | nil => exact fun m h => h.resolve_left List.not_mem_nil
    | cons t slots ih =>
        intro m h
        obtain ⟨hothers, hself⟩ := warmRestoreSlot_inst plat m t
        refine ih _ ?_
        by_cases hst : s = t
        · subst hst
          exact .inr hself
        · rw [hothers s hst, warmRestoreSlot_runs plat m hst]
          exact h.imp_left fun hmem => (List.mem_cons.mp hmem).resolve_left hst
  exact hall _ m (.inl (List.mem_finRange s)) hruns

/-! ## The claim table -/

/-- What a settled machine holds. -/
theorem Settled.held_congr (h : Settled plat m held) (h' : Settled plat m' held')
    (hruns : ∀ s, m'.persist.Runs s ↔ m.persist.Runs s)
    (hpins : ∀ s, m.persist.Runs s → m'.persist.pins s = m.persist.pins s) : held' = held := by
  funext s
  by_cases hs : m.persist.Runs s
  · rw [h'.held_eq ((hruns s).mpr hs), h.held_eq hs, hpins s hs]
  · rw [h'.held_empty (mt (hruns s).mp hs), h.held_empty hs]

/-- The machine came back as it was before the reset, but for what volatile memory and the
evaluation of the slots hold. -/
structure Rebuilt (m m' : Machine) : Prop where
  armed : ∀ s, m.Armed s → m'.Armed s
  latched : ∀ s, m'.Latched s ↔ m.Latched s
  instances : ∀ s, m.persist.Runs s →
    m'.persist.inst s = { m.persist.inst s with tfState := .unevaluated }
  claims : m'.hal.claims = m.hal.claims

theorem countBoot_latched (r : SlotPersist) : r.countBoot.latched = r.latched := by
  unfold SlotPersist.countBoot
  split_ifs <;> rfl

theorem countBoot_armed {r : SlotPersist} (hcount : r.bootCounter < maxBootAttempts)
    (harmed : r.state = .armed) : r.countBoot.state = .armed ∧ r.countBoot.id = r.id := by
  rw [SlotPersist.countBoot, if_pos harmed, if_neg (not_le.mpr hcount)]
  exact ⟨harmed, rfl⟩

theorem countBoot_runs {r : SlotPersist} (harmed : r.countBoot.state = .armed) :
    r.state = .armed ∧ r.countBoot.id = r.id := by
  unfold SlotPersist.countBoot at harmed ⊢
  split_ifs at harmed ⊢ with hstate
  · exact ⟨hstate, rfl⟩
  · exact ⟨harmed, rfl⟩

/-- What the restore makes of the record that the boot decision left. -/
theorem Settled.warmRestore_record (h : Settled plat m held) (trace : List DriveEvent) :
    ∃ m' held', interlockWarmRestore plat (resetMachine m.persist trace) = .ok m' ∧
      Settled plat m' held' ∧ m'.persist.slots = (interlockBootDecide m.persist).slots ∧
      ∀ s, m'.persist.Runs s → m.persist.Runs s ∧
        m'.persist.inst s = { m.persist.inst s with tfState := .unevaluated } := by
  obtain ⟨m', held', hrun, h'⟩ := (sound_reset plat m.persist trace).warmRestore
  have hsame : SameRecords (interlockBootDecide m.persist) m'.persist :=
    h.compatible_reset.warmRestore (sound_reset plat m.persist trace) ⟨rfl, rfl, rfl, rfl⟩ hrun
  refine ⟨m', held', hrun, h', hsame.slots, fun s hruns => ?_⟩
  have hbefore : m.persist.Runs s := by
    obtain ⟨hstate, hid⟩ := hsame.runs.mp hruns
    rw [interlockBootDecide_of_isValid h.valid] at hstate hid
    obtain ⟨hstate', hid'⟩ := countBoot_runs hstate
    exact ⟨hstate', hid'.symm.trans hid⟩
  have htext : m'.persist.text s = m.persist.text s := by
    rw [hsame.text_eq, interlockBootDecide_of_isValid h.valid]
    rfl
  have hparse := (h'.complete s hruns).1.2
  rw [htext, (h.complete s hbefore).1.2] at hparse
  refine ⟨hbefore, ?_⟩
  rw [Except.ok.inj hparse, ← warmRestore_unevaluated hrun hruns]

/-- A reset that the boot-loop guard lets through rebuilds the machine. -/
theorem Settled.rebuilt (h : Settled plat m held) (trace : List DriveEvent)
    (hcount : ∀ s, m.Armed s → (m.persist.slots s).bootCounter < maxBootAttempts) :
    ∃ m', interlockWarmRestore plat (resetMachine m.persist trace) = .ok m' ∧ Rebuilt m m' := by
  obtain ⟨m', held', hrun, h', hslots, hinst⟩ := h.warmRestore_record trace
  have hslot : ∀ s, m'.persist.slots s = (m.persist.slots s).countBoot := by
    intro s
    rw [hslots, interlockBootDecide_of_isValid h.valid]
  have hruns : ∀ s, m'.persist.Runs s ↔ m.persist.Runs s := by
    refine fun s => ⟨fun hr => (hinst s hr).1, fun hr => ?_⟩
    obtain ⟨hstate, hid⟩ := countBoot_armed (hcount s hr.1) hr.1
    rw [Persist.Runs, hslot, hid]
    exact ⟨hstate, hr.2⟩
  refine ⟨m', hrun, fun s harmed => ?_, fun s => ?_, fun s hr => (hinst s ((hruns s).mpr hr)).2, ?_⟩
  · rw [Machine.Armed, hslot]
    exact (countBoot_armed (hcount s harmed) harmed).1
  · rw [Machine.Latched, hslot, countBoot_latched]
  · have hheld : held' = held := by
      refine h.held_congr h' hruns fun s hr => ?_
      rw [Persist.pins, (hinst s ((hruns s).mpr hr)).2]
      rfl
    exact h.table.claims_eq (hheld ▸ h'.table)

/-! ## Runs of calls -/

/-- No slot has come up warm since it was last written. -/
def Machine.Uncounted (m : Machine) : Prop := ∀ s, (m.persist.slots s).bootCounter = 0

/-- A slot record is kept, or it is written with a fresh counter. -/
theorem uncounted_of_slots (h : m.Uncounted)
    (hslots : ∀ t, m'.persist.slots t = m.persist.slots t ∨
      ∃ state id, m'.persist.slots t = ⟨state, id, 0, false⟩) : m'.Uncounted := by
  intro t
  rcases hslots t with heq | ⟨state, id, heq⟩
  · rw [heq]
    exact h t
  · rw [heq]

theorem Op.uncounted {op : Op} {r : AdminResult} (h : Settled plat m held) (hzero : m.Uncounted)
    (hrun : op.run plat m = .ok (r, m')) : m'.Uncounted := by
  have hheader := Persist.headerOk_of_isValid h.valid
  have hwritten : ∀ (u t : Slot) (state : SlotState) (id : Nat),
      Function.update m.persist.slots u ⟨state, id, 0, false⟩ t = m.persist.slots t ∨
        ∃ state' id', Function.update m.persist.slots u ⟨state, id, 0, false⟩ t =
          ⟨state', id', 0, false⟩ := by
    intro u t state id
    by_cases htu : t = u
    · subst htu
      exact .inr ⟨state, id, Function.update_self ..⟩
    · exact .inl (Function.update_of_ne htu ..)
  -- an operation writes at most the record of its slot, with the counter at zero
  cases op with
  | setSlotDsl slot text =>
      obtain ⟨r₁, m₁, hrun₁, hout⟩ := interlockSetSlotDsl_outcome plat slot text hheader
      cases hrun₁.symm.trans hrun
      cases hout with
      | rejected => exact hzero
      | refused => exact hzero
      | armed => exact uncounted_of_slots hzero fun t => hwritten _ t _ _
  | armCompiled slot id =>
      obtain ⟨r₁, m₁, hrun₁, hout⟩ := interlockArmSlotCompiled_outcome slot id hheader
      cases hrun₁.symm.trans hrun
      cases hout with
      | rejected => exact hzero
      | armed => exact uncounted_of_slots hzero fun t => hwritten _ t _ _
  | disarm slot =>
      obtain ⟨r₁, m₁, hrun₁, hout⟩ := interlockDisarmSlot_outcome slot hheader
      cases hrun₁.symm.trans hrun
      cases hout with
      | rejected => exact hzero
      | disarmed => exact uncounted_of_slots hzero fun t => hwritten _ t _ _
  | requestClear =>
      cases hrun
      exact hzero
  | tick env =>
      obtain ⟨m₁, htick, heffect, -⟩ := interlockTickAll_effect env h
      rw [Op.run, htick] at hrun
      cases hrun
      exact fun s => (heffect.keeps s).bootCounter.trans (hzero s)

/-- The state of a run from a cold start. -/
theorem uncounted_of_runOps {ops : List Op} {trace : List DriveEvent}
    (hrun : runOps plat ops (.boot .cold trace) = .ok m) :
    (∃ held, Settled plat m held) ∧ m.Uncounted := by
  refine runOps_preserved (P := fun m => (∃ held, Settled plat m held) ∧ m.Uncounted) ?_
    ⟨⟨_, settled_cold plat trace⟩, fun _ => rfl⟩ hrun
  rintro op m r m' ⟨⟨held, h⟩, hzero⟩ hop
  exact ⟨Op.settled_of_run h hop, Op.uncounted h hzero hop⟩

/-- After any calls from a cold start, a warm restore rebuilds the machine. From any state the
restore poisons no slot, and it rebuilds the claim table unless the boot decision dropped a
slot. -/
theorem warm_restore_rearms (plat : Platform) :
    (∀ (ops : List Op) (trace trace' : List DriveEvent) (m : Machine),
      runOps plat ops (.boot .cold trace) = .ok m →
      ∃ m', interlockWarmRestore plat (resetMachine m.persist trace') = .ok m' ∧ Rebuilt m m') ∧
    ∀ (m : Machine) (trace : List DriveEvent), Reachable plat m →
      ∃ m', interlockWarmRestore plat (resetMachine m.persist trace) = .ok m' ∧
        m'.persist.slots = (interlockBootDecide m.persist).slots ∧
        (∀ s, m'.persist.Runs s →
          m'.persist.inst s = { m.persist.inst s with tfState := .unevaluated }) ∧
        ((∀ s, m.Armed s → m'.Armed s) → Rebuilt m m') := by
  constructor
  · intro ops trace trace' m hrun
    obtain ⟨⟨held, h⟩, hzero⟩ := uncounted_of_runOps hrun
    exact h.rebuilt trace' fun s _ => hzero s ▸ by decide
  · intro m trace hreach
    obtain ⟨held, h⟩ := hreach.settled
    obtain ⟨m', held', hrun, -, hslots, hinst⟩ := h.warmRestore_record trace
    refine ⟨m', hrun, hslots, fun s hr => (hinst s hr).2, fun harmed => ?_⟩
    have hcount : ∀ s, m.Armed s → (m.persist.slots s).bootCounter < maxBootAttempts := by
      intro s hs
      have hstays := harmed s hs
      rw [Machine.Armed, hslots, interlockBootDecide_of_isValid h.valid] at hstays
      change (m.persist.slots s).countBoot.state = .armed at hstays
      rw [SlotPersist.countBoot, if_pos hs] at hstays
      by_contra hmany
      rw [if_pos (not_lt.mp hmany)] at hstays
      cases hstays
    obtain ⟨m'', hrun', hrebuilt⟩ := h.rebuilt trace hcount
    cases hrun'.symm.trans hrun
    exact hrebuilt

/-- Two slots that share the veto line, armed in the order 2, 1 after a third one was dropped. -/
theorem warm_restore_rearms_bench : ∃ m m',
    runOps benchPlatform [.setSlotDsl 3 benchText, .disarm 3,
      .setSlotDsl 2 "u;cfg[(gp3):in,(gp0):oc,up];watch[gp3:1];out_ok[gp0:1];out_err[gp0:0]".toList,
      .setSlotDsl 1 benchText, .tick (quietTick 1000)] (.boot .cold []) = .ok m ∧
    m.Latched 1 ∧ m.Armed 2 ∧
    interlockWarmRestore benchPlatform (resetMachine m.persist []) = .ok m' ∧ Rebuilt m m' := by
  obtain ⟨m, hrun, htest⟩ := exists_of_succeedsWith
    (x := runOps benchPlatform [.setSlotDsl 3 benchText, .disarm 3,
      .setSlotDsl 2 "u;cfg[(gp3):in,(gp0):oc,up];watch[gp3:1];out_ok[gp0:1];out_err[gp0:0]".toList,
      .setSlotDsl 1 benchText, .tick (quietTick 1000)] (.boot .cold []))
    (p := fun m => decide (m.Latched 1 ∧ m.Armed 2)) (by decide +kernel)
  obtain ⟨hlatched, harmed⟩ := of_decide_eq_true htest
  obtain ⟨m', hrestore, hrebuilt⟩ := (warm_restore_rearms benchPlatform).1 _ _ [] m hrun
  exact ⟨m, m', hrun, hlatched, harmed, hrestore, hrebuilt⟩

end Rebuild

end SlowBus.Interlock
