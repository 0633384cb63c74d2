import SlowBus.Interlock.Startup
import SlowBus.Interlock.Sound

/-!
# Restoring and starting up

A warm restore re-parses every armed text and claims its pins again, poisoning
the slots for which that fails. Whatever the persistent record held, it leaves a
settled machine, and so does the whole boot sequence.
-/

namespace SlowBus.Interlock

open Fallible

section Restore

variable {plat : Platform} {m m' : Machine} {held : Holdings}

theorem poison_keeps {m : Machine} {s t : Slot} (hts : t ≠ s) :
    KeepsSlot m.persist (m.poison s).persist t := by
  constructor <;> simp [Machine.poison, Persist.setSlot, hts]

theorem poison_slots_self (m : Machine) (s : Slot) :
    (m.poison s).persist.slots s = { m.persist.slots s with state := .poisoned } :=
  Function.update_self ..

theorem not_runs_poison (m : Machine) (s : Slot) : ¬(m.poison s).persist.Runs s := by
  rintro ⟨hstate, -⟩
  rw [poison_slots_self] at hstate
  cases hstate

theorem poison_isValid {s : Slot} (h : m.persist.isValid = true) :
    (m.poison s).persist.isValid = true := by
  obtain ⟨-, hid, -, -⟩ := Persist.slotValid_iff.mp ((Persist.isValid_iff.mp h).2.1 s)
  refine Persist.isValid_of_slot h rfl rfl (fun t hts => (poison_keeps hts).slotValid)
    (Persist.slotValid_iff.mpr ?_)
  rw [poison_slots_self]
  exact ⟨nofun, hid, nofun, nofun⟩

/-- Slot `s` runs another instance. -/
def Persist.setInst (p : Persist) (s : Slot) (inst : Inst) : Persist :=
  { p with inst := Function.update p.inst s inst }

theorem setInst_inst_self (p : Persist) (s : Slot) (inst : Inst) :
    (p.setInst s inst).inst s = inst := Function.update_self ..

theorem setInst_keeps {p : Persist} {s t : Slot} {inst : Inst} (hts : t ≠ s) :
    KeepsSlot p (p.setInst s inst) t := by
  constructor <;> simp [Persist.setInst, hts]

/-- The outcomes of restoring one slot. -/
inductive RestoreOutcome (plat : Platform) (m : Machine) (s : Slot) : Machine → Prop where
  | skipped (hruns : ¬m.persist.Runs s) : RestoreOutcome plat m s m
  | compiled (hruns : ¬m.persist.Runs s) : RestoreOutcome plat m s (m.clearRuntime s)
  | poisoned (hruns : m.persist.Runs s) (hbad : ∀ inst, (0 < m.persist.dslLen s ∧
      m.persist.dslLen s < dslMax) → ilParse (m.persist.text s) ≠ .ok inst) :
      RestoreOutcome plat m s (m.poison s)
  | refused {inst : Inst} (hruns : m.persist.Runs s)
      (hlen : 0 < m.persist.dslLen s ∧ m.persist.dslLen s < dslMax)
      (hparse : ilParse (m.persist.text s) = .ok inst)
      (hclaim : (claimInstPins plat m.hal s inst).1 ≠ .ok) :
      RestoreOutcome plat m s ({ m with hal := (claimInstPins plat m.hal s inst).2 }.poison s)
  | restored {inst : Inst} (hruns : m.persist.Runs s)
      (hlen : 0 < m.persist.dslLen s ∧ m.persist.dslLen s < dslMax)
      (hparse : ilParse (m.persist.text s) = .ok inst)
      (hclaim : (claimInstPins plat m.hal s inst).1 = .ok) :
      RestoreOutcome plat m s ({ m with
        persist := m.persist.setInst s inst
        hal := (claimInstPins plat m.hal s inst).2 }.clearRuntime s)

theorem warmRestoreSlot_outcome (plat : Platform) (m : Machine) (s : Slot) :
    RestoreOutcome plat m s (warmRestoreSlot plat m s) := by
  unfold warmRestoreSlot
  split
  next hstate => exact .skipped fun hruns => hstate hruns.1
  next hstate =>
    split
    next hid => exact .compiled fun hruns => hid hruns.2
    next hid =>
      have hruns : m.persist.Runs s := ⟨not_not.mp hstate, not_not.mp hid⟩
      split
      next hlen => exact .poisoned hruns fun inst hlen' => by omega
      next hlen =>
        have hlen' : 0 < m.persist.dslLen s ∧ m.persist.dslLen s < dslMax := by omega
        split
        next hparse =>
          exact .poisoned hruns fun inst _ hok => by
            rw [hparse] at hok
            cases hok
        next inst hparse =>
          split
          next hal hclaim =>
            have hal_eq : hal = (claimInstPins plat m.hal s inst).2 := by rw [hclaim]
            have hst : (claimInstPins plat m.hal s inst).1 = .ok := by rw [hclaim]
            subst hal_eq
            rw [ilParse_unevaluated hparse]
            exact .restored hruns hlen' hparse hst
          next st hal hne hclaim =>
            have hal_eq : hal = (claimInstPins plat m.hal s inst).2 := by rw [hclaim]
            have hst : (claimInstPins plat m.hal s inst).1 ≠ .ok := by
              rw [hclaim]
              exact hne
            subst hal_eq
            exact .refused hruns hlen' hparse hst

/-- A slot that already holds its pins holds what its text parses to. -/
theorem Sound.union_uses {s : Slot} {inst : Inst} (h : Sound plat m held)
    (hparse : ilParse (m.persist.text s) = .ok inst) :
    held s ∪ {x | x ∈ inst.uses} = {x | x ∈ inst.uses} := by
  rcases h.slots s with hempty | ⟨-, hbacked, hpins⟩
  · rw [hempty, Set.empty_union]
  · have hinst : inst = { m.persist.inst s with tfState := .unevaluated } :=
      Except.ok.inj (hparse.symm.trans hbacked.2)
    rw [hpins, hinst]
    exact Set.union_self _

theorem Sound.coherent_uses {s : Slot} {inst : Inst} (h : Sound plat m held)
    (hparse : ilParse (m.persist.text s) = .ok inst) :
    Coherent (held s ∪ {x | x ∈ inst.uses}) := by
  rw [h.union_uses hparse]
  exact (ilParse_wellFormed hparse).coherent

/-- Restoring one slot gets that slot right and leaves the others alone. -/
theorem Sound.restoreSlot {s : Slot} (h : Sound plat m held) (hout : RestoreOutcome plat m s m') :
    ∃ held', Sound plat m' held' ∧
      (∀ t, t ≠ s → KeepsSlot m.persist m'.persist t ∧ held' t = held t) ∧
      (m'.persist.Runs s → m'.persist.Backed s ∧ held' s = m'.persist.pins s) := by
  cases hout with
  | skipped hruns => exact ⟨held, h, fun t _ => ⟨.refl _ t, rfl⟩, fun hr => absurd hr hruns⟩
  | compiled hruns =>
      refine ⟨held, h.of_keeps rfl rfl (fun t => .refl _ t) rfl, fun t _ => ⟨.refl _ t, rfl⟩, ?_⟩
      exact fun hr => absurd hr hruns
  -- a slot with pins has a text that compiles, so a poisoned one had none
  | poisoned hruns hbad =>
      have hempty : held s = ∅ := by
        rcases h.slots s with hempty | ⟨-, hbacked, -⟩
        · exact hempty
        · exact absurd hbacked.2 (hbad _ hbacked.1)
      refine ⟨held, h.of_slot s (poison_isValid h.valid) h.table
        (fun t hts => ⟨poison_keeps hts, rfl⟩) (.inl hempty),
        fun t hts => ⟨poison_keeps hts, rfl⟩, ?_⟩
      exact fun hr => absurd hr (not_runs_poison m s)
  -- what the refused claim took is given back with the slot's own pins
  | @refused inst hruns hlen hparse hclaim =>
      rcases claimInstPins_outcome h.table (h.coherent_uses hparse) with ⟨hok, -⟩ | ⟨-, -, htable⟩
      · exact absurd hok hclaim
      · have hothers : ∀ t, t ≠ s → KeepsSlot m.persist
            ({ m with hal := (claimInstPins plat m.hal s inst).2 }.poison s).persist t ∧
              held.drop s t = held t :=
          fun t hts => ⟨poison_keeps hts, Holdings.drop_of_ne hts⟩
        refine ⟨held.drop s, h.of_slot s (poison_isValid h.valid) htable hothers
          (.inl Holdings.drop_self), hothers, ?_⟩
        exact fun hr => absurd hr (not_runs_poison _ s)
  | @restored inst hruns hlen hparse hclaim =>
      rcases claimInstPins_outcome h.table (h.coherent_uses hparse) with ⟨-, -, htable⟩ | ⟨hno, -⟩
      · have hothers : ∀ t, t ≠ s → KeepsSlot m.persist
            (m.persist.setInst s inst) t ∧
              held.add s {x | x ∈ inst.uses} t = held t := by
          intro t hts
          exact ⟨setInst_keeps hts, Holdings.add_of_ne hts _⟩
        have hself : (m.persist.setInst s inst).Backed s ∧
            held.add s {x | x ∈ inst.uses} s = (m.persist.setInst s inst).pins s := by
          refine ⟨⟨hlen, ?_⟩, ?_⟩
          · show ilParse (m.persist.text s) = _
            rw [hparse, setInst_inst_self, ilParse_unevaluated hparse]
          · rw [Holdings.add_self, h.union_uses hparse, Persist.pins, setInst_inst_self]
        exact ⟨_, h.of_slot s (Persist.isValid_of_slot h.valid rfl rfl (fun _ _ => rfl)
          ((Persist.isValid_iff.mp h.valid).2.1 s)) htable hothers
          (.inr ⟨hruns, hself⟩), hothers, fun _ => hself⟩
      · exact absurd hclaim hno

/-- Restoring a list of slots gets those slots right, besides the ones that
were. -/
theorem Sound.restoreSlots (slots : List Slot) (good : Slot → Prop) (h : Sound plat m held)
    (hgood : ∀ s, good s → m.persist.Runs s → m.persist.Backed s ∧ held s = m.persist.pins s) :
    ∃ held', Sound plat (slots.foldl (warmRestoreSlot plat) m) held' ∧
      ∀ s, good s ∨ s ∈ slots → (slots.foldl (warmRestoreSlot plat) m).persist.Runs s →
        (slots.foldl (warmRestoreSlot plat) m).persist.Backed s ∧
          held' s = (slots.foldl (warmRestoreSlot plat) m).persist.pins s := by
  induction slots generalizing m held good with
  | nil => exact ⟨held, h, fun s hs => hgood s (by simpa using hs)⟩
  | cons s slots ih =>
      obtain ⟨held₁, hsound, hothers, hself⟩ := h.restoreSlot (warmRestoreSlot_outcome plat m s)
      have hgood₁ : ∀ t, good t ∨ t = s → (warmRestoreSlot plat m s).persist.Runs t →
          (warmRestoreSlot plat m s).persist.Backed t ∧
            held₁ t = (warmRestoreSlot plat m s).persist.pins t := by
        intro t ht hruns
        by_cases hts : t = s
        · subst t
          exact hself hruns
        · obtain ⟨hkeep, hheld⟩ := hothers t hts
          rw [hkeep.backed, hkeep.pins, hheld]
          exact hgood t (ht.resolve_right hts) (hkeep.runs.mp hruns)
      obtain ⟨held', hfin, hright⟩ := ih (fun t => good t ∨ t = s) hsound hgood₁
      refine ⟨held', hfin, fun t ht => hright t ?_⟩
      simpa [or_assoc] using ht

/-- The restore leaves a settled machine. -/
theorem Sound.warmRestore (h : Sound plat m held) :
    ∃ m' held', interlockWarmRestore plat m = .ok m' ∧ Settled plat m' held' := by
  obtain ⟨held', hsound, hright⟩ :=
    h.restoreSlots (List.finRange maxSlots) (fun _ => False) nofun
  refine ⟨_, held', ?_, hsound, fun s => hright s (.inr (List.mem_finRange s))⟩
  rw [interlockWarmRestore, Persist.headerOk_of_isValid h.valid]
  rfl

end Restore

/-! ## The boot sequence -/

theorem interlockBootDecide_isValid (p : Persist) : (interlockBootDecide p).isValid = true := by
  unfold interlockBootDecide
  split
  next h =>
    obtain ⟨hheader, hslots, hcrash⟩ := Persist.isValid_iff.mp h
    refine Persist.isValid_iff.mpr ⟨hheader, fun s => ?_, hcrash⟩
    obtain ⟨hstate, hid, hnone, hlen⟩ := Persist.slotValid_iff.mp (hslots s)
    refine Persist.slotValid_iff.mpr ?_
    show ((p.slots s).countBoot.state ≠ _ ∧ _)
    dsimp only
    unfold SlotPersist.countBoot
    split
    next harmed =>
      split
      · exact ⟨nofun, hid, nofun, nofun⟩
      · exact ⟨hstate, hid, hnone, hlen⟩
    · exact ⟨hstate, hid, hnone, hlen⟩
  · exact isValid_cold

/-- After a reset nothing is claimed, so the machine is sound. -/
theorem sound_boot (plat : Platform) (p : Persist) (trace : List DriveEvent) :
    Sound plat (.boot (interlockBootDecide p) trace) fun _ => ∅ where
  valid := interlockBootDecide_isValid p
  table := holds_boot plat trace
  slots := fun _ => .inl rfl

section Boot

variable {plat : Platform} {m : Machine} {held : Holdings}

theorem dropConfigSlots_settled (h : Settled plat m held) :
    ∃ m' held', dropConfigSlots m = .ok m' ∧ Settled plat m' held' := by
  have hstep : ∀ m (s : Slot), (∃ held, Settled plat m held) →
      ∃ m', (interlockDisarmSlot s m >>= fun x => .ok x.2) = .ok m' ∧
        ∃ held, Settled plat m' held := by
    rintro m s ⟨held, h⟩
    obtain ⟨r, m', hdisarm, hout⟩ :=
      interlockDisarmSlot_outcome s (Persist.headerOk_of_isValid h.valid)
    refine ⟨m', ?_, h.disarm hout⟩
    rw [hdisarm]
    rfl
  obtain ⟨m', hrun, held', h'⟩ := foldlM_total hstep configSlots ⟨held, h⟩
  exact ⟨m', held', hrun, h'⟩

theorem armConfigSlots_settled (cfg : Config) {b : Bringup} (h : Settled plat b.machine held) :
    ∃ b' held', configSlots.foldlM (armConfigSlot plat cfg) b = .ok b' ∧
      Settled plat b'.machine held' := by
  have hstep : ∀ (b : Bringup) s, (∃ held, Settled plat b.machine held) →
      ∃ b', armConfigSlot plat cfg b s = .ok b' ∧ ∃ held, Settled plat b'.machine held := by
    rintro b s ⟨held, h⟩
    unfold armConfigSlot
    split
    · exact ⟨b, rfl, held, h⟩
    next text _ =>
      obtain ⟨r, m', hset, hout⟩ := interlockSetSlotDsl_outcome plat s text
        (Persist.headerOk_of_isValid h.valid)
      rw [hset]
      exact ⟨_, rfl, h.setSlotDsl hout⟩
  obtain ⟨b', hrun, held', h'⟩ := foldlM_total hstep configSlots ⟨held, h⟩
  exact ⟨b', held', hrun, h'⟩

theorem startConfigSlots_settled (cfg : Config) (h : Settled plat m held) :
    ∃ b held', startConfigSlots plat cfg m = .ok b ∧ Settled plat b.machine held' := by
  unfold startConfigSlots
  dsimp only
  split
  · obtain ⟨m₁, held₁, hdrop, h₁⟩ := dropConfigSlots_settled h
    obtain ⟨b, held₂, harm, h₂⟩ := armConfigSlots_settled (b := ⟨m₁, 0, 0⟩) cfg h₁
    rw [hdrop]
    show ∃ b held', (configSlots.foldlM (armConfigSlot plat cfg) ⟨m₁, 0, 0⟩ >>= _) = _ ∧ _
    rw [harm]
    exact ⟨_, held₂, rfl, h₂.of_keeps rfl rfl (fun t => ⟨rfl, rfl, rfl, rfl, rfl, rfl⟩) rfl⟩
  · exact ⟨_, held, rfl, h⟩

theorem startBuiltin_settled {b : Bringup} (h : Settled plat b.machine held) :
    ∃ b' held', startBuiltin plat b = .ok b' ∧ Settled plat b'.machine held' := by
  unfold startBuiltin
  split
  · exact ⟨b, held, rfl, h⟩
  · obtain ⟨r, m₁, hdisarm, hout⟩ := interlockDisarmSlot_outcome 0
      (Persist.headerOk_of_isValid h.valid)
    obtain ⟨held₁, h₁⟩ := h.disarm hout
    obtain ⟨r', m₂, hset, hout'⟩ := interlockSetSlotDsl_outcome plat 0 gp1Il
      (Persist.headerOk_of_isValid h₁.valid)
    obtain ⟨held₂, h₂⟩ := h₁.setSlotDsl hout'
    refine ⟨{ b with machine := m₂, armFail := noteFailure b.armFail 0 r' }, held₂, ?_, h₂⟩
    rw [hdisarm]
    show (interlockSetSlotDsl plat 0 gp1Il m₁ >>= _) = _
    rw [hset]
    rfl

/-- Whatever the persistent memory and the configuration hold, the boot sequence
returns a settled machine. -/
theorem bootUp_settled (plat : Platform) (cfg : Config) (ms : Nat) (persist : Persist)
    (trace : List DriveEvent) :
    ∃ b held, bootUp plat cfg ms persist trace = .ok b ∧ Settled plat b.machine held := by
  have h₀ := sound_boot plat persist trace
  have h₁ : Sound plat (initInPin (.boot (interlockBootDecide persist) trace)) _ :=
    h₀.of_keeps rfl rfl (fun t => .refl _ t) rfl
  obtain ⟨m, held, hrestore, h₂⟩ := h₁.warmRestore
  obtain ⟨b₁, held₁, hcfg, h₃⟩ := startConfigSlots_settled cfg h₂
  obtain ⟨b₂, held₂, hbuiltin, h₄⟩ := startBuiltin_settled h₃
  refine ⟨{ b₂ with machine := interlockBeginGrace ms b₂.machine }, held₂, ?_,
    h₄.of_keeps rfl rfl (fun t => .refl _ t) rfl⟩
  unfold bootUp interlockThread2Start
  rw [hrestore]
  show (startConfigSlots plat cfg m >>= _) = _
  rw [hcfg]
  show (startBuiltin plat b₁ >>= _) = _
  rw [hbuiltin]
  rfl

/-- The machine the restore starts from. -/
abbrev resetMachine (persist : Persist) (trace : List DriveEvent) : Machine :=
  initInPin (.boot (interlockBootDecide persist) trace)

theorem sound_reset (plat : Platform) (persist : Persist) (trace : List DriveEvent) :
    Sound plat (resetMachine persist trace) fun _ => ∅ :=
  (sound_boot plat persist trace).of_keeps rfl rfl (fun t => .refl _ t) rfl

/-- The stages of a boot, each of which leaves a settled machine. -/
theorem bootUp_stages {cfg : Config} {ms : Nat} {persist : Persist} {trace : List DriveEvent}
    {b : Bringup} (hboot : bootUp plat cfg ms persist trace = .ok b) :
    ∃ m₁ b₁ b₂, interlockWarmRestore plat (resetMachine persist trace) = .ok m₁ ∧
      (∃ held, Settled plat m₁ held) ∧ startConfigSlots plat cfg m₁ = .ok b₁ ∧
      (∃ held, Settled plat b₁.machine held) ∧ startBuiltin plat b₁ = .ok b₂ ∧
      b = { b₂ with machine := interlockBeginGrace ms b₂.machine } := by
  obtain ⟨m₁, hrestore, hboot⟩ := bind_eq_ok.mp hboot
  obtain ⟨b₁, hcfg, hboot⟩ := bind_eq_ok.mp hboot
  obtain ⟨b₂, hbuiltin, hboot⟩ := bind_eq_ok.mp hboot
  obtain ⟨m₁', held₁, hrestore', h₁⟩ := (sound_reset plat persist trace).warmRestore
  cases hrestore'.symm.trans hrestore
  obtain ⟨b₁', held₂, hcfg', h₂⟩ := startConfigSlots_settled cfg h₁
  cases hcfg'.symm.trans hcfg
  exact ⟨m₁, b₁, b₂, hrestore, ⟨held₁, h₁⟩, hcfg, ⟨held₂, h₂⟩, hbuiltin,
    (Except.ok.inj hboot).symm⟩

/-- What the administration calls preserve, the configured slots and the built-in
interlock preserve. -/
structure AdminClosed (plat : Platform) (P : Machine → Prop) : Prop where
  disarm : ∀ {m m' slot r}, P m → DisarmOutcome slot m r m' → P m'
  setSlotDsl : ∀ {m m' slot text r}, P m → DslOutcome plat slot text m r m' → P m'
  fingerprint : ∀ {m : Machine} {fp}, P m →
    P { m with persist := { m.persist with cfgFingerprint := fp } }

variable {P : Machine → Prop}

theorem AdminClosed.startConfigSlots {cfg : Config} {b : Bringup} (hP : AdminClosed plat P)
    (hsettled : Settled plat m held) (hstart : P m)
    (hrun : startConfigSlots plat cfg m = .ok b) : P b.machine := by
  unfold SlowBus.Interlock.startConfigSlots at hrun
  dsimp only at hrun
  split at hrun
  · obtain ⟨m₁, hdrop, hrun⟩ := bind_eq_ok.mp hrun
    obtain ⟨b₁, harm, hrun⟩ := bind_eq_ok.mp hrun
    cases hrun
    have hdropped : (∃ held, Settled plat m₁ held) ∧ P m₁ := by
      refine foldlM_invariant (P := fun m => (∃ held, Settled plat m held) ∧ P m) ?_
        ⟨⟨held, hsettled⟩, hstart⟩ hdrop
      rintro m t m' ⟨⟨held, hm⟩, hPm⟩ hstep
      obtain ⟨r, m₂, hdisarm, hout⟩ :=
        interlockDisarmSlot_outcome t (Persist.headerOk_of_isValid hm.valid)
      rw [hdisarm] at hstep
      cases hstep
      exact ⟨hm.disarm hout, hP.disarm hPm hout⟩
    have harmed : (∃ held, Settled plat b₁.machine held) ∧ P b₁.machine := by
      refine foldlM_invariant
        (P := fun b : Bringup => (∃ held, Settled plat b.machine held) ∧ P b.machine) ?_
        hdropped harm
      rintro b t b' ⟨⟨held, hb⟩, hPb⟩ hstep
      unfold armConfigSlot at hstep
      split at hstep
      · cases hstep
        exact ⟨⟨held, hb⟩, hPb⟩
      next text _ =>
        obtain ⟨r, m₂, hset, hout⟩ :=
          interlockSetSlotDsl_outcome plat t text (Persist.headerOk_of_isValid hb.valid)
        rw [hset] at hstep
        cases hstep
        exact ⟨hb.setSlotDsl hout, hP.setSlotDsl hPb hout⟩
    exact hP.fingerprint harmed.2
  · cases hrun
    exact hstart

theorem AdminClosed.startBuiltin {b b' : Bringup} (hP : AdminClosed plat P)
    (hsettled : Settled plat b.machine held) (hstart : P b.machine)
    (hrun : startBuiltin plat b = .ok b') : P b'.machine := by
  unfold SlowBus.Interlock.startBuiltin at hrun
  split at hrun
  · cases hrun
    exact hstart
  · obtain ⟨⟨r₁, m₁⟩, hdisarm, hrun⟩ := bind_eq_ok.mp hrun
    obtain ⟨⟨r₂, m₂⟩, hset, hrun⟩ := bind_eq_ok.mp hrun
    cases hrun
    obtain ⟨r, m', hdisarm', hout⟩ :=
      interlockDisarmSlot_outcome 0 (Persist.headerOk_of_isValid hsettled.valid)
    cases hdisarm'.symm.trans hdisarm
    obtain ⟨held₁, h₁⟩ := hsettled.disarm hout
    obtain ⟨r', m'', hset', hout'⟩ := interlockSetSlotDsl_outcome plat 0 gp1Il
      (Persist.headerOk_of_isValid h₁.valid)
    cases hset'.symm.trans hset
    exact hP.setSlotDsl (hP.disarm hstart hout) hout'

/-- The part of a boot after the restore preserves what the calls preserve. -/
theorem AdminClosed.bootUp {cfg : Config} {ms : Nat} {persist : Persist}
    {trace : List DriveEvent} {b : Bringup} (hP : AdminClosed plat P)
    (hboot : bootUp plat cfg ms persist trace = .ok b)
    (hgrace : ∀ m, P m → P (interlockBeginGrace ms m))
    (hrestored : ∀ m, interlockWarmRestore plat (resetMachine persist trace) = .ok m → P m) :
    P b.machine := by
  obtain ⟨m₁, b₁, b₂, hrestore, ⟨held₁, h₁⟩, hcfg, ⟨held₂, h₂⟩, hbuiltin, rfl⟩ :=
    bootUp_stages hboot
  have hcfgP := hP.startConfigSlots h₁ (hrestored m₁ hrestore) hcfg
  exact hgrace _ (hP.startBuiltin h₂ hcfgP hbuiltin)

end Boot

end SlowBus.Interlock
