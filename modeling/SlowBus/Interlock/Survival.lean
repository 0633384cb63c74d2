import SlowBus.Interlock.Veto

/-!
# Latches across warm resets

A warm reset keeps the persistent record and loses the claim table. Since the
armed slots of a settled machine hold compatible pins, restoring them in any
order from an empty table succeeds for each, so a reset keeps every armed slot
that the boot-loop guard lets through.
-/

namespace SlowBus.Interlock

open Fallible

/-- Everything a slot restore does not write: the records and the texts. -/
structure SameRecords (p p' : Persist) : Prop where
  slots : p'.slots = p.slots
  len : p'.dslLen = p.dslLen
  text : p'.dslText = p.dslText
  fingerprint : p'.cfgFingerprint = p.cfgFingerprint

theorem SameRecords.runs {p p' : Persist} (h : SameRecords p p') {s : Slot} :
    p'.Runs s ↔ p.Runs s := by
  unfold Persist.Runs
  rw [h.slots]

theorem SameRecords.text_eq {p p' : Persist} (h : SameRecords p p') (s : Slot) :
    p'.text s = p.text s := by
  unfold Persist.text
  rw [h.len, h.text]

theorem SameRecords.trans {p p' p'' : Persist} (h : SameRecords p p') (h' : SameRecords p' p'') :
    SameRecords p p'' :=
  ⟨h'.slots.trans h.slots, h'.len.trans h.len, h'.text.trans h.text,
    h'.fingerprint.trans h.fingerprint⟩

/-- Every armed text parses, and its pins are among compatible holdings. -/
structure Compatible (plat : Platform) (p : Persist) (held : Holdings) : Prop where
  len : ∀ s, p.Runs s → 0 < p.dslLen s ∧ p.dslLen s < dslMax
  parses : ∀ s, p.Runs s → ∃ inst, ilParse (p.text s) = .ok inst ∧ {x | x ∈ inst.uses} ⊆ held s
  admissible : ∀ s physId u, (physId, u) ∈ held s → u.Admissible plat physId
  agrees : ∀ s physId u, (physId, u) ∈ held s → held.Agrees s physId u

section Restore

variable {plat : Platform} {m : Machine} {p : Persist} {held part : Holdings}

/-- Holdings contained in compatible ones admit what these grant a slot. -/
theorem Compatible.admits (h : Compatible plat p held) (hpart : ∀ t, part t ⊆ held t) {s : Slot}
    {inst : Inst} (huses : {x | x ∈ inst.uses} ⊆ held s) : part.Admits plat s inst.uses := by
  rintro ⟨q, u⟩ huse
  refine ⟨h.admissible s q u (huses huse), fun t hts u' hu' => ?_⟩
  exact h.agrees s q u (huses huse) t hts u' (hpart t hu')

/-- Restoring one slot of a compatible record succeeds. -/
theorem Compatible.restoreSlot (h : Compatible plat p held) (s : Slot) (hsound : Sound plat m part)
    (hsame : SameRecords p m.persist) (hpart : ∀ t, part t ⊆ held t) :
    ∃ part', Sound plat (warmRestoreSlot plat m s) part' ∧
      SameRecords p (warmRestoreSlot plat m s).persist ∧ ∀ t, part' t ⊆ held t := by
  have hout := warmRestoreSlot_outcome plat m s
  obtain ⟨part', hsound', hothers, hself⟩ := hsound.restoreSlot hout
  refine ⟨part', hsound', ?_⟩
  -- the text of a running slot is the recorded one, so its pins are granted
  have hgranted : m.persist.Runs s → ∃ inst, ilParse (m.persist.text s) = .ok inst ∧
      {x | x ∈ inst.uses} ⊆ held s := by
    intro hruns
    rw [hsame.text_eq]
    exact h.parses s (hsame.runs.mp hruns)
  have hkept : SameRecords p (warmRestoreSlot plat m s).persist := by
    generalize warmRestoreSlot plat m s = m' at hout
    cases hout with
    | skipped => exact hsame
    | compiled => exact hsame
    | poisoned hruns hbad =>
        obtain ⟨inst, hparse, -⟩ := hgranted hruns
        have hlen := h.len s (hsame.runs.mp hruns)
        rw [← hsame.len] at hlen
        exact absurd hparse (hbad inst hlen)
    | @refused inst hruns hlen hparse hclaim =>
        obtain ⟨inst', hparse', huses⟩ := hgranted hruns
        cases hparse.symm.trans hparse'
        rcases claimInstPins_outcome hsound.table (hsound.coherent_uses hparse) with
          ⟨hok, -⟩ | ⟨-, hnot, -⟩
        · exact absurd hok hclaim
        · exact absurd (h.admits hpart huses) hnot
    | restored => exact hsame.trans ⟨rfl, rfl, rfl, rfl⟩
  -- what is held afterwards is what the record grants
  refine ⟨hkept, fun t => ?_⟩
  by_cases hts : t = s
  · subst t
    by_cases hruns : (warmRestoreSlot plat m s).persist.Runs s
    · obtain ⟨hbacked, hpins⟩ := hself hruns
      obtain ⟨inst, hparse, huses⟩ := h.parses s (hkept.runs.mp hruns)
      rw [← hkept.text_eq] at hparse
      cases hparse.symm.trans hbacked.2
      rw [hpins]
      exact huses
    · rw [hsound'.held_empty hruns]
      exact Set.empty_subset _
  · rw [(hothers t hts).2]
    exact hpart t

/-- Restoring a compatible record from an empty table keeps it whole. -/
theorem Compatible.warmRestore {m' : Machine} (h : Compatible plat p held)
    (hsound : Sound plat m fun _ => ∅) (hsame : SameRecords p m.persist)
    (hrun : interlockWarmRestore plat m = .ok m') : SameRecords p m'.persist := by
  obtain ⟨-, -, hrun⟩ := bind_eq_ok.mp hrun
  obtain rfl := Except.ok.inj hrun
  have hall : ∀ (slots : List Slot) (m : Machine),
      (∃ part, Sound plat m part ∧ SameRecords p m.persist ∧ ∀ t, part t ⊆ held t) →
      SameRecords p (slots.foldl (warmRestoreSlot plat) m).persist := by
    intro slots
    induction slots with
    | nil => exact fun m ⟨_, _, hsame, _⟩ => hsame
    | cons s slots ih =>
        rintro m ⟨part, hsound, hsame, hpart⟩
        exact ih _ (h.restoreSlot s hsound hsame hpart)
  exact hall _ m ⟨_, hsound, hsame, fun t => Set.empty_subset _⟩

end Restore

/-! ## One reset -/

section Reset

variable {plat : Platform} {cfg : Config} {ms : Nat} {m : Machine} {held : Holdings} {s : Slot}
  {b : Bringup} {trace : List DriveEvent}

theorem interlockBootDecide_of_isValid {p : Persist} (h : p.isValid = true) :
    interlockBootDecide p = { p with slots := fun i => (p.slots i).countBoot } := if_pos h

/-- What a settled machine holds is compatible with its record after a reset. -/
theorem Settled.compatible_reset (h : Settled plat m held) :
    Compatible plat (interlockBootDecide m.persist) held := by
  rw [interlockBootDecide_of_isValid h.valid]
  have hruns : ∀ s, ({ m.persist with slots := fun i => (m.persist.slots i).countBoot } :
      Persist).Runs s → m.persist.Runs s := by
    rintro s ⟨hstate, hid⟩
    unfold Persist.Runs
    dsimp only at hstate hid
    unfold SlotPersist.countBoot at hstate hid
    split_ifs at hstate hid with harmed hcount
    · exact ⟨harmed, hid⟩
    · exact ⟨hstate, hid⟩
  refine ⟨fun s hr => (h.complete s (hruns s hr)).1.1, fun s hr => ?_, h.table.admissible,
    h.table.agrees⟩
  obtain ⟨hbacked, hpins⟩ := h.complete s (hruns s hr)
  refine ⟨_, hbacked.2, ?_⟩
  rw [hpins]
  exact subset_rfl

theorem armedCount_ne_zero {p : Persist} (hruns : p.Runs s) : p.armedCount ≠ 0 := by
  unfold Persist.armedCount
  rw [← Nat.pos_iff_ne_zero, List.countP_pos_iff]
  exact ⟨s, List.mem_finRange s, by simp [hruns.1]⟩

/-- Arming the built-in interlock rewrites slot 0 only. -/
theorem startBuiltin_slots {b b' : Bringup} {held : Holdings} (h : Settled plat b.machine held)
    (hrun : startBuiltin plat b = .ok b') :
    b'.machine.persist.cfgFingerprint = b.machine.persist.cfgFingerprint ∧
      (∀ s, s ≠ 0 → b'.machine.persist.slots s = b.machine.persist.slots s) ∧
      (builtinPreserved b.machine.persist = true → b' = b) := by
  unfold startBuiltin at hrun
  split at hrun
  · cases hrun
    exact ⟨rfl, fun _ _ => rfl, fun _ => rfl⟩
  next hnot =>
    obtain ⟨⟨r₁, m₁⟩, hdisarm, hrun⟩ := bind_eq_ok.mp hrun
    obtain ⟨⟨r₂, m₂⟩, hset, hrun⟩ := bind_eq_ok.mp hrun
    cases hrun
    obtain ⟨r, m', hdisarm', hout⟩ :=
      interlockDisarmSlot_outcome 0 (Persist.headerOk_of_isValid h.valid)
    cases hdisarm'.symm.trans hdisarm
    obtain ⟨held₁, h₁⟩ := h.disarm hout
    obtain ⟨r', m'', hset', hout'⟩ := interlockSetSlotDsl_outcome plat 0 gp1Il
      (Persist.headerOk_of_isValid h₁.valid)
    cases hset'.symm.trans hset
    refine ⟨?_, fun s hs => ?_, fun hpres => absurd hpres hnot⟩
    · have hfp₁ : m₁.persist.cfgFingerprint = b.machine.persist.cfgFingerprint := by
        cases hout <;> rfl
      rw [← hfp₁]
      cases hout' <;> rfl
    · have hne : ¬0 = s.val := fun heq => hs (Fin.ext heq.symm)
      exact (hout'.slots_eq fun hc => hne hc.1).trans (hout.slots_eq hne)

/-- A reset keeps an armed slot that the boot-loop guard lets through, with its
latch, and counts the boot. -/
theorem bootUp_keeps (h : Settled plat m held)
    (hfp : m.persist.cfgFingerprint = interlockCfgFingerprint cfg) (hruns : m.persist.Runs s)
    (hcount : (m.persist.slots s).bootCounter < maxBootAttempts)
    (hzero : s = 0 → builtinPreserved m.persist = true)
    (hboot : bootUp plat cfg ms m.persist trace = .ok b) :
    b.machine.persist.slots s =
        { m.persist.slots s with bootCounter := (m.persist.slots s).bootCounter + 1 } ∧
      b.machine.persist.cfgFingerprint = interlockCfgFingerprint cfg ∧
      (s = 0 → builtinPreserved b.machine.persist = true) := by
  obtain ⟨m₁, b₁, b₂, hrestore, ⟨held₁, hsettled⟩, hcfg, -, hbuiltin, rfl⟩ := bootUp_stages hboot
  have hsame : SameRecords (interlockBootDecide m.persist) m₁.persist :=
    h.compatible_reset.warmRestore (sound_reset plat m.persist trace) ⟨rfl, rfl, rfl, rfl⟩ hrestore
  have hslot : m₁.persist.slots s =
      { m.persist.slots s with bootCounter := (m.persist.slots s).bootCounter + 1 } := by
    rw [hsame.slots, interlockBootDecide_of_isValid h.valid]
    show (m.persist.slots s).countBoot = _
    rw [SlotPersist.countBoot, if_pos hruns.1, if_neg (not_le.mpr hcount)]
  have hfp₁ : m₁.persist.cfgFingerprint = interlockCfgFingerprint cfg := by
    rw [hsame.fingerprint, interlockBootDecide_of_isValid h.valid]
    exact hfp
  have hruns₁ : m₁.persist.Runs s := by
    unfold Persist.Runs
    rw [hslot]
    exact hruns
  -- the fingerprint agrees and a slot is armed, so the configuration is left alone
  have hb₁ : b₁ = ⟨m₁, m₁.persist.armedCount, 0⟩ := by
    unfold startConfigSlots at hcfg
    rw [if_neg (not_or.mpr ⟨not_not.mpr hfp₁.symm, armedCount_ne_zero hruns₁⟩)] at hcfg
    cases hcfg
    rfl
  subst hb₁
  obtain ⟨hfp₂, hothers, hkeep⟩ := startBuiltin_slots hsettled hbuiltin
  have hpres : s = 0 → builtinPreserved m₁.persist = true := by
    rintro rfl
    have hold := hzero rfl
    unfold builtinPreserved at hold ⊢
    rw [hruns₁.1, hsame.len, hsame.text, interlockBootDecide_of_isValid h.valid]
    rwa [hruns.1] at hold
  -- the built-in stage writes slot 0 only, and not where it is preserved
  by_cases hs : s = 0
  · obtain rfl := hkeep (hpres hs)
    exact ⟨hslot, hfp₁, hpres⟩
  · refine ⟨(hothers s hs).trans hslot, hfp₂.trans hfp₁, fun h0 => absurd h0 hs⟩

end Reset

/-! ## The guard trips -/

section Guard

variable {plat : Platform} {m m' : Machine} {s : Slot} {r : AdminResult}

/-- Slot `s` is armed and vetoing. -/
def Machine.Vetoes (m : Machine) (s : Slot) : Prop := m.Armed s ∧ m.Latched s

theorem vetoes_congr (h : m'.persist.slots s = m.persist.slots s) :
    m'.Vetoes s ↔ m.Vetoes s := by
  unfold Machine.Vetoes Machine.Armed Machine.Latched
  rw [h]

/-- A freshly written record does not veto. -/
theorem not_vetoes_of_slot {state : SlotState} {id : Nat}
    (h : m.persist.slots s = ⟨state, id, 0, false⟩) : ¬m.Vetoes s := by
  rintro ⟨-, hlatched⟩
  rw [Machine.Latched, h] at hlatched
  cases hlatched

/-- A slot that vetoes after a text was set is not the slot that was armed. -/
theorem DslOutcome.of_vetoes {slot : Nat} {text : Text} (hout : DslOutcome plat slot text m r m')
    (h : m'.Vetoes s) : ¬(slot = s ∧ r.status = .ok) := by
  rintro ⟨hs, hok⟩
  cases hout with
  | rejected hr => exact hr hok
  | refused hr => exact hr hok
  | @armed t inst hslot =>
      obtain rfl : t = s := Fin.ext (hslot.symm.trans hs)
      exact not_vetoes_of_slot (armDsl_slots_self ..) h

theorem DslOutcome.not_vetoes {slot : Nat} {text : Text} (hout : DslOutcome plat slot text m r m')
    (h : ¬m.Vetoes s) : ¬m'.Vetoes s :=
  fun hvetoes => h ((vetoes_congr (hout.slots_eq (hout.of_vetoes hvetoes))).mp hvetoes)

theorem DisarmOutcome.not_vetoes {slot : Nat} (hout : DisarmOutcome slot m r m')
    (h : ¬m.Vetoes s) : ¬m'.Vetoes s := by
  by_cases hs : slot = s
  · cases hout with
    | rejected => exact h
    | @disarmed t hslot =>
        obtain rfl : t = s := Fin.ext (hslot.symm.trans hs)
        exact not_vetoes_of_slot (disarm_slots_self ..)
  · rwa [vetoes_congr (hout.slots_eq hs)]

/-- Nothing the boot sequence does after the restore makes a slot veto. -/
theorem adminClosed_not_vetoes (plat : Platform) (s : Slot) :
    AdminClosed plat fun m => ¬m.Vetoes s where
  disarm := fun h hout => hout.not_vetoes h
  setSlotDsl := fun h hout => hout.not_vetoes h
  fingerprint := fun h => h

/-- A slot that has come up as often as the guard allows is not kept. -/
theorem bootUp_drops {cfg : Config} {ms : Nat} {trace : List DriveEvent} {b : Bringup}
    {held : Holdings} (h : Settled plat m held)
    (hcount : maxBootAttempts ≤ (m.persist.slots s).bootCounter)
    (hboot : bootUp plat cfg ms m.persist trace = .ok b) : ¬b.machine.Vetoes s := by
  refine (adminClosed_not_vetoes plat s).bootUp hboot (fun _ hm => hm) ?_
  rintro m₁ hrestore ⟨harmed, -⟩
  have hsame : SameRecords (interlockBootDecide m.persist) m₁.persist :=
    h.compatible_reset.warmRestore (sound_reset plat m.persist trace) ⟨rfl, rfl, rfl, rfl⟩ hrestore
  rw [Machine.Armed, hsame.slots, interlockBootDecide_of_isValid h.valid] at harmed
  change (m.persist.slots s).countBoot.state = .armed at harmed
  unfold SlotPersist.countBoot at harmed
  split_ifs at harmed with hstate
  exact hstate harmed

end Guard

/-! ## Any number of resets -/

/-- The states reached after a boot with a configuration. -/
inductive UpWith (plat : Platform) (cfg : Config) : Machine → Prop where
  | boot {ms : Nat} {persist : Persist} {trace : List DriveEvent} {b : Bringup}
      (hboot : bootUp plat cfg ms persist trace = .ok b) : UpWith plat cfg b.machine
  | call {m m' : Machine} {op : Op} {r : AdminResult} (hup : UpWith plat cfg m)
      (hrun : op.run plat m = .ok (r, m')) : UpWith plat cfg m'

/-- Ticks with no clear pending, and `n` warm resets over the intact record with
the same configuration. -/
inductive WarmRun (plat : Platform) (cfg : Config) (m : Machine) : Nat → Machine → Prop where
  | refl : WarmRun plat cfg m 0 m
  | tick {n : Nat} {m₁ m₂ : Machine} {env : TickEnv} (hrun : WarmRun plat cfg m n m₁)
      (hrequest : m₁.clearRequest = false) (htick : interlockTickAll env m₁ = .ok m₂) :
      WarmRun plat cfg m n m₂
  | reset {n ms : Nat} {m₁ : Machine} {b : Bringup} (hrun : WarmRun plat cfg m n m₁)
      (hboot : bootUp plat cfg ms m₁.persist m₁.hal.trace = .ok b) :
      WarmRun plat cfg m (n + 1) b.machine

section Survival

variable {plat : Platform} {cfg : Config} {m m' : Machine}

theorem bootUp_fingerprint {ms : Nat} {persist : Persist} {trace : List DriveEvent} {b : Bringup}
    (hboot : bootUp plat cfg ms persist trace = .ok b) :
    b.machine.persist.cfgFingerprint = interlockCfgFingerprint cfg := by
  obtain ⟨m₁, b₁, b₂, -, -, hcfg, ⟨held, hsettled⟩, hbuiltin, rfl⟩ := bootUp_stages hboot
  refine (startBuiltin_slots hsettled hbuiltin).1.trans ?_
  unfold startConfigSlots at hcfg
  dsimp only at hcfg
  split at hcfg
  · obtain ⟨m₂, -, hcfg⟩ := bind_eq_ok.mp hcfg
    obtain ⟨b₃, -, hcfg⟩ := bind_eq_ok.mp hcfg
    cases hcfg
    rfl
  next hsame =>
    cases hcfg
    rw [not_or, not_not] at hsame
    exact hsame.1.symm

/-- No call moves the fingerprint. -/
theorem Op.fingerprint_of_run {op : Op} {r : AdminResult} {held : Holdings}
    (h : Settled plat m held) (hrun : op.run plat m = .ok (r, m')) :
    m'.persist.cfgFingerprint = m.persist.cfgFingerprint := by
  have hheader := Persist.headerOk_of_isValid h.valid
  cases op with
  | setSlotDsl slot text =>
      obtain ⟨r₁, m₁, hrun₁, hout⟩ := interlockSetSlotDsl_outcome plat slot text hheader
      cases hrun₁.symm.trans hrun
      cases hout <;> rfl
  | armCompiled slot id =>
      obtain ⟨r₁, m₁, hrun₁, hout⟩ := interlockArmSlotCompiled_outcome slot id hheader
      cases hrun₁.symm.trans hrun
      cases hout <;> rfl
  | disarm slot =>
      obtain ⟨r₁, m₁, hrun₁, hout⟩ := interlockDisarmSlot_outcome slot hheader
      cases hrun₁.symm.trans hrun
      cases hout <;> rfl
  | requestClear =>
      cases hrun
      rfl
  | tick env =>
      obtain ⟨m₁, hrun₁, heffect, -⟩ := interlockTickAll_effect env h
      rw [Op.run, hrun₁] at hrun
      cases hrun
      exact heffect.fingerprint

theorem UpWith.reachable (h : UpWith plat cfg m) : Reachable plat m := by
  induction h with
  | boot hboot => exact .boot hboot
  | call _ hrun ih => exact ih.call hrun

theorem UpWith.fingerprint (h : UpWith plat cfg m) :
    m.persist.cfgFingerprint = interlockCfgFingerprint cfg := by
  induction h with
  | boot hboot => exact bootUp_fingerprint hboot
  | call hup hrun ih =>
      obtain ⟨held, hsettled⟩ := hup.reachable.settled
      exact (Op.fingerprint_of_run hsettled hrun).trans ih

theorem KeepsSlot.builtinPreserved {p p' : Persist} (h : KeepsSlot p p' 0) :
    builtinPreserved p' = builtinPreserved p := by
  unfold SlowBus.Interlock.builtinPreserved
  rw [h.state, h.len, h.text]

/-- What `n` warm resets keep of an armed and latched slot. -/
structure Survives (plat : Platform) (cfg : Config) (s : Slot) (count : Nat) (m : Machine) :
    Prop where
  settled : ∃ held, Settled plat m held
  fingerprint : m.persist.cfgFingerprint = interlockCfgFingerprint cfg
  runs : m.persist.Runs s
  latched : m.Latched s
  bootCounter : (m.persist.slots s).bootCounter = count
  builtin : s = 0 → builtinPreserved m.persist = true

variable {s : Slot} {count : Nat}

theorem Survives.tick {env : TickEnv} (h : Survives plat cfg s count m)
    (hrequest : m.clearRequest = false) (htick : interlockTickAll env m = .ok m') :
    Survives plat cfg s count m' := by
  obtain ⟨held, hsettled⟩ := h.settled
  obtain ⟨m₁, htick₁, heffect, hsettled'⟩ := interlockTickAll_effect env hsettled
  cases htick₁.symm.trans htick
  have hkeep := heffect.keeps s
  refine ⟨⟨held, hsettled'⟩, heffect.fingerprint.trans h.fingerprint, hkeep.runs.mpr h.runs,
    (heffect.latched s).mpr (.inl ⟨h.latched, hrequest⟩), hkeep.bootCounter.trans h.bootCounter, ?_⟩
  intro hzero
  rw [(heffect.keeps 0).builtinPreserved]
  exact h.builtin hzero

theorem Survives.reset {ms : Nat} {trace : List DriveEvent} {b : Bringup}
    (h : Survives plat cfg s count m) (hcount : count < maxBootAttempts)
    (hboot : bootUp plat cfg ms m.persist trace = .ok b) :
    Survives plat cfg s (count + 1) b.machine := by
  obtain ⟨held, hsettled⟩ := h.settled
  obtain ⟨hslot, hfp, hbuiltin⟩ := bootUp_keeps hsettled h.fingerprint h.runs
    (h.bootCounter ▸ hcount) h.builtin hboot
  refine ⟨(Reachable.boot hboot).settled, hfp, ?_, ?_, ?_, hbuiltin⟩
  · rw [Persist.Runs, hslot]
    exact h.runs
  · rw [Machine.Latched, hslot]
    exact h.latched
  · rw [hslot, h.bootCounter]

theorem WarmRun.survives {n : Nat} (hrun : WarmRun plat cfg m n m')
    (h : Survives plat cfg s count m) (hcount : count + n ≤ maxBootAttempts) :
    Survives plat cfg s (count + n) m' := by
  induction hrun with
  | refl => exact h
  | tick _ hrequest htick ih => exact (ih hcount).tick hrequest htick
  | reset _ hboot ih => exact (ih (by omega)).reset (by omega) hboot

/-- An armed and latched slot that is not a stand-in for the built-in interlock is
still armed and latched after any number of warm resets, with any ticks between
them, as long as the boot-loop guard's count is not used up; the reset after that
does not keep it. -/
theorem latch_survives_resets {n : Nat} (hup : UpWith plat cfg m) (hruns : m.persist.Runs s)
    (hlatched : m.Latched s) (hbuiltin : s = 0 → builtinPreserved m.persist = true)
    (hcount : (m.persist.slots s).bootCounter + n ≤ maxBootAttempts)
    (hrun : WarmRun plat cfg m n m') :
    (m'.Armed s ∧ m'.Latched s) ∧
      ((m.persist.slots s).bootCounter + n = maxBootAttempts → ∀ ms b,
        bootUp plat cfg ms m'.persist m'.hal.trace = .ok b →
        ¬(b.machine.Armed s ∧ b.machine.Latched s)) := by
  have h : Survives plat cfg s (m.persist.slots s).bootCounter m :=
    ⟨hup.reachable.settled, hup.fingerprint, hruns, hlatched, rfl, hbuiltin⟩
  have h' := hrun.survives h hcount
  refine ⟨⟨h'.runs.1, h'.latched⟩, fun hused ms b hboot => ?_⟩
  obtain ⟨held, hsettled⟩ := h'.settled
  refine bootUp_drops hsettled ?_ hboot
  rw [h'.bootCounter, hused]

end Survival

/-! ## The bench slot over resets -/

/-- A cold boot, slot 1 armed from the bench text and tripped. -/
def benchLatched : Except Fault Machine := do
  let b ← bootUp benchPlatform (fun _ => none) 0 .cold []
  runOps benchPlatform [.setSlotDsl 1 benchText, .tick (quietTick 1000)] b.machine

/-- `n` warm resets in a row, without a configuration. -/
def benchResets (m : Machine) : Nat → Except Fault Machine
  | 0 => .ok m
  | n + 1 => do
      let m ← benchResets m n
      let b ← bootUp benchPlatform (fun _ => none) 0 m.persist m.hal.trace
      .ok b.machine

theorem benchLatched_upWith {m : Machine} (h : benchLatched = .ok m) :
    UpWith benchPlatform (fun _ => none) m := by
  obtain ⟨b, hboot, h⟩ := bind_eq_ok.mp h
  exact runOps_preserved (fun _ _ _ _ hup hop => hup.call hop) (UpWith.boot hboot) h

theorem benchResets_warmRun {m m' : Machine} {n : Nat} (h : benchResets m n = .ok m') :
    WarmRun benchPlatform (fun _ => none) m n m' := by
  induction n generalizing m' with
  | zero =>
      cases h
      exact .refl
  | succ n ih =>
      obtain ⟨m₁, hn, h⟩ := bind_eq_ok.mp h
      obtain ⟨b, hboot, h⟩ := bind_eq_ok.mp h
      cases h
      exact (ih hn).reset hboot

theorem latch_survives_three_resets : ∃ m m', UpWith benchPlatform (fun _ => none) m ∧
    m.Latched 1 ∧ WarmRun benchPlatform (fun _ => none) m 3 m' ∧ m'.Armed 1 ∧ m'.Latched 1 := by
  obtain ⟨m, hm, htest⟩ := exists_of_succeedsWith (x := benchLatched)
    (p := fun m => decide (m.Armed 1 ∧ (m.persist.slots 1).id = idDsl ∧ m.Latched 1 ∧
      (m.persist.slots 1).bootCounter = 0) && succeedsWith (benchResets m 3) fun _ => true)
    (by decide +kernel)
  rw [Bool.and_eq_true] at htest
  obtain ⟨harmed, hid, hlatched, hcount⟩ := of_decide_eq_true htest.1
  obtain ⟨m', hm', -⟩ := exists_of_succeedsWith htest.2
  have hup := benchLatched_upWith hm
  have hrun := benchResets_warmRun hm'
  obtain ⟨hkept, -⟩ := latch_survives_resets hup ⟨harmed, hid⟩ hlatched nofun
    (by rw [hcount]; decide) hrun
  exact ⟨m, m', hup, hlatched, hrun, hkept⟩

/-- The fourth reset loses the bench slot. -/
theorem not_latch_survives_all_resets : ¬∀ (plat : Platform) (cfg : Config) (m m' : Machine)
    (s : Slot) (n : Nat), UpWith plat cfg m → m.persist.Runs s → m.Latched s →
    WarmRun plat cfg m n m' → m'.Armed s ∧ m'.Latched s := by
  intro hall
  obtain ⟨m, hm, htest⟩ := exists_of_succeedsWith (x := benchLatched)
    (p := fun m => decide (m.Armed 1 ∧ (m.persist.slots 1).id = idDsl ∧ m.Latched 1) &&
      succeedsWith (benchResets m 4) fun m' => decide (¬m'.Armed 1))
    (by decide +kernel)
  rw [Bool.and_eq_true] at htest
  obtain ⟨harmed, hid, hlatched⟩ := of_decide_eq_true htest.1
  obtain ⟨m', hm', hnot⟩ := exists_of_succeedsWith htest.2
  exact of_decide_eq_true hnot (hall benchPlatform (fun _ => none) m m' 1 4 (benchLatched_upWith hm)
    ⟨harmed, hid⟩ hlatched (benchResets_warmRun hm')).1

end SlowBus.Interlock
