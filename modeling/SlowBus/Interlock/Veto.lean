import SlowBus.Interlock.Restore
import SlowBus.Interlock.Tick
import SlowBus.Lib.Runs

/-!
# Latches and vetoes over whole runs

The operations of the framework in any order, from any boot. A latch stays set
until a serviced clear, a disarm or a fresh arm, and every tick leaves every
claimed output at its error level exactly when an armed claimant is latched.
-/

namespace SlowBus.Interlock

/-- A call into the framework while it is up. -/
inductive Op where
  | setSlotDsl (slot : Nat) (text : Text)
  | armCompiled (slot id : Nat)
  | disarm (slot : Nat)
  | requestClear
  | tick (env : TickEnv)

def Op.run (plat : Platform) (op : Op) (m : Machine) : Except Fault (AdminResult × Machine) :=
  match op with
  | .setSlotDsl slot text => interlockSetSlotDsl plat slot text m
  | .armCompiled slot id => interlockArmSlotCompiled slot id m
  | .disarm slot => interlockDisarmSlot slot m
  | .requestClear => .ok ({ status := .ok }, interlockRequestGlobalClear m)
  | .tick env => (interlockTickAll env m).map fun m => ({ status := .ok }, m)

/-- The states the framework reaches: after a cold initialisation, or after the
boot sequence over any persistent memory, by any calls. -/
inductive Reachable (plat : Platform) : Machine → Prop where
  | cold (trace : List DriveEvent) : Reachable plat (.boot .cold trace)
  | boot {cfg : Config} {ms : Nat} {persist : Persist} {trace : List DriveEvent} {b : Bringup}
      (hboot : bootUp plat cfg ms persist trace = .ok b) : Reachable plat b.machine
  | call {m m' : Machine} {op : Op} {r : AdminResult} (hreach : Reachable plat m)
      (hrun : op.run plat m = .ok (r, m')) : Reachable plat m'

/-- A call that may end the latch of slot `s`: a tick that services a clear, a
disarm of the slot, or a successful arm of it. -/
def Op.Releases (s : Slot) (m : Machine) (r : AdminResult) : Op → Prop
  | .setSlotDsl slot _ | .armCompiled slot _ => slot = s ∧ r.status = .ok
  | .disarm slot => slot = s
  | .requestClear => False
  | .tick _ => m.clearRequest = true

/-- One call that does not release slot `s`. -/
def KeepStep (plat : Platform) (s : Slot) (m m' : Machine) : Prop :=
  ∃ op r, Op.run plat op m = .ok (r, m') ∧ ¬op.Releases s m r

section Steps

variable {plat : Platform} {m m' : Machine} {op : Op} {r : AdminResult} {held : Holdings}

/-- On a settled machine no call faults, and the machine stays settled. -/
theorem Op.run_settled (op : Op) (h : Settled plat m held) :
    ∃ r m' held', op.run plat m = .ok (r, m') ∧ Settled plat m' held' := by
  have hheader := Persist.headerOk_of_isValid h.valid
  cases op with
  | setSlotDsl slot text =>
      obtain ⟨r, m', hrun, hout⟩ := interlockSetSlotDsl_outcome plat slot text hheader
      obtain ⟨held', h'⟩ := h.setSlotDsl hout
      exact ⟨r, m', held', hrun, h'⟩
  | armCompiled slot id =>
      obtain ⟨r, m', hrun, hout⟩ := interlockArmSlotCompiled_outcome slot id hheader
      exact ⟨r, m', held, hrun, h.armCompiled hout⟩
  | disarm slot =>
      obtain ⟨r, m', hrun, hout⟩ := interlockDisarmSlot_outcome slot hheader
      obtain ⟨held', h'⟩ := h.disarm hout
      exact ⟨r, m', held', hrun, h'⟩
  | requestClear =>
      exact ⟨_, _, held, rfl, h.of_keeps rfl rfl (fun s => .refl _ s) rfl⟩
  | tick env =>
      obtain ⟨m', hrun, -, h'⟩ := interlockTickAll_effect env h
      refine ⟨{ status := .ok }, m', held, ?_, h'⟩
      rw [Op.run, hrun]
      rfl

theorem Op.settled_of_run (h : Settled plat m held) (hrun : op.run plat m = .ok (r, m')) :
    ∃ held', Settled plat m' held' := by
  obtain ⟨r₁, m₁, held', hrun₁, h'⟩ := op.run_settled h
  rw [hrun] at hrun₁
  cases hrun₁
  exact ⟨held', h'⟩

theorem settled_cold (plat : Platform) (trace : List DriveEvent) :
    Settled plat (.boot .cold trace) fun _ => ∅ where
  valid := isValid_cold
  table := holds_boot plat trace
  slots := fun _ => .inl rfl
  complete := fun _ hruns => by cases hruns.1

theorem Reachable.settled (h : Reachable plat m) : ∃ held, Settled plat m held := by
  induction h with
  | cold trace => exact ⟨_, settled_cold plat trace⟩
  | @boot cfg ms persist trace b hboot =>
      obtain ⟨b', held, hboot', h⟩ := bootUp_settled plat cfg ms persist trace
      rw [hboot] at hboot'
      cases hboot'
      exact ⟨held, h⟩
  | call _ hrun ih =>
      obtain ⟨held, h⟩ := ih
      exact Op.settled_of_run h hrun

/-! ## The latch -/

theorem DslOutcome.slots_eq {slot : Nat} {text : Text} (hout : DslOutcome plat slot text m r m')
    {s : Slot} (hs : ¬(slot = s ∧ r.status = .ok)) : m'.persist.slots s = m.persist.slots s := by
  cases hout with
  | rejected => rfl
  | refused => rfl
  | @armed t inst hslot =>
      have hne : s ≠ t := fun heq => hs ⟨heq ▸ hslot, rfl⟩
      exact Function.update_of_ne hne ..

theorem CompiledOutcome.slots_eq {slot id : Nat} (hout : CompiledOutcome slot id m r m')
    {s : Slot} (hs : ¬(slot = s ∧ r.status = .ok)) : m'.persist.slots s = m.persist.slots s := by
  cases hout with
  | rejected => rfl
  | @armed t hslot =>
      have hne : s ≠ t := fun heq => hs ⟨heq ▸ hslot, rfl⟩
      exact Function.update_of_ne hne ..

theorem DisarmOutcome.slots_eq {slot : Nat} (hout : DisarmOutcome slot m r m')
    {s : Slot} (hs : ¬slot = s) : m'.persist.slots s = m.persist.slots s := by
  cases hout with
  | rejected => rfl
  | @disarmed t hslot =>
      have hne : s ≠ t := fun heq => hs (heq ▸ hslot)
      exact Function.update_of_ne hne ..

/-- A call that does not release a slot keeps its latch. -/
theorem Op.latched_of_run {s : Slot} (h : Settled plat m held)
    (hrun : op.run plat m = .ok (r, m')) (hkeep : ¬op.Releases s m r) (hlatched : m.Latched s) :
    m'.Latched s := by
  have hheader := Persist.headerOk_of_isValid h.valid
  cases op with
  | setSlotDsl slot text =>
      obtain ⟨r₁, m₁, hrun₁, hout⟩ := interlockSetSlotDsl_outcome plat slot text hheader
      cases hrun₁.symm.trans hrun
      rwa [Machine.Latched, hout.slots_eq hkeep]
  | armCompiled slot id =>
      obtain ⟨r₁, m₁, hrun₁, hout⟩ := interlockArmSlotCompiled_outcome slot id hheader
      cases hrun₁.symm.trans hrun
      rwa [Machine.Latched, hout.slots_eq hkeep]
  | disarm slot =>
      obtain ⟨r₁, m₁, hrun₁, hout⟩ := interlockDisarmSlot_outcome slot hheader
      cases hrun₁.symm.trans hrun
      rwa [Machine.Latched, hout.slots_eq hkeep]
  | requestClear =>
      cases hrun
      exact hlatched
  | tick env =>
      obtain ⟨m₁, hrun₁, heffect, -⟩ := interlockTickAll_effect env h
      rw [Op.run, hrun₁] at hrun
      cases hrun
      exact (heffect.latched s).mpr (.inl ⟨hlatched, by simpa [Op.Releases] using hkeep⟩)

end Steps

/-! ## The outputs -/

/-- A pad shows the logical value that was applied to it. -/
theorem Pad.shows_apply (pad : Pad) {openDrain value : Nat} (hvalue : value ≤ 1) :
    (pad.apply openDrain value).shows openDrain = some value := by
  obtain rfl | rfl : value = 0 ∨ value = 1 := by omega
  · by_cases hod : openDrain = 0
    · simp [Pad.apply, Pad.shows, hod]
    · simp [Pad.apply, Pad.shows, hod]
  · by_cases hod : openDrain = 0
    · simp [Pad.apply, Pad.shows, hod]
    · simp [Pad.apply, Pad.shows, hod]

/-- What an output claim says of its levels. -/
theorem Holds.output_levels {plat : Platform} {hal : Hal} {held : Holdings}
    (h : Holds plat hal held) {pin : Pin} (hmask : (hal.claims pin).slotMask ≠ 0)
    (hmode : (hal.claims pin).mode = .gpioOut) :
    (hal.claims pin).okValue ≤ 1 ∧ (hal.claims pin).errValue ≤ 1 ∧
      (hal.claims pin).okValue ≠ (hal.claims pin).errValue := by
  obtain ⟨t, u, hu⟩ := h.exists_holder hmask
  have hadm := h.admissible t pin u hu
  have hrec := h.record pin t u hu
  rw [hrec] at hmode ⊢
  cases u with
  | gpioIn mode =>
      have hgpio := hadm.2.1
      change mode = .gpioOut at hmode
      rw [hmode] at hgpio
      cases hgpio
  | adc => cases hmode
  | output ok err od =>
      obtain ⟨-, hrange, hne, -⟩ := hadm
      show ok ≤ 1 ∧ err ≤ 1 ∧ ok ≠ err
      omega

/-- A claimed pin is under the framework's management. -/
theorem Holds.managed {plat : Platform} {hal : Hal} {held : Holdings} (h : Holds plat hal held)
    {pin : Pin} (hmask : (hal.claims pin).slotMask ≠ 0) (hmode : (hal.claims pin).mode = .gpioOut) :
    (hal.claims pin).managed managedMask = true := by
  obtain ⟨j, hj⟩ := BitSet.ne_zero_iff.mp hmask
  have hand : (hal.claims pin).slotMask &&& managedMask ≠ 0 := by
    refine BitSet.ne_zero_iff.mpr ⟨j, ?_⟩
    rw [BitVec.getLsbD_and, hj, getLsbD_managedMask (h.bounded pin j hj)]
    rfl
  rw [ClaimRecord.managed, Bool.and_eq_true, Bool.and_eq_true, bne_iff_ne, beq_iff_eq, bne_iff_ne]
  exact ⟨⟨hmask, hmode⟩, hand⟩

/-- The pad of a claimed output after the drive phase. -/
theorem Holds.shows_drive {plat : Platform} {hal : Hal} {held : Holdings} (h : Holds plat hal held)
    {pin : Pin} (veto : SlotMask) (hmask : (hal.claims pin).slotMask ≠ 0)
    (hmode : (hal.claims pin).mode = .gpioOut) :
    ((halPinDriveOutputs hal veto managedMask).pads pin).shows (hal.claims pin).openDrain =
      some ((hal.claims pin).vote veto) := by
  obtain ⟨hok, herr, -⟩ := h.output_levels hmask hmode
  have hvote : (hal.claims pin).vote veto ≤ 1 := by
    unfold ClaimRecord.vote
    split_ifs
    · exact herr
    · exact hok
  show (if (hal.claims pin).managed managedMask then _ else _ : Pad).shows _ = _
  rw [if_pos (h.managed hmask hmode)]
  exact Pad.shows_apply _ hvote

/-- The vote of a claim is the error level exactly when a claimant is vetoing. -/
theorem Holds.vote_vetoMask {plat : Platform} {m : Machine} {held : Holdings}
    (h : Holds plat m.hal held) {pin : Pin} :
    (m.hal.claims pin).slotMask &&& vetoMask m.persist ≠ 0 ↔
      ∃ s : Slot, (m.hal.claims pin).slotMask.getLsbD s = true ∧ m.Armed s ∧ m.Latched s := by
  rw [BitSet.ne_zero_iff]
  constructor
  · rintro ⟨j, hj⟩
    rw [BitVec.getLsbD_and, Bool.and_eq_true] at hj
    have hlt := h.bounded pin j hj.1
    exact ⟨⟨j, hlt⟩, hj.1, getLsbD_vetoMask.mp hj.2⟩
  · rintro ⟨s, hs, harmed, hlatched⟩
    refine ⟨s, ?_⟩
    rw [BitVec.getLsbD_and, hs, getLsbD_vetoMask.mpr ⟨harmed, hlatched⟩]
    rfl

/-- Where a tick leaves the pad of a claimed output. -/
theorem TickEffect.shows_iff {plat : Platform} {env : TickEnv} {m m' : Machine} {held : Holdings}
    (heffect : TickEffect env m m') (h : Settled plat m held) (h' : Settled plat m' held) {pin : Pin}
    (hmask : (m'.hal.claims pin).slotMask ≠ 0) (hmode : (m'.hal.claims pin).mode = .gpioOut) :
    let claim := m'.hal.claims pin
    let vetoed := ∃ s : Slot, claim.slotMask.getLsbD s = true ∧ m'.Armed s ∧ m'.Latched s
    claim.okValue ≠ claim.errValue ∧
      ((m'.hal.pads pin).shows claim.openDrain = some claim.errValue ↔ vetoed) ∧
      ((m'.hal.pads pin).shows claim.openDrain = some claim.okValue ↔ ¬vetoed) := by
  intro claim vetoed
  have hclaims : m'.hal.claims = m.hal.claims := by
    rw [heffect.hal]
    rfl
  obtain ⟨-, -, hne⟩ := h'.table.output_levels hmask hmode
  have hshows : (m'.hal.pads pin).shows claim.openDrain =
      some (claim.vote (vetoMask m'.persist)) := by
    have hdrive := h.table.shows_drive (vetoMask m'.persist)
      (hclaims ▸ hmask : (m.hal.claims pin).slotMask ≠ 0) (hclaims ▸ hmode)
    rwa [← heffect.hal, ← hclaims] at hdrive
  have hvote : claim.slotMask &&& vetoMask m'.persist ≠ 0 ↔ vetoed := h'.table.vote_vetoMask
  by_cases hv : vetoed
  · rw [hshows, ClaimRecord.vote, if_pos (hvote.mpr hv)]
    exact ⟨hne, by simp [hv], by simpa [hv] using hne.symm⟩
  · rw [hshows, ClaimRecord.vote, if_neg fun hbits => hv (hvote.mp hbits)]
    exact ⟨hne, by simpa [hv] using hne, by simp [hv]⟩

/-- In every reachable state: a latch survives every run of calls that do not
release its slot; and a tick returns and leaves each claimed output at its error
level exactly when one of its armed claimants is latched, and at its other level,
the OK level, otherwise. -/
theorem latch_and_veto {plat : Platform} {m : Machine} (hreach : Reachable plat m) :
    (∀ s m', m.Latched s → Relation.ReflTransGen (KeepStep plat s) m m' → m'.Latched s) ∧
      ∀ env, ∃ m', interlockTickAll env m = .ok m' ∧ ∀ pin,
        let claim := m'.hal.claims pin
        let vetoed := ∃ s : Slot, claim.slotMask.getLsbD s = true ∧ m'.Armed s ∧ m'.Latched s
        claim.slotMask ≠ 0 → claim.mode = .gpioOut →
          claim.okValue ≠ claim.errValue ∧
          ((m'.hal.pads pin).shows claim.openDrain = some claim.errValue ↔ vetoed) ∧
          ((m'.hal.pads pin).shows claim.openDrain = some claim.okValue ↔ ¬vetoed) := by
  obtain ⟨held, h⟩ := hreach.settled
  constructor
  · intro s m' hlatched hrun
    refine Runs.preserved_under (I := fun m => ∃ held, Settled plat m held)
      (P := fun m => m.Latched s) ?_ ?_ hrun ⟨held, h⟩ hlatched
    · rintro a b ⟨held, h⟩ ⟨op, r, hstep, -⟩
      exact Op.settled_of_run h hstep
    · rintro a b ⟨held, h⟩ hl ⟨op, r, hstep, hkeep⟩
      exact Op.latched_of_run h hstep hkeep hl
  · intro env
    obtain ⟨m', hrun, heffect, h'⟩ := interlockTickAll_effect env h
    exact ⟨m', hrun, fun pin hmask hmode => heffect.shows_iff h h' hmask hmode⟩

/-! ## A tripped slot -/

/-- Several calls in a row. -/
def runOps (plat : Platform) (ops : List Op) (m : Machine) : Except Fault Machine :=
  ops.foldlM (fun m op => (op.run plat m).map Prod.snd) m

/-- What every call preserves, a sequence of calls preserves. -/
theorem runOps_preserved {plat : Platform} {P : Machine → Prop} {ops : List Op} {m m' : Machine}
    (hstep : ∀ op m r m', P m → Op.run plat op m = .ok (r, m') → P m') (hstart : P m)
    (hrun : runOps plat ops m = .ok m') : P m' := by
  refine Fallible.foldlM_invariant ?_ hstart hrun
  intro m op m' hP hmap
  cases hop : op.run plat m with
  | error e => rw [hop] at hmap; cases hmap
  | ok res =>
      rw [hop] at hmap
      cases hmap
      exact hstep op m res.1 res.2 hP hop

theorem Reachable.runOps {plat : Platform} {ops : List Op} {m m' : Machine}
    (h : Reachable plat m) (hrun : runOps plat ops m = .ok m') : Reachable plat m' :=
  runOps_preserved (fun _ _ _ _ hreach hop => hreach.call hop) h hrun

/-- The eight host pins wired as inputs. -/
def benchPlatform : Platform := ⟨fun _ => .input⟩

/-- An interlock that wants GP2 high and votes on the open-drain veto line. -/
def benchText : Text :=
  "t;cfg[(gp2):in,(gp0):oc,up];watch[gp2:1];out_ok[gp0:1];out_err[gp0:0]".toList

/-- Every pin low, every counter zero, at one instant. -/
def quietTick (ms : Nat) : TickEnv where
  samples := fun _ => ⟨fun _ => false, fun _ => 0, fun _ _ => 0, ms, 0, 0, 0⟩
  clearMs := ms
  latchMs := ms
  stackHwmBytes := 0

theorem latch_and_veto_tripped : ∃ m, Reachable benchPlatform m ∧ m.Latched 1 ∧
    (∀ m', Relation.ReflTransGen (KeepStep benchPlatform 1) m m' → m'.Latched 1) ∧
    ∃ m', interlockTickAll (quietTick 1100) m = .ok m' ∧
      ((m'.hal.pads 0).shows 2 = some 0 ↔ ∃ s : Slot,
        (m'.hal.claims 0).slotMask.getLsbD s = true ∧ m'.Armed s ∧ m'.Latched s) := by
  obtain ⟨m, hrun, htest⟩ := Fallible.exists_of_succeedsWith
    (x := runOps benchPlatform [.setSlotDsl 1 benchText, .tick (quietTick 1000)] (.boot .cold []))
    (p := fun m => decide (m.Latched 1 ∧ m.hal.claims 0 = ⟨2, .gpioOut, 1, 0, adcNone, 2⟩))
    (by decide +kernel)
  obtain ⟨hlatched, hclaim⟩ := of_decide_eq_true htest
  have hreach : Reachable benchPlatform m := (Reachable.cold []).runOps hrun
  obtain ⟨hkeep, htick⟩ := latch_and_veto hreach
  obtain ⟨m', hm', hpins⟩ := htick (quietTick 1100)
  obtain ⟨held, h⟩ := hreach.settled
  obtain ⟨m₁, hm₁, heffect, -⟩ := interlockTickAll_effect (quietTick 1100) h
  cases hm₁.symm.trans hm'
  have hclaim' : m'.hal.claims 0 = ⟨2, .gpioOut, 1, 0, adcNone, 2⟩ := by
    rw [heffect.hal]
    exact hclaim
  obtain ⟨-, herr, -⟩ := hpins 0 (by rw [hclaim']; decide) (by rw [hclaim'])
  refine ⟨m, hreach, hlatched, fun m' => hkeep 1 m' hlatched, m', hm', ?_⟩
  simpa only [hclaim'] using herr

end SlowBus.Interlock
