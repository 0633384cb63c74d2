import SlowBus.Interlock.Veto
import SlowBus.Lib.WrapClock

/-!
# The grace window over real time

A timed run carries the real instant, which never wraps, and the instant of the
last `interlock_begin_grace`. The deadline the machine stores is the low word of
that instant plus the window, so whether a tick may latch is a matter of the
whole distance travelled since.
-/

namespace SlowBus.Interlock

/-- A machine with two instants the code does not keep. -/
structure Timed where
  machine : Machine
  now : Nat
  lastGrace : Nat

/-- The last grace as the latch phase of a tick sees it. -/
def Timed.graceAt (t : Timed) (env : TickEnv) : Nat :=
  if t.machine.clearRequest then env.clearMs else t.lastGrace

/-- Boots and calls against a real clock that never goes back. -/
inductive TimedReachable (plat : Platform) : Timed → Prop where
  | boot {cfg : Config} {ms : Nat} {persist : Persist} {trace : List DriveEvent} {b : Bringup}
      (hboot : bootUp plat cfg ms persist trace = .ok b) :
      TimedReachable plat ⟨b.machine, ms, ms⟩
  | call {t : Timed} {op : Op} {r : AdminResult} {m' : Machine} (hreach : TimedReachable plat t)
      (hop : ∀ env, op ≠ .tick env) (hrun : op.run plat t.machine = .ok (r, m')) :
      TimedReachable plat { t with machine := m' }
  | tick {t : Timed} {env : TickEnv} {m' : Machine} (hreach : TimedReachable plat t)
      (hclear : t.now ≤ env.clearMs) (hlatch : env.clearMs ≤ env.latchMs)
      (hrun : interlockTickAll env t.machine = .ok m') :
      TimedReachable plat ⟨m', env.latchMs, t.graceAt env⟩

section Timed

variable {plat : Platform} {t : Timed} {env : TickEnv} {m' : Machine}

theorem TimedReachable.reachable (h : TimedReachable plat t) : Reachable plat t.machine := by
  induction h with
  | boot hboot => exact .boot hboot
  | call _ _ hrun ih => exact ih.call hrun
  | @tick t env m' _ _ _ hrun ih =>
      have hop : (Op.tick env).run plat t.machine = .ok ({ status := .ok }, m') := by
        rw [Op.run, hrun]
        rfl
      exact ih.call hop

/-- The deadline a begun grace window stores. -/
def graceDeadline (ms : Nat) : BitVec 32 := boardMillis (ms + graceMs)

theorem interlockBeginGrace_deadline (ms : Nat) (m : Machine) :
    (interlockBeginGrace ms m).graceUntilMs = graceDeadline ms :=
  (BitVec.ofNat_add ..).symm

theorem tickClear_deadline (env : TickEnv)
    (h : t.machine.graceUntilMs = graceDeadline t.lastGrace) :
    (tickClear env t.machine).graceUntilMs = graceDeadline (t.graceAt env) := by
  unfold tickClear Timed.graceAt
  split
  · exact interlockBeginGrace_deadline ..
  · exact h

/-- No administration call moves the deadline. -/
theorem Op.graceUntilMs_of_run {m : Machine} {op : Op} {r : AdminResult} {held : Holdings}
    (h : Settled plat m held) (hop : ∀ env, op ≠ .tick env)
    (hrun : op.run plat m = .ok (r, m')) : m'.graceUntilMs = m.graceUntilMs := by
  have hheader := Persist.headerOk_of_isValid h.valid
  cases op with
  | setSlotDsl slot text =>
      obtain ⟨r₁, m₁, hrun₁, hout⟩ := interlockSetSlotDsl_outcome plat slot text hheader
      cases hrun₁.symm.trans hrun
      cases hout <;> rfl
  | armCompiled slot id =>
      obtain ⟨r₁, m₁, hrun₁, hout⟩ := interlockArmSlotCompiled_outcome slot id hheader
      cases hrun₁.symm.trans hrun
      cases hout <;> rfl
  | disarm slot =>
      obtain ⟨r₁, m₁, hrun₁, hout⟩ := interlockDisarmSlot_outcome slot hheader
      cases hrun₁.symm.trans hrun
      cases hout <;> rfl
  | requestClear =>
      cases hrun
      rfl
  | tick env => exact absurd rfl (hop env)

theorem bootUp_deadline {cfg : Config} {ms : Nat} {persist : Persist} {trace : List DriveEvent}
    {b : Bringup} (hboot : bootUp plat cfg ms persist trace = .ok b) :
    b.machine.graceUntilMs = graceDeadline ms := by
  obtain ⟨m₁, b₁, b₂, -, -, -, -, -, rfl⟩ := bootUp_stages hboot
  exact interlockBeginGrace_deadline ..

/-- In every timed run the stored deadline is the last grace plus the window. -/
theorem TimedReachable.deadline (h : TimedReachable plat t) :
    t.machine.graceUntilMs = graceDeadline t.lastGrace := by
  induction h with
  | boot hboot => exact bootUp_deadline hboot
  | call hreach hop hrun ih =>
      obtain ⟨held, hsettled⟩ := hreach.reachable.settled
      exact (Op.graceUntilMs_of_run hsettled hop hrun).trans ih
  | @tick t env m' hreach _ _ hrun ih =>
      obtain ⟨held, hsettled⟩ := hreach.reachable.settled
      obtain ⟨m₁, hrun₁, heffect, -⟩ := interlockTickAll_effect env hsettled
      cases hrun₁.symm.trans hrun
      exact heffect.grace.trans (tickClear_deadline env ih)

/-- Past the window a tick may latch unless more than half a clock period, modulo
the period, separates it from the end of the window. -/
theorem ilInGrace_after {m : Machine} {ms g : Nat} (hdeadline : m.graceUntilMs = graceDeadline g)
    (helapsed : g + graceMs ≤ ms) :
    ilInGrace m ms = false ↔ (ms - (g + graceMs)) % 2 ^ 32 ≤ 2 ^ 31 := by
  obtain ⟨k, rfl⟩ := Nat.exists_eq_add_of_le helapsed
  rw [ilInGrace, decide_eq_false_iff_not, hdeadline, graceDeadline, boardMillis, boardMillis,
    WrapClock.pending_after, Nat.add_sub_cancel_left]
  omega

/-- Inside the window no tick latches. -/
theorem ilInGrace_before {m : Machine} {ms g : Nat} (hdeadline : m.graceUntilMs = graceDeadline g)
    (hafter : g ≤ ms) (hwithin : ms < g + graceMs) : ilInGrace m ms = true := by
  obtain ⟨k, hk⟩ := Nat.exists_eq_add_of_lt hwithin
  have hsmall : k + 1 ≤ graceMs := by omega
  rw [ilInGrace, decide_eq_true_eq, hdeadline, graceDeadline, boardMillis, boardMillis, hk,
    Nat.add_assoc ms k 1, WrapClock.pending_before]
  unfold graceMs at hsmall
  omega

end Timed

/-- At every tick of every run, at least the window after the last grace, an armed
slot that evaluates to false ends up latched and in the veto mask exactly when
the time since the window is at most half a clock period modulo the period, or
the slot was latched before and the tick services no clear. -/
theorem tripped_latches_iff {plat : Platform} {t : Timed} {env : TickEnv} {m' : Machine} {s : Slot}
    (hreach : TimedReachable plat t) (hrun : interlockTickAll env t.machine = .ok m')
    (helapsed : t.graceAt env + 250 ≤ env.latchMs) (harmed : m'.Armed s)
    (hfalse : (m'.persist.inst s).tfState = .isFalse) :
    (m'.Latched s ∧ (vetoMask m'.persist).getLsbD s = true) ↔
      (env.latchMs - (t.graceAt env + 250)) % 2 ^ 32 ≤ 2 ^ 31 ∨
        (t.machine.Latched s ∧ t.machine.clearRequest = false) := by
  obtain ⟨held, h⟩ := hreach.reachable.settled
  obtain ⟨m₁, hrun₁, heffect, -⟩ := interlockTickAll_effect env h
  cases hrun₁.symm.trans hrun
  have hgrace := ilInGrace_after (tickClear_deadline env hreach.deadline) helapsed
  rw [getLsbD_vetoMask, heffect.latched, hgrace]
  constructor
  · rintro ⟨hkept | ⟨hout, -⟩, -⟩
    · exact .inr hkept
    · exact .inl hout
  · intro hcond
    have hlatched : m'.Latched s := by
      rw [heffect.latched, hgrace]
      rcases hcond with hout | hkept
      · exact .inr ⟨hout, harmed, hfalse⟩
      · exact .inl hkept
    refine ⟨?_, harmed, hlatched⟩
    rwa [heffect.latched, hgrace] at hlatched

/-- A cold boot at instant 0, slot 1 armed, and one tick with GP2 low: the machine
before and after the tick. -/
def benchTrip (ms : Nat) : Except Fault (Machine × Machine) := do
  let b ← bootUp benchPlatform (fun _ => none) 0 .cold []
  let (_, m) ← interlockSetSlotDsl benchPlatform 1 benchText b.machine
  let m' ← interlockTickAll (quietTick ms) m
  .ok (m, m')

theorem benchTrip_reachable {ms : Nat} {m m' : Machine} (h : benchTrip ms = .ok (m, m')) :
    TimedReachable benchPlatform ⟨m, 0, 0⟩ ∧ interlockTickAll (quietTick ms) m = .ok m' := by
  obtain ⟨b, hboot, h⟩ := Fallible.bind_eq_ok.mp h
  obtain ⟨⟨r, m₁⟩, hset, h⟩ := Fallible.bind_eq_ok.mp h
  obtain ⟨m₂, htick, h⟩ := Fallible.bind_eq_ok.mp h
  cases h
  refine ⟨?_, htick⟩
  have hop : (Op.setSlotDsl 1 benchText).run benchPlatform b.machine = .ok (r, m) := hset
  refine (TimedReachable.boot hboot).call ?_ hop
  exact nofun

theorem tripped_latches_at_one_second : ∃ t m', TimedReachable benchPlatform t ∧
    interlockTickAll (quietTick 1000) t.machine = .ok m' ∧
    m'.Latched 1 ∧ (vetoMask m'.persist).getLsbD 1 = true := by
  obtain ⟨⟨m, m'⟩, hrun, htest⟩ := Fallible.exists_of_succeedsWith (x := benchTrip 1000)
    (p := fun (m, m') => decide (m.clearRequest = false ∧ m'.Armed 1 ∧
      (m'.persist.inst 1).tfState = .isFalse)) (by decide +kernel)
  obtain ⟨hrequest, harmed, hfalse⟩ := of_decide_eq_true htest
  obtain ⟨hreach, htick⟩ := benchTrip_reachable hrun
  have hgrace : Timed.graceAt ⟨m, 0, 0⟩ (quietTick 1000) = 0 := by simp [Timed.graceAt, hrequest]
  refine ⟨_, m', hreach, htick, ?_⟩
  refine (tripped_latches_iff hreach htick ?_ harmed hfalse).mpr (.inl ?_)
  · rw [hgrace]
    decide
  · rw [hgrace]
    decide

/-- Half a clock period and a little after the boot grace, a slot that is false
does not latch. -/
theorem not_tripped_latches : ¬∀ (plat : Platform) (t : Timed) (env : TickEnv) (m' : Machine)
    (s : Slot), TimedReachable plat t → t.now ≤ env.clearMs → env.clearMs ≤ env.latchMs →
    interlockTickAll env t.machine = .ok m' → t.graceAt env + 250 ≤ env.latchMs →
    m'.Armed s → (m'.persist.inst s).tfState = .isFalse →
    m'.Latched s ∧ (vetoMask m'.persist).getLsbD s = true := by
  intro hall
  obtain ⟨⟨m, m'⟩, hrun, htest⟩ := Fallible.exists_of_succeedsWith (x := benchTrip (2 ^ 31 + 1000))
    (p := fun (m, m') => decide (m.clearRequest = false ∧ m'.Armed 1 ∧
      (m'.persist.inst 1).tfState = .isFalse ∧ ¬m'.Latched 1)) (by decide +kernel)
  obtain ⟨hrequest, harmed, hfalse, hnot⟩ := of_decide_eq_true htest
  obtain ⟨hreach, htick⟩ := benchTrip_reachable hrun
  have hgrace : Timed.graceAt ⟨m, 0, 0⟩ (quietTick (2 ^ 31 + 1000)) = 0 := by
    simp [Timed.graceAt, hrequest]
  have helapsed : Timed.graceAt ⟨m, 0, 0⟩ (quietTick (2 ^ 31 + 1000)) + 250 ≤ 2 ^ 31 + 1000 := by
    rw [hgrace]
    decide
  exact hnot (hall benchPlatform _ _ m' 1 hreach (Nat.zero_le _) le_rfl htick helapsed harmed
    hfalse).1

/-! ## Clearing a live hazard -/

/-- A tick that services a clear holds off new latches while its window is open;
and at every tick of every run, from the window's end and for half a clock period
after it, an armed slot that evaluates to false is latched and the outputs it
claims are at their error level. -/
theorem live_hazard_relatches {plat : Platform} {t : Timed} {env : TickEnv} {m' : Machine}
    (hreach : TimedReachable plat t) (hlatch : env.clearMs ≤ env.latchMs)
    (hrun : interlockTickAll env t.machine = .ok m') :
    (t.machine.clearRequest = true → env.latchMs < env.clearMs + 250 → ∀ s, ¬m'.Latched s) ∧
      ∀ s, t.graceAt env + 250 ≤ env.latchMs → env.latchMs ≤ t.graceAt env + 250 + 2 ^ 31 →
        m'.Armed s → (m'.persist.inst s).tfState = .isFalse →
        m'.Latched s ∧ ∀ pin, (m'.hal.claims pin).slotMask.getLsbD s = true →
          (m'.hal.claims pin).mode = .gpioOut →
          (m'.hal.pads pin).shows (m'.hal.claims pin).openDrain =
            some (m'.hal.claims pin).errValue := by
  obtain ⟨held, h⟩ := hreach.reachable.settled
  obtain ⟨m₁, hrun₁, heffect, h'⟩ := interlockTickAll_effect env h
  cases hrun₁.symm.trans hrun
  have hdeadline := tickClear_deadline env hreach.deadline
  constructor
  · intro hrequest hwithin s hlatched
    have hgraceAt : t.graceAt env = env.clearMs := if_pos hrequest
    rw [hgraceAt] at hdeadline
    have hgrace := ilInGrace_before hdeadline hlatch hwithin
    rw [heffect.latched, hgrace, hrequest] at hlatched
    simp at hlatched
  · intro s helapsed hbound harmed hfalse
    have hgrace : ilInGrace (tickClear env t.machine) env.latchMs = false := by
      rw [ilInGrace_after hdeadline helapsed]
      unfold graceMs
      omega
    have hlatched : m'.Latched s := (heffect.latched s).mpr (.inr ⟨hgrace, harmed, hfalse⟩)
    refine ⟨hlatched, fun pin hbit hmode => ?_⟩
    have hmask := BitSet.ne_zero_iff.mpr ⟨s.val, hbit⟩
    exact (heffect.shows_iff h h' hmask hmode).2.1.mpr ⟨s, hbit, harmed, hlatched⟩

theorem live_hazard_relatches_at_one_second : ∃ t m', TimedReachable benchPlatform t ∧
    interlockTickAll (quietTick 1000) t.machine = .ok m' ∧ m'.Latched 1 ∧
    (m'.hal.pads 0).shows 2 = some 0 := by
  obtain ⟨⟨m, m'⟩, hrun, htest⟩ := Fallible.exists_of_succeedsWith (x := benchTrip 1000)
    (p := fun (m, m') => decide (m.clearRequest = false ∧ m'.Armed 1 ∧
      (m'.persist.inst 1).tfState = .isFalse ∧
      m'.hal.claims 0 = ⟨3, .gpioOut, 1, 0, adcNone, 2⟩)) (by decide +kernel)
  obtain ⟨hrequest, harmed, hfalse, hclaim⟩ := of_decide_eq_true htest
  obtain ⟨hreach, htick⟩ := benchTrip_reachable hrun
  have hgrace : Timed.graceAt ⟨m, 0, 0⟩ (quietTick 1000) = 0 := by simp [Timed.graceAt, hrequest]
  obtain ⟨-, hlater⟩ := live_hazard_relatches hreach le_rfl htick
  obtain ⟨hlatched, hpins⟩ := hlater 1 (by rw [hgrace]; decide) (by rw [hgrace]; decide)
    harmed hfalse
  have hpin := hpins 0 (by rw [hclaim]; decide) (by rw [hclaim])
  rw [hclaim] at hpin
  exact ⟨_, m', hreach, htick, hlatched, hpin⟩

/-- The tick that services a clear does not latch a slot again whose condition is
still false. -/
theorem not_relatched_by_clearing_tick : ¬∀ (plat : Platform) (m : Machine) (env : TickEnv)
    (m' : Machine) (s : Slot), Reachable plat m → m.clearRequest = true →
    interlockTickAll env m = .ok m' → m'.Armed s → (m'.persist.inst s).tfState = .isFalse →
    m'.Latched s ∧ ∀ pin, (m'.hal.claims pin).slotMask.getLsbD s = true →
      (m'.hal.claims pin).mode = .gpioOut →
      (m'.hal.pads pin).shows (m'.hal.claims pin).openDrain =
        some (m'.hal.claims pin).errValue := by
  intro hall
  obtain ⟨m, hrun, htest⟩ := Fallible.exists_of_succeedsWith
    (x := runOps benchPlatform [.setSlotDsl 1 benchText, .tick (quietTick 1000), .requestClear]
      (.boot .cold []))
    (p := fun m => decide (m.Latched 1 ∧ m.clearRequest = true) &&
      Fallible.succeedsWith (interlockTickAll (quietTick 2000) m) fun m' =>
        decide (m'.Armed 1 ∧ (m'.persist.inst 1).tfState = .isFalse ∧ ¬m'.Latched 1))
    (by decide +kernel)
  rw [Bool.and_eq_true] at htest
  obtain ⟨-, hrequest⟩ := of_decide_eq_true htest.1
  obtain ⟨m', htick, htest'⟩ := Fallible.exists_of_succeedsWith htest.2
  obtain ⟨harmed, hfalse, hnot⟩ := of_decide_eq_true htest'
  exact hnot (hall benchPlatform m (quietTick 2000) m' 1 ((Reachable.cold []).runOps hrun) hrequest
    htick harmed hfalse).1

end SlowBus.Interlock
