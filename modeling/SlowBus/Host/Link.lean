import SlowBus.Bus.Frame
import SlowBus.Lib.WrapClock

/-!
# The host link

`core/host_link.c`: the ladder by which a dongle becomes operational, and the frames it
announces itself with while it climbs it and after. An announcement is due when the clock
is not before its deadline, by the sign of their difference; a deadline that is to come at
once is set to zero.
-/

namespace SlowBus.Host

open Bus (Byte)

def hlRegisterPeriodMs : Nat := 500
def hlHeartbeatPeriodMs : Nat := 1000

def opRegister : BitVec 16 := 0x0001
def opHeartbeat : BitVec 16 := 0x0002
def opPong : BitVec 16 := 0x0005
def opManifestReply : BitVec 16 := 0x0008
def opRegisterAck : BitVec 16 := 0x0103
def opPing : BitVec 16 := 0x0104
def opGetManifest : BitVec 16 := 0x0107
def opOperationalBegin : BitVec 16 := 0x0108
def opShellExec : BitVec 16 := 0x0109
def opPoll : BitVec 16 := 0x010A
def opBusExec : BitVec 16 := 0x010B

/-- `wr_u16` -/
def wrU16 (v : BitVec 16) : List Byte := [v.setWidth 8, (v >>> 8).setWidth 8]

/-- `wr_u32` -/
def wrU32 (v : BitVec 32) : List Byte :=
  [v.setWidth 8, (v >>> 8).setWidth 8, (v >>> 16).setWidth 8, (v >>> 24).setWidth 8]

/-- `host_link_cfg_t` -/
structure LinkCfg where
  classId : BitVec 32
  instanceId : BitVec 32
  commissioningState : Byte
  chipUid : Vector Byte 16
  vid : BitVec 16
  pid : BitVec 16
  fwVersion : BitVec 32
  buildDate : BitVec 32
  schemaHash : BitVec 32
  deriving DecidableEq, Repr

/-- `host_link_state_t` -/
inductive LinkState where
  | boot
  | l1Acked
  | manifest
  | operational
  deriving DecidableEq, Repr

/-- A frame that is staged; its acknowledgement fields are zero. -/
structure S2mFrame where
  addr : Byte
  cmd : BitVec 16
  seq : Byte
  payload : List Byte
  deriving DecidableEq, Repr

/-- `host_link_t`, without the ring and the decoder. -/
structure HostLink where
  cfg : LinkCfg
  state : LinkState := .boot
  seq : Byte := 0
  nextRegisterMs : BitVec 32 := 0
  nextHeartbeatMs : BitVec 32 := 0
  txMsgs : BitVec 32 := 0
  deriving DecidableEq, Repr

/-- `emit_s2m`, with the frames it stages; `room` tells whether the ring takes the frame. -/
def HostLink.emitS2m (h : HostLink) (room : Bool) (addr : Byte) (opcode : BitVec 16)
    (payload : List Byte) : HostLink × List S2mFrame :=
  if room then
    ({ h with seq := h.seq + 1, txMsgs := h.txMsgs + 1 }, [⟨addr, opcode, h.seq, payload⟩])
  else (h, [])

/-- The identity, version 2. -/
def LinkCfg.register (c : LinkCfg) : List Byte :=
  2 :: (wrU32 c.classId ++ wrU32 c.instanceId ++ [c.commissioningState] ++ c.chipUid.toList ++
    wrU16 c.vid ++ wrU16 c.pid ++ wrU32 c.fwVersion ++ wrU32 c.buildDate)

/-- `emit_register` -/
def HostLink.emitRegister (h : HostLink) (room : Bool) : HostLink × List S2mFrame :=
  h.emitS2m room 1 opRegister h.cfg.register

def m2sOps : List (BitVec 16) :=
  [opRegisterAck, opPing, opGetManifest, opOperationalBegin, opShellExec, opPoll, opBusExec]

/-- `emit_manifest` -/
def HostLink.emitManifest (h : HostLink) (room : Bool) : HostLink × List S2mFrame :=
  h.emitS2m room 1 opManifestReply
    (wrU32 h.cfg.schemaHash ++ wrU32 h.cfg.fwVersion ++ [.ofNat 8 m2sOps.length] ++
      m2sOps.flatMap wrU16)

/-- `host_link_reset_boot` -/
def HostLink.resetBoot (h : HostLink) : HostLink :=
  { h with state := .boot, nextRegisterMs := 0, nextHeartbeatMs := 0 }

/-- `on_frame`. A frame for a node and a shell command go to callbacks, which stage
what they answer by calls of their own. -/
def HostLink.onFrame (h : HostLink) (addr : Byte) (cmd : BitVec 16) (room : Bool) :
    HostLink × List S2mFrame :=
  if addr ≠ 0 then (h, [])
  else if cmd = opRegisterAck then
    (if h.state = .boot then { h with state := .l1Acked } else h, [])
  else if cmd = opGetManifest then
    let (h, staged) := h.emitManifest room
    (if h.state = .boot ∨ h.state = .l1Acked then { h with state := .manifest } else h, staged)
  else if cmd = opOperationalBegin then
    ({ h with state := .operational, nextHeartbeatMs := 0 }, [])
  else if cmd = opPing then h.emitS2m room 1 opPong []
  else (h, [])

/-- `host_link_tick` -/
def HostLink.tick (h : HostLink) (now : BitVec 32) (connected room : Bool) :
    HostLink × List S2mFrame :=
  if connected = false then (h, [])
  else if h.state ≠ .operational then
    if 0 ≤ (now - h.nextRegisterMs).toInt then
      let (h, staged) := h.emitRegister room
      ({ h with nextRegisterMs := now + .ofNat 32 hlRegisterPeriodMs }, staged)
    else (h, [])
  else if 0 ≤ (now - h.nextHeartbeatMs).toInt then
    let (h, staged) := h.emitS2m room 1 opHeartbeat []
    ({ h with nextHeartbeatMs := now + .ofNat 32 hlHeartbeatPeriodMs }, staged)
  else (h, [])

inductive LinkEvent where
  /-- `host_link_init` -/
  | init (cfg : LinkCfg)
  | resetBoot
  /-- A frame is complete. -/
  | frame (addr : Byte) (cmd : BitVec 16) (room : Bool)
  /-- `host_link_s2m`, `host_link_shell_reply` -/
  | s2m (addr : Byte) (opcode : BitVec 16) (payload : List Byte) (room : Bool)
  /-- A tick `t` milliseconds after power-on. -/
  | tick (t : Nat) (connected room : Bool)
  deriving DecidableEq, Repr

/-- The link after an event, and the frames staged by it. -/
def HostLink.step (h : HostLink) : LinkEvent → HostLink × List S2mFrame
  | .init cfg => ({ cfg }, [])
  | .resetBoot => (h.resetBoot, [])
  | .frame addr cmd room => h.onFrame addr cmd room
  | .s2m addr opcode payload room => h.emitS2m room addr opcode payload
  | .tick t connected room => h.tick (.ofNat 32 t) connected room

/-! ## Announcements -/

/-- What the link announces: itself, until it is operational, and then that it is alive. -/
inductive Phase where
  | register
  | heartbeat
  deriving DecidableEq, Repr

def Phase.opcode : Phase → BitVec 16
  | .register => opRegister
  | .heartbeat => opHeartbeat

def Phase.period : Phase → Nat
  | .register => hlRegisterPeriodMs
  | .heartbeat => hlHeartbeatPeriodMs

/-- The events that make the first announcement due at once. -/
def Phase.StartedBy : Phase → LinkEvent → Prop
  | .register, .init _ | .register, .resetBoot => True
  | .heartbeat, .frame addr cmd _ => addr = 0 ∧ cmd = opOperationalBegin
  | _, _ => False

instance startedBy_decidable : (p : Phase) → (e : LinkEvent) → Decidable (p.StartedBy e)
  | .register, .init _ | .register, .resetBoot => inferInstanceAs (Decidable True)
  | .heartbeat, .frame _ _ _ => inferInstanceAs (Decidable (_ ∧ _))
  | .register, .frame _ _ _ | .register, .s2m _ _ _ _ | .register, .tick _ _ _
  | .heartbeat, .init _ | .heartbeat, .resetBoot | .heartbeat, .s2m _ _ _ _
  | .heartbeat, .tick _ _ _ => inferInstanceAs (Decidable False)

/-- An event that starts no phase. -/
def LinkEvent.Within (e : LinkEvent) : Prop :=
  ¬ Phase.register.StartedBy e ∧ ¬ Phase.heartbeat.StartedBy e

instance within_decidable (e : LinkEvent) : Decidable e.Within :=
  inferInstanceAs (Decidable (_ ∧ _))

/-- The ring takes what a tick stages. -/
def LinkEvent.HasRoom : LinkEvent → Prop
  | .tick _ _ room => room = true
  | _ => True

instance hasRoom_decidable : (e : LinkEvent) → Decidable e.HasRoom
  | .tick _ _ room => inferInstanceAs (Decidable (room = true))
  | .init _ | .resetBoot | .frame _ _ _ | .s2m _ _ _ _ => inferInstanceAs (Decidable True)

/-- The ticks of a connected link: when they come and whether they announce. -/
def HostLink.log (p : Phase) : HostLink → List LinkEvent → List (Nat × Bool)
  | _, [] => []
  | h, e :: es =>
      let (h', staged) := h.step e
      match e with
      | .tick t true _ => (t, staged.any (·.cmd == p.opcode)) :: h'.log p es
      | _ => h'.log p es

/-- Ticks come in order and at least every 500 ms. -/
def Regular : Nat → List (Nat × Bool) → Prop
  | _, [] => True
  | prev, (t, _) :: log => prev ≤ t ∧ t ≤ prev + 500 ∧ Regular t log

/-- No tick comes later than one period and one tick after the last announcement. -/
def Phase.Cadence (p : Phase) : (last prev : Nat) → List (Nat × Bool) → Prop
  | _, _, [] => True
  | last, prev, (t, announces) :: log =>
      t ≤ last + p.period + (t - prev) ∧ p.Cadence (if announces then t else last) t log

/-- The first tick announces, and announcements follow one another in time as long as the
ticks are regular. -/
def Phase.OnTime (p : Phase) : List (Nat × Bool) → Prop
  | [] => True
  | (t, announces) :: log => announces = true ∧ (Regular t log → p.Cadence t t log)

/-- The first tick of a connected link. -/
def firstTick : List LinkEvent → Option Nat
  | [] => none
  | .tick t true _ :: _ => some t
  | _ :: es => firstTick es

/-! ## What an event does to the deadline -/

/-- The link announces what the phase says. -/
def Phase.Holds : Phase → HostLink → Prop
  | .register, h => h.state ≠ .operational
  | .heartbeat, h => h.state = .operational

def Phase.deadline : Phase → HostLink → BitVec 32
  | .register, h => h.nextRegisterMs
  | .heartbeat, h => h.nextHeartbeatMs

variable {h : HostLink} {p : Phase} {e : LinkEvent} {es : List LinkEvent} {t last prev : Nat}

theorem emitS2m_deadline (h : HostLink) (room : Bool) (addr : Byte) (opcode : BitVec 16)
    (payload : List Byte) :
    (h.emitS2m room addr opcode payload).1.state = h.state ∧
      p.deadline (h.emitS2m room addr opcode payload).1 = p.deadline h := by
  cases room <;> cases p <;> exact ⟨rfl, rfl⟩

theorem Phase.Holds.congr {h' : HostLink} (hholds : p.Holds h) (hstate : h'.state = h.state) :
    p.Holds h' := by
  cases p with
  | register => exact hstate.trans_ne hholds
  | heartbeat => exact hstate.trans hholds

/-- An event that starts a phase makes its first announcement due. -/
theorem started (hstart : p.StartedBy e) (h : HostLink) :
    p.Holds (h.step e).1 ∧ p.deadline (h.step e).1 = 0 := by
  cases p with
  | register =>
      cases e with
      | init | resetBoot => exact ⟨LinkState.noConfusion, rfl⟩
      | frame | s2m | tick => exact hstart.elim
  | heartbeat =>
      cases e with
      | frame addr cmd room =>
          obtain ⟨rfl, rfl⟩ := hstart
          exact ⟨rfl, rfl⟩
      | init | resetBoot | s2m | tick => exact hstart.elim

/-- A frame other than `OP_OPERATIONAL_BEGIN` leaves the phase and its deadline. -/
theorem onFrame_keeps {addr : Byte} {cmd : BitVec 16} (hholds : p.Holds h)
    (hother : ¬ (addr = 0 ∧ cmd = opOperationalBegin)) (room : Bool) :
    p.Holds (h.onFrame addr cmd room).1 ∧
      p.deadline (h.onFrame addr cmd room).1 = p.deadline h := by
  unfold HostLink.onFrame
  split
  next => exact ⟨hholds, rfl⟩
  next haddr =>
    have haddr : addr = 0 := not_not.mp haddr
    split
    next =>
      dsimp only
      split
      next hboot =>
        cases p with
        | register => exact ⟨LinkState.noConfusion, rfl⟩
        | heartbeat => exact absurd (hboot.symm.trans hholds) LinkState.noConfusion
      next => exact ⟨hholds, rfl⟩
    split
    next =>
      -- a manifest query re-registers a link on the ladder, which is not operational
      obtain ⟨hstate, hdeadline⟩ := emitS2m_deadline (p := p) h room 1 opManifestReply
        (wrU32 h.cfg.schemaHash ++ wrU32 h.cfg.fwVersion ++ [.ofNat 8 m2sOps.length] ++
          m2sOps.flatMap wrU16)
      unfold HostLink.emitManifest
      dsimp only
      split
      next hladder =>
        cases p with
        | register => exact ⟨LinkState.noConfusion, hdeadline⟩
        | heartbeat =>
            rw [hstate, show h.state = .operational from hholds] at hladder
            rcases hladder with hladder | hladder <;> cases hladder
      next => exact ⟨hholds.congr hstate, hdeadline⟩
    split
    next hbegin => exact absurd ⟨haddr, hbegin⟩ hother
    split
    next =>
      obtain ⟨hstate, hdeadline⟩ := emitS2m_deadline (p := p) h room 1 opPong []
      exact ⟨hholds.congr hstate, hdeadline⟩
    next => exact ⟨hholds, rfl⟩

/-- The deadline has come. -/
def Phase.Due (p : Phase) (h : HostLink) (t : Nat) : Prop :=
  0 ≤ (BitVec.ofNat 32 t - p.deadline h).toInt

theorem step_tick (h : HostLink) (t : Nat) (connected room : Bool) :
    h.step (.tick t connected room) = h.tick (.ofNat 32 t) connected room := rfl

/-- A tick announces what is due and sets the next deadline. -/
theorem tick_due (hholds : p.Holds h) (hdue : p.Due h t) :
    (h.step (.tick t true true)).2.any (·.cmd == p.opcode) = true ∧
      p.Holds (h.step (.tick t true true)).1 ∧
      p.deadline (h.step (.tick t true true)).1 = .ofNat 32 (t + p.period) := by
  rw [step_tick]
  cases p with
  | register =>
      have hstate : h.state ≠ .operational := hholds
      have hdue : 0 ≤ (BitVec.ofNat 32 t - h.nextRegisterMs).toInt := hdue
      rw [HostLink.tick, if_neg (Bool.true_eq_false.mp), if_pos hstate, if_pos hdue]
      exact ⟨rfl, hstate, (BitVec.ofNat_add ..).symm⟩
  | heartbeat =>
      have hstate : ¬ h.state ≠ .operational := not_not.mpr hholds
      have hdue : 0 ≤ (BitVec.ofNat 32 t - h.nextHeartbeatMs).toInt := hdue
      rw [HostLink.tick, if_neg (Bool.true_eq_false.mp), if_neg hstate, if_pos hdue]
      exact ⟨rfl, hholds, (BitVec.ofNat_add ..).symm⟩

theorem tick_early (hholds : p.Holds h) (hearly : ¬ p.Due h t) (room : Bool) :
    h.step (.tick t true room) = (h, []) := by
  rw [step_tick]
  cases p with
  | register =>
      have hstate : h.state ≠ .operational := hholds
      have hearly : ¬ 0 ≤ (BitVec.ofNat 32 t - h.nextRegisterMs).toInt := hearly
      rw [HostLink.tick, if_neg (Bool.true_eq_false.mp), if_pos hstate, if_neg hearly]
  | heartbeat =>
      have hstate : ¬ h.state ≠ .operational := not_not.mpr hholds
      have hearly : ¬ 0 ≤ (BitVec.ofNat 32 t - h.nextHeartbeatMs).toInt := hearly
      rw [HostLink.tick, if_neg (Bool.true_eq_false.mp), if_neg hstate, if_neg hearly]

/-- An event within a phase: a tick of a connected link, or one that leaves the deadline. -/
theorem step_keeps (hholds : p.Holds h) (hother : e.Within)
    (hquiet : ∀ t room, e ≠ .tick t true room) :
    p.Holds (h.step e).1 ∧ p.deadline (h.step e).1 = p.deadline h := by
  cases e with
  | init cfg => exact absurd trivial hother.1
  | resetBoot => exact absurd trivial hother.1
  | frame addr cmd room => exact onFrame_keeps hholds hother.2 room
  | s2m addr opcode payload room =>
      obtain ⟨hstate, hdeadline⟩ := emitS2m_deadline (p := p) h room addr opcode payload
      exact ⟨hholds.congr hstate, hdeadline⟩
  | tick t connected room =>
      cases connected with
      | false => exact ⟨hholds, rfl⟩
      | true => exact absurd rfl (hquiet t room)

/-! ## Phases -/

theorem log_tick (h : HostLink) (p : Phase) (t : Nat) (room : Bool) (es : List LinkEvent) :
    h.log p (.tick t true room :: es) =
      (t, (h.step (.tick t true room)).2.any (·.cmd == p.opcode)) ::
        (h.step (.tick t true room)).1.log p es := rfl

theorem log_quiet (h : HostLink) (p : Phase) (hquiet : ∀ t room, e ≠ .tick t true room) :
    h.log p (e :: es) = (h.step e).1.log p es := by
  cases e with
  | tick t connected room =>
      cases connected with
      | false => rfl
      | true => exact absurd rfl (hquiet t room)
  | init | resetBoot | frame | s2m => rfl

theorem firstTick_quiet (hquiet : ∀ t room, e ≠ .tick t true room) :
    firstTick (e :: es) = firstTick es := by
  cases e with
  | tick t connected room =>
      cases connected with
      | false => rfl
      | true => exact absurd rfl (hquiet t room)
  | init | resetBoot | frame | s2m => rfl

/-- A tick that comes soon after the one before it finds the deadline near, and the test
is right there. -/
theorem due_near (hdeadline : p.deadline h = .ofNat 32 (last + p.period)) (hlast : last ≤ prev)
    (hsoon : prev ≤ last + p.period) (hprev : prev ≤ t) (ht : t ≤ prev + 500) :
    p.Due h t ↔ last + p.period ≤ t := by
  have hperiod : p.period ≤ 1000 := by cases p <;> decide
  unfold Phase.Due
  rw [hdeadline]
  exact WrapClock.due_iff (by omega) (by omega)

/-- A tick of a connected link, or an event that announces nothing. -/
theorem tick_or_quiet (hhas : e.HasRoom) :
    (∃ t, e = .tick t true true) ∨ ∀ t room, e ≠ .tick t true room := by
  by_cases htick : ∃ t room, e = .tick t true room
  · obtain ⟨t, room, rfl⟩ := htick
    obtain rfl : room = true := hhas
    exact Or.inl ⟨t, rfl⟩
  · exact Or.inr fun t room he => htick ⟨t, room, he⟩

/-- Behind an announcement. -/
theorem cadence_log (hholds : p.Holds h) (hdeadline : p.deadline h = .ofNat 32 (last + p.period))
    (hlast : last ≤ prev) (hsoon : prev ≤ last + p.period)
    (hes : ∀ e ∈ es, e.Within) (hroom : ∀ e ∈ es, e.HasRoom)
    (hregular : Regular prev (h.log p es)) : p.Cadence last prev (h.log p es) := by
  induction es generalizing h last prev with
  | nil => trivial
  | cons e es ih =>
      obtain ⟨hother, hlater⟩ := List.forall_mem_cons.mp hes
      obtain ⟨hhas, hrooms⟩ := List.forall_mem_cons.mp hroom
      rcases tick_or_quiet hhas with ⟨t, rfl⟩ | hquiet
      · rw [log_tick] at hregular ⊢
        obtain ⟨hprev, ht, hregular⟩ := hregular
        refine ⟨by omega, ?_⟩
        by_cases hdue : p.Due h t
        · obtain ⟨hstaged, hholds', hdeadline'⟩ := tick_due hholds hdue
          rw [if_pos hstaged]
          exact ih hholds' hdeadline' le_rfl (by omega) hlater hrooms hregular
        · have hstep : h.step (.tick t true true) = (h, []) := tick_early hholds hdue true
          have hbefore := mt (due_near hdeadline hlast hsoon hprev ht).mpr hdue
          rw [hstep] at hregular ⊢
          show p.Cadence last t (h.log p es)
          exact ih hholds hdeadline (hlast.trans hprev) (by omega) hlater hrooms hregular
      · obtain ⟨hholds', hdeadline'⟩ := step_keeps hholds hother hquiet
        rw [log_quiet h p hquiet] at hregular ⊢
        exact ih hholds' (hdeadline'.trans hdeadline) hlast hsoon hlater hrooms hregular

/-- Until the first announcement the deadline is zero. -/
theorem onTime_log (hholds : p.Holds h) (hdeadline : p.deadline h = 0)
    (hes : ∀ e ∈ es, e.Within) (hroom : ∀ e ∈ es, e.HasRoom) :
    p.OnTime (h.log p es) ↔ ∀ t ∈ firstTick es, t % 2 ^ 32 < 2 ^ 31 := by
  induction es generalizing h with
  | nil => exact iff_of_true trivial (by simp [firstTick])
  | cons e es ih =>
      obtain ⟨hother, hlater⟩ := List.forall_mem_cons.mp hes
      obtain ⟨hhas, hrooms⟩ := List.forall_mem_cons.mp hroom
      rcases tick_or_quiet hhas with ⟨t, rfl⟩ | hquiet
      · have hzero : p.Due h t ↔ t % 2 ^ 32 < 2 ^ 31 := by
          have hdue := WrapClock.due_after (w := 32) 0 t
          rw [Nat.zero_add] at hdue
          unfold Phase.Due
          rw [hdeadline]
          refine hdue.trans ?_
          omega
        have hfirst : firstTick (.tick t true true :: es) = some t := rfl
        simp only [hfirst, Option.mem_some_iff, forall_eq', ← hzero]
        rw [log_tick]
        constructor
        · rintro ⟨hstaged, -⟩
          by_contra hdue
          have hstep : h.step (.tick t true true) = (h, []) := tick_early hholds hdue true
          rw [hstep] at hstaged
          cases hstaged
        · intro hdue
          obtain ⟨hstaged, hholds', hdeadline'⟩ := tick_due hholds hdue
          exact ⟨hstaged, cadence_log hholds' hdeadline' le_rfl (by omega) hlater hrooms⟩
      · obtain ⟨hholds', hdeadline'⟩ := step_keeps hholds hother hquiet
        rw [log_quiet h p hquiet, firstTick_quiet hquiet]
        exact ih hholds' (hdeadline'.trans hdeadline) hlater hrooms

/-- Whatever the link was doing, once an announcement is to be made at once the first tick
makes it and the others follow in time if and only if the clock stands in the first half of
its circle at that tick. -/
theorem announcements_on_time (h : HostLink) (p : Phase) (start : LinkEvent)
    (hstart : p.StartedBy start) (es : List LinkEvent)
    (hes : ∀ e ∈ es, e.Within) (hroom : ∀ e ∈ es, e.HasRoom) :
    p.OnTime ((h.step start).1.log p es) ↔ ∀ t ∈ firstTick es, t % 2 ^ 32 < 2 ^ 31 :=
  onTime_log (started hstart h).1 (started hstart h).2 hes hroom

/-- A bus controller as it leaves the bench. -/
def controllerCfg : LinkCfg where
  classId := 0x5E589000
  instanceId := 42
  commissioningState := 1
  chipUid := .ofFn fun i => .ofNat 8 (0xA0 + i.val)
  vid := 0x2E8A
  pid := 0x000A
  fwVersion := 0x100
  buildDate := 20260607
  schemaHash := 0x51B00001

/-- A link that is reset shortly before the clock passes the middle of its circle. -/
theorem announcements_on_time_middle :
    Phase.register.OnTime ((HostLink.step { cfg := controllerCfg } .resetBoot).1.log .register
      [.tick (2 ^ 31 - 100) true true, .frame 0 opRegisterAck true, .tick (2 ^ 31 + 300) true true,
        .tick (2 ^ 31 + 700) true true]) :=
  (announcements_on_time _ .register .resetBoot trivial _ (by decide) (by decide)).mpr
    (by decide)

/-- 24.9 days after power-on no `OP_REGISTER` is staged. -/
theorem not_announcements_on_time :
    ¬ ∀ t, Phase.register.OnTime
      ((HostLink.step { cfg := controllerCfg } .resetBoot).1.log .register
        [.tick t true true]) := by
  intro hall
  have hfirst := (hall (2 ^ 31)).1
  revert hfirst
  decide

end SlowBus.Host
