import SlowBus.Lib.Runs
import SlowBus.Modes.Enter
import SlowBus.Modes.Steps

/-!
# The e-stop of the servo bank

The main loop polls the e-stop line one statement at a time; interrupts, the frame timer
and register writes come between any two of them. Only a start command that reads the
line high lets a stopped bank pulse again, and nothing but the frame boundary of a
running bank raises a servo pad.
-/

namespace SlowBus.Modes

open Bus (Byte)
open Runs (run Along)

/-! ## The poll, statement by statement -/

/-- Where the main loop is in `servo_tick`. -/
inductive TickPc where
  | idle | line | latch | test | clear
  /-- In `servo_all_low`, at a channel. -/
  | lower (ch : Fin 8)
  deriving DecidableEq, Repr

structure EStop where
  chip : Chip
  pc : TickPc := .idle

inductive EStopEvent where
  /-- The next statement of `servo_tick`. -/
  | tick
  | chip (e : ChipEvent)

def EStop.tick (m : EStop) : EStop :=
  match m.pc with
  | .idle => { m with pc := if m.chip.mode = .servo then .line else .idle }
  | .line => { m with pc := if servoEstopActive m.chip.world.levels then .latch else .idle }
  | .latch =>
      { m with chip := { m.chip with servo := { m.chip.servo with latched := true } }, pc := .test }
  | .test => { m with pc := if m.chip.servo.run then .clear else .idle }
  | .clear =>
      { m with
        chip := { m.chip with servo := { m.chip.servo with run := false } }
        pc := .lower 0 }
  | .lower ch =>
      { m with
        chip := m.chip.write ((bankPad ch).on [.outClr])
        pc := if h : ch.val + 1 < 8 then .lower ⟨ch.val + 1, h⟩ else .idle }

def EStop.next (m : EStop) : EStopEvent → EStop
  | .tick => m.tick
  | .chip e => { m with chip := m.chip.next e }

/-- After power-on, before the commissioned mode is entered. -/
def EStop.boot (cfg : Config.Client) : EStop := { chip := .powerOn cfg }

/-- A start command that reads the line high. -/
def Chip.Starts (c : Chip) (e : ChipEvent) : Prop :=
  c.world.levels intPad = true ∧ ∃ val, val ≠ 0 ∧ e = .regWrite 0x1A val

/-- The mode is not left, and no start command reads the line high. -/
def EStop.Held (m : EStop) (e : EStopEvent) : Prop :=
  (m.next e).chip.mode = .servo ∧ ∀ ce, e = .chip ce → ¬ m.chip.Starts ce

/-- Every declared pad drives a low level. -/
def Chip.AllLow (c : Chip) : Prop :=
  ∀ ch, c.servo.isDeclared ch = true → (c.port (bankPad ch)).Low

/-! ## Steps within the mode -/

/-- What a step leaves of the bank. Pads rise at the boundary of a running frame only. -/
structure ServoStep (e : ChipEvent) (c c' : Chip) : Prop where
  declared : c'.servo.declared = c.servo.declared
  closed : ∀ idx, c.bench.Closed idx → c'.bench.Closed idx
  pad : ∀ ch, c.servo.isDeclared ch = true →
    (c'.port (bankPad ch)).dir = (c.port (bankPad ch)).dir ∧
      (c'.port (bankPad ch)).pmuxen = (c.port (bankPad ch)).pmuxen
  raised : ∀ ch, c.servo.isDeclared ch = true → (c'.port (bankPad ch)).out = true →
    (c.port (bankPad ch)).out = true ∨ e = .mc0 ∧ c.servo.run = true
  run : c'.servo.run = c.servo.run ∨ c'.servo.run = true ∧ c.Starts e ∨
    c'.servo.run = false ∧ ∀ ch, (c'.port (bankPad ch)).out = false

section Steps

variable {c c' : Chip} {e : ChipEvent} {ch : Fin 8}

/-- A step that leaves the bank alone. -/
theorem ServoStep.of_eq (hdeclared : c'.servo.declared = c.servo.declared)
    (hrun : c'.servo.run = c.servo.run) (hbench : c'.bench = c.bench)
    (hport : c'.port = c.port) : ServoStep e c c' :=
  ⟨hdeclared, fun _ h => hbench ▸ h, fun _ _ => by rw [hport]; exact ⟨rfl, rfl⟩,
    fun _ _ h => Or.inl (hport ▸ h), Or.inl hrun⟩

theorem exec_servoAllLow (port : Port) (ch : Fin 8) :
    port.exec servoAllLow (bankPad ch) = { port (bankPad ch) with out := false } :=
  exec_each bankPad_injective _ (List.nodup_finRange 8) (List.mem_finRange ch)

/-- The stop: the run flag is cleared and the pads are lowered. -/
theorem ServoStep.stop {servo : Servo} (hdeclared : servo.declared = c.servo.declared)
    (hrun : servo.run = false) : ServoStep e c ({ c with servo }.write servoAllLow) := by
  have hport : ∀ ch, c.port.exec servoAllLow (bankPad ch) =
      { c.port (bankPad ch) with out := false } := exec_servoAllLow c.port
  refine ⟨hdeclared, fun _ h => h, fun ch _ => ?_, fun ch _ h => ?_,
    Or.inr (Or.inr ⟨hrun, fun ch => ?_⟩)⟩
  · rw [write_port, hport ch]
    exact ⟨rfl, rfl⟩
  · rw [write_port, hport ch] at h
    cases h
  · rw [write_port, hport ch]

/-- A frame interrupt that lowers pads. -/
theorem ServoStep.mc1 (c : Chip) : ServoStep .mc1 c c.mc1 := by
  unfold Chip.mc1
  split
  next =>
    refine ⟨rfl, fun _ h => h, fun ch _ => ⟨outClr_dir, outClr_pmuxen⟩, fun ch _ h => Or.inl ?_,
      Or.inl rfl⟩
    exact (Bool.and_eq_true_iff.mp (outClr_out.symm.trans h)).1
  next => exact .of_eq rfl rfl rfl rfl

/-- The frame boundary. -/
theorem ServoStep.mc0 (c : Chip) : ServoStep .mc0 c c.mc0 := by
  unfold Chip.mc0
  split
  next =>
    show ServoStep .mc0 c { c with
      servo := (c.servo.mc0 c.port).1, port := (c.servo.mc0 c.port).2 }
    unfold Servo.mc0
    by_cases hrun : c.servo.run = true
    · rw [if_pos hrun]
      exact ⟨rfl, fun _ h => h, fun ch _ => ⟨outSet_dir, outSet_pmuxen⟩,
        fun ch _ _ => Or.inr ⟨rfl, hrun⟩, Or.inl rfl⟩
    · rw [if_neg hrun]
      exact .of_eq rfl rfl rfl rfl
  next => exact .of_eq rfl rfl rfl rfl

/-- A start or stop command. -/
theorem ServoStep.setRun (c : Chip) (val : Byte) :
    let r := c.servo.setRun c.world.levels (val != 0)
    ServoStep (.regWrite 0x1A val) c ({ c with servo := r.1 }.write r.2) := by
  unfold Servo.setRun
  split
  next hval =>
    split
    next => exact .of_eq rfl rfl rfl rfl
    next hhigh =>
      have hlevel : c.world.levels intPad = true := by simpa [servoEstopActive] using hhigh
      exact ⟨rfl, fun _ h => h, fun _ _ => ⟨rfl, rfl⟩, fun _ _ h => Or.inl h,
        Or.inr (Or.inl ⟨rfl, hlevel, val, by simpa using hval, rfl⟩)⟩
  next => exact .stop rfl rfl

/-- The pads of the bank are closed to the bench tools. -/
def Chip.BankClosed (c : Chip) : Prop :=
  ∀ ch, c.servo.isDeclared ch = true → c.bench.Closed (benchOf ch.castSucc)

/-- Writes that leave the declared pads alone. -/
theorem ServoStep.spares {bench : Bench} {dac : Dac} {ops : List PortOp}
    (hclosed : ∀ idx, c.bench.Closed idx → bench.Closed idx)
    (hport : ∀ ch, c.servo.isDeclared ch = true →
      c.port.exec ops (bankPad ch) = c.port (bankPad ch)) :
    ServoStep e c ({ c with bench, dac }.write ops) := by
  refine ⟨rfl, hclosed, fun ch hch => ?_, fun ch hch h => Or.inl ?_, Or.inl rfl⟩
  · rw [write_port, hport ch hch]
    exact ⟨rfl, rfl⟩
  · rwa [write_port, hport ch hch] at h

theorem bankPad_bench (ch : Fin 8) : bankPad ch = benchPad (benchOf ch.castSucc) :=
  (benchPad_benchOf ch.castSucc).symm

/-- A bench command: the declared pads have no role it could act on. -/
theorem ServoStep.bench (c : Chip) (reg val : Byte) (hclosed : c.BankClosed) :
    let r := c.bench.regWrite c.dac false reg val
    ServoStep (.regWrite reg val) c ({ c with bench := r.1, dac := r.2.1 }.write r.2.2) := by
  refine .spares (fun idx h => h.regWrite c.dac false reg val) fun ch hch => ?_
  rw [bankPad_bench]
  exact exec_of_ne ((bench_regWrite_spares c.bench c.dac false reg val).2 _ (hclosed ch hch).role)

/-- A conversion: the declared pads cannot be selected. -/
theorem ServoStep.benchTick (c : Chip) (hclosed : c.BankClosed) :
    ServoStep .benchTick c c.benchTick := by
  refine .spares (fun idx h => h.tick c.world.oneshot) fun ch hch => ?_
  rw [bankPad_bench]
  exact (hclosed ch hch).exec_tick c.world.oneshot c.port

/-- A write to the servo bank of registers, with its pads closed to the bench tools. -/
theorem ServoStep.regWrite (c : Chip) (reg val : Byte) (hclosed : c.BankClosed) :
    let r := c.servo.regWrite c.bench c.dac c.world.levels reg val
    ServoStep (.regWrite reg val) c
      ({ c with servo := r.1, bench := r.2.1, dac := r.2.2.1 }.write r.2.2.2) := by
  unfold Servo.regWrite
  split
  next =>
    split <;> exact .of_eq rfl rfl rfl rfl
  next =>
    split
    next => exact .of_eq rfl rfl rfl rfl
    next =>
      split
      next => exact .of_eq rfl rfl rfl rfl
      next =>
        split
        next => exact .of_eq rfl rfl rfl rfl
        next =>
          split
          next => exact .of_eq rfl rfl rfl rfl
          next =>
            split
            next hreg =>
              subst hreg
              exact .setRun c val
            next => exact .bench c reg val hclosed

/-- An event that does not leave the mode. -/
theorem servoStep_next (hmode : c.mode = .servo) (hmode' : (c.next e).mode = .servo)
    (htrip : c.pio.ilTripped = false) (hclosed : c.BankClosed) : ServoStep e c (c.next e) := by
  cases e with
  | world | service => exact .of_eq rfl rfl rfl rfl
  | pioTick =>
      rw [Chip.next, pioTick_of_ne (by simp [hmode])]
      exact .of_eq rfl rfl rfl rfl
  | adcTick =>
      rw [Chip.next, adcTick_of_ne (by simp [hmode])]
      exact .of_eq rfl rfl rfl rfl
  | mixedTick =>
      rw [Chip.next, mixedTick_of_ne (by simp [hmode])]
      exact .of_eq rfl rfl rfl rfl
  | benchTick => exact .benchTick c hclosed
  -- the loop itself does nothing but stop the bank
  | servoTick =>
      show ServoStep _ c c.servoTick
      unfold Chip.servoTick
      split_ifs
      · exact .stop rfl rfl
      · exact .of_eq rfl rfl rfl rfl
      · exact .of_eq rfl rfl rfl rfl
  | mc0 => exact .mc0 c
  | mc1 => exact .mc1 c
  | goOffline => cases hmode'
  | regWrite reg val =>
      have hstep := regStep_cases c reg val
      change (c.regWrite reg val).mode = .servo at hmode'
      change ServoStep _ c (c.regWrite reg val)
      generalize c.regWrite reg val = c' at hstep hmode' ⊢
      cases hstep with
      | bank =>
          rw [bankWrite_servo hmode]
          exact .regWrite c reg val hclosed
      | keep => exact .of_eq rfl rfl rfl rfl
      | switch m _ _ hne =>
          rw [modeEnter_mode] at hmode'
          exact absurd (hmode'.trans hmode.symm) hne
      | ack =>
          rw [ackFlags_idle val (by simp [hmode]) (by simp [hmode]) htrip]
          exact .of_eq rfl rfl rfl rfl
      | client => exact .of_eq rfl rfl rfl rfl

/-! ## Entering the mode -/

theorem enterServo_declared (c : Chip) (h : c.enterServo.servo.isDeclared ch = true) :
    c.enterServo.bench.Closed (benchOf ch.castSucc) ∧
      (c.enterServo.port (bankPad ch)).Low := by
  obtain ⟨hdeclared, hreserved, hrole⟩ := applyCfg_spec c.servo c.bench (c.file srvoName) ch
  have hservo : srvoRole (c.file srvoName) ch = some srvoRoleServo := hdeclared.mp h
  have hpad : c.enterServo.port (bankPad ch) =
      (c.port (bankPad ch)).exec (srvoPadOps (c.file srvoName) ch) :=
    exec_enter c.servo c.bench (c.file srvoName) c.port ch
  constructor
  · refine ⟨hrole.trans ?_, hreserved.mpr hservo, ?_⟩
    · rw [srvoBenchRole, hservo]
      rfl
    · have hsel : c.enterServo.bench.sel = 0xFF :=
        (servo_enter_bench c.servo c.bench (c.file srvoName)).sel
      rw [Bench.selected, dif_neg (by rw [hsel]; decide)]
      exact (Option.some_ne_none _).symm
  · rw [hpad, srvoPadOps, if_pos hservo]
    exact ⟨rfl, rfl, rfl⟩

theorem enters_servo (hmode : c.mode ≠ .servo) (hmode' : (c.next e).mode = .servo) :
    ∃ c₀ : Chip, c.next e = c₀.enterServo := by
  generalize hnext : c.next e = c' at hmode'
  have hstep : ModeStep c c' := hnext ▸ next_modeStep c e
  cases hstep with
  | same h => exact absurd (h.symm.trans hmode') hmode
  | offline => cases hmode'
  | switch m hne =>
      rw [modeEnter_mode] at hmode'
      obtain rfl : m = .servo := hmode'
      exact ⟨_, rfl⟩

end Steps

/-! ## What holds of the bank while the mode lasts -/

/-- A pad that the pass still has to lower. -/
def TickPc.Ahead (pc : TickPc) (ch : Fin 8) : Prop := ∃ k, pc = .lower k ∧ k ≤ ch

/-- What holds of a declared pad. -/
structure EStop.Owned (m : EStop) (ch : Fin 8) : Prop where
  closed : m.chip.bench.Closed (benchOf ch.castSucc)
  dir : (m.chip.port (bankPad ch)).dir = true
  pmuxen : (m.chip.port (bankPad ch)).pmuxen = false
  stopped : m.chip.servo.run = false →
    (m.chip.port (bankPad ch)).out = false ∨ m.pc.Ahead ch

structure EStop.Inv (m : EStop) : Prop where
  trip : m.chip.TripInPio
  owned : m.chip.mode = .servo → ∀ ch, m.chip.servo.isDeclared ch = true → m.Owned ch

/-- What a statement of the poll leaves: it raises no pad and starts no pulse. -/
structure TickStep (m m' : EStop) : Prop where
  mode : m'.chip.mode = m.chip.mode
  pio : m'.chip.pio = m.chip.pio
  declared : m'.chip.servo.declared = m.chip.servo.declared
  bench : m'.chip.bench = m.chip.bench
  pad : ∀ q, (m'.chip.port q).dir = (m.chip.port q).dir ∧
    (m'.chip.port q).pmuxen = (m.chip.port q).pmuxen
  falls : ∀ q, (m'.chip.port q).out = true → (m.chip.port q).out = true
  run : m'.chip.servo.run = m.chip.servo.run ∨ m'.chip.servo.run = false ∧ m'.pc = .lower 0
  ahead : ∀ ch, m.pc.Ahead ch → m'.pc.Ahead ch ∨ (m'.chip.port (bankPad ch)).out = false

section Invariant

variable {m m' : EStop} {e : EStopEvent}

/-- A statement that leaves the pads and the run flag alone. -/
theorem TickStep.of_eq {servo : Servo} {pc : TickPc}
    (hdeclared : servo.declared = m.chip.servo.declared)
    (hrun : servo.run = m.chip.servo.run) (hpc : ∀ k, m.pc ≠ .lower k) :
    TickStep m { chip := { m.chip with servo }, pc } :=
  ⟨rfl, rfl, hdeclared, rfl, fun _ => ⟨rfl, rfl⟩, fun _ h => h, Or.inl hrun,
    fun _ ⟨k, hk, _⟩ => absurd hk (hpc k)⟩

theorem lower_pad (port : Port) (k : Fin 8) (q : Pin) :
    port.exec ((bankPad k).on [.outClr]) q =
      if bankPad k = q then { port q with out := false } else port q := by
  split
  next hk =>
    subst hk
    exact exec_on
  next hk => exact exec_on_of_ne hk

theorem tickStep_lower (k : Fin 8) (hpc : m.pc = .lower k) : TickStep m m.tick := by
  have hport : ∀ q, m.tick.chip.port q =
      if bankPad k = q then { m.chip.port q with out := false } else m.chip.port q := by
    intro q
    rw [EStop.tick, hpc]
    exact lower_pad m.chip.port k q
  have hpc' : m.tick.pc = if h : k.val + 1 < 8 then .lower ⟨k.val + 1, h⟩ else .idle := by
    rw [EStop.tick, hpc]
  have hchip : m.tick.chip = m.chip.write ((bankPad k).on [.outClr]) := by
    rw [EStop.tick, hpc]
  refine ⟨by rw [hchip]; rfl, by rw [hchip]; rfl, by rw [hchip]; rfl, by rw [hchip]; rfl, ?_, ?_,
    Or.inl (by rw [hchip]; rfl), ?_⟩
  · intro q
    rw [hport]
    split <;> exact ⟨rfl, rfl⟩
  · intro q h
    rw [hport] at h
    split at h
    next => cases h
    next => exact h
  · rintro ch ⟨k', hk', hle⟩
    obtain rfl : k = k' := TickPc.lower.inj (hpc.symm.trans hk')
    by_cases hch : k = ch
    · subst hch
      exact Or.inr (by rw [hport, if_pos rfl])
    · have hlt : k.val < ch.val := lt_of_le_of_ne hle fun h => hch (Fin.ext h)
      have hnext : k.val + 1 < 8 := by omega
      refine Or.inl ⟨⟨k.val + 1, hnext⟩, hpc'.trans (dif_pos hnext), ?_⟩
      exact hlt

theorem tickStep (m : EStop) : TickStep m m.tick := by
  cases hpc : m.pc with
  | lower k => exact tickStep_lower k hpc
  | clear =>
      rw [EStop.tick, hpc]
      exact ⟨rfl, rfl, rfl, rfl, fun _ => ⟨rfl, rfl⟩, fun _ h => h, Or.inr ⟨rfl, rfl⟩,
        fun _ ⟨k, hk, _⟩ => by cases hpc.symm.trans hk⟩
  | idle | line | latch | test =>
      rw [EStop.tick, hpc]
      exact .of_eq rfl rfl fun k hk => by cases hpc.symm.trans hk

theorem EStop.Inv.tick (h : m.Inv) : m.tick.Inv := by
  have hstep := tickStep m
  refine ⟨fun htrip => hstep.mode.trans (h.trip (hstep.pio ▸ htrip)), fun hmode ch hch => ?_⟩
  have hown := h.owned (hstep.mode.symm.trans hmode) ch (by
    rwa [Servo.isDeclared, hstep.declared] at hch)
  obtain ⟨hdir, hpmuxen⟩ := hstep.pad (bankPad ch)
  refine ⟨hstep.bench ▸ hown.closed, hdir.trans hown.dir, hpmuxen.trans hown.pmuxen, fun hrun => ?_⟩
  rcases hstep.run with hsame | ⟨_, hpc⟩
  · rcases hown.stopped (hsame.symm.trans hrun) with hout | hahead
    · exact Or.inl (Bool.eq_false_of_not_eq_true fun hup => by simp [hstep.falls _ hup] at hout)
    · exact (hstep.ahead ch hahead).symm
  · exact Or.inr ⟨0, hpc, Fin.zero_le ch⟩

/-- Entering leaves the bank stopped, wherever the main loop stands. -/
theorem owned_of_enterServo (c : Chip) (pc : TickPc) (ch : Fin 8)
    (h : c.enterServo.servo.isDeclared ch = true) : EStop.Owned ⟨c.enterServo, pc⟩ ch := by
  obtain ⟨hclosed, hdir, hout, hpmuxen⟩ := enterServo_declared c h
  exact ⟨hclosed, hdir, hpmuxen, fun _ => Or.inl hout⟩

/-- In the mode every event but a departure is a step of the bank. -/
theorem EStop.Inv.servoStep (h : m.Inv) {ce : ChipEvent} (hmode : m.chip.mode = .servo)
    (hmode' : (m.chip.next ce).mode = .servo) : ServoStep ce m.chip (m.chip.next ce) := by
  refine servoStep_next hmode hmode' ?_ fun ch hch => (h.owned hmode ch hch).closed
  exact Bool.eq_false_of_not_eq_true fun htrip => by simp [h.trip htrip] at hmode

theorem EStop.Inv.next (h : m.Inv) (e : EStopEvent) : (m.next e).Inv := by
  cases e with
  | tick => exact h.tick
  | chip ce =>
      refine ⟨h.trip.next ce, fun hmode' ch hch => ?_⟩
      change (m.chip.next ce).mode = .servo at hmode'
      change (m.chip.next ce).servo.isDeclared ch = true at hch
      by_cases hmode : m.chip.mode = .servo
      · have hstep := h.servoStep hmode hmode'
        have hdecl : m.chip.servo.isDeclared ch = true := by
          rwa [Servo.isDeclared, hstep.declared] at hch
        have hown := h.owned hmode ch hdecl
        obtain ⟨hdir, hpmuxen⟩ := hstep.pad ch hdecl
        refine ⟨?_, hdir.trans hown.dir, hpmuxen.trans hown.pmuxen, fun hrun => ?_⟩
        · exact hstep.closed _ hown.closed
        change (m.chip.next ce).servo.run = false at hrun
        rcases hstep.run with hsame | ⟨hstart, _⟩ | ⟨_, hlow⟩
        · have hrun₀ : m.chip.servo.run = false := hsame.symm.trans hrun
          refine (hown.stopped hrun₀).imp (fun hout => ?_) id
          refine Bool.eq_false_of_not_eq_true fun hup => ?_
          rcases hstep.raised ch hdecl hup with h₁ | ⟨_, h₂⟩
          · simp [h₁] at hout
          · simp [hrun₀] at h₂
        · simp [hstart] at hrun
        · exact Or.inl (hlow ch)
      · obtain ⟨c₀, hc₀⟩ := enters_servo hmode hmode'
        show EStop.Owned ⟨m.chip.next ce, m.pc⟩ ch
        rw [hc₀] at hch ⊢
        exact owned_of_enterServo c₀ m.pc ch hch

theorem estop_inv (cfg : Config.Client) (es : List EStopEvent) :
    (run EStop.next (.boot cfg) es).Inv := by
  refine Runs.run_invariant (fun m e h => h.next e) ⟨?_, ?_⟩
  · intro htrip
    cases htrip
  · intro hmode
    cases hmode

/-! ## The stop -/

/-- A pass that read the line low is on its way, or has stopped the bank. -/
def EStop.Stopping (m : EStop) : Prop :=
  m.chip.servo.run = false ∨ m.pc = .latch ∨ m.pc = .test ∨ m.pc = .clear

/-- The bank is stopped and drives nothing high. -/
def EStop.Stopped (m : EStop) : Prop := m.chip.servo.run = false ∧ m.chip.AllLow

theorem stopping_tick (h : m.Stopping) : m.tick.Stopping := by
  rcases h with hrun | hpc | hpc | hpc
  · left
    rcases (tickStep m).run with hsame | ⟨hfalse, _⟩
    · exact hsame.trans hrun
    · exact hfalse
  · rw [EStop.tick, hpc]
    exact Or.inr (Or.inr (Or.inl rfl))
  · rw [EStop.tick, hpc]
    cases hrun : m.chip.servo.run with
    | false => exact Or.inl hrun
    | true => exact Or.inr (Or.inr (Or.inr rfl))
  · rw [EStop.tick, hpc]
    exact Or.inl rfl

/-- A held event starts no pulse. -/
theorem held_run (hinv : m.Inv) {ce : ChipEvent} (hheld : m.Held (.chip ce))
    (hmode : m.chip.mode = .servo) (hrun : m.chip.servo.run = false) :
    (m.chip.next ce).servo.run = false := by
  rcases (hinv.servoStep hmode hheld.1).run with hsame | ⟨_, hstarts⟩ | ⟨hfalse, _⟩
  · exact hsame.trans hrun
  · exact absurd hstarts (hheld.2 ce rfl)
  · exact hfalse

theorem stopping_next (hinv : m.Inv) (hmode : m.chip.mode = .servo) (hheld : m.Held e)
    (h : m.Stopping) : (m.next e).Stopping := by
  cases e with
  | tick => exact stopping_tick h
  | chip ce => exact h.imp (held_run hinv hheld hmode) id

theorem stopped_next (hinv : m.Inv) (hmode : m.chip.mode = .servo) (hheld : m.Held e)
    (h : m.Stopped) : (m.next e).Stopped := by
  obtain ⟨hrun, hlow⟩ := h
  cases e with
  | tick =>
      have hstep := tickStep m
      refine ⟨hstep.run.elim (fun hsame => hsame.trans hrun) And.left, fun ch hch => ?_⟩
      have hdecl : m.chip.servo.isDeclared ch = true := by
        rwa [Servo.isDeclared, ← hstep.declared]
      obtain ⟨hdir, hout, hpmuxen⟩ := hlow ch hdecl
      obtain ⟨hdir', hpmuxen'⟩ := hstep.pad (bankPad ch)
      refine ⟨hdir'.trans hdir, ?_, hpmuxen'.trans hpmuxen⟩
      exact Bool.eq_false_of_not_eq_true fun hup => by simp [hstep.falls _ hup] at hout
  | chip ce =>
      have hstep := hinv.servoStep hmode hheld.1
      refine ⟨held_run hinv hheld hmode hrun, fun ch hch => ?_⟩
      have hdecl : m.chip.servo.isDeclared ch = true := by
        rwa [Servo.isDeclared, ← hstep.declared]
      obtain ⟨hdir, hout, hpmuxen⟩ := hlow ch hdecl
      obtain ⟨hdir', hpmuxen'⟩ := hstep.pad ch hdecl
      refine ⟨hdir'.trans hdir, ?_, hpmuxen'.trans hpmuxen⟩
      refine Bool.eq_false_of_not_eq_true fun hup => ?_
      rcases hstep.raised ch hdecl hup with h₁ | ⟨_, h₂⟩
      · simp [h₁] at hout
      · simp [hrun] at h₂

theorem stopping_done (hinv : m.Inv) (hmode : m.chip.mode = .servo) (h : m.Stopping)
    (hpc : m.pc = .idle) : m.Stopped := by
  have hrun : m.chip.servo.run = false := by simpa [EStop.Stopping, hpc] using h
  refine ⟨hrun, fun ch hch => ?_⟩
  have hown := hinv.owned hmode ch hch
  refine ⟨hown.dir, (hown.stopped hrun).resolve_right ?_, hown.pmuxen⟩
  rintro ⟨k, hk, _⟩
  cases hpc.symm.trans hk

/-- What held events preserve within the mode, along a run of them. -/
theorem held_along {P : EStop → Prop} (hstep : ∀ m e, EStop.Inv m → m.chip.mode = .servo →
      m.Held e → P m → P (m.next e)) {es : List EStopEvent}
    (halong : Along EStop.next EStop.Held m es) (hinv : m.Inv) (hmode : m.chip.mode = .servo)
    (hstart : P m) : (run EStop.next m es).Inv ∧ (run EStop.next m es).chip.mode = .servo ∧
      P (run EStop.next m es) :=
  Runs.run_along (P := fun m => EStop.Inv m ∧ m.chip.mode = .servo ∧ P m)
    (fun m e ⟨hinv, hmode, h⟩ hheld => ⟨hinv.next e, hheld.1, hstep m e hinv hmode hheld h⟩)
    halong ⟨hinv, hmode, hstart⟩

end Invariant

/-- A pass that reads the line low stops the bank for good, an entry leaves it stopped, and
no register of the mode raises a pad. -/
theorem servo_stays_low (cfg : Config.Client) (es : List EStopEvent) :
    let m := run EStop.next (.boot cfg) es
    (m.pc = .line → m.chip.mode = .servo → servoEstopActive m.chip.world.levels = true →
      ∀ pass rest, Along EStop.next EStop.Held (m.next .tick) (pass ++ rest) →
        (run EStop.next (m.next .tick) pass).pc = .idle →
        (run EStop.next (m.next .tick) (pass ++ rest)).chip.AllLow) ∧
    (∀ e, m.chip.mode ≠ .servo → (m.chip.next e).mode = .servo →
      ∀ rest, Along EStop.next EStop.Held (m.next (.chip e)) rest →
        (run EStop.next (m.next (.chip e)) rest).chip.AllLow) ∧
    ∀ reg val, m.chip.mode = .servo → 0x10 ≤ reg ∧ reg ≤ 0x3F →
      ∀ ch, m.chip.servo.isDeclared ch = true → (m.chip.port (bankPad ch)).Low →
        ((m.chip.regWrite reg val).port (bankPad ch)).Low := by
  intro m
  have hinv : m.Inv := estop_inv cfg es
  refine ⟨fun hpc hmode hline pass rest halong hdone => ?_, fun e hmode hmode' rest halong => ?_,
    fun reg val hmode hreg ch hch hlow => ?_⟩
  -- the line reads low: from here the pass stops the bank
  · have htick : (m.next .tick).Stopping ∧ (m.next .tick).chip.mode = .servo := by
      show m.tick.Stopping ∧ m.tick.chip.mode = .servo
      rw [EStop.tick, hpc]
      simp [hline, EStop.Stopping, hmode]
    obtain ⟨hpass, hrest⟩ := Runs.along_append.mp halong
    obtain ⟨hinv₁, hmode₁, hstopping⟩ :=
      held_along (fun m e => stopping_next) hpass (hinv.next .tick) htick.2 htick.1
    have hstopped := stopping_done hinv₁ hmode₁ hstopping hdone
    rw [Runs.run_append]
    exact (held_along (fun m e => stopped_next) hrest hinv₁ hmode₁ hstopped).2.2.2
  · have hstopped : (m.next (.chip e)).Stopped := by
      obtain ⟨c₀, hc₀⟩ := enters_servo hmode hmode'
      show EStop.Stopped ⟨m.chip.next e, m.pc⟩
      rw [hc₀]
      exact ⟨rfl, fun ch hch => (enterServo_declared c₀ hch).2⟩
    exact (held_along (fun m e => stopped_next) halong (hinv.next _) hmode' hstopped).2.2.2
  · have hmode' : (m.chip.next (.regWrite reg val)).mode = .servo := by
      show (m.chip.regWrite reg val).mode = .servo
      rw [Chip.regWrite, if_pos hreg, bankWrite_mode, hmode]
    have hstep := hinv.servoStep hmode hmode'
    obtain ⟨hdir, hout, hpmuxen⟩ := hlow
    obtain ⟨hdir', hpmuxen'⟩ := hstep.pad ch hch
    refine ⟨hdir'.trans hdir, ?_, hpmuxen'.trans hpmuxen⟩
    refine Bool.eq_false_of_not_eq_true fun hup => ?_
    -- only the start of a frame raises a pad
    rcases hstep.raised ch hch hup with h | ⟨h, _⟩
    · simp [h] at hout
    · cases h

/-- The line is released, the first channel starts to pulse, and the line is pulled low. -/
def pulsesThenLow : List EStopEvent :=
  [.chip (.world { levels := fun _ => true }), .chip (.regWrite regMode 4),
    .chip (.regWrite 0x13 1), .chip (.regWrite 0x1A 1), .chip .mc0,
    .chip (.world { levels := fun _ => false }), .tick]

/-- The passes of the main loop in the mode are held events. -/
theorem along_ticks (n : Nat) {m : EStop} (hmode : m.chip.mode = .servo) :
    Along EStop.next EStop.Held m (List.replicate n .tick) := by
  induction n generalizing m with
  | zero => trivial
  | succ n ih =>
      have hmode' : (m.next .tick).chip.mode = .servo := (tickStep m).mode.trans hmode
      exact ⟨⟨hmode', fun ce h => by cases h⟩, ih hmode'⟩

theorem servo_stays_low_pulsing :
    let m := run EStop.next (.boot (holding [(srvoName, [1, 5])])) pulsesThenLow
    (m.chip.port (bankPad 0)).out = true ∧
      (run EStop.next (m.next .tick) (List.replicate 11 .tick)).chip.AllLow := by
  have hstays := servo_stays_low (holding [(srvoName, [1, 5])]) pulsesThenLow
  dsimp only at hstays ⊢
  generalize hm : run EStop.next (.boot (holding [(srvoName, [1, 5])])) pulsesThenLow = m
    at hstays ⊢
  have hmode : m.chip.mode = .servo := by subst hm; decide +kernel
  have hlow := hstays.1 (by subst hm; decide +kernel) hmode (by subst hm; decide +kernel)
    (List.replicate 11 .tick) []
  rw [List.append_nil] at hlow
  have hticks := along_ticks 11 ((tickStep m).mode.trans hmode)
  exact ⟨by subst hm; decide +kernel, hlow hticks (by subst hm; decide +kernel)⟩

end SlowBus.Modes
