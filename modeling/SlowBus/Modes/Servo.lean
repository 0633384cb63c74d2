import SlowBus.Lib.BitSet
import SlowBus.Modes.Bench

/-!
# The servo bank

A frame of TC4 raises the pads of all enabled channels together and drops each at its
width. `servo_build` sorts the widths into drop events and installs them for the
interrupt handler. D6 is the e-stop line: a low level stops the bank, and only a start
command that reads it high lets the pulses resume.
-/

namespace SlowBus.Modes

open Bus (Byte)

def servoFrameTicks : Nat := 15000
def servoUsMin : BitVec 16 := 500
def servoUsMax : BitVec 16 := 2500
def servoUsDefault : BitVec 16 := 1500
def servoEnableMask : BitVec 16 := 0x00FF
def srvoVersion : Byte := 1
def srvoRoleServo : Byte := 5

def clampUs (us : BitVec 16) : BitVec 16 :=
  let us := if us < servoUsMin then servoUsMin else us
  if servoUsMax < us then servoUsMax else us

/-- `SERVO_US_TO_TICKS` -/
def usToTicks (us : BitVec 16) : Nat := us.toNat * 3 / 4

/-- A drop event: the pads to lower at a time. -/
structure ServoEvt where
  t : Nat := 0
  clr : Mask := {}
  deriving DecidableEq, Repr

/-- The frame timer: its first compare channel closes the frame, the second is armed
for the next drop. -/
structure Tc4 where
  running : Bool := false
  count : Nat := 0
  cc1 : Nat := 0
  mc1 : Bool := false
  deriving DecidableEq, Repr

structure Servo where
  us : Fin 9 → BitVec 16 := fun _ => servoUsDefault
  enable : BitVec 16 := 0
  declared : BitVec 16 := 0
  chSel : Byte := 0
  widthStage : BitVec 16 := 0
  run : Bool := false
  latched : Bool := false
  raise : Mask := {}
  evt : Nat → ServoEvt := fun _ => {}
  evtN : Nat := 0
  evtIdx : Nat := 0
  tc : Tc4 := {}

/-! ## The schedule -/

/-- Insertion by time; equal times share one event. -/
def insertEvt (t : Nat) (clr : Mask) : List ServoEvt → List ServoEvt
  | [] => [⟨t, clr⟩]
  | e :: es =>
      if e.t < t then e :: insertEvt t clr es
      else if e.t = t then ⟨e.t, e.clr.or clr⟩ :: es
      else ⟨t, clr⟩ :: e :: es

def Servo.enabled (s : Servo) (ch : Fin 8) : Bool := (s.enable &&& s.declared).getLsbD ch

def Servo.isDeclared (s : Servo) (ch : Fin 8) : Bool := s.declared.getLsbD ch

/-- The drop time of a channel. -/
def Servo.ticks (s : Servo) (ch : Fin 8) : Nat := usToTicks (clampUs (s.us ch.castSucc))

/-- The channels that pulse. -/
def Servo.pulsing (s : Servo) : List (Fin 8) := (List.finRange 8).filter fun ch => s.enabled ch

def Servo.buildRaise (s : Servo) : Mask :=
  s.pulsing.foldl (fun m ch => m.or (.bit (bankPad ch))) {}

def Servo.buildEvts (s : Servo) : List ServoEvt :=
  s.pulsing.foldl (fun es ch => insertEvt (s.ticks ch) (.bit (bankPad ch)) es) []

/-- `servo_build`. Events past the new count stay in the array. -/
def Servo.build (s : Servo) : Servo :=
  let evts := s.buildEvts
  { s with
    raise := s.buildRaise
    evt := fun i => (evts[i]?).getD (s.evt i)
    evtN := evts.length
    evtIdx := 0 }

/-! ## The frame interrupt -/

/-- `TC4_Handler` at the frame boundary. -/
def Servo.mc0 (s : Servo) (port : Port) : Servo × Port :=
  if s.run then
    let s := { s with evtIdx := 0 }
    let tc :=
      if 0 < s.evtN then { s.tc with cc1 := (s.evt 0).t, mc1 := true }
      else { s.tc with mc1 := false }
    ({ s with tc }, port.outSet s.raise)
  else ({ s with tc := { s.tc with mc1 := false } }, port)

/-- `TC4_Handler` at a drop time. -/
def Servo.mc1 (s : Servo) (port : Port) : Servo × Port :=
  let idx := s.evtIdx + 1
  let tc :=
    if idx < s.evtN then { s.tc with cc1 := (s.evt idx).t }
    else { s.tc with mc1 := false }
  ({ s with evtIdx := idx, tc }, port.outClr (s.evt s.evtIdx).clr)

/-! ## Registers -/

/-- `servo_all_low` -/
def servoAllLow : List PortOp := (List.finRange 8).flatMap fun ch => (bankPad ch).on [.outClr]

/-- `servo_estop_active`: the line reads low. -/
def servoEstopActive (levels : Pin → Bool) : Bool := !levels intPad

/-- `servo_set_run` -/
def Servo.setRun (s : Servo) (levels : Pin → Bool) (run : Bool) : Servo × List PortOp :=
  if run then
    if servoEstopActive levels then (s, []) else ({ s with latched := false, run := true }, [])
  else ({ s with run := false }, servoAllLow)

/-- The channel the width window is open on. -/
def Servo.selected (s : Servo) : Fin 9 :=
  if s.chSel < 8 then .ofNat 9 s.chSel.toNat else 0

/-- `servo_reg_write` -/
def Servo.regWrite (s : Servo) (b : Bench) (d : Dac) (levels : Pin → Bool) (reg val : Byte) :
    Servo × Bench × Dac × List PortOp :=
  if reg = 0x10 then (if val < 8 then { s with chSel := val } else s, b, d, [])
  else if reg = 0x11 then ({ s with widthStage := setLo s.widthStage val }, b, d, [])
  else if reg = 0x12 then
    let us := clampUs (setHi s.widthStage val)
    (({ s with us := Function.update s.us s.selected us, widthStage := us } : Servo).build, b, d, [])
  else if reg = 0x13 then
    (({ s with enable := (val.setWidth 16 &&& s.declared) &&& servoEnableMask } : Servo).build,
      b, d, [])
  else if reg = 0x14 then (s, b, d, [])
  else if reg = 0x1A then
    let (s, ops) := s.setRun levels (val != 0)
    (s, b, d, ops)
  else
    let (b, d, ops) := b.regWrite d false reg val
    (s, b, d, ops)

/-! ## Entering and leaving -/

/-- The role byte of a channel in a `srvo` file. -/
def srvoRole (file : Option (List Byte)) (ch : Fin 8) : Option Byte :=
  match file with
  | some (v :: roles) => if v = srvoVersion then roles[ch.val]? else none
  | _ => none

/-- One channel of the file: a servo channel, or the bench role of a spare pad. -/
def servoApplyRole (file : Option (List Byte)) (cfg : BitVec 16 × Bench) (ch : Fin 8) :
    BitVec 16 × Bench :=
  match srvoRole file ch with
  | none => cfg
  | some role =>
      if role = srvoRoleServo then
        (cfg.1 ||| BitVec.twoPow 16 ch, cfg.2.reserve (benchOf ch.castSucc))
      else if benchRoleGpi ≤ role ∧ role ≤ benchRoleDac then
        (cfg.1, cfg.2.setRole (benchOf ch.castSucc) role)
      else cfg

/-- `servo_estop_pin_init` -/
def servoEstopPinInit : List PortOp :=
  intPad.on [.pmuxen false, .dirClr, .outSet, .pincfg true true]

/-- `servo_apply_cfg` -/
def Servo.applyCfg (s : Servo) (b : Bench) (file : Option (List Byte)) :
    Servo × Bench × List PortOp :=
  let (declared, b) := (List.finRange 8).foldl (servoApplyRole file) (0, b)
  let pads := (List.finRange 8).flatMap fun ch =>
    (bankPad ch).on (if declared.getLsbD ch.val then
      [.pmuxen false, .inen false, .pullen false, .outClr, .dirSet] else [])
  ({ s with declared }, b.reserve 6, pads ++ servoEstopPinInit)

/-- `servo_tc_start` -/
def Tc4.start : Tc4 := { running := true }

/-- `servo_tc_stop` -/
def Tc4.stop (tc : Tc4) : Tc4 := { tc with running := false, mc1 := false }

/-- `servo_enter` -/
def Servo.enter (s : Servo) (b : Bench) (file : Option (List Byte)) :
    Servo × Bench × List PortOp :=
  let (s, b, ops) := s.applyCfg b.reset file
  let s := ({ s with enable := 0, run := false, latched := false } : Servo).build
  ({ s with tc := .start }, { b with active := true }, ops ++ b.applyRoles)

/-- `servo_exit` -/
def Servo.exit (s : Servo) (b : Bench) : Servo × Bench × List PortOp :=
  ({ s with tc := s.tc.stop, run := false }, { b with active := false }, servoAllLow)

/-! ## What a configuration declares -/

section Config

variable {file : Option (List Byte)} {cfg : BitVec 16 × Bench} {ch ch' : Fin 8} {b : Bench}
  {idx : Fin 11}

theorem reserved_reserve {i : Fin 11} :
    (b.reserve i).reserved.getLsbD idx = true ↔ b.reserved.getLsbD idx = true ∨ i = idx := by
  unfold Bench.reserve
  rw [BitSet.getLsbD_insert (by omega), Fin.ext_iff]

theorem benchOf_castSucc_injective : Function.Injective fun ch : Fin 8 => benchOf ch.castSucc :=
  fun _ _ h => Fin.castSucc_injective 8 (benchOf_injective h)

/-- The bench role a `srvo` byte gives its pad. -/
def srvoBenchRole (file : Option (List Byte)) (ch : Fin 8) : Byte :=
  match srvoRole file ch with
  | some role => if benchRoleGpi ≤ role ∧ role ≤ benchRoleDac then role else benchRoleNone
  | none => benchRoleNone

/-- The cells of a channel, before and after its byte is read. -/
structure RoleRead (file : Option (List Byte)) (ch : Fin 8) (cfg cfg' : BitVec 16 × Bench) :
    Prop where
  declared : cfg'.1.getLsbD ch = true ↔
    cfg.1.getLsbD ch = true ∨ srvoRole file ch = some srvoRoleServo
  reserved : cfg'.2.reserved.getLsbD (benchOf ch.castSucc) = true ↔
    cfg.2.reserved.getLsbD (benchOf ch.castSucc) = true ∨ srvoRole file ch = some srvoRoleServo
  role : cfg.2.role (benchOf ch.castSucc) = benchRoleNone →
    cfg'.2.role (benchOf ch.castSucc) = srvoBenchRole file ch

theorem servoApplyRole_read (file : Option (List Byte)) (cfg : BitVec 16 × Bench) (ch : Fin 8) :
    RoleRead file ch cfg (servoApplyRole file cfg ch) := by
  have hself : ∀ idx : Fin 11, (cfg.2.reserve idx).role = cfg.2.role := fun _ => rfl
  unfold servoApplyRole
  split
  next hnone =>
    refine ⟨by simp [hnone], by simp [hnone], fun h => ?_⟩
    rw [h, srvoBenchRole, hnone]
  next role hrole =>
    split
    next hservo =>
      refine ⟨?_, ?_, fun h => ?_⟩
      · simp [hrole, hservo, show ch.val < 16 by omega]
      · simp [hrole, hservo, reserved_reserve]
      · rw [hself, h, srvoBenchRole, hrole, hservo]
        rfl
    next hservo =>
      have hne : srvoRole file ch ≠ some srvoRoleServo := by simpa [hrole] using hservo
      split
      next hbench =>
        refine ⟨by simp [hne], by simp [hne, Bench.setRole], fun _ => ?_⟩
        simp [Bench.setRole, srvoBenchRole, hrole, hbench]
      next hbench =>
        refine ⟨by simp [hne], by simp [hne], fun h => ?_⟩
        rw [h, srvoBenchRole, hrole]
        dsimp only
        rw [if_neg hbench]

/-- The byte of one channel leaves the cells of the others alone. -/
theorem servoApplyRole_other (file : Option (List Byte)) (cfg : BitVec 16 × Bench)
    (h : ch ≠ ch') :
    (servoApplyRole file cfg ch').1.getLsbD ch = cfg.1.getLsbD ch ∧
      (servoApplyRole file cfg ch').2.reserved.getLsbD (benchOf ch.castSucc) =
        cfg.2.reserved.getLsbD (benchOf ch.castSucc) ∧
      (servoApplyRole file cfg ch').2.role (benchOf ch.castSucc) =
        cfg.2.role (benchOf ch.castSucc) := by
  have hne : benchOf ch.castSucc ≠ benchOf ch'.castSucc :=
    fun heq => h (benchOf_castSucc_injective heq)
  unfold servoApplyRole
  split
  next => exact ⟨rfl, rfl, rfl⟩
  next =>
    split
    next =>
      refine ⟨?_, ?_, rfl⟩
      · simp [BitVec.getLsbD_twoPow, show ch'.val < 16 by omega, Fin.val_ne_of_ne (Ne.symm h)]
      · refine Bool.eq_iff_iff.mpr (reserved_reserve.trans ?_)
        simp [Ne.symm hne]
    next =>
      split
      next => exact ⟨rfl, rfl, Function.update_of_ne hne ..⟩
      next => exact ⟨rfl, rfl, rfl⟩

theorem foldl_applyRole_other {chs : List (Fin 8)} (h : ch ∉ chs) (cfg : BitVec 16 × Bench) :
    (chs.foldl (servoApplyRole file) cfg).1.getLsbD ch = cfg.1.getLsbD ch ∧
      (chs.foldl (servoApplyRole file) cfg).2.reserved.getLsbD (benchOf ch.castSucc) =
        cfg.2.reserved.getLsbD (benchOf ch.castSucc) ∧
      (chs.foldl (servoApplyRole file) cfg).2.role (benchOf ch.castSucc) =
        cfg.2.role (benchOf ch.castSucc) := by
  induction chs generalizing cfg with
  | nil => exact ⟨rfl, rfl, rfl⟩
  | cons ch' chs ih =>
      obtain ⟨hne, hnot⟩ := List.ne_and_not_mem_of_not_mem_cons h
      obtain ⟨h₁, h₂, h₃⟩ := servoApplyRole_other file cfg hne
      obtain ⟨ih₁, ih₂, ih₃⟩ := ih hnot (servoApplyRole file cfg ch')
      exact ⟨ih₁.trans h₁, ih₂.trans h₂, ih₃.trans h₃⟩

theorem foldl_applyRole {chs : List (Fin 8)} (hnodup : chs.Nodup) (hmem : ch ∈ chs)
    (cfg : BitVec 16 × Bench) : RoleRead file ch cfg (chs.foldl (servoApplyRole file) cfg) := by
  induction chs generalizing cfg with
  | nil => cases hmem
  | cons ch' chs ih =>
      obtain ⟨hnot, hnodup⟩ := List.nodup_cons.mp hnodup
      rw [List.foldl_cons]
      by_cases hch : ch = ch'
      · subst hch
        have hread := servoApplyRole_read file cfg ch
        obtain ⟨h₁, h₂, h₃⟩ := foldl_applyRole_other hnot (servoApplyRole file cfg ch)
        exact ⟨h₁ ▸ hread.declared, h₂ ▸ hread.reserved, fun h => h₃.trans (hread.role h)⟩
      · obtain ⟨h₁, h₂, h₃⟩ := servoApplyRole_other file cfg hch
        have hread := ih hnodup ((List.mem_cons.mp hmem).resolve_left hch)
          (servoApplyRole file cfg ch')
        exact ⟨h₁ ▸ hread.declared, h₂ ▸ hread.reserved, fun h => hread.role (h₃.trans h)⟩

/-- What `servo_apply_cfg` makes of a channel. -/
theorem applyCfg_spec (s : Servo) (b : Bench) (file : Option (List Byte)) (ch : Fin 8) :
    let r := s.applyCfg b.reset file
    (r.1.isDeclared ch = true ↔ srvoRole file ch = some srvoRoleServo) ∧
      (r.2.1.reserved.getLsbD (benchOf ch.castSucc) = true ↔
        srvoRole file ch = some srvoRoleServo) ∧
      r.2.1.role (benchOf ch.castSucc) = srvoBenchRole file ch := by
  have hread : RoleRead file ch (0, b.reset) _ :=
    foldl_applyRole (List.nodup_finRange 8) (List.mem_finRange ch) (0, b.reset)
  have hspare : ∀ ch : Fin 8, benchOf ch.castSucc ≠ 6 := by decide
  have hbus : ∀ ch : Fin 8, benchI2cMask.getLsbD (benchOf ch.castSucc) = false := by decide
  refine ⟨hread.declared.trans (by simp), ?_, hread.role rfl⟩
  refine (reserved_reserve.trans (or_iff_left fun h => hspare ch h.symm)).trans
    (hread.reserved.trans (or_iff_right fun h => ?_))
  exact Bool.false_ne_true ((hbus ch).symm.trans h)

/-- The writes that give a servo pad or a spare pad its role. -/
def srvoPadOps (file : Option (List Byte)) (ch : Fin 8) : List PadOp :=
  if srvoRole file ch = some srvoRoleServo then
    [.pmuxen false, .inen false, .pullen false, .outClr, .dirSet]
  else benchRoleOps (srvoBenchRole file ch)

theorem bankPad_ne_intPad (ch : Fin 8) : bankPad ch ≠ intPad := fun h =>
  absurd (congrArg Fin.val (channelPad_injective h)) ch.isLt.ne

/-- What entering the mode makes of a pad of the bank. -/
theorem exec_enter (s : Servo) (b : Bench) (file : Option (List Byte)) (port : Port) (ch : Fin 8) :
    port.exec (s.enter b file).2.2 (bankPad ch) = (port (bankPad ch)).exec (srvoPadOps file ch) := by
  obtain ⟨hdeclared, hreserved, hrole⟩ := applyCfg_spec s b file ch
  have hpad : bankPad ch = benchPad (benchOf ch.castSucc) := (benchPad_benchOf ch.castSucc).symm
  have hestop : ∀ w ∈ servoEstopPinInit, w.pin ≠ bankPad ch :=
    fun w hw => pin_of_mem_on hw ▸ (bankPad_ne_intPad ch).symm
  have hcfg : port.exec (s.applyCfg b.reset file).2.2 (bankPad ch) = (port (bankPad ch)).exec
      (if (s.applyCfg b.reset file).1.isDeclared ch then
        [.pmuxen false, .inen false, .pullen false, .outClr, .dirSet] else []) := by
    unfold Servo.applyCfg
    dsimp only
    rw [exec_append, exec_of_ne hestop]
    exact exec_each bankPad_injective _ (List.nodup_finRange 8) (List.mem_finRange ch)
  show port.exec ((s.applyCfg b.reset file).2.2 ++ (s.applyCfg b.reset file).2.1.applyRoles) _ = _
  rw [exec_append]
  conv_lhs => rw [hpad, exec_applyRoles, ← hpad, hrole, hcfg]
  unfold srvoPadOps
  by_cases hservo : srvoRole file ch = some srvoRoleServo
  · rw [if_pos (hreserved.mpr hservo), if_pos (hdeclared.mpr hservo), if_pos hservo]
    rfl
  · rw [if_neg (fun h => hservo (hreserved.mp h)), if_neg (fun h => hservo (hdeclared.mp h)),
      if_neg hservo]
    rfl

end Config

end SlowBus.Modes
