import SlowBus.Modes.Pads

/-!
# The converter output and the bench tools

The tone generator on D0, and the single-shot operations on the pads a mode leaves
spare. A bench command acts on the selected pad when its role allows it. The phase
increments of the tones, which only the tone interrupt reads, are not kept.
-/

namespace SlowBus.Modes

open Bus (Byte)

def setLo (w : BitVec 16) (v : Byte) : BitVec 16 := (w &&& 0xFF00) ||| v.setWidth 16
def setHi (w : BitVec 16) (v : Byte) : BitVec 16 := (w &&& 0x00FF) ||| (v.setWidth 16 <<< 8)

/-! ## The converter output -/

structure Dac where
  type : Fin 2 → Byte := fun _ => 0
  amp : Fin 2 → BitVec 16 := fun _ => 0
  freq : Fin 2 → BitVec 16 := fun _ => 0
  offset : BitVec 16 := 512
  initialized : Bool := false
  /-- `CTRLB.EOEN`, the output buffer on D0. -/
  eoen : Bool := false
  /-- `g_dds.active` -/
  active : Bool := false

/-- `dac_init`, once. -/
def Dac.init (d : Dac) : Dac × List PortOp :=
  if d.initialized then (d, [])
  else ({ d with initialized := true, eoen := true }, dacPad.on [.pmuxen true])

/-- `dac_apply`; in ADC mode the tone clock runs already. -/
def Dac.apply (d : Dac) (adcMode : Bool) : Dac × List PortOp :=
  let d := { d with
    offset := if 1023 < d.offset then 1023 else d.offset
    amp := fun t => if 1023 < d.amp t then 1023 else d.amp t }
  if adcMode then ({ d with active := true }, [])
  else if d.type 0 ≠ 0 ∨ d.type 1 ≠ 0 then { d with active := true }.init
  else ({ d with active := false }, [])

/-- The generator switched off, as a mode that brings the output up leaves it. -/
def Dac.idle (d : Dac) : Dac := { d with type := fun _ => 0, active := false }

/-- The registers of the generator that hold a setting. -/
def Dac.set (d : Dac) (reg val : Byte) : Option Dac :=
  if reg = 0x20 then some { d with type := Function.update d.type 0 val }
  else if reg = 0x21 then some { d with amp := Function.update d.amp 0 (setLo (d.amp 0) val) }
  else if reg = 0x22 then some { d with amp := Function.update d.amp 0 (setHi (d.amp 0) val) }
  else if reg = 0x23 then some { d with freq := Function.update d.freq 0 (setLo (d.freq 0) val) }
  else if reg = 0x24 then some { d with freq := Function.update d.freq 0 (setHi (d.freq 0) val) }
  else if reg = 0x26 then some { d with type := Function.update d.type 1 val }
  else if reg = 0x27 then some { d with amp := Function.update d.amp 1 (setLo (d.amp 1) val) }
  else if reg = 0x28 then some { d with amp := Function.update d.amp 1 (setHi (d.amp 1) val) }
  else if reg = 0x29 then some { d with freq := Function.update d.freq 1 (setLo (d.freq 1) val) }
  else if reg = 0x2A then some { d with freq := Function.update d.freq 1 (setHi (d.freq 1) val) }
  else if reg = 0x2B then some { d with offset := setLo d.offset val }
  else if reg = 0x2C then some { d with offset := setHi d.offset val }
  else none

/-- `dac_reg_write`, none when the register is not one of the generator. -/
def Dac.regWrite (d : Dac) (adcMode : Bool) (reg val : Byte) : Option (Dac × List PortOp) :=
  if reg = 0x25 then some (d.apply adcMode) else (d.set reg val).map fun d => (d, [])

/-- `dac_reg_read`; the register that applies the settings reads as none. -/
def Dac.regRead (d : Dac) (reg : Byte) : Option Byte :=
  if reg = 0x20 then some (d.type 0)
  else if reg = 0x21 then some ((d.amp 0).setWidth 8)
  else if reg = 0x22 then some ((d.amp 0 >>> 8).setWidth 8)
  else if reg = 0x23 then some ((d.freq 0).setWidth 8)
  else if reg = 0x24 then some ((d.freq 0 >>> 8).setWidth 8)
  else if reg = 0x26 then some (d.type 1)
  else if reg = 0x27 then some ((d.amp 1).setWidth 8)
  else if reg = 0x28 then some ((d.amp 1 >>> 8).setWidth 8)
  else if reg = 0x29 then some ((d.freq 1).setWidth 8)
  else if reg = 0x2A then some ((d.freq 1 >>> 8).setWidth 8)
  else if reg = 0x2B then some (d.offset.setWidth 8)
  else if reg = 0x2C then some ((d.offset >>> 8).setWidth 8)
  else none

/-- Bringing the output up on D0: the pad is routed to the converter. -/
def Dac.bringUp (d : Dac) : Dac × List PortOp :=
  let (d, ops) := d.init
  ({ d with eoen := true }, ops ++ dacPad.on [.pmuxen true])

/-! ## Bench tools -/

def benchRoleNone : Byte := 0
def benchRoleGpi : Byte := 1
def benchRoleGpo : Byte := 2
def benchRoleAdc : Byte := 3
def benchRoleDac : Byte := 4
def benchRoleOc : Byte := 6
def benchRoleOcPu : Byte := 7

def benchOk : Byte := 0
def benchBadPin : Byte := 1
def benchWrongRole : Byte := 2
def benchUnsupported : Byte := 3

/-- D4 and D5 carry the bus. -/
def benchI2cMask : BitVec 16 := 0x0030

def benchIsOc (role : Byte) : Bool := role == benchRoleOc || role == benchRoleOcPu

structure Bench where
  role : Fin 11 → Byte := fun _ => benchRoleNone
  reserved : BitVec 16 := benchI2cMask
  /-- `0xFF` when no pad is selected. -/
  sel : Byte := 0xFF
  stat : Byte := benchOk
  adcVal : Nat := 0
  adcPending : Bool := false
  active : Bool := false

/-- `bench_reset` -/
def Bench.reset (b : Bench) : Bench := { active := b.active }

/-- `bench_set_role` -/
def Bench.setRole (b : Bench) (idx : Fin 11) (role : Byte) : Bench :=
  { b with role := Function.update b.role idx role }

/-- `bench_reserve` -/
def Bench.reserve (b : Bench) (idx : Fin 11) : Bench :=
  { b with reserved := b.reserved ||| BitVec.twoPow 16 idx }

/-- The writes that give a spare pad its role; a converter role configures the pad only,
and `dac` is left to the mode. -/
def benchRoleOps (role : Byte) : List PadOp :=
  if role = benchRoleGpi then [.pmuxen false, .dirClr, .pincfg true false]
  else if role = benchRoleGpo then [.pmuxen false, .outClr, .dirSet, .pincfg true false]
  else if role = benchRoleAdc then [.pmuxen true]
  else if role = benchRoleOc then [.pmuxen false, .dirClr, .pincfg true false]
  else if role = benchRoleOcPu then [.pmuxen false, .dirClr, .outSet, .pincfg true true]
  else []

/-- `bench_apply_roles` -/
def Bench.applyRoles (b : Bench) : List PortOp :=
  (List.finRange 11).flatMap fun idx =>
    (benchPad idx).on (if b.reserved.getLsbD idx then [] else benchRoleOps (b.role idx))

/-- The selected pad. -/
def Bench.selected (b : Bench) : Option (Fin 11) :=
  if h : b.sel.toNat < 11 then some ⟨b.sel.toNat, h⟩ else none

/-- `bench_sel_role` -/
def Bench.selRole (b : Bench) : Byte := (b.selected.map b.role).getD benchRoleNone

/-- `bench_sel_valid` -/
def Bench.selValid (b : Bench) (idx : Byte) : Bool :=
  decide (idx.toNat < 11) && !b.reserved.getLsbD idx.toNat

/-- `bench_select` -/
def Bench.select (b : Bench) (idx : Byte) : Bench :=
  if b.selValid idx then { b with sel := idx, stat := benchOk }
  else { b with sel := 0xFF, stat := benchBadPin }

/-- The writes of `bench_gpio_out` to a pad of this role, none when the role refuses. -/
def benchOutOps (role : Byte) (level : Bool) : Option (List PadOp) :=
  if role = benchRoleGpo then some [outLevel level]
  else if benchIsOc role then
    if level then
      if role = benchRoleOcPu then some [.dirClr, .outSet, .pincfg true true]
      else some [.dirClr, .pincfg true false]
    else some [.pincfg true false, .outClr, .dirSet]
  else none

/-- `bench_gpio_out` -/
def Bench.gpioOut (b : Bench) (level : Byte) : Bench × List PortOp :=
  match b.selected with
  | none => ({ b with stat := benchWrongRole }, [])
  | some idx =>
      match benchOutOps (b.role idx) (level.getLsbD 0) with
      | some ops => ({ b with stat := benchOk }, (benchPad idx).on ops)
      | none => ({ b with stat := benchWrongRole }, [])

/-- `bench_reg_write`; the registers of the generator follow the role of D0. -/
def Bench.regWrite (b : Bench) (d : Dac) (adcMode : Bool) (reg val : Byte) :
    Bench × Dac × List PortOp :=
  if reg = 0x15 then (b.select val, d, [])
  else if reg = 0x16 then
    let (b, ops) := b.gpioOut val
    (b, d, ops)
  else if reg = 0x18 then
    if b.selRole = benchRoleAdc then ({ b with adcPending := true, stat := benchOk }, d, [])
    else ({ b with stat := benchWrongRole }, d, [])
  else if 0x20 ≤ reg ∧ reg ≤ 0x2C then
    if b.role 0 = benchRoleDac then
      match d.regWrite adcMode reg val with
      | some (d, ops) => ({ b with stat := benchOk }, d, ops)
      | none => ({ b with stat := benchUnsupported }, d, [])
    else ({ b with stat := benchWrongRole }, d, [])
  else ({ b with stat := benchUnsupported }, d, [])

/-- `bench_gpio_in` -/
def Bench.gpioIn (b : Bench) (levels : Pin → Bool) : Byte × Bench :=
  match b.selected with
  | none => (0xFF, { b with stat := benchWrongRole })
  | some idx =>
      if b.role idx = benchRoleGpi ∨ benchIsOc (b.role idx) then
        (if levels (benchPad idx) then 1 else 0, { b with stat := benchOk })
      else (0xFF, { b with stat := benchWrongRole })

/-- `bench_reg_read`: what is read, and the status it leaves. -/
def Bench.regRead (b : Bench) (d : Dac) (levels : Pin → Bool) (reg : Byte) : Byte × Bench :=
  if reg = 0x15 then (b.sel, b)
  else if reg = 0x17 then b.gpioIn levels
  else if reg = 0x19 then (if b.adcPending then 1 else 0, b)
  else if reg = 0x1B then (.ofNat 8 b.adcVal, b)
  else if reg = 0x1C then (.ofNat 8 (b.adcVal / 256), b)
  else if reg = 0x1D then (b.stat, b)
  else if reg = 0x1E then (b.selRole, b)
  else if 0x20 ≤ reg ∧ reg ≤ 0x2C then
    if b.role 0 = benchRoleDac then
      match d.regRead reg with
      | some v => (v, { b with stat := benchOk })
      | none => (0xFF, { b with stat := benchUnsupported })
    else (0xFF, { b with stat := benchWrongRole })
  else (0xFF, { b with stat := benchUnsupported })

/-- `bench_tick`: the pending conversion, with what the converter reads on a channel. It is made
on the pad that is selected now, whatever its role. -/
def Bench.tick (b : Bench) (oneshot : Nat → Nat → Nat → Nat) : Bench × List PortOp :=
  if b.active && b.adcPending then
    match b.selected with
    | some idx =>
        ({ b with adcPending := false, adcVal := oneshot (benchAin idx) 4 5 },
          oneshotOps (benchAin idx))
    | none => ({ b with adcPending := false }, [])
  else (b, [])
where
  /-- The converter channel of a pad. -/
  benchAin : Fin 11 → Nat := ![0, 4, 18, 19, 16, 17, 2, 3, 7, 5, 6]

theorem exec_applyRoles (b : Bench) (port : Port) (idx : Fin 11) :
    port.exec b.applyRoles (benchPad idx) = (port (benchPad idx)).exec
      (if b.reserved.getLsbD idx then [] else benchRoleOps (b.role idx)) :=
  exec_each benchPad_injective
    (fun idx => if b.reserved.getLsbD idx.val then [] else benchRoleOps (b.role idx))
    (List.nodup_finRange 11) (List.mem_finRange idx)

/-! ## What a bench command touches -/

section Touches

variable {b : Bench} {d : Dac} {adcMode : Bool} {reg val : Byte} {idx : Fin 11}

/-- The writes of the generator only route D0. -/
theorem dac_init_ops (d : Dac) : d.init.2 = [] ∨ d.init.2 = dacPad.on [.pmuxen true] := by
  unfold Dac.init
  split
  next => exact Or.inl rfl
  next => exact Or.inr rfl

theorem dac_apply_ops (d : Dac) (adcMode : Bool) :
    (d.apply adcMode).2 = [] ∨ (d.apply adcMode).2 = dacPad.on [.pmuxen true] := by
  unfold Dac.apply
  dsimp only
  split
  next => exact Or.inl rfl
  next =>
    split
    next => exact dac_init_ops _
    next => exact Or.inl rfl

theorem dac_regWrite_ops {r : Dac × List PortOp} (h : d.regWrite adcMode reg val = some r) :
    r.2 = [] ∨ r.2 = dacPad.on [.pmuxen true] := by
  unfold Dac.regWrite at h
  split at h
  next =>
    obtain rfl := Option.some_inj.mp h
    exact dac_apply_ops d adcMode
  next =>
    obtain ⟨d', _, rfl⟩ := Option.map_eq_some_iff.mp h
    exact Or.inl rfl

theorem pin_of_dac_ops {ops : List PortOp} (h : ops = [] ∨ ops = dacPad.on [.pmuxen true])
    {w : PortOp} (hw : w ∈ ops) : w.pin = dacPad := by
  rcases h with rfl | rfl
  · cases hw
  · exact pin_of_mem_on hw

/-- A read leaves a status. -/
theorem regRead_stat (b : Bench) (d : Dac) (levels : Pin → Bool) (reg : Byte) :
    ∃ stat, (b.regRead d levels reg).2 = { b with stat } := by
  have hgpi : ∃ stat, (b.gpioIn levels).2 = { b with stat } := by
    unfold Bench.gpioIn
    split
    next => exact ⟨_, rfl⟩
    next => split <;> exact ⟨_, rfl⟩
  unfold Bench.regRead
  split
  next => exact ⟨b.stat, rfl⟩
  next =>
    split
    next => exact hgpi
    next =>
      split_ifs
      all_goals
        first
          | exact ⟨b.stat, rfl⟩
          | exact ⟨_, rfl⟩
          | split <;> exact ⟨_, rfl⟩

/-- No bench command changes a role, and none writes to a pad without a role. -/
theorem bench_regWrite_spares (b : Bench) (d : Dac) (adcMode : Bool) (reg val : Byte) :
    (b.regWrite d adcMode reg val).1.role = b.role ∧
      ∀ idx, b.role idx = benchRoleNone →
        ∀ w ∈ (b.regWrite d adcMode reg val).2.2, w.pin ≠ benchPad idx := by
  unfold Bench.regWrite
  split
  next =>
    refine ⟨?_, fun _ _ w hw => by cases hw⟩
    unfold Bench.select
    split <;> rfl
  next =>
    split
    next =>
      dsimp only
      unfold Bench.gpioOut
      split
      next => exact ⟨rfl, fun _ _ w hw => by cases hw⟩
      next sel _ =>
        split
        next ops hops =>
          refine ⟨rfl, fun idx hidx w hw heq => ?_⟩
          -- the write is for the selected channel, which has the role of an output
          obtain rfl := benchPad_injective ((pin_of_mem_on hw).symm.trans heq)
          rw [hidx] at hops
          cases hops
        next => exact ⟨rfl, fun _ _ w hw => by cases hw⟩
    next =>
      split
      next =>
        split <;> exact ⟨rfl, fun _ _ w hw => by cases hw⟩
      next =>
        split
        next =>
          split
          next hrole =>
            split
            next r hr =>
              refine ⟨rfl, fun idx hidx w hw heq => ?_⟩
              have hpin := pin_of_dac_ops (dac_regWrite_ops hr) hw
              -- the converter is on channel 0
              obtain rfl : idx = 0 := benchPad_injective (heq.symm.trans hpin)
              rw [hidx] at hrole
              cases hrole
            next => exact ⟨rfl, fun _ _ w hw => by cases hw⟩
          next => exact ⟨rfl, fun _ _ w hw => by cases hw⟩
        next => exact ⟨rfl, fun _ _ w hw => by cases hw⟩

/-- What a bench command makes of the tools: a selection, or a status and a request. -/
theorem bench_regWrite_cases (b : Bench) (d : Dac) (adcMode : Bool) (reg val : Byte) :
    (b.regWrite d adcMode reg val).1 = b.select val ∨
      ∃ stat adcPending, (b.regWrite d adcMode reg val).1 = { b with stat, adcPending } := by
  unfold Bench.regWrite
  split
  next => exact Or.inl rfl
  next =>
    right
    split
    next =>
      dsimp only
      unfold Bench.gpioOut
      split
      next => exact ⟨_, _, rfl⟩
      next => split <;> exact ⟨_, _, rfl⟩
    next =>
      split_ifs
      · exact ⟨_, _, rfl⟩
      · exact ⟨_, _, rfl⟩
      · split <;> exact ⟨_, _, rfl⟩
      · exact ⟨_, _, rfl⟩
      · exact ⟨_, _, rfl⟩

theorem bench_regWrite_active (b : Bench) (d : Dac) (adcMode : Bool) (reg val : Byte) :
    (b.regWrite d adcMode reg val).1.active = b.active := by
  rcases bench_regWrite_cases b d adcMode reg val with heq | ⟨_, _, heq⟩
  · rw [heq]
    unfold Bench.select
    split <;> rfl
  · rw [heq]

end Touches

/-! ## Conversions -/

section Tick

variable {b : Bench} {idx : Fin 11} {q : Pin} {port : Port}

/-- The table of the pads and that of the converter channels name the same pins. -/
theorem oneshotOps_benchAin (idx : Fin 11) :
    oneshotOps (Bench.tick.benchAin idx) = (benchPad idx).on [.pmuxen true] := by
  revert idx
  decide

/-- A conversion is made on the selected pad, while the tools are on. -/
inductive BenchTick (b : Bench) : Bench × List PortOp → Prop
  | quiet : BenchTick b (b, [])
  | unselected : BenchTick b ({ b with adcPending := false }, [])
  | converted (hactive : b.active = true) {idx : Fin 11} (hidx : b.selected = some idx)
      (adcVal : Nat) :
      BenchTick b ({ b with adcPending := false, adcVal }, (benchPad idx).on [.pmuxen true])

theorem bench_tick_cases (b : Bench) (oneshot : Nat → Nat → Nat → Nat) :
    BenchTick b (b.tick oneshot) := by
  unfold Bench.tick
  split
  next hpending =>
    split
    next idx hidx =>
      rw [oneshotOps_benchAin]
      exact .converted (Bool.and_eq_true_iff.mp hpending).1 hidx _
    next => exact .unselected
  next => exact .quiet

theorem bench_tick_off (h : b.active = false) (oneshot : Nat → Nat → Nat → Nat) :
    b.tick oneshot = (b, []) := by
  unfold Bench.tick
  rw [h]
  rfl

theorem bench_tick_active (b : Bench) (oneshot : Nat → Nat → Nat → Nat) :
    (b.tick oneshot).1.active = b.active := by
  have hstep := bench_tick_cases b oneshot
  generalize b.tick oneshot = r at hstep ⊢
  cases hstep <;> rfl

/-- A conversion makes no pad an output and changes no level. -/
theorem exec_tick_pad (b : Bench) (oneshot : Nat → Nat → Nat → Nat) (port : Port) (q : Pin) :
    ∃ pmuxen, port.exec (b.tick oneshot).2 q = { port q with pmuxen } := by
  have hstep := bench_tick_cases b oneshot
  generalize b.tick oneshot = r at hstep ⊢
  cases hstep with
  | quiet | unselected => exact ⟨_, rfl⟩
  | converted hactive hidx adcVal =>
      rename_i idx
      by_cases hq : benchPad idx = q
      · subst hq
        exact ⟨true, exec_on⟩
      · exact ⟨(port q).pmuxen, exec_on_of_ne hq⟩

/-- No bench tool acts on the pad: it has no role, and it is reserved and so not selected. -/
structure Bench.Closed (b : Bench) (idx : Fin 11) : Prop where
  role : b.role idx = benchRoleNone
  reserved : b.reserved.getLsbD idx = true
  unselected : b.selected ≠ some idx

theorem Bench.Closed.regWrite (h : b.Closed idx) (d : Dac) (adcMode : Bool) (reg val : Byte) :
    (b.regWrite d adcMode reg val).1.Closed idx := by
  rcases bench_regWrite_cases b d adcMode reg val with heq | ⟨stat, adcPending, heq⟩
  · rw [heq]
    unfold Bench.select
    split
    next hvalid =>
      refine ⟨h.role, h.reserved, fun hidx => ?_⟩
      obtain ⟨_, hval⟩ := Option.dite_none_right_eq_some.mp hidx
      obtain rfl := Option.some_inj.mp hval
      have hspare := (Bool.and_eq_true_iff.mp hvalid).2
      have hreserved : b.reserved.getLsbD val.toNat = true := h.reserved
      rw [hreserved] at hspare
      cases hspare
    next => exact ⟨h.role, h.reserved, fun hidx => by cases hidx⟩
  · rw [heq]
    exact ⟨h.role, h.reserved, h.unselected⟩

theorem Bench.Closed.tick (h : b.Closed idx) (oneshot : Nat → Nat → Nat → Nat) :
    (b.tick oneshot).1.Closed idx := by
  have hstep := bench_tick_cases b oneshot
  generalize b.tick oneshot = r at hstep ⊢
  cases hstep <;> exact ⟨h.role, h.reserved, h.unselected⟩

/-- A conversion leaves a closed pad alone. -/
theorem Bench.Closed.exec_tick (h : b.Closed idx) (oneshot : Nat → Nat → Nat → Nat) (port : Port) :
    port.exec (b.tick oneshot).2 (benchPad idx) = port (benchPad idx) := by
  have hstep := bench_tick_cases b oneshot
  generalize b.tick oneshot = r at hstep ⊢
  cases hstep with
  | quiet | unselected => rfl
  | converted hactive hidx adcVal =>
      exact exec_on_of_ne fun hpad => h.unselected (benchPad_injective hpad ▸ hidx)

end Tick

end SlowBus.Modes
