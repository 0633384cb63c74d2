import SlowBus.Lib.Program
import SlowBus.Lib.Runs
import SlowBus.Modes.Bench

/-!
# Where the bench tools look into their tables

The bench tools as programs that tell which elements of `g_bench_pad` and `g_bench_role` they
access, also those that are not there. Every access is behind a guard but for one: an output
command takes the pad of the selection before it looks at the role.
-/

namespace SlowBus.Modes

open Bus (Byte)
open Prog (loop Reports Ends)
open Runs (run Along)

/-! ## The tables -/

/-- An access to `g_bench_pad` or to `g_bench_role`. -/
inductive TableAccess where
  | pad (idx : Nat)
  | role (idx : Nat)
  deriving DecidableEq, Repr

def TableAccess.idx : TableAccess → Nat
  | .pad idx | .role idx => idx

/-- Both tables have eleven elements. -/
def TableAccess.InRange (a : TableAccess) : Prop := a.idx < 11

instance : DecidablePred TableAccess.InRange := fun a => Nat.decLt a.idx 11

/-- What is in memory behind the tables. -/
structure Beyond where
  pad : Nat → Pin
  ain : Nat → Nat
  role : Nat → Byte

structure BenchMem where
  bench : Bench
  dac : Dac

abbrev BenchProg (α : Type) := Prog BenchMem TableAccess Empty α

def getBench : BenchProg Bench := fun m => ⟨.ok m.bench, m, []⟩

def setBench (f : Bench → Bench) : BenchProg Unit := fun m =>
  ⟨.ok (), { m with bench := f m.bench }, []⟩

def getDac : BenchProg Dac := fun m => ⟨.ok m.dac, m, []⟩

def setDac (dac : Dac) : BenchProg Unit := fun m => ⟨.ok (), { m with dac }, []⟩

def setStat (stat : Byte) : BenchProg Unit := setBench fun b => { b with stat }

/-- The group and the pin of an element of `g_bench_pad`. -/
def readPad (past : Beyond) (idx : Nat) : BenchProg Pin := fun m =>
  ⟨.ok (if h : idx < 11 then benchPad ⟨idx, h⟩ else past.pad idx), m, [.pad idx]⟩

/-- The converter channel of an element of `g_bench_pad`. -/
def readAin (past : Beyond) (idx : Nat) : BenchProg Nat := fun m =>
  ⟨.ok (if h : idx < 11 then Bench.tick.benchAin ⟨idx, h⟩ else past.ain idx), m, [.pad idx]⟩

def readRole (past : Beyond) (idx : Nat) : BenchProg Byte := fun m =>
  ⟨.ok (if h : idx < 11 then m.bench.role ⟨idx, h⟩ else past.role idx), m, [.role idx]⟩

/-- A write beyond the table is reported; what it destroys is not modelled. -/
def writeRole (idx : Nat) (role : Byte) : BenchProg Unit := fun m =>
  ⟨.ok (), if h : idx < 11 then { m with bench := m.bench.setRole ⟨idx, h⟩ role } else m,
    [.role idx]⟩

/-! ## The bench tools -/

/-- `bench_reset` -/
def benchReset : BenchProg Unit := do
  setBench fun b => { b with
    sel := 0xFF, stat := benchOk, adcPending := false, adcVal := 0, reserved := benchI2cMask }
  loop (fun i _ => writeRole i benchRoleNone) 0 11 ()

/-- `bench_set_role` -/
def benchSetRole (idx role : Byte) : BenchProg Unit :=
  if idx.toNat < 11 then writeRole idx.toNat role else pure ()

/-- `bench_reserve` -/
def benchReserve (idx : Byte) : BenchProg Unit :=
  if idx.toNat < 11 then
    setBench fun b => { b with reserved := b.reserved ||| BitVec.twoPow 16 idx.toNat }
  else pure ()

/-- The loop of `bench_apply_roles` for one pad; the role of an open collector is looked up once
more. -/
def benchApplyRole (past : Beyond) (idx : Nat) (ops : List PortOp) : BenchProg (List PortOp) := do
  let b ← getBench
  if b.reserved.getLsbD idx then pure ops
  else
    let pad ← readPad past idx
    let role ← readRole past idx
    let role ← (if benchIsOc role then readRole past idx else pure role)
    pure (ops ++ pad.on (benchRoleOps role))

/-- `bench_apply_roles` -/
def benchApplyRoles (past : Beyond) : BenchProg (List PortOp) :=
  loop (benchApplyRole past) 0 11 []

/-- `bench_sel_role` -/
def benchSelRole (past : Beyond) : BenchProg Byte := do
  let b ← getBench
  if b.sel.toNat < 11 then readRole past b.sel.toNat else pure benchRoleNone

/-- `bench_gpio_out`: the pad is looked up whatever the role is. -/
def benchGpioOut (past : Beyond) (level : Byte) : BenchProg (List PortOp) := do
  let role ← benchSelRole past
  let b ← getBench
  let pad ← readPad past b.sel.toNat
  match benchOutOps role (level.getLsbD 0) with
  | some ops =>
      setStat benchOk
      pure (pad.on ops)
  | none =>
      setStat benchWrongRole
      pure []

/-- `bench_gpio_in` -/
def benchGpioIn (past : Beyond) (levels : Pin → Bool) : BenchProg Byte := do
  let role ← benchSelRole past
  if role = benchRoleGpi ∨ benchIsOc role then
    let b ← getBench
    let pad ← readPad past b.sel.toNat
    setStat benchOk
    pure (if levels pad then 1 else 0)
  else
    setStat benchWrongRole
    pure 0xFF

/-- The first part of `bench_tick`: the selection is latched if a conversion is pending. -/
def benchTickLatch : BenchProg (Option Byte) := do
  let b ← getBench
  pure (if b.active && b.adcPending then some b.sel else none)

/-- The rest of `bench_tick`. -/
def benchTickServe (past : Beyond) (oneshot : Nat → Nat → Nat → Nat) (idx : Byte) :
    BenchProg (List PortOp) := do
  let ops ← (if idx.toNat < 11 then do
      let ain ← readAin past idx.toNat
      setBench fun b => { b with adcVal := oneshot ain 4 5 }
      pure (oneshotOps ain)
    else pure [])
  setBench fun b => { b with adcPending := false }
  pure ops

/-- `bench_tick` -/
def benchTick (past : Beyond) (oneshot : Nat → Nat → Nat → Nat) : BenchProg (List PortOp) := do
  match ← benchTickLatch with
  | some idx => benchTickServe past oneshot idx
  | none => pure []

/-- `bench_reg_read` -/
def benchRegRead (past : Beyond) (levels : Pin → Bool) (reg : Byte) : BenchProg Byte := do
  let b ← getBench
  if reg = 0x15 then pure b.sel
  else if reg = 0x17 then benchGpioIn past levels
  else if reg = 0x19 then pure (if b.adcPending then 1 else 0)
  else if reg = 0x1B then pure (.ofNat 8 b.adcVal)
  else if reg = 0x1C then pure (.ofNat 8 (b.adcVal / 256))
  else if reg = 0x1D then pure b.stat
  else if reg = 0x1E then benchSelRole past
  else if 0x20 ≤ reg ∧ reg ≤ 0x2C then
    let role ← readRole past 0
    if role = benchRoleDac then
      let dac ← getDac
      match dac.regRead reg with
      | some v =>
          setStat benchOk
          pure v
      | none =>
          setStat benchUnsupported
          pure 0xFF
    else
      setStat benchWrongRole
      pure 0xFF
  else
    setStat benchUnsupported
    pure 0xFF

/-- `bench_reg_write` -/
def benchRegWrite (past : Beyond) (adcMode : Bool) (reg val : Byte) :
    BenchProg (List PortOp) := do
  if reg = 0x15 then
    setBench (·.select val)
    pure []
  else if reg = 0x16 then benchGpioOut past val
  else if reg = 0x18 then
    let role ← benchSelRole past
    if role = benchRoleAdc then
      setBench fun b => { b with adcPending := true, stat := benchOk }
      pure []
    else
      setStat benchWrongRole
      pure []
  else if 0x20 ≤ reg ∧ reg ≤ 0x2C then
    let role ← readRole past 0
    if role = benchRoleDac then
      let dac ← getDac
      match dac.regWrite adcMode reg val with
      | some (dac, ops) =>
          setDac dac
          setStat benchOk
          pure ops
      | none =>
          setStat benchUnsupported
          pure []
    else
      setStat benchWrongRole
      pure []
  else
    setStat benchUnsupported
    pure []

/-! ## Runs -/

/-- The bench tools, the selection that a tick has latched, and the accesses so far. -/
structure BenchTables where
  mem : BenchMem
  latched : Option Byte := none
  accesses : List TableAccess := []

/-- What the mode does at its entry, register accesses, and the two parts of a tick, between
which registers may be accessed. -/
inductive BenchCall where
  | setRole (idx role : Byte)
  | reserve (idx : Byte)
  | applyRoles
  | read (levels : Pin → Bool) (reg : Byte)
  | write (adcMode : Bool) (reg val : Byte)
  | latch
  | serve (oneshot : Nat → Nat → Nat → Nat)

def BenchTables.call {α : Type} (s : BenchTables) (p : BenchProg α) : BenchTables :=
  { s with mem := (p s.mem).state, accesses := s.accesses ++ (p s.mem).events }

def BenchTables.next (past : Beyond) (s : BenchTables) : BenchCall → BenchTables
  | .setRole idx role => s.call (benchSetRole idx role)
  | .reserve idx => s.call (benchReserve idx)
  | .applyRoles => s.call (benchApplyRoles past)
  | .read levels reg => s.call (benchRegRead past levels reg)
  | .write adcMode reg val => s.call (benchRegWrite past adcMode reg val)
  | .latch =>
      { s.call benchTickLatch with
        latched := match (benchTickLatch s.mem).outcome with
          | .ok latched => latched
          | _ => none }
  | .serve oneshot =>
      match s.latched with
      | some idx => { s.call (benchTickServe past oneshot idx) with latched := none }
      | none => s

/-- After `bench_reset`. -/
def BenchTables.start (m : BenchMem) : BenchTables := BenchTables.call { mem := m } benchReset

/-- An output command comes when a pad is selected. -/
def BenchTables.Selected (s : BenchTables) : BenchCall → Prop
  | .write _ reg _ => reg = 0x16 → s.mem.bench.sel.toNat < 11
  | _ => True

/-! ## What each program does -/

section Programs

variable {past : Beyond} {m : BenchMem} {idx : Nat}

/-- The program leaves this value and these tools, and its accesses are in range exactly when `C`
holds. -/
abbrev Accesses {α : Type} (p : BenchProg α) (m : BenchMem) (a : α) (m' : BenchMem)
    (C : Prop) : Prop :=
  p.Reports TableAccess.InRange m (.ok a) m' C

theorem accesses_silent {α : Type} {p : BenchProg α} {a : α} {m' : BenchMem}
    (hends : p.Ends m (.ok a) m') (hevents : (p m).events = []) : Accesses p m a m' True := by
  refine ⟨hends, iff_of_true ?_ trivial⟩
  rw [hevents]
  exact nofun

theorem accesses_single {α : Type} {p : BenchProg α} {a : α} {m' : BenchMem} (x : TableAccess)
    (hends : p.Ends m (.ok a) m') (hevents : (p m).events = [x]) :
    Accesses p m a m' x.InRange := by
  refine ⟨hends, ?_⟩
  rw [hevents]
  exact List.forall_mem_singleton

theorem accesses_getBench : Accesses getBench m m.bench m True := accesses_silent ⟨rfl, rfl⟩ rfl

theorem accesses_setBench (f : Bench → Bench) :
    Accesses (setBench f) m () { m with bench := f m.bench } True :=
  accesses_silent ⟨rfl, rfl⟩ rfl

theorem accesses_getDac : Accesses getDac m m.dac m True := accesses_silent ⟨rfl, rfl⟩ rfl

theorem accesses_setDac (dac : Dac) : Accesses (setDac dac) m () { m with dac } True :=
  accesses_silent ⟨rfl, rfl⟩ rfl

theorem accesses_readPad (h : idx < 11) :
    Accesses (readPad past idx) m (benchPad ⟨idx, h⟩) m True :=
  (accesses_single (.pad idx) ⟨congrArg Outcome.ok (dif_pos h), rfl⟩ rfl).congr (iff_true_intro h)

theorem accesses_readPad_beyond (h : ¬idx < 11) :
    Accesses (readPad past idx) m (past.pad idx) m (idx < 11) :=
  accesses_single (.pad idx) ⟨congrArg Outcome.ok (dif_neg h), rfl⟩ rfl

theorem accesses_readAin (h : idx < 11) :
    Accesses (readAin past idx) m (Bench.tick.benchAin ⟨idx, h⟩) m True :=
  (accesses_single (.pad idx) ⟨congrArg Outcome.ok (dif_pos h), rfl⟩ rfl).congr (iff_true_intro h)

theorem accesses_readRole (h : idx < 11) :
    Accesses (readRole past idx) m (m.bench.role ⟨idx, h⟩) m True :=
  (accesses_single (.role idx) ⟨congrArg Outcome.ok (dif_pos h), rfl⟩ rfl).congr (iff_true_intro h)

theorem accesses_writeRole (h : idx < 11) (role : Byte) :
    Accesses (writeRole idx role) m ()
      { m with bench := m.bench.setRole ⟨idx, h⟩ role } True :=
  (accesses_single (.role idx) ⟨rfl, dif_pos h⟩ rfl).congr (iff_true_intro h)

theorem selected_eq_some {b : Bench} {idx : Fin 11} :
    b.selected = some idx ↔ ∃ h : b.sel.toNat < 11, idx = ⟨b.sel.toNat, h⟩ := by
  unfold Bench.selected
  split
  next h => simp [h, eq_comm]
  next h => simp [h]

/-- Clearing the roles of `n` pads from `i` on. -/
theorem accesses_clear (i n : Nat) (h : i + n ≤ 11) :
    Accesses (loop (fun i _ => writeRole i benchRoleNone) i n ()) m ()
      { m with bench := { m.bench with
        role := fun j => if i ≤ j.val ∧ j.val < i + n then benchRoleNone else m.bench.role j } }
      True := by
  induction n generalizing i m with
  | zero =>
      have hsame : (fun j : Fin 11 => if i ≤ j.val ∧ j.val < i + 0 then benchRoleNone
          else m.bench.role j) = m.bench.role := by
        funext j
        exact if_neg (by omega)
      rw [hsame]
      exact .pure
  | succ n ih =>
      have hi : i < 11 := by omega
      have hroles : (fun j : Fin 11 => if i + 1 ≤ j.val ∧ j.val < i + 1 + n then benchRoleNone
          else Function.update m.bench.role ⟨i, hi⟩ benchRoleNone j) =
          fun j => if i ≤ j.val ∧ j.val < i + (n + 1) then benchRoleNone else m.bench.role j := by
        funext j
        by_cases hj : j = ⟨i, hi⟩
        · subst hj
          rw [Function.update_self, ite_self, if_pos ⟨le_refl i, by dsimp only; omega⟩]
        · rw [Function.update_of_ne hj]
          have hne : j.val ≠ i := fun heq => hj (Fin.ext heq)
          exact if_congr (by omega) rfl rfl
      have hrest := ih (m := { m with bench := m.bench.setRole ⟨i, hi⟩ benchRoleNone }) (i + 1)
        (by omega)
      rw [← hroles]
      exact (accesses_writeRole hi benchRoleNone).after hrest

theorem accesses_benchReset :
    Accesses benchReset m () { m with bench := m.bench.reset } True := by
  have hroles : (fun j : Fin 11 => if 0 ≤ j.val ∧ j.val < 0 + 11 then benchRoleNone
      else m.bench.role j) = fun _ => benchRoleNone := by
    funext j
    exact if_pos ⟨Nat.zero_le _, by omega⟩
  have hclear := accesses_clear (m := { m with bench := { m.bench with
    sel := 0xFF, stat := benchOk, adcPending := false, adcVal := 0, reserved := benchI2cMask } })
    0 11 (le_refl 11)
  dsimp only at hclear
  rw [hroles] at hclear
  exact (accesses_setBench _).after hclear

theorem accesses_benchSelRole : Accesses (benchSelRole past) m m.bench.selRole m True := by
  refine accesses_getBench.after ?_
  unfold Bench.selRole Bench.selected
  split
  next h => exact accesses_readRole h
  next => exact .pure

theorem accesses_benchSetRole (idx role : Byte) :
    Accesses (benchSetRole idx role) m ()
      { m with bench := if h : idx.toNat < 11 then m.bench.setRole ⟨idx.toNat, h⟩ role
        else m.bench } True := by
  unfold benchSetRole
  split
  next h => exact accesses_writeRole h role
  next h => exact .pure

theorem accesses_benchReserve (idx : Byte) :
    Accesses (benchReserve idx) m ()
      { m with bench := if h : idx.toNat < 11 then m.bench.reserve ⟨idx.toNat, h⟩
        else m.bench } True := by
  unfold benchReserve
  split
  next h => exact accesses_setBench _
  next h => exact .pure

/-- Only an output command without a selected pad goes beyond a table, and what it finds there is
not used. -/
theorem accesses_benchGpioOut (level : Byte) :
    Accesses (benchGpioOut past level) m (m.bench.gpioOut level).2
      { m with bench := (m.bench.gpioOut level).1 } (m.bench.sel.toNat < 11) := by
  by_cases h : m.bench.sel.toNat < 11
  · have hselected : m.bench.selected = some ⟨m.bench.sel.toNat, h⟩ := dif_pos h
    have hrole : m.bench.selRole = m.bench.role ⟨m.bench.sel.toNat, h⟩ := by
      unfold Bench.selRole
      rw [hselected]
      rfl
    refine (accesses_benchSelRole.after (accesses_getBench.after
      ((accesses_readPad h).after ?_))).congr (iff_of_true trivial h)
    unfold Bench.gpioOut
    rw [hselected, hrole]
    dsimp only
    cases benchOutOps (m.bench.role ⟨m.bench.sel.toNat, h⟩) (level.getLsbD 0) with
    | some ops => exact (accesses_setBench _).after .pure
    | none => exact (accesses_setBench _).after .pure
  · have hselected : m.bench.selected = none := dif_neg h
    have hrole : m.bench.selRole = benchRoleNone := by
      unfold Bench.selRole
      rw [hselected]
      rfl
    refine (accesses_benchSelRole.after (accesses_getBench.after
      ((accesses_readPad_beyond h).bind (D := True) ?_))).congr (and_iff_left trivial)
    unfold Bench.gpioOut
    rw [hselected, hrole]
    exact (accesses_setBench _).after .pure

/-- The role of a selected pad that is not there is none, and refuses. -/
theorem accesses_benchGpioIn (levels : Pin → Bool) :
    Accesses (benchGpioIn past levels) m (m.bench.gpioIn levels).1
      { m with bench := (m.bench.gpioIn levels).2 } True := by
  refine accesses_benchSelRole.after ?_
  unfold Bench.gpioIn Bench.selRole
  cases hselected : m.bench.selected with
  | none => exact (accesses_setBench _).after .pure
  | some idx =>
      obtain ⟨h, rfl⟩ := selected_eq_some.mp hselected
      dsimp only [Option.map_some, Option.getD_some]
      split
      next => exact accesses_getBench.after ((accesses_readPad h).after
        ((accesses_setBench _).after .pure))
      next => exact (accesses_setBench _).after .pure

theorem accesses_benchTickLatch :
    Accesses benchTickLatch m
      (if m.bench.active && m.bench.adcPending then some m.bench.sel else none) m True :=
  accesses_getBench.after .pure

theorem accesses_benchTickServe (oneshot : Nat → Nat → Nat → Nat) (idx : Byte) :
    Accesses (benchTickServe past oneshot idx) m
      (if h : idx.toNat < 11 then oneshotOps (Bench.tick.benchAin ⟨idx.toNat, h⟩) else [])
      { m with bench := { m.bench with
        adcPending := false
        adcVal := if h : idx.toNat < 11 then oneshot (Bench.tick.benchAin ⟨idx.toNat, h⟩) 4 5
          else m.bench.adcVal } } True := by
  by_cases h : idx.toNat < 11
  · rw [dif_pos h, dif_pos h]
    unfold benchTickServe
    rw [if_pos h]
    have hread : Accesses (do
        let ain ← readAin past idx.toNat
        setBench fun b => { b with adcVal := oneshot ain 4 5 }
        pure (oneshotOps ain)) m (oneshotOps (Bench.tick.benchAin ⟨idx.toNat, h⟩))
        { m with bench := { m.bench with
          adcVal := oneshot (Bench.tick.benchAin ⟨idx.toNat, h⟩) 4 5 } } True :=
      (accesses_readAin h).after ((accesses_setBench _).after .pure)
    exact hread.after ((accesses_setBench _).after .pure)
  · rw [dif_neg h, dif_neg h]
    unfold benchTickServe
    rw [if_neg h]
    exact Prog.Reports.pure.after ((accesses_setBench _).after .pure)

/-- With no register access between its parts a tick is `bench_tick`. -/
theorem accesses_benchTick (oneshot : Nat → Nat → Nat → Nat) :
    Accesses (benchTick past oneshot) m (m.bench.tick oneshot).2
      { m with bench := (m.bench.tick oneshot).1 } True := by
  refine accesses_benchTickLatch.after ?_
  unfold Bench.tick Bench.selected
  by_cases hpending : (m.bench.active && m.bench.adcPending) = true
  · rw [if_pos hpending, if_pos hpending]
    have hserve : Accesses (benchTickServe past oneshot m.bench.sel) m _ _ True :=
      accesses_benchTickServe oneshot m.bench.sel
    by_cases h : m.bench.sel.toNat < 11
    · rw [dif_pos h, dif_pos h] at hserve
      rw [dif_pos h]
      exact hserve
    · rw [dif_neg h, dif_neg h] at hserve
      rw [dif_neg h]
      exact hserve
  · rw [if_neg hpending, if_neg hpending]
    exact .pure

/-- What a register access leaves of the tools when it sets the status only. -/
theorem accesses_status {α : Type} (stat : Byte) (a : α) :
    Accesses (do setStat stat; pure a) m a { m with bench := { m.bench with stat } } True :=
  (accesses_setBench _).after .pure

/-- A branch of a program and of the function it is to agree with. -/
theorem accesses_ite {α ρ : Type} (value : ρ → α) (left : ρ → BenchMem) {p : Prop} [Decidable p]
    {P P' : BenchProg α} {r r' : ρ} {C : Prop} (h : p → Accesses P m (value r) (left r) C)
    (h' : ¬p → Accesses P' m (value r') (left r') C) :
    Accesses (if p then P else P') m (value (if p then r else r')) (left (if p then r else r'))
      C := by
  by_cases hp : p
  · rw [if_pos hp, if_pos hp]
    exact h hp
  · rw [if_neg hp, if_neg hp]
    exact h' hp

theorem accesses_benchRegRead (levels : Pin → Bool) (reg : Byte) :
    Accesses (benchRegRead past levels reg) m (m.bench.regRead m.dac levels reg).1
      { m with bench := (m.bench.regRead m.dac levels reg).2 } True := by
  have hite := @accesses_ite m Byte (Byte × Bench) Prod.fst fun r => { m with bench := r.2 }
  refine accesses_getBench.after ?_
  unfold Bench.regRead
  refine hite (fun _ => .pure) fun _ => ?_
  refine hite (fun _ => accesses_benchGpioIn levels) fun _ => ?_
  refine hite (fun _ => .pure) fun _ => ?_
  refine hite (fun _ => .pure) fun _ => ?_
  refine hite (fun _ => .pure) fun _ => ?_
  refine hite (fun _ => .pure) fun _ => ?_
  refine hite (fun _ => accesses_benchSelRole) fun _ => ?_
  refine hite (fun _ => ?_) fun _ => accesses_status _ _
  refine (accesses_readRole (Nat.zero_lt_succ 10)).after ?_
  refine hite (fun _ => accesses_getDac.after ?_) fun _ => accesses_status _ _
  cases m.dac.regRead reg with
  | some v => exact accesses_status _ _
  | none => exact accesses_status _ _

/-- Of all register accesses only the output command can go beyond a table. -/
theorem accesses_benchRegWrite (adcMode : Bool) (reg val : Byte) :
    Accesses (benchRegWrite past adcMode reg val) m
      (m.bench.regWrite m.dac adcMode reg val).2.2
      { bench := (m.bench.regWrite m.dac adcMode reg val).1
        dac := (m.bench.regWrite m.dac adcMode reg val).2.1 }
      (reg = 0x16 → m.bench.sel.toNat < 11) := by
  have hite := @accesses_ite m (List PortOp) (Bench × Dac × List PortOp) (·.2.2) fun r =>
    { bench := r.1, dac := r.2.1 }
  have hother (hreg : reg ≠ 0x16) : True ↔ (reg = 0x16 → m.bench.sel.toNat < 11) :=
    iff_of_true trivial fun heq => absurd heq hreg
  unfold Bench.regWrite
  refine hite (fun hreg => ?_) fun _ => ?_
  · refine Prog.Reports.congr ?_ (hother (by rw [hreg]; decide))
    exact (accesses_setBench _).after .pure
  refine hite (fun hreg => ?_) fun hreg => ?_
  · exact (accesses_benchGpioOut val).congr ⟨fun h _ => h, fun h => h hreg⟩
  refine Prog.Reports.congr ?_ (hother hreg)
  refine hite (fun _ => accesses_benchSelRole.after ?_) fun _ => ?_
  · exact hite (fun _ => (accesses_setBench _).after .pure) fun _ => accesses_status _ _
  refine hite (fun _ => ?_) fun _ => accesses_status _ _
  refine (accesses_readRole (Nat.zero_lt_succ 10)).after ?_
  refine hite (fun _ => accesses_getDac.after ?_) fun _ => accesses_status _ _
  cases m.dac.regWrite adcMode reg val with
  | some r => exact (accesses_setDac r.1).after (accesses_status _ _)
  | none => exact accesses_status _ _

theorem accesses_benchApplyRole (h : idx < 11) (ops : List PortOp) :
    Accesses (benchApplyRole past idx ops) m
      (ops ++ (benchPad ⟨idx, h⟩).on
        (if m.bench.reserved.getLsbD idx then [] else benchRoleOps (m.bench.role ⟨idx, h⟩)))
      m True := by
  refine accesses_getBench.after ?_
  split
  next =>
    rw [Pin.on, List.map_nil, List.append_nil]
    exact .pure
  next =>
    refine (accesses_readPad h).after ((accesses_readRole h).after ?_)
    refine Prog.Reports.after (a := m.bench.role ⟨idx, h⟩) ?_ .pure
    split
    next => exact accesses_readRole h
    next => exact .pure

/-- The pads from `i` on. -/
theorem accesses_apply (i n : Nat) (h : i + n ≤ 11) (ops : List PortOp) :
    Accesses (loop (benchApplyRole past) i n ops) m
      (ops ++ (((List.finRange 11).drop i).take n).flatMap fun idx =>
        (benchPad idx).on
          (if m.bench.reserved.getLsbD idx then [] else benchRoleOps (m.bench.role idx)))
      m True := by
  induction n generalizing i ops with
  | zero =>
      rw [List.take_zero, List.flatMap_nil, List.append_nil]
      exact .pure
  | succ n ih =>
      have hi : i < 11 := by omega
      have hdrop : (List.finRange 11).drop i = ⟨i, hi⟩ :: (List.finRange 11).drop (i + 1) := by
        rw [List.drop_eq_getElem_cons (by simpa using hi), List.getElem_finRange]
        rfl
      rw [hdrop, List.take_succ_cons, List.flatMap_cons, ← List.append_assoc]
      exact (accesses_benchApplyRole hi ops).after (ih (i + 1) (by omega) _)

theorem accesses_benchApplyRoles :
    Accesses (benchApplyRoles past) m m.bench.applyRoles m True := by
  have happly : Accesses (benchApplyRoles past) m _ m True :=
    accesses_apply 0 11 (le_refl 11) []
  rw [List.nil_append, List.drop_zero, List.take_of_length_le (by simp)] at happly
  exact happly

end Programs

/-! ## Every run -/

section Runs

variable {past : Beyond} {s : BenchTables} {α : Type} {p : BenchProg α} {a : α} {m : BenchMem}
  {C : Prop}

theorem call_accesses (s : BenchTables) (h : Accesses p s.mem a m C) :
    (∀ x ∈ (s.call p).accesses, x.InRange) ↔ (∀ x ∈ s.accesses, x.InRange) ∧ C :=
  List.forall_mem_append.trans (and_congr_right fun _ => h.events)

theorem call_mem (h : Accesses p s.mem a m C) : (s.call p).mem = m := h.ends.2

/-- One call: the accesses stay in range unless it is an output command without a selected pad. -/
theorem next_accesses (past : Beyond) (s : BenchTables) (e : BenchCall) :
    (∀ x ∈ (s.next past e).accesses, x.InRange) ↔
      (∀ x ∈ s.accesses, x.InRange) ∧ s.Selected e := by
  cases e with
  | setRole idx role => exact call_accesses s (accesses_benchSetRole idx role)
  | reserve idx => exact call_accesses s (accesses_benchReserve idx)
  | applyRoles => exact call_accesses s accesses_benchApplyRoles
  | read levels reg => exact call_accesses s (accesses_benchRegRead levels reg)
  | write adcMode reg val => exact call_accesses s (accesses_benchRegWrite adcMode reg val)
  | latch => exact call_accesses s accesses_benchTickLatch
  | serve oneshot =>
      show (∀ x ∈ (match s.latched with
        | some idx => _
        | none => _ : BenchTables).accesses, x.InRange) ↔ _
      cases s.latched with
      | some idx => exact call_accesses s (accesses_benchTickServe oneshot idx)
      | none => exact (and_iff_left trivial).symm

theorem run_accesses (past : Beyond) (s : BenchTables) (es : List BenchCall) :
    (∀ x ∈ (run (BenchTables.next past) s es).accesses, x.InRange) ↔
      (∀ x ∈ s.accesses, x.InRange) ∧ Along (BenchTables.next past) BenchTables.Selected s es := by
  induction es generalizing s with
  | nil => exact (and_iff_left trivial).symm
  | cons e es ih => rw [Runs.run_cons, ih, next_accesses, and_assoc, Along]

/-- A register write selects a pad or none, or leaves the selection. -/
theorem regWrite_sel (b : Bench) (d : Dac) (adcMode : Bool) (reg val : Byte) :
    let sel := (b.regWrite d adcMode reg val).1.sel
    sel = b.sel ∨ sel = 0xFF ∨ sel.toNat < 11 := by
  unfold Bench.regWrite
  split
  next =>
    right
    dsimp only
    unfold Bench.select Bench.selValid
    split
    next h => exact Or.inr (of_decide_eq_true (Bool.and_eq_true_iff.mp h).1)
    next => exact Or.inl rfl
  next =>
    left
    split
    next =>
      dsimp only
      unfold Bench.gpioOut
      split
      next => rfl
      next => split <;> rfl
    next =>
      split
      next => split <;> rfl
      next =>
        split
        next =>
          split
          next => split <;> rfl
          next => rfl
        next => rfl

/-- The selection is a pad or `0xFF`, so that what lies beyond the tables is element 255. -/
def BenchTables.Names (s : BenchTables) : Prop :=
  s.mem.bench.sel = 0xFF ∨ s.mem.bench.sel.toNat < 11

theorem Names.call (h : s.Names) (hp : Accesses p s.mem a m C)
    (hsel : m.bench.sel = s.mem.bench.sel ∨ m.bench.sel = 0xFF ∨ m.bench.sel.toNat < 11) :
    (s.call p).Names := by
  unfold BenchTables.Names
  rw [call_mem hp]
  rcases hsel with hsame | hnew
  · rw [hsame]
    exact h
  · exact hnew

theorem Names.next (h : s.Names) (e : BenchCall) : (s.next past e).Names := by
  cases e with
  | setRole idx role =>
      refine Names.call h (accesses_benchSetRole idx role) (Or.inl ?_)
      dsimp only
      split <;> rfl
  | reserve idx =>
      refine Names.call h (accesses_benchReserve idx) (Or.inl ?_)
      dsimp only
      split <;> rfl
  | applyRoles => exact Names.call h accesses_benchApplyRoles (Or.inl rfl)
  | read levels reg =>
      refine Names.call h (accesses_benchRegRead levels reg) (Or.inl ?_)
      obtain ⟨stat, hstat⟩ := regRead_stat s.mem.bench s.mem.dac levels reg
      rw [hstat]
  | write adcMode reg val =>
      exact Names.call h (accesses_benchRegWrite adcMode reg val) (regWrite_sel ..)
  | latch => exact Names.call h accesses_benchTickLatch (Or.inl rfl)
  | serve oneshot =>
      show BenchTables.Names (match s.latched with
        | some idx => _
        | none => _)
      cases s.latched with
      | some idx => exact Names.call h (accesses_benchTickServe oneshot idx) (Or.inl rfl)
      | none => exact h

theorem run_names (past : Beyond) (m : BenchMem) (es : List BenchCall) :
    (run (BenchTables.next past) (.start m) es).Names := by
  have hstart : (BenchTables.start m).Names := by
    unfold BenchTables.Names BenchTables.start
    rw [call_mem (s := { mem := m }) accesses_benchReset]
    exact Or.inl rfl
  exact Runs.run_invariant (fun _ e h => Names.next h e) hstart

/-- After `bench_reset` every access to a table is in range as long as each output command comes
when a pad is selected, and no longer. -/
theorem bench_tables_in_range_iff (past : Beyond) (m : BenchMem) (es : List BenchCall) :
    (∀ x ∈ (run (BenchTables.next past) (.start m) es).accesses, x.idx < 11) ↔
      Along (BenchTables.next past) BenchTables.Selected (.start m) es := by
  have hstart := call_accesses { mem := m } accesses_benchReset
  refine (run_accesses past (.start m) es).trans (and_iff_right (hstart.mpr ⟨nofun, trivial⟩))

/-- An output command right after `bench_reset` takes element 255 of the pad table. -/
theorem not_bench_tables_in_range :
    ¬ ∀ (past : Beyond) (m : BenchMem) (es : List BenchCall),
      ∀ x ∈ (run (BenchTables.next past) (.start m) es).accesses, x.idx < 11 := by
  intro h
  have hlt := h ⟨fun _ => pa 0, fun _ => 0, fun _ => 0⟩ ⟨{}, {}⟩ [.write false 0x16 1] (.pad 255)
    (by decide +kernel)
  revert hlt
  decide

end Runs

end SlowBus.Modes
