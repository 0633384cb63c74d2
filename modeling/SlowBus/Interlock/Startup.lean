import SlowBus.Interlock.Machine

/-!
# Bringing Thread 2 up

`interlock_thread2_start` warm-restores the persisted armed set, re-arms the
configured slots when the flashed configuration changed, and then arms the
built-in safety interlock in slot 0 unless the restore preserved it.
-/

namespace SlowBus.Interlock

/-- The flashed configuration: what `cfg_load` returns for `ilc1 .. ilc9`, by
slot. An absent or empty file is `none` or the empty text. -/
abbrev Config := Slot → Option Text

/-- The slots the configuration may arm. -/
def configSlots : List Slot := (List.finRange maxSlots).tail

/-- The text of a slot's file, when there is one to arm. -/
def Config.file (cfg : Config) (s : Slot) : Option Text := (cfg s).filter fun t => !t.isEmpty

/-- One byte of the FNV-1a hash. -/
def fnvStep (fp : UInt32) (byte : Nat) : UInt32 := (fp ^^^ UInt32.ofNat byte) * 16777619

/-- `interlock_cfg_fingerprint`: every present file, tagged by its position. -/
def interlockCfgFingerprint (cfg : Config) : UInt32 :=
  configSlots.foldl (fun fp s =>
    match cfg.file s with
    | none => fp
    | some text => text.foldl (fun fp c => fnvStep fp c.toNat) (fnvStep fp (s + 1))) 2166136261

/-- The built-in interlock of slot 0. -/
def gp1Il : Text :=
  ("gp1il;cfg[(gp1):in,up,debounce_4,(gp0):oc,up];watch[gp1:1];watch[_nodesdead:0];" ++
    "out_ok[gp0:1];out_err[gp0:0]").toList

/-- The banner words: how many slots came up, and the first arming failure. -/
structure Bringup where
  machine : Machine
  ilcfRc : Nat
  armFail : Nat

/-- The failure word `[slot][status][err0][err1]`, kept for the first failure. -/
def noteFailure (armFail slot : Nat) (r : AdminResult) : Nat :=
  if r.status = .ok then armFail
  else if armFail ≠ 0 then armFail
  else (slot <<< 24) ||| (r.status.code <<< 16) ||| (r.errPayload.1 <<< 8) ||| r.errPayload.2.1

/-- GP1 as an input with its pull-up, before any slot is restored. -/
def initInPin (m : Machine) : Machine :=
  let pin : Pin := ⟨interlockInPin, by decide⟩
  let pad : Pad := { (m.hal.pads pin).init with pull := .up }
  { m with hal := { m.hal with pads := Function.update m.hal.pads pin pad } }

/-- Drop every configured slot. -/
def dropConfigSlots (m : Machine) : Except Fault Machine :=
  configSlots.foldlM (fun m s => do
    let (_, m) ← interlockDisarmSlot s m
    .ok m) m

/-- Arm one configured slot from its file. -/
def armConfigSlot (plat : Platform) (cfg : Config) (b : Bringup) (s : Slot) :
    Except Fault Bringup :=
  match cfg.file s with
  | none => .ok b
  | some text => do
      let (r, m) ← interlockSetSlotDsl plat s text b.machine
      .ok ⟨m, if r.status = .ok then b.ilcfRc + 1 else b.ilcfRc, noteFailure b.armFail s r⟩

/-- The configured slots: re-armed when the configuration changed or nothing is
armed, else left as the restore preserved them. -/
def startConfigSlots (plat : Platform) (cfg : Config) (m : Machine) : Except Fault Bringup :=
  let fp := interlockCfgFingerprint cfg
  if fp ≠ m.persist.cfgFingerprint ∨ m.persist.armedCount = 0 then do
    let m ← dropConfigSlots m
    let b ← configSlots.foldlM (armConfigSlot plat cfg) ⟨m, 0, 0⟩
    .ok { b with machine := { b.machine with
      persist := { b.machine.persist with cfgFingerprint := fp } } }
  else .ok ⟨m, m.persist.armedCount, 0⟩

/-- Whether the restore kept the built-in interlock in slot 0. -/
def builtinPreserved (p : Persist) : Bool :=
  (p.slots 0).state == .armed && p.dslLen 0 == gp1Il.length &&
    (p.dslText 0).take gp1Il.length == gp1Il

/-- Arm the built-in interlock unless it was preserved. -/
def startBuiltin (plat : Platform) (b : Bringup) : Except Fault Bringup :=
  if builtinPreserved b.machine.persist then .ok b
  else do
    let (_, m) ← interlockDisarmSlot 0 b.machine
    let (r, m) ← interlockSetSlotDsl plat 0 gp1Il m
    .ok { b with machine := m, armFail := noteFailure b.armFail 0 r }

/-- `interlock_thread2_start`, reaching the grace window at `ms`. -/
def interlockThread2Start (plat : Platform) (cfg : Config) (ms : Nat) (m : Machine) :
    Except Fault Bringup := do
  let m ← interlockWarmRestore plat (initInPin m)
  let b ← startConfigSlots plat cfg m
  let b ← startBuiltin plat b
  .ok { b with machine := interlockBeginGrace ms b.machine }

/-- A chip reset followed by the boot sequence, over whatever the persistent
memory holds. -/
def bootUp (plat : Platform) (cfg : Config) (ms : Nat) (persist : Persist)
    (trace : List DriveEvent) : Except Fault Bringup :=
  interlockThread2Start plat cfg ms (.boot (interlockBootDecide persist) trace)

end SlowBus.Interlock
