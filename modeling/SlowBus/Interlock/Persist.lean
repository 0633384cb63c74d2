import SlowBus.Interlock.Instance

/-!
# The reset-surviving record

`g_interlock_persist` keeps the armed set and the latches over a warm reset. At
power-on it holds arbitrary bytes, and `interlock_boot_decide` either accepts
them or wipes the record.
-/

namespace SlowBus.Interlock

abbrev Slot := Fin maxSlots

/-- `interlock_slot_state_t`; `garbage` is any byte outside the enumeration. -/
inductive SlotState where
  | empty | armed | poisoned | garbage
  deriving DecidableEq, Repr

def idNone : Nat := 0
def idNoop : Nat := 1
def idDsl : Nat := 2

/-- Number of compiled interlocks; the registry holds the no-op alone. -/
def interlockCount : Nat := 1

/-- `interlock_slot_persist_t` -/
structure SlotPersist where
  state : SlotState
  id : Nat
  bootCounter : Nat
  latched : Bool
  deriving DecidableEq, Repr

/-- The fields of `interlock_crash_record_t` that the framework reads back. -/
structure CrashRecord where
  lastCrashedSlot : Nat
  panicCode : Nat
  deriving DecidableEq, Repr

def crashedSlotNone : Nat := 0xFF

/-- `interlock_persist_t` -/
structure Persist where
  magic : Nat
  version : Nat
  selfSize : Nat
  slots : Slot → SlotPersist
  crash : CrashRecord
  inst : Slot → Inst
  dslLen : Slot → Nat
  dslText : Slot → Text
  cfgFingerprint : UInt32

def interlockMagic : Nat := 0xCD51AC73
def persistVersion : Nat := 10

/-- `sizeof(interlock_persist_t)` -/
def persistSize : Nat := 2856

/-- The slot checks of `persist_is_valid`. -/
def Persist.slotValid (p : Persist) (i : Slot) : Bool :=
  let s := p.slots i
  s.state != .garbage && (s.id == idNone || s.id == idNoop || s.id == idDsl) &&
    !(s.state == .armed && s.id == idNone) &&
    !(s.state == .armed && s.id == idDsl && (p.dslLen i == 0 || decide (p.dslLen i ≥ dslMax)))

/-- `persist_is_valid` -/
def Persist.isValid (p : Persist) : Bool :=
  p.magic == interlockMagic && p.version == persistVersion && p.selfSize == persistSize &&
    (List.finRange maxSlots).all p.slotValid &&
    (p.crash.lastCrashedSlot == crashedSlotNone || decide (p.crash.lastCrashedSlot < maxSlots))

/-- `persist_cold_init` -/
def Persist.cold : Persist where
  magic := interlockMagic
  version := persistVersion
  selfSize := persistSize
  slots := fun _ => ⟨.empty, idNone, 0, false⟩
  crash := ⟨crashedSlotNone, 0⟩
  inst := fun _ => {}
  dslLen := fun _ => 0
  dslText := fun _ => List.replicate dslMax '\x00'
  cfgFingerprint := 0

/-- The boot-loop guard: an armed slot that has already come up `maxBootAttempts`
times is poisoned, any other armed slot counts one more warm boot. -/
def SlotPersist.countBoot (s : SlotPersist) : SlotPersist :=
  if s.state = .armed then
    if s.bootCounter ≥ maxBootAttempts then { s with state := .poisoned }
    else { s with bootCounter := s.bootCounter + 1 }
  else s

/-- `interlock_boot_decide` -/
def interlockBootDecide (p : Persist) : Persist :=
  if p.isValid then { p with slots := fun i => (p.slots i).countBoot } else .cold

/-- The text a slot persists, as the parser is handed it. -/
def Persist.text (p : Persist) (i : Slot) : Text := (p.dslText i).take (p.dslLen i)

/-- `interlock_armed_count` -/
def Persist.armedCount (p : Persist) : Nat :=
  (List.finRange maxSlots).countP fun i => (p.slots i).state == .armed

end SlowBus.Interlock
