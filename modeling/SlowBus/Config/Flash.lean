import Mathlib.Data.List.FinRange
import SlowBus.Bus.Frame
import SlowBus.Lib.Runs

/-!
# The configuration store

A log of entries in flash, one to a row, and a bank of slots in RAM that shadow the
newest entry of each name. A commit programs the shadow of a slot into a row that is
not live; the scan at boot finds the newest entry of every name again.
-/

namespace SlowBus.Config

open Bus (Byte busCrc8)

def storeRows : Nat := 256
def storeSlots : Nat := 32
def storeDataMax : Byte := 240
def storeEntryMagic : BitVec 32 := 0x10C0FFEE

/-- A name of `STORE_NAME_LEN` bytes. -/
abbrev Name := Vector Byte 4

/-- `store_entry_t`: what one row holds. -/
@[ext]
structure Entry where
  magic : BitVec 32
  seq : BitVec 32
  name : Name
  len : Byte
  crc : Byte
  data : Vector Byte 240
  deriving DecidableEq, Repr

/-- The bytes of the data that count. -/
def Entry.contents (e : Entry) : List Byte := e.data.toList.take e.len.toNat

/-- An erased row. -/
def Entry.blank : Entry :=
  ⟨0xFFFFFFFF, 0xFFFFFFFF, Vector.replicate 4 0xFF, 0xFF, 0xFF, Vector.replicate 240 0xFF⟩

def storeCrc (name : Name) (len : Byte) (data : Vector Byte 240) : Byte :=
  busCrc8 (name.toList ++ [len] ++ data.toList.take len.toNat)

/-- `store_entry_valid` -/
def Entry.valid (e : Entry) : Bool :=
  e.magic == storeEntryMagic && e.name[0] != 0xFF && decide (e.len ≤ storeDataMax) &&
    storeCrc e.name e.len e.data == e.crc

abbrev Row := Fin storeRows
abbrev Flash := Row → Entry

/-! ## Flash commands -/

inductive FlashCmd where
  | erase (row : Row)
  | writePage (row : Row) (page : Nat) (e : Entry)

/-- A page of 64 bytes. The fields before the data take the first 16 bytes of page 0. -/
def Entry.withPage (old e : Entry) (page : Nat) : Entry :=
  let head := if page = 0 then e else old
  { head with
    data := Vector.ofFn fun i => if (i.val + 16) / 64 = page then e.data[i] else old.data[i] }

def FlashCmd.apply (flash : Flash) : FlashCmd → Flash
  | .erase row => Function.update flash row Entry.blank
  | .writePage row page e => Function.update flash row ((flash row).withPage e page)

/-- The commands of a commit: the row is erased and its four pages are written. -/
def programRow (row : Row) (e : Entry) : List FlashCmd :=
  .erase row :: (List.range 4).map fun page => .writePage row page e

/-! ## Slots -/

/-- The shadow of a name. `row` is none for `-1`. -/
structure Slot where
  used : Bool := false
  name : Name := Vector.replicate 4 0
  data : Vector Byte 240 := Vector.replicate 240 0
  len : Byte := 0
  seq : BitVec 32 := 0
  row : Option Row := none
  dirty : Bool := false

def Slot.contents (s : Slot) : List Byte := s.data.toList.take s.len.toNat

abbrev SlotId := Fin storeSlots
abbrev Slots := SlotId → Slot

def Slots.set (slots : Slots) (i : SlotId) (s : Slot) : Slots := Function.update slots i s

/-- `store_find` -/
def storeFind (slots : Slots) (name : Name) : Option SlotId :=
  (List.finRange storeSlots).find? fun i => (slots i).used && (slots i).name == name

/-- `store_alloc` -/
def storeAlloc (slots : Slots) (name : Name) : Slots × Option SlotId :=
  match storeFind slots name with
  | some i => (slots, some i)
  | none =>
      match (List.finRange storeSlots).find? fun i => !(slots i).used with
      | some i =>
          (slots.set i { slots i with
            used := true
            name
            len := 0
            seq := 0
            row := none
            dirty := false }, some i)
      | none => (slots, none)

/-! ## The boot scan -/

/-- The shadow before the scan; the bytes and names of the slots stay as they are. -/
def Slot.cleared (s : Slot) : Slot :=
  { s with used := false, seq := 0, len := 0, row := none, dirty := false }

/-- `memcpy` of the first `len` bytes. -/
def copyBytes (len : Byte) (src dst : Vector Byte 240) : Vector Byte 240 :=
  Vector.ofFn fun i => if i.val < len.toNat then src[i] else dst[i]

/-- One row of the scan. -/
def scanRow (flash : Flash) (slots : Slots) (r : Row) : Slots :=
  let e := flash r
  if !e.valid then slots
  else
    match storeAlloc slots e.name with
    | (slots, none) => slots
    | (slots, some i) =>
        if e.seq > (slots i).seq then
          slots.set i { slots i with
            seq := e.seq
            len := e.len
            row := some r
            data := copyBytes e.len e.data (slots i).data }
        else slots

/-- The scan of `store_load`. -/
@[irreducible]
def scan (flash : Flash) (slots : Slots) : Slots :=
  (List.finRange storeRows).foldl (scanRow flash) fun i => (slots i).cleared

/-- A store operation that came to its end, or a commit that power cut short. -/
inductive Outcome where
  | committed (name : Name) (contents : List Byte)
  | interrupted (name : Name) (contents : List Byte)
  deriving DecidableEq, Repr

/-- Flash and RAM; `log` only records. -/
structure Store where
  flash : Flash
  slots : Slots
  cursor : Nat
  log : List Outcome := []

/-- A store whose flash is erased, at boot. -/
def Store.erased : Store where
  flash := fun _ => Entry.blank
  slots := fun _ => {}
  cursor := 0

/-- `store_load` -/
def Store.load (s : Store) : Store := { s with slots := scan s.flash s.slots, cursor := 0 }

/-- A reboot: the RAM starts from zero, then the scan. -/
def Store.reboot (s : Store) : Store := { s with slots := scan s.flash fun _ => {}, cursor := 0 }

/-! ## Commits -/

/-- `store_row_live` -/
def storeRowLive (slots : Slots) (r : Row) : Bool :=
  (List.finRange storeSlots).any fun i => (slots i).used && (slots i).row == some r

def rowAt (n : Nat) : Row := ⟨n % storeRows, Nat.mod_lt _ (by decide)⟩

/-- The round-robin search of `store_commit` for a row that is not live. -/
def Store.pickRow (s : Store) : Option Row :=
  ((List.range storeRows).map fun n => rowAt (s.cursor + n)).find? fun r => !storeRowLive s.slots r

/-- The shadow is what the live row holds already. -/
def Store.coalesces (s : Store) (i : SlotId) : Bool :=
  match (s.slots i).row with
  | none => false
  | some r =>
      let cur := s.flash r
      cur.len == (s.slots i).len &&
        cur.data.toList.take (s.slots i).len.toNat == (s.slots i).contents

/-- The entry a commit writes. -/
def Slot.entry (s : Slot) : Entry where
  magic := storeEntryMagic
  seq := s.seq + 1
  name := s.name
  len := s.len
  crc := storeCrc s.name s.len s.data
  data := copyBytes s.len s.data (Vector.replicate 240 0xFF)

/-- `store_commit`, with its result. -/
def Store.commit (s : Store) (slot : Nat) : Store × Bool :=
  if h : slot < storeSlots then
    let i : SlotId := ⟨slot, h⟩
    if !(s.slots i).used then (s, false)
    else if s.coalesces i then
      ({ s with slots := s.slots.set i { s.slots i with dirty := false } }, true)
    else
      match s.pickRow with
      | none => (s, false)
      | some picked =>
          let e := (s.slots i).entry
          let flash := (programRow picked e).foldl FlashCmd.apply s.flash
          let s := { s with flash, cursor := (picked.val + 1) % storeRows }
          let chk := flash picked
          if !chk.valid || chk.seq != e.seq || chk.name != e.name then (s, false)
          else
            ({ s with slots := s.slots.set i { s.slots i with
                seq := e.seq
                row := some picked
                dirty := false } }, true)
  else (s, false)

/-- The flash when power is lost after `n` flash commands of a commit. -/
def Store.cutFlash (s : Store) (i : SlotId) (n : Nat) : Flash :=
  if !(s.slots i).used || s.coalesces i then s.flash
  else
    match s.pickRow with
    | none => s.flash
    | some picked =>
        ((programRow picked (s.slots i).entry).take n).foldl FlashCmd.apply s.flash

/-! ## What happens to a store -/

inductive StoreEvent where
  | alloc (name : Name)
  /-- The shadow of a slot is edited; its length stays within the buffer. -/
  | edit (i : SlotId) (data : Vector Byte 240) (len : Byte)
  | commit (slot : Nat)
  | load
  | reboot
  /-- Power is lost in a commit, after `n` of its flash commands. -/
  | cut (i : SlotId) (n : Nat)

def Store.record (s : Store) (o : Outcome) : Store := { s with log := s.log ++ [o] }

def Store.next (s : Store) : StoreEvent → Store
  | .alloc name => { s with slots := (storeAlloc s.slots name).1 }
  | .edit i data len =>
      if len ≤ storeDataMax then
        { s with slots := s.slots.set i { s.slots i with data, len, dirty := true } }
      else s
  | .commit slot =>
      let (s', ok) := s.commit slot
      if h : ok ∧ slot < storeSlots then
        s'.record (.committed (s.slots ⟨slot, h.2⟩).name (s.slots ⟨slot, h.2⟩).contents)
      else s'
  | .load => s.load
  | .reboot => s.reboot
  | .cut i n =>
      let cut := { s with flash := s.cutFlash i n }.reboot
      if (s.slots i).used then cut.record (.interrupted (s.slots i).name (s.slots i).contents)
      else cut

/-- What the shadow has for a name. -/
def Store.lookup (s : Store) (name : Name) : Option (List Byte) :=
  (storeFind s.slots name).map fun i => (s.slots i).contents

end SlowBus.Config
