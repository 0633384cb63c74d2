import SlowBus.Config.Service

/-!
# The file bank

The registers through which a master opens a file by name and reads it, and the command
that erases the whole store. Together with the device of the commits these are all the
ways to the files.
-/

namespace SlowBus.Config

open Bus (Byte)
open Runs (run Along)

def regStoreStat : Byte := 0x45
def regFileName : Byte := 0x50
def regFileCtrl : Byte := 0x51
def regFileStat : Byte := 0x52
def regFileSize : Byte := 0x53
def regFileSeek : Byte := 0x54
def regFileData : Byte := 0x55

/-- The bytes of a name are numbered from zero. -/
instance nameIdx_neZero : NeZero 4 := ⟨by decide⟩

/-- The cursors of the bank. `slot` is none for a file that is closed or not found. -/
structure FileBank where
  name : Name := Vector.replicate 4 0
  nameIdx : Fin 4 := 0
  slot : Option SlotId := none
  off : Byte := 0
  listI : Byte := 0

/-- A device and its file bank. -/
structure Client extends Device where
  bank : FileBank := {}

/-- `file_list_advance` -/
def Client.fileListAdvance (c : Client) (fromStart : Bool) : Client :=
  let start : Byte := if fromStart then 0 else c.bank.listI + 1
  let found := (List.finRange storeSlots).find? fun i =>
    start.toNat ≤ i.val && (c.store.slots i).used
  match found with
  | some i =>
      { c with bank := { c.bank with
          name := (c.store.slots i).name
          nameIdx := 0
          slot := some i
          off := 0
          listI := .ofNat 8 i.val } }
  | none =>
      { c with bank := { c.bank with
          nameIdx := 0
          slot := none
          off := 0
          listI := if start.toNat < storeSlots then .ofNat 8 storeSlots else start } }

def Client.fileCtrl (c : Client) (val : Byte) : Client :=
  if val = 0x01 then
    { c with bank := { c.bank with
        slot := storeFind c.store.slots c.bank.name
        off := 0
        nameIdx := 0 } }
  else if val = 0x02 then { c with bank := { c.bank with slot := none } }
  else if val = 0x03 then c.fileListAdvance true
  else if val = 0x04 then c.fileListAdvance false
  else c

/-- `i2c_reg_write`, with the registers of the file bank. -/
def Client.regWrite (c : Client) (reg val : Byte) : Client :=
  if reg = regFileName then
    { c with bank := { c.bank with
        name := c.bank.name.set c.bank.nameIdx.val val
        nameIdx := c.bank.nameIdx + 1 } }
  else if reg = regFileCtrl then c.fileCtrl val
  else if reg = regFileSeek then
    if val ≤ storeDataMax then { c with bank := { c.bank with off := val } } else c
  else { c with toDevice := c.toDevice.regWrite reg val }

def Slot.byteAt (s : Slot) (off : Byte) : Byte := s.data.toList.getD off.toNat 0xFF

/-- `i2c_reg_read`, for the windows of the store. -/
def Client.regRead (c : Client) (reg : Byte) : Byte × Client :=
  if reg = regRecSel then (c.recSel, c)
  else if reg = regRecLen then
    (match c.selected with
      | some i => (c.store.slots i).len
      | none => 0, c)
  else if reg = regRecOff then (c.recOff, c)
  else if reg = regRecData then
    let v :=
      match c.selected with
      | some i => if c.recOff < storeDataMax then (c.store.slots i).byteAt c.recOff else 0xFF
      | none => 0xFF
    (v, if c.recOff < storeDataMax then { c with recOff := c.recOff + 1 } else c)
  else if reg = regStoreStat then (c.status, c)
  else if reg = regSetAddr then (0, c)
  else if reg = regFileName then
    (c.bank.name.get c.bank.nameIdx, { c with bank := { c.bank with nameIdx := c.bank.nameIdx + 1 } })
  else if reg = regFileStat then (if c.bank.slot.isSome then 0 else 1, c)
  else if reg = regFileSize then
    (match c.bank.slot with
      | some i => (c.store.slots i).len
      | none => 0, c)
  else if reg = regFileData then
    match c.bank.slot with
    | some i =>
        if c.bank.off < (c.store.slots i).len then
          ((c.store.slots i).byteAt c.bank.off, { c with bank := { c.bank with off := c.bank.off + 1 } })
        else (0xFF, c)
    | none => (0xFF, c)
  else (0xFF, c)

/-! ## The whole store erased -/

/-- The rows `cmd_file_format` erases: those whose first word is not blank. -/
def formatRows (flash : Flash) : List Row :=
  (List.finRange storeRows).filter fun r => (flash r).magic != 0xFFFFFFFF

def eraseRows (flash : Flash) (rows : List Row) : Flash :=
  (rows.map FlashCmd.erase).foldl FlashCmd.apply flash

def Store.format (s : Store) : Store :=
  { s with flash := eraseRows s.flash (formatRows s.flash) }.load

/-- `cmd_file_format` -/
def Device.fileFormat (d : Device) (args : List Byte) : Device × ShellStatus :=
  if !d.offline then (d, .busy)
  else if !args.isEmpty then (d, .badArgs)
  else
    let status := (d.status ||| 0x01) &&& ~~~0x01
    ({ d with status, store := d.store.format, fileWrSlot := none }, .ok)

/-! ## What happens to a client -/

inductive ClientEvent where
  | service
  | regWrite (reg val : Byte)
  | regRead (reg : Byte)
  | fileBegin (args : List Byte)
  | fileData (args : List Byte)
  | fileCommit (args : List Byte)
  | fileFormat (args : List Byte)
  | goOffline
  deriving DecidableEq, Repr

def Client.next (c : Client) : ClientEvent → Client
  | .service => { c with toDevice := c.service }
  | .regWrite reg val => c.regWrite reg val
  | .regRead reg => (c.regRead reg).2
  | .fileBegin args => { c with toDevice := (c.fileBegin args).1 }
  | .fileData args => { c with toDevice := (c.fileData args).1 }
  | .fileCommit args => { c with toDevice := (c.fileCommit args).1 }
  | .fileFormat args => { c with toDevice := (c.fileFormat args).1 }
  | .goOffline => { c with offline := true }

/-- A client after a reboot, with what its flash holds. -/
def Client.boot (s : Store) : Client := { toDevice := Device.boot s.reboot }

/-! ## What a slot says of its file -/

/-- What a slot says of its file: whether there is one, its name, bytes and length. -/
def Slot.file (s : Slot) : Bool × Name × Vector Byte 240 × Byte := (s.used, s.name, s.data, s.len)

section Files

variable {slots slots' : Slots} {s t : Slot} {i : SlotId} {name : Name}

theorem file_eq_iff : s.file = t.file ↔
    s.used = t.used ∧ s.name = t.name ∧ s.data = t.data ∧ s.len = t.len := by
  simp [Slot.file]

theorem contents_congr (h : s.file = t.file) : s.contents = t.contents := by
  obtain ⟨_, _, hdata, hlen⟩ := file_eq_iff.mp h
  rw [Slot.contents, Slot.contents, hdata, hlen]

theorem storeFind_congr (h : ∀ j, (slots j).used = (slots' j).used ∧ (slots j).name = (slots' j).name)
    (name : Name) : storeFind slots name = storeFind slots' name := by
  have hsame : (fun j => (slots j).used && (slots j).name == name) =
      fun j => (slots' j).used && (slots' j).name == name := by
    funext j
    rw [(h j).1, (h j).2]
  rw [storeFind, storeFind, hsame]

theorem lookup_congr {s t : Store} (h : ∀ j, (s.slots j).file = (t.slots j).file) (name : Name) :
    s.lookup name = t.lookup name := by
  have hfind := storeFind_congr (fun j => ⟨(file_eq_iff.mp (h j)).1, (file_eq_iff.mp (h j)).2.1⟩) name
  have hcontents : (fun j => (s.slots j).contents) = fun j => (t.slots j).contents := by
    funext j
    exact contents_congr (h j)
  rw [Store.lookup, Store.lookup, hfind, hcontents]

theorem file_set (h : t.file = (slots i).file) (j : SlotId) :
    (slots.set i t j).file = (slots j).file := by
  by_cases hji : j = i
  · subst hji
    rw [Slots.set_self, h]
  · rw [Slots.set_of_ne hji]

/-- A commit changes no file. -/
theorem file_commit (s : Store) (slot : Nat) (j : SlotId) :
    ((s.commit slot).1.slots j).file = (s.slots j).file := by
  have hcase := commit_case s slot
  generalize s.commit slot = result at hcase
  cases hcase with
  | refused | failed => rfl
  | same i | done i => exact file_set (by simp only [Slot.file]) j

theorem file_service (d : Device) (j : SlotId) :
    (d.service.store.slots j).file = (d.store.slots j).file := by
  unfold Device.service
  split
  case h_3 slot _ => exact file_commit d.store slot j
  all_goals rfl

end Files

/-! ## The bank reads the files only -/

section Bank

variable {c : Client}

theorem fileListAdvance_opens (c : Client) (fromStart : Bool) :
    (c.fileListAdvance fromStart).toDevice = c.toDevice ∧
      ∀ i, (c.fileListAdvance fromStart).bank.slot = some i → (c.store.slots i).used = true := by
  unfold Client.fileListAdvance
  dsimp only
  split
  next j hfind =>
    refine ⟨rfl, fun i hi => ?_⟩
    obtain rfl := Option.some_inj.mp hi
    have hj := List.find?_some hfind
    simp only [Bool.and_eq_true] at hj
    exact hj.2
  next => exact ⟨rfl, fun i hi => by cases hi⟩

theorem fileCtrl_opens (c : Client) (val : Byte) :
    (c.fileCtrl val).toDevice = c.toDevice ∧ ∀ i, (c.fileCtrl val).bank.slot = some i →
      c.bank.slot = some i ∨ (c.store.slots i).used = true := by
  have hadvance := fileListAdvance_opens c
  unfold Client.fileCtrl
  split
  next => exact ⟨rfl, fun i hi => Or.inr (storeFind_some hi).1⟩
  next =>
    split
    next => exact ⟨rfl, fun i hi => by cases hi⟩
    next =>
      split
      next => exact ⟨(hadvance true).1, fun i hi => Or.inr ((hadvance true).2 i hi)⟩
      next =>
        split
        next => exact ⟨(hadvance false).1, fun i hi => Or.inr ((hadvance false).2 i hi)⟩
        next => exact ⟨rfl, fun i hi => Or.inl hi⟩

/-- Only cursors differ. -/
structure Client.MovesTo (c c' : Client) : Prop where
  device : c'.toDevice = { c.toDevice with recOff := c'.recOff }
  opened : c'.bank.slot = c.bank.slot

theorem Client.MovesTo.ite {p : Prop} [Decidable p] {x y : Byte × Client} (hx : c.MovesTo x.2)
    (hy : c.MovesTo y.2) : c.MovesTo (if p then x else y).2 := by
  split
  next => exact hx
  next => exact hy

theorem movesTo_regRead (c : Client) (reg : Byte) : c.MovesTo (c.regRead reg).2 := by
  have hself : c.MovesTo c := ⟨rfl, rfl⟩
  unfold Client.regRead
  refine .ite hself <| .ite hself <| .ite hself <| .ite ?_ <| .ite hself <| .ite hself <|
    .ite ⟨rfl, rfl⟩ <| .ite hself <| .ite hself <| .ite ?_ hself
  · dsimp only
    split <;> exact ⟨rfl, rfl⟩
  · split
    next => exact .ite ⟨rfl, rfl⟩ hself
    next => exact hself

end Bank

end SlowBus.Config
