import SlowBus.Config.FileBank
import SlowBus.Config.PowerSafe

/-!
# Files being written

A file is begun by name, its bytes are sent, and it is committed. The commands are for a
file that nobody sees before it is committed. The bytes go straight into the shadow of
the file, and a new name takes a slot at once, so that this holds only as long as each
name begun is there already and each byte sent repeats the one it overwrites.
-/

namespace SlowBus.Config

open Bus (Byte)
open Runs (run Along)

/-! ## What the commands are for -/

/-- The files committed, and the one being written. -/
structure Files where
  committed : Name → Option (List Byte)
  staged : Option (Name × List Byte) := none

def nameOf (args : List Byte) : Name :=
  if h : args.length = 4 then ⟨args.toArray, h⟩ else Vector.replicate 4 0

/-- What a command does when it is accepted. -/
def Files.next (f : Files) (e : ClientEvent) (accepted : Bool) : Files :=
  if !accepted then f
  else
    match e with
    | .fileBegin args => { f with staged := some (nameOf args, []) }
    | .fileData args => { f with staged := f.staged.map fun s => (s.1, s.2 ++ args) }
    | .fileCommit _ =>
        match f.staged with
        | some (name, bytes) =>
            { committed := Function.update f.committed name (some bytes), staged := none }
        | none => f
    | _ => f

def Client.accepts (c : Client) : ClientEvent → Bool
  | .fileBegin args => (c.fileBegin args).2 == .ok
  | .fileData args => (c.fileData args).2 == .ok
  | .fileCommit args => (c.fileCommit args).2 == .ok
  | _ => false

/-- A client and the files it should show take a step. -/
def stageNext (p : Client × Files) (e : ClientEvent) : Client × Files :=
  (p.1.next e, p.2.next e (p.1.accepts e))

def stageStart (s : Store) : Client × Files := (Client.boot s, { committed := s.reboot.lookup })

/-- An event of the file commands, the file bank or the main loop; no other register of
the store is written. -/
def ClientEvent.OfFiles : ClientEvent → Prop
  | .regWrite reg _ => regFileName ≤ reg ∧ reg ≤ regFileData
  | .fileFormat _ => False
  | _ => True

/-! ## Reading a file -/

/-- A file is opened by name. The first write puts the name cursor back to its start. -/
def openFile (name : Name) : List (Byte × Byte) :=
  (regFileCtrl, 0x01) :: name.toList.map (regFileName, ·) ++ [(regFileCtrl, 0x01)]

def Client.writes (c : Client) (ws : List (Byte × Byte)) : Client :=
  ws.foldl (fun c w => c.regWrite w.1 w.2) c

/-- Bytes read from the data port. -/
def Client.readBytes (c : Client) : Nat → List Byte
  | 0 => []
  | n + 1 => (c.regRead regFileData).1 :: (c.regRead regFileData).2.readBytes n

/-- What a master finds under a name. -/
def Client.readFile (c : Client) (name : Name) : Option (List Byte) :=
  let c := c.writes (openFile name)
  if (c.regRead regFileStat).1 = 0 then some (c.readBytes (c.regRead regFileSize).1.toNat)
  else none

/-- What is committed is what is read, what the file open at the bank gives, what takes
slots, and what goes to the flash. -/
structure Client.Shows (c : Client) (f : Files) : Prop where
  read : ∀ name, c.readFile name = f.committed name
  opened : ∀ i, c.bank.slot = some i → ∃ bytes, f.committed (c.store.slots i).name = some bytes ∧
    (c.regRead regFileSize).1 = .ofNat 8 bytes.length ∧
      (c.regRead regFileData).1 = bytes.getD c.bank.off.toNat 0xFF
  slots : ∀ i, (c.store.slots i).used = true → f.committed (c.store.slots i).name ≠ none
  saved : ∀ i : SlotId, c.phase = .writing i.val → (c.store.slots i).used = true →
    f.committed (c.store.slots i).name = some (c.store.slots i).entry.contents

/-- A name begun is there already, unless the bank is full. -/
def Device.BeginsKnown (d : Device) (args : List Byte) : Prop :=
  ∀ h : args.length = 4, d.offline = true →
    storeFind d.store.slots ⟨args.toArray, h⟩ = none → ∀ i, (d.store.slots i).used = true

/-- A byte sent that falls within the file repeats the byte there. -/
def Device.SendsSame (d : Device) (args : List Byte) : Prop :=
  d.offline = true → ∀ i, d.fileWrSlot = some i → d.fileWrLen + args.length ≤ 240 →
    ∀ k < args.length, d.fileWrLen + k < (d.store.slots i).len.toNat →
      (d.store.slots i).data.toList[d.fileWrLen + k]? = args[k]?

/-- The commands keep to what is in the files already. -/
def Client.Repeats (c : Client) : ClientEvent → Prop
  | .fileBegin args => c.BeginsKnown args
  | .fileData args => c.SendsSame args
  | _ => True

section Reading

variable {c : Client} {i : SlotId} {name : Name}

theorem length_contents {s : Slot} (h : s.len ≤ storeDataMax) :
    s.contents.length = s.len.toNat := by
  have hlen : s.len.toNat ≤ 240 := h
  simp [Slot.contents, hlen]

theorem byteAt_contents {s : Slot} {off : Byte} (h : off < s.len) :
    s.byteAt off = s.contents.getD off.toNat 0xFF := by
  have hoff : off.toNat < s.len.toNat := h
  rw [Slot.byteAt, Slot.contents, List.getD_eq_getElem?_getD, List.getD_eq_getElem?_getD,
    List.getElem?_take_of_lt hoff]

/-- The data port gives the bytes of the open file, and 0xFF behind them. -/
theorem read_data (hslot : c.bank.slot = some i) (hroom : (c.store.slots i).len ≤ storeDataMax) :
    (c.regRead regFileData).1 = (c.store.slots i).contents.getD c.bank.off.toNat 0xFF := by
  have hread : c.regRead regFileData = if c.bank.off < (c.store.slots i).len then
      ((c.store.slots i).byteAt c.bank.off,
        { c with bank := { c.bank with off := c.bank.off + 1 } })
      else (0xFF, c) := by
    simp [Client.regRead, regFileData, regRecSel, regRecLen, regRecOff, regRecData, regStoreStat,
      regSetAddr, regFileName, regFileStat, regFileSize, hslot]
  rw [hread]
  split
  next hoff => exact byteAt_contents hoff
  next hoff =>
    have hle : (c.store.slots i).contents.length ≤ c.bank.off.toNat := by
      rw [length_contents hroom]
      exact BitVec.not_lt.mp hoff
    rw [List.getD_eq_getElem?_getD, List.getElem?_eq_none hle]
    rfl

theorem read_size (hslot : c.bank.slot = some i) :
    (c.regRead regFileSize).1 = (c.store.slots i).len := by
  simp [Client.regRead, regFileSize, regRecSel, regRecLen, regRecOff, regRecData, regStoreStat,
    regSetAddr, regFileName, regFileStat, hslot]

theorem read_stat : (c.regRead regFileStat).1 = if c.bank.slot.isSome then 0 else 1 := by
  simp [Client.regRead, regFileStat, regRecSel, regRecLen, regRecOff, regRecData, regStoreStat,
    regSetAddr, regFileName]

/-- After a byte is read within the file the cursor is behind it. -/
theorem read_data_next (hslot : c.bank.slot = some i)
    (hoff : c.bank.off.toNat < (c.store.slots i).len.toNat) :
    (c.regRead regFileData).2 = { c with bank := { c.bank with off := c.bank.off + 1 } } := by
  have hlt : c.bank.off < (c.store.slots i).len := hoff
  simp [Client.regRead, regFileData, regRecSel, regRecLen, regRecOff, regRecData, regStoreStat,
    regSetAddr, regFileName, regFileStat, regFileSize, hslot, hlt]

theorem readBytes_eq (hslot : c.bank.slot = some i) (hroom : (c.store.slots i).len ≤ storeDataMax)
    {n : Nat} (hn : c.bank.off.toNat + n ≤ (c.store.slots i).len.toNat) :
    c.readBytes n = ((c.store.slots i).contents.drop c.bank.off.toNat).take n := by
  induction n generalizing c with
  | zero => simp [Client.readBytes]
  | succ n ih =>
      have hoff : c.bank.off.toNat < (c.store.slots i).len.toNat := by omega
      have hlt : c.bank.off.toNat < (c.store.slots i).contents.length := by
        rwa [length_contents hroom]
      have hnext : (c.bank.off + 1).toNat = c.bank.off.toNat + 1 := by
        have hbyte := (c.store.slots i).len.isLt
        rw [BitVec.toNat_add]
        exact Nat.mod_eq_of_lt (by show _ + 1 < _; omega)
      rw [Client.readBytes, read_data hslot hroom, read_data_next hslot hoff]
      rw [ih (c := { c with bank := { c.bank with off := c.bank.off + 1 } }) hslot hroom
        (by simp only [hnext]; omega)]
      simp only [hnext]
      rw [List.drop_eq_getElem_cons hlt, List.take_succ_cons, List.getD_eq_getElem?_getD,
        List.getElem?_eq_getElem hlt]
      rfl

theorem writes_openFile (c : Client) (name : Name) :
    c.writes (openFile name) = { c with bank := { c.bank with
      name
      nameIdx := 0
      slot := storeFind c.store.slots name
      off := 0 } } := by
  have hcases : ∀ k < 4, k = 0 ∨ k = 1 ∨ k = 2 ∨ k = 3 := by omega
  have hbytes : name.toList = [name[0], name[1], name[2], name[3]] := by
    apply List.ext_getElem
    · simp
    · intro k hk hk'
      rcases hcases k (by simpa using hk) with rfl | rfl | rfl | rfl <;> simp
  have hname : (((c.bank.name.set 0 name[0]).set 1 name[1]).set 2 name[2]).set 3 name[3] = name := by
    ext k hk
    rcases hcases k hk with rfl | rfl | rfl | rfl <;> simp
  have hctrl : regFileCtrl ≠ regFileName := by decide
  simp only [Client.writes, openFile, hbytes, List.map_cons, List.map_nil, List.cons_append,
    List.nil_append, List.foldl_cons, List.foldl_nil, Client.regWrite, hctrl, if_false, if_true,
    Client.fileCtrl]
  exact congrArg (fun n => ({ c with bank := { c.bank with
    name := n, nameIdx := 0, slot := storeFind c.store.slots n, off := 0 } } : Client)) hname

/-- What is read under a name is what the shadow has for it. -/
theorem readFile_eq (hroom : ∀ i, (c.store.slots i).len ≤ storeDataMax) :
    c.readFile name = c.store.lookup name := by
  rw [Client.readFile, writes_openFile, Store.lookup]
  dsimp only
  rw [read_stat]
  dsimp only
  cases hfind : storeFind c.store.slots name with
  | none => simp
  | some i =>
      have hopened : ∀ c' : Client, c'.bank.slot = some i → c'.bank.off = 0 → c'.store = c.store →
          c'.readBytes (c'.regRead regFileSize).1.toNat = (c.store.slots i).contents := by
        intro c' hslot hoff hstore
        have hroom' : (c'.store.slots i).len ≤ storeDataMax := hstore ▸ hroom i
        have hzero : c'.bank.off.toNat = 0 := by rw [hoff]; rfl
        rw [read_size hslot, readBytes_eq hslot hroom' (by omega), hzero, List.drop_zero,
          ← length_contents hroom', List.take_length, hstore]
      rw [if_pos (by simp)]
      exact congrArg some (hopened _ rfl rfl rfl)

end Reading

/-! ## Steps -/

/-- No two used slots have one name, and lengths stay within the buffers. -/
structure Slots.Tidy (slots : Slots) : Prop where
  names : ∀ i j, (slots i).used = true → (slots j).used = true →
    (slots i).name = (slots j).name → i = j
  room : ∀ i, (slots i).len ≤ storeDataMax

theorem Slots.Tidy.set {slots : Slots} {i : SlotId} {t : Slot} (h : slots.Tidy) (hroom : t.len ≤ storeDataMax)
    (hname : ∀ j, j ≠ i → (slots j).used = true → t.used = true → (slots j).name ≠ t.name) :
    (slots.set i t).Tidy := by
  refine ⟨fun j k hj hk heq => ?_, room_set h.room hroom⟩
  by_cases hji : j = i <;> by_cases hki : k = i
  · exact hji.trans hki.symm
  · subst hji
    rw [Slots.set_self] at hj heq
    rw [Slots.set_of_ne hki] at hk heq
    exact absurd heq.symm (hname k hki hk hj)
  · subst hki
    rw [Slots.set_of_ne hji] at hj heq
    rw [Slots.set_self] at hk heq
    exact absurd heq (hname j hji hj hk)
  · rw [Slots.set_of_ne hji] at hj heq
    rw [Slots.set_of_ne hki] at hk heq
    exact h.names j k hj hk heq

/-- The file being written has the bytes sent at the front of its slot. -/
def Device.Stages (d : Device) : Option (Name × List Byte) → Prop
  | none => d.fileWrSlot = none
  | some (name, bytes) => ∃ i, d.fileWrSlot = some i ∧ (d.store.slots i).used = true ∧
      (d.store.slots i).name = name ∧ d.fileWrLen = bytes.length ∧ bytes.length ≤ 240 ∧
        (d.store.slots i).data.toList.take bytes.length = bytes

structure Client.Sound (c : Client) (f : Files) : Prop where
  names : ∀ i j, (c.store.slots i).used = true → (c.store.slots j).used = true →
    (c.store.slots i).name = (c.store.slots j).name → i = j
  room : ∀ i, (c.store.slots i).len ≤ storeDataMax
  opened : ∀ i, c.bank.slot = some i → (c.store.slots i).used = true
  staged : c.Stages f.staged

/-- The shadow has for every name what is committed. -/
def Client.Agrees (c : Client) (f : Files) : Prop := ∀ name, c.store.lookup name = f.committed name

section Steps

variable {c : Client} {f : Files} {i : SlotId} {name : Name} {slots : Slots} {args : List Byte}

theorem Client.Sound.tidy (h : c.Sound f) : c.store.slots.Tidy := ⟨h.names, h.room⟩

theorem storeFind_used
    (hnames : ∀ i j, (slots i).used = true → (slots j).used = true →
      (slots i).name = (slots j).name → i = j)
    (hused : (slots i).used = true) : storeFind slots (slots i).name = some i := by
  cases hfind : storeFind slots (slots i).name with
  | none => exact absurd rfl (storeFind_none hfind hused)
  | some j =>
      obtain ⟨hj, hname⟩ := storeFind_some hfind
      rw [hnames j i hj hused hname]

theorem Client.Sound.lookup (h : c.Sound f) (hused : (c.store.slots i).used = true) :
    c.store.lookup (c.store.slots i).name = some (c.store.slots i).contents := by
  rw [Store.lookup, storeFind_used h.names hused]
  rfl

/-- Where the shadow has the files committed, all that is read is committed. -/
theorem shows_iff (h : c.Sound f) : c.Shows f ↔ c.Agrees f := by
  constructor
  · intro hshows name
    rw [← readFile_eq h.room, hshows.read]
  · intro hagrees
    have hcommitted : ∀ i, (c.store.slots i).used = true →
        f.committed (c.store.slots i).name = some (c.store.slots i).contents := by
      intro i hused
      rw [← hagrees, h.lookup hused]
    refine ⟨fun name => ?_, fun i hslot => ?_, fun i hused => ?_, fun i _ hused => ?_⟩
    · rw [readFile_eq h.room, hagrees]
    · refine ⟨_, hcommitted i (h.opened i hslot), ?_, read_data hslot (h.room i)⟩
      rw [read_size hslot, length_contents (h.room i)]
      simp
    · rw [hcommitted i hused]
      exact Option.some_ne_none _
    · rw [hcommitted i hused, entry_contents]

/-- The shadow with one slot edited has new contents for its name alone. -/
theorem lookup_editSlot {d : Device} {g : Slot → Slot}
    (hnames : ∀ i j, (d.store.slots i).used = true → (d.store.slots j).used = true →
      (d.store.slots i).name = (d.store.slots j).name → i = j)
    (hused : (d.store.slots i).used = true)
    (hg : (g (d.store.slots i)).used = (d.store.slots i).used ∧
      (g (d.store.slots i)).name = (d.store.slots i).name) (name : Name) :
    (d.editSlot i g).store.lookup name =
      Function.update d.store.lookup (d.store.slots i).name (some (g (d.store.slots i)).contents)
        name := by
  have hfind : storeFind (d.editSlot i g).store.slots name = storeFind d.store.slots name := by
    refine storeFind_congr (fun j => ?_) name
    show ((d.store.slots.set i _ j).used = _) ∧ ((d.store.slots.set i _ j).name = _)
    by_cases hji : j = i
    · subst hji
      rwa [Slots.set_self]
    · rw [Slots.set_of_ne hji]
      exact ⟨rfl, rfl⟩
  rw [Store.lookup, hfind]
  by_cases hname : name = (d.store.slots i).name
  · subst hname
    rw [Function.update_self, storeFind_used hnames hused]
    show some (d.store.slots.set i _ i).contents = _
    rw [Slots.set_self]
  · rw [Function.update_of_ne hname, Store.lookup]
    cases hfound : storeFind d.store.slots name with
    | none => rfl
    | some j =>
        have hji : j ≠ i := by
          rintro rfl
          exact hname (storeFind_some hfound).2.symm
        show some (d.store.slots.set i _ j).contents = _
        rw [Slots.set_of_ne hji]
        rfl

/-- Everything `cmd_file_begin` can do. -/
inductive BeginCase (d : Device) (args : List Byte) : Device × ShellStatus → Prop
  | refused (status : ShellStatus) (hstatus : status ≠ .ok) (hknown : d.BeginsKnown args) :
      BeginCase d args (d, status)
  | found (i : SlotId) (hknown : d.BeginsKnown args) (hused : (d.store.slots i).used = true)
      (hname : (d.store.slots i).name = nameOf args) :
      BeginCase d args ({ d with fileWrSlot := some i, fileWrLen := 0 }, .ok)
  | fresh (i : SlotId) (s : Slot) (hunknown : ¬ d.BeginsKnown args)
      (hfree : (d.store.slots i).used = false)
      (hnew : ∀ j, (d.store.slots j).used = true → (d.store.slots j).name ≠ nameOf args)
      (hused : s.used = true) (hname : s.name = nameOf args) (hlen : s.len = 0) :
      BeginCase d args
        ({ d with
          store := { d.store with slots := d.store.slots.set i s }
          fileWrSlot := some i
          fileWrLen := 0 }, .ok)

theorem begin_case (d : Device) (args : List Byte) : BeginCase d args (d.fileBegin args) := by
  unfold Device.fileBegin
  split
  next hon =>
    refine .refused _ (by decide) fun _ hoff => ?_
    rw [hoff] at hon
    cases hon
  next hon =>
    have hoff : d.offline = true := by simpa using hon
    split
    next h =>
      have hname : (⟨args.toArray, h⟩ : Name) = nameOf args := by rw [nameOf, dif_pos h]
      have hcase := alloc_case d.store.slots ⟨args.toArray, h⟩
      generalize storeAlloc d.store.slots ⟨args.toArray, h⟩ = result at hcase
      cases hcase with
      | full hfull hnew => exact .refused _ (by decide) fun _ _ _ => hfull
      | found i hused hname' =>
          exact .found i (fun _ _ hnone => absurd hname' (storeFind_none hnone hused)) hused
            (hname'.trans hname)
      | fresh i s hfree hnew hused hname' hlen =>
          refine .fresh i s (fun hknown => ?_) hfree (hname ▸ hnew) hused (hname'.trans hname) hlen
          have hnone : storeFind d.store.slots ⟨args.toArray, h⟩ = none := by
            rw [storeFind, List.find?_eq_none]
            intro j _ hj
            simp only [Bool.and_eq_true, beq_iff_eq] at hj
            exact hnew j hj.1 hj.2
          have hused' := hknown h hoff hnone i
          rw [hfree] at hused'
          cases hused'
    next h => exact .refused _ (by decide) fun h' => absurd h' h

/-- Everything `cmd_file_data` can do. -/
inductive DataCase (d : Device) (args : List Byte) : Device × ShellStatus → Prop
  | refused (status : ShellStatus) (hstatus : status ≠ .ok) (hsame : d.SendsSame args) :
      DataCase d args (d, status)
  | sent (i : SlotId) (hoff : d.offline = true) (hslot : d.fileWrSlot = some i)
      (hfits : d.fileWrLen + args.length ≤ 240) :
      DataCase d args ({ d.editSlot i (·.putChunk d.fileWrLen args) with
        fileWrLen := d.fileWrLen + args.length }, .ok)

theorem data_case (d : Device) (args : List Byte) : DataCase d args (d.fileData args) := by
  unfold Device.fileData
  split
  next hon =>
    refine .refused _ (by decide) fun hoff => ?_
    rw [hoff] at hon
    cases hon
  next hon =>
    split
    next hslot => exact .refused _ (by decide) fun _ i hi => by rw [hslot] at hi; cases hi
    next i hslot =>
      split
      next hlong =>
        exact .refused _ (by decide) fun _ _ _ hfits => absurd hfits (Nat.not_le.mpr hlong)
      next hfits => exact .sent i (by simpa using hon) hslot (Nat.not_lt.mp hfits)

/-- Everything `cmd_file_commit` can do. -/
inductive PublishCase (d : Device) : Device × ShellStatus → Prop
  | refused (status : ShellStatus) (hstatus : status ≠ .ok) : PublishCase d (d, status)
  | done (i : SlotId) (hslot : d.fileWrSlot = some i) :
      PublishCase d ({ (d.editSlot i ({ · with len := .ofNat 8 d.fileWrLen, dirty := true })).request i
        with fileWrSlot := none }, .ok)

theorem publish_case (d : Device) (args : List Byte) : PublishCase d (d.fileCommit args) := by
  unfold Device.fileCommit
  split
  next => exact .refused _ (by decide)
  next =>
    split
    next => exact .refused _ (by decide)
    next =>
      split
      next => exact .refused _ (by decide)
      next i hslot => exact .done i hslot

/-! ## The bytes of a chunk -/

@[simp] theorem putChunk_used (s : Slot) (off : Nat) (chunk : List Byte) :
    (s.putChunk off chunk).used = s.used := by simp only [Slot.putChunk]

@[simp] theorem putChunk_name (s : Slot) (off : Nat) (chunk : List Byte) :
    (s.putChunk off chunk).name = s.name := by simp only [Slot.putChunk]

@[simp] theorem putChunk_len (s : Slot) (off : Nat) (chunk : List Byte) :
    (s.putChunk off chunk).len = s.len := by simp only [Slot.putChunk]

theorem putChunk_getElem (s : Slot) {off : Nat} {chunk : List Byte} (hfits : off + chunk.length ≤ 240)
    (j : Nat) : (s.putChunk off chunk).data.toList[j]? =
      if off ≤ j ∧ j < off + chunk.length then chunk[j - off]? else s.data.toList[j]? := by
  by_cases hj : j < 240
  · have hlen : j < (s.putChunk off chunk).data.toList.length := by simpa using hj
    rw [List.getElem?_eq_getElem hlen]
    have hput : (s.putChunk off chunk).data.toList[j] =
        if off ≤ j then chunk.getD (j - off) (s.data.get ⟨j, hj⟩) else s.data.get ⟨j, hj⟩ := by
      simp [Slot.putChunk]
    have hold : s.data.toList[j]? = some (s.data.get ⟨j, hj⟩) := by simp [hj]; rfl
    rw [hput, hold]
    by_cases hoff : off ≤ j
    · by_cases hend : j < off + chunk.length
      · have hk : j - off < chunk.length := by omega
        simp [hoff, hend, hk]
      · have hk : chunk.length ≤ j - off := by omega
        simp [hoff, hend, hk]
    · simp [hoff]
  · rw [if_neg (by omega), List.getElem?_eq_none (by simpa using hj),
      List.getElem?_eq_none (by simpa using hj)]

theorem putChunk_take (s : Slot) {off : Nat} {chunk : List Byte} (hfits : off + chunk.length ≤ 240) :
    (s.putChunk off chunk).data.toList.take (off + chunk.length) =
      s.data.toList.take off ++ chunk := by
  apply List.ext_getElem?
  intro j
  have hmin : (s.data.toList.take off).length = off := by simp; omega
  rw [List.getElem?_take, putChunk_getElem s hfits, List.getElem?_append, hmin, List.getElem?_take]
  by_cases hoff : j < off
  · simp [hoff, Nat.not_le.mpr hoff, show j < off + chunk.length by omega]
  · by_cases hend : j < off + chunk.length
    · simp [hoff, hend, Nat.not_lt.mp hoff]
    · rw [if_neg hend, if_neg hoff, List.getElem?_eq_none (by omega)]

/-- A chunk leaves the contents of a file as they are if and only if its bytes within
the file are there already. -/
theorem putChunk_contents (s : Slot) {off : Nat} {chunk : List Byte}
    (hfits : off + chunk.length ≤ 240) :
    (s.putChunk off chunk).contents = s.contents ↔ ∀ k < chunk.length,
      off + k < s.len.toNat → s.data.toList[off + k]? = chunk[k]? := by
  have hget : ∀ (t : Slot) (j : Nat), t.contents[j]? =
      if j < t.len.toNat then t.data.toList[j]? else none := fun t j => List.getElem?_take
  constructor
  · intro heq k hk hlt
    have hj := congrArg (·[off + k]?) heq
    simp only [hget, putChunk_len, putChunk_getElem s hfits, hlt, if_true] at hj
    rw [if_pos (by omega), Nat.add_sub_cancel_left] at hj
    exact hj.symm
  · intro hsame
    apply List.ext_getElem?
    intro j
    rw [hget, hget, putChunk_len, putChunk_getElem s hfits]
    by_cases hlt : j < s.len.toNat
    · rw [if_pos hlt, if_pos hlt]
      split
      next hin =>
        have hk := hsame (j - off) (by omega) (by omega)
        rw [Nat.add_sub_cancel' hin.1] at hk
        exact hk.symm
      next => rfl
    · rw [if_neg hlt, if_neg hlt]

/-! ## What a step preserves -/

/-- A step that changes no file. -/
theorem sound_frame {c' : Client} (h : c.Sound f)
    (hfile : ∀ i, (c'.store.slots i).file = (c.store.slots i).file)
    (hslot : c'.fileWrSlot = c.fileWrSlot) (hlen : c'.fileWrLen = c.fileWrLen)
    (hopen : ∀ i, c'.bank.slot = some i → (c.store.slots i).used = true) :
    c'.Sound f ∧ (c'.Agrees f ↔ c.Agrees f) := by
  have hsame : ∀ i, (c'.store.slots i).used = (c.store.slots i).used ∧
      (c'.store.slots i).name = (c.store.slots i).name ∧
      (c'.store.slots i).data = (c.store.slots i).data ∧
      (c'.store.slots i).len = (c.store.slots i).len := fun i => file_eq_iff.mp (hfile i)
  refine ⟨⟨fun i j hi hj hname => ?_, fun i => ?_, fun i hi => ?_, ?_⟩, ?_⟩
  · rw [(hsame i).1] at hi
    rw [(hsame j).1] at hj
    rw [(hsame i).2.1, (hsame j).2.1] at hname
    exact h.names i j hi hj hname
  · rw [(hsame i).2.2.2]
    exact h.room i
  · rw [(hsame i).1]
    exact hopen i hi
  · have hstaged := h.staged
    cases hf : f.staged with
    | none =>
        rw [hf] at hstaged
        exact hslot.trans hstaged
    | some s =>
        rw [hf] at hstaged
        obtain ⟨i, hi, hused, hname, hbytes, hle, htake⟩ := hstaged
        refine ⟨i, hslot.trans hi, ?_, ?_, hlen.trans hbytes, hle, ?_⟩
        · rwa [(hsame i).1]
        · rwa [(hsame i).2.1]
        · rwa [(hsame i).2.2.1]
  · unfold Client.Agrees
    simp only [lookup_congr hfile]

/-- A step keeps the invariant, and keeps what is seen to what is committed if and only
if it repeats what is there. -/
def Client.Follows (c : Client) (f : Files) (e : ClientEvent) : Prop :=
  (c.next e).Sound (f.next e (c.accepts e)) ∧
    (c.Agrees f → ((c.next e).Agrees (f.next e (c.accepts e)) ↔ c.Repeats e))

theorem follows_frame {e : ClientEvent} (h : c.Sound f) (haccepts : c.accepts e = false)
    (hrepeats : c.Repeats e)
    (hfile : ∀ i, ((c.next e).store.slots i).file = (c.store.slots i).file)
    (hslot : (c.next e).fileWrSlot = c.fileWrSlot) (hlen : (c.next e).fileWrLen = c.fileWrLen)
    (hopen : ∀ i, (c.next e).bank.slot = some i → (c.store.slots i).used = true) :
    c.Follows f e := by
  have hstay : f.next e (c.accepts e) = f := by rw [haccepts]; rfl
  rw [Client.Follows, hstay]
  obtain ⟨hsound, hagrees⟩ := sound_frame h hfile hslot hlen hopen
  exact ⟨hsound, fun ha => iff_of_true (hagrees.mpr ha) hrepeats⟩

theorem follows_begin (h : c.Sound f) (args : List Byte) : c.Follows f (.fileBegin args) := by
  have hcase := begin_case c.toDevice args
  have hnext : c.next (.fileBegin args) = { c with toDevice := (c.fileBegin args).1 } := rfl
  have haccepts : c.accepts (.fileBegin args) = ((c.fileBegin args).2 == .ok) := rfl
  generalize c.fileBegin args = result at hcase hnext haccepts
  cases hcase with
  | refused status hstatus hknown =>
      exact follows_frame h (by rw [haccepts]; simpa using hstatus) hknown
        (fun i => by rw [hnext]) (by rw [hnext]) (by rw [hnext])
        (fun i hi => h.opened i (by rwa [hnext] at hi))
  | found i hknown hused hname =>
      rw [Client.Follows, hnext, haccepts]
      refine ⟨⟨h.names, h.room, h.opened, ?_⟩, fun ha => iff_of_true ha hknown⟩
      exact ⟨i, rfl, hused, hname, rfl, Nat.zero_le _, rfl⟩
  | fresh i s hunknown hfree hnew hused hname hlen =>
      rw [Client.Follows, hnext, haccepts]
      -- the new name is not taken
      have htidy : (c.store.slots.set i s).Tidy := by
        refine h.tidy.set (by rw [hlen]; decide) fun j _ hj _ => ?_
        rw [hname]
        exact hnew j hj
      refine ⟨⟨htidy.names, htidy.room, fun j hj => ?_, ?_⟩,
        fun ha => iff_of_false (fun ha' => ?_) hunknown⟩
      · dsimp only
        by_cases hji : j = i
        · rwa [hji, Slots.set_self]
        · rw [Slots.set_of_ne hji]
          exact h.opened j hj
      · refine ⟨i, rfl, ?_, ?_, rfl, Nat.zero_le _, rfl⟩
        · dsimp only
          rwa [Slots.set_self]
        · dsimp only
          rwa [Slots.set_self]
      · -- The new name is found, and nothing was ever committed under it.
        have hold : c.store.lookup (nameOf args) = none := by
          rw [Store.lookup, Option.map_eq_none_iff, storeFind, List.find?_eq_none]
          intro j _ hj
          simp only [Bool.and_eq_true, beq_iff_eq] at hj
          exact hnew j hj.1 hj.2
        have hnone := (ha' (nameOf args)).trans ((ha (nameOf args)).symm.trans hold)
        rw [Store.lookup, Option.map_eq_none_iff] at hnone
        refine storeFind_none hnone (i := i) ?_ ?_
        · dsimp only
          rwa [Slots.set_self]
        · dsimp only
          rwa [Slots.set_self]

/-- A slot edited under its own name, within its bytes. -/
theorem Client.Sound.edit {f' : Files} {d : Device} {g : Slot → Slot} (h : c.Sound f)
    (hstore : d.store = (c.editSlot i g).store)
    (hg : (g (c.store.slots i)).used = (c.store.slots i).used ∧
      (g (c.store.slots i)).name = (c.store.slots i).name)
    (hroom : (g (c.store.slots i)).len ≤ storeDataMax) (hstaged : d.Stages f'.staged) :
    Client.Sound { c with toDevice := d } f' := by
  have hslots : d.store.slots = c.store.slots.set i (g (c.store.slots i)) :=
    congrArg Store.slots hstore
  have htidy : d.store.slots.Tidy := by
    rw [hslots]
    refine h.tidy.set hroom fun j hji hj ht heq => hji ?_
    exact h.names j i hj (hg.1.symm.trans ht) (heq.trans hg.2)
  refine ⟨htidy.names, htidy.room, fun j hj => ?_, hstaged⟩
  dsimp only
  rw [hslots]
  by_cases hji : j = i
  · subst hji
    rw [Slots.set_self, hg.1]
    exact h.opened j hj
  · rw [Slots.set_of_ne hji]
    exact h.opened j hj

/-- The slot of the file being written, and what the files have staged. -/
theorem Client.Sound.writing (h : c.Sound f) (hslot : c.fileWrSlot = some i) :
    ∃ bytes, f.staged = some ((c.store.slots i).name, bytes) ∧ (c.store.slots i).used = true ∧
      c.fileWrLen = bytes.length ∧ bytes.length ≤ 240 ∧
        (c.store.slots i).data.toList.take bytes.length = bytes := by
  have hstaged := h.staged
  cases hf : f.staged with
  | none =>
      rw [hf] at hstaged
      cases hslot.symm.trans hstaged
  | some s =>
      rw [hf] at hstaged
      obtain ⟨j, hj, hused, hname, hrest⟩ := hstaged
      obtain rfl : i = j := Option.some_inj.mp (hslot.symm.trans hj)
      exact ⟨s.2, by rw [hname], hused, hrest⟩

theorem follows_data (h : c.Sound f) (args : List Byte) : c.Follows f (.fileData args) := by
  have hcase := data_case c.toDevice args
  have hnext : c.next (.fileData args) = { c with toDevice := (c.fileData args).1 } := rfl
  have haccepts : c.accepts (.fileData args) = ((c.fileData args).2 == .ok) := rfl
  generalize c.fileData args = result at hcase hnext haccepts
  cases hcase with
  | refused status hstatus hsame =>
      exact follows_frame h (by rw [haccepts]; simpa using hstatus) hsame
        (fun i => by rw [hnext]) (by rw [hnext]) (by rw [hnext])
        (fun i hi => h.opened i (by rwa [hnext] at hi))
  | sent i hoff hslot hfits =>
      obtain ⟨bytes, hf, hused, hlen, hle, htake⟩ := h.writing hslot
      have hstaged : (f.next (.fileData args) true).staged =
          some ((c.store.slots i).name, bytes ++ args) := by
        simp only [Files.next, Bool.not_true, Bool.false_eq_true, if_false, hf, Option.map_some]
      have hput := putChunk_take (c.store.slots i) hfits
      have hself : (c.editSlot i (·.putChunk c.fileWrLen args)).store.slots i =
          (c.store.slots i).putChunk c.fileWrLen args := Slots.set_self
      have hlookup := lookup_editSlot (g := (·.putChunk c.fileWrLen args)) h.names hused
        ⟨putChunk_used .., putChunk_name ..⟩
      rw [Client.Follows, hnext, haccepts]
      constructor
      · refine h.edit (i := i) (g := (·.putChunk c.fileWrLen args)) rfl
          ⟨putChunk_used .., putChunk_name ..⟩ ?_ ?_
        · rw [putChunk_len]
          exact h.room i
        · rw [beq_self_eq_true, hstaged]
          refine ⟨i, hslot, ?_, ?_, ?_, ?_, ?_⟩
          · exact (congrArg Slot.used hself).trans ((putChunk_used ..).trans hused)
          · exact (congrArg Slot.name hself).trans (putChunk_name ..)
          · rw [List.length_append, ← hlen]
          · rw [List.length_append, ← hlen]
            exact hfits
          · rw [List.length_append, ← hlen]
            refine (congrArg (fun t : Slot => t.data.toList.take _) hself).trans ?_
            rw [hput, hlen, htake]
      -- the committed files show the chunk exactly when it repeats what is stored
      · intro ha
        have hrepeats : c.Repeats (.fileData args) ↔
            ((c.store.slots i).putChunk c.fileWrLen args).contents = (c.store.slots i).contents := by
          rw [putChunk_contents _ hfits]
          refine ⟨fun hsame => hsame hoff i hslot hfits, fun hsame _ j hj _ => ?_⟩
          obtain rfl := Option.some_inj.mp (hslot.symm.trans hj)
          exact hsame
        have hold : f.committed (c.store.slots i).name = some (c.store.slots i).contents := by
          rw [← ha, h.lookup hused]
        rw [hrepeats]
        refine ⟨fun ha' => ?_, fun hsame name => ?_⟩
        · have hnew := (hlookup (c.store.slots i).name).symm.trans (ha' (c.store.slots i).name)
          rw [Function.update_self] at hnew
          exact Option.some_inj.mp (hnew.trans hold)
        · refine (hlookup name).trans ?_
          rw [hsame]
          by_cases hname : name = (c.store.slots i).name
          · subst hname
            rw [Function.update_self]
            exact hold.symm
          · rw [Function.update_of_ne hname]
            exact ha name

theorem follows_commit (h : c.Sound f) (args : List Byte) : c.Follows f (.fileCommit args) := by
  have hcase := publish_case c.toDevice args
  have hnext : c.next (.fileCommit args) = { c with toDevice := (c.fileCommit args).1 } := rfl
  have haccepts : c.accepts (.fileCommit args) = ((c.fileCommit args).2 == .ok) := rfl
  generalize c.fileCommit args = result at hcase hnext haccepts
  cases hcase with
  | refused status hstatus =>
      exact follows_frame h (by rw [haccepts]; simpa using hstatus) trivial
        (fun i => by rw [hnext]) (by rw [hnext]) (by rw [hnext])
        (fun i hi => h.opened i (by rwa [hnext] at hi))
  | done i hslot =>
      obtain ⟨bytes, hf, hused, hlen, hle, htake⟩ := h.writing hslot
      have hfiles : f.next (.fileCommit args) true =
          { committed := Function.update f.committed (c.store.slots i).name (some bytes) } := by
        simp only [Files.next, Bool.not_true, Bool.false_eq_true, if_false, hf]
      have hbyte : (BitVec.ofNat 8 c.fileWrLen : Byte).toNat = bytes.length := by
        rw [hlen, BitVec.toNat_ofNat]
        exact Nat.mod_eq_of_lt (by omega)
      rw [Client.Follows, hnext, haccepts, beq_self_eq_true, hfiles]
      constructor
      · refine h.edit (i := i) (g := ({ · with len := .ofNat 8 c.fileWrLen, dirty := true })) rfl
          ⟨rfl, rfl⟩ ?_ rfl
        show (BitVec.ofNat 8 c.fileWrLen).toNat ≤ 240
        rwa [hbyte]
      · intro ha
        refine iff_of_true (fun name => ?_) trivial
        refine (lookup_editSlot (g := ({ · with len := .ofNat 8 c.fileWrLen, dirty := true }))
          h.names hused ⟨rfl, rfl⟩ name).trans ?_
        have hcontents : Slot.contents { c.store.slots i with
            len := .ofNat 8 c.fileWrLen, dirty := true } = bytes := by
          rw [Slot.contents, hbyte, htake]
        rw [hcontents]
        by_cases hname : name = (c.store.slots i).name
        · subst hname
          rw [Function.update_self]
          exact (Function.update_self (f := f.committed) ..).symm
        · rw [Function.update_of_ne hname]
          exact (ha name).trans (Function.update_of_ne hname ..).symm

/-- Writes to the file bank open files that are there. -/
theorem bank_regWrite (c : Client) {reg : Byte} (val : Byte)
    (hreg : regFileName ≤ reg ∧ reg ≤ regFileData) :
    (c.regWrite reg val).toDevice = c.toDevice ∧ ∀ i, (c.regWrite reg val).bank.slot = some i →
      c.bank.slot = some i ∨ (c.store.slots i).used = true := by
  have hsame : c.toDevice.regWrite reg val = c.toDevice := by
    have hlow : ∀ r : Byte, r < regFileName → reg ≠ r := by
      rintro r hr rfl
      exact absurd hr (BitVec.not_lt.mpr hreg.1)
    simp only [Device.regWrite, hlow regReset (by decide), hlow regRecSel (by decide),
      hlow regRecLen (by decide), hlow regRecOff (by decide), hlow regRecData (by decide),
      hlow regRecCtrl (by decide), hlow regSetAddr (by decide), if_false]
  unfold Client.regWrite
  rw [hsame]
  split
  next => exact ⟨rfl, fun i hi => Or.inl hi⟩
  next =>
    split
    next => exact fileCtrl_opens c val
    next =>
      split
      next =>
        split <;> exact ⟨rfl, fun i hi => Or.inl hi⟩
      next => exact ⟨rfl, fun i hi => Or.inl hi⟩

theorem follows {e : ClientEvent} (h : c.Sound f) (he : e.OfFiles) : c.Follows f e := by
  cases e with
  | fileFormat args => exact he.elim
  | fileBegin args => exact follows_begin h args
  | fileData args => exact follows_data h args
  | fileCommit args => exact follows_commit h args
  | goOffline => exact follows_frame h rfl trivial (fun _ => rfl) rfl rfl h.opened
  | service =>
      obtain ⟨hslot, hlen⟩ : c.service.fileWrSlot = c.fileWrSlot ∧
          c.service.fileWrLen = c.fileWrLen := by
        unfold Device.service
        split <;> exact ⟨rfl, rfl⟩
      exact follows_frame h rfl trivial (file_service c.toDevice) hslot hlen h.opened
  | regWrite reg val =>
      obtain ⟨hdevice, hopen⟩ := bank_regWrite c val he
      refine follows_frame h rfl trivial (fun i => ?_) ?_ ?_ fun i hi => ?_
      · exact congrArg (fun d : Device => (d.store.slots i).file) hdevice
      · exact congrArg Device.fileWrSlot hdevice
      · exact congrArg Device.fileWrLen hdevice
      · exact (hopen i hi).elim (h.opened i) id
  | regRead reg =>
      have hmoves := movesTo_regRead c reg
      refine follows_frame h rfl trivial (fun i => ?_) ?_ ?_ fun i hi => ?_
      · exact (congrArg (fun d : Device => (d.store.slots i).file) hmoves.device :)
      · exact (congrArg Device.fileWrSlot hmoves.device :)
      · exact (congrArg Device.fileWrLen hmoves.device :)
      · exact h.opened i (hmoves.opened ▸ hi)

end Steps

/-! ## The scan at boot -/

section Boot

variable {slots : Slots}

theorem tidy_alloc (h : slots.Tidy) (name : Name) : (storeAlloc slots name).1.Tidy := by
  have hcase := alloc_case slots name
  generalize storeAlloc slots name = result at hcase
  cases hcase with
  | found | full => exact h
  | fresh i s _ hnew _ hname hlen =>
      refine h.set (by rw [hlen]; decide) fun j _ hj _ => ?_
      rw [hname]
      exact hnew j hj

theorem tidy_scanRow (flash : Flash) (h : slots.Tidy) (r : Row) : (scanRow flash slots r).Tidy := by
  unfold scanRow
  dsimp only
  split
  next => exact h
  next hvalid =>
    have hlen : (flash r).len ≤ storeDataMax := by
      simp [Entry.valid] at hvalid
      exact hvalid.1.2
    have halloc := tidy_alloc h (flash r).name
    generalize storeAlloc slots (flash r).name = result at halloc
    obtain ⟨slots', o⟩ := result
    cases o with
    | none => exact halloc
    | some i =>
        dsimp only
        split
        next =>
          refine halloc.set hlen fun j hji hj ht heq => hji ?_
          exact halloc.names j i hj ht heq
        next => exact halloc

theorem tidy_scan (flash : Flash) (slots : Slots) : (scan flash slots).Tidy := by
  have hfold : ∀ (rows : List Row) (slots : Slots), slots.Tidy →
      (rows.foldl (scanRow flash) slots).Tidy := by
    intro rows
    induction rows with
    | nil => exact fun _ h => h
    | cons r rows ih => exact fun slots h => ih _ (tidy_scanRow flash h r)
  unfold scan
  refine hfold _ _ ⟨fun i _ hi => ?_, fun _ => ?_⟩
  · cases hi
  · show (0 : Byte) ≤ storeDataMax
    decide

end Boot

/-! ## A file being written is not seen -/

theorem sound_boot (s : Store) : (stageStart s).1.Sound (stageStart s).2 :=
  have htidy := tidy_scan s.flash fun _ => {}
  { names := htidy.names, room := htidy.room, opened := fun _ hi => (by cases hi), staged := rfl }

theorem agrees_boot (s : Store) : (stageStart s).1.Agrees (stageStart s).2 := fun _ => rfl

/-- From a boot with any flash, through all file commands, accepted or not, reads of the
file bank and flash writes in any order: every name is read as it was committed last,
the file open at the bank gives those bytes too, no other name takes a slot, and what is
written to the flash is what was committed; all this at every point if and only if each
name begun is there already and each byte sent within a file repeats the one there. -/
theorem staging_unseen (s : Store) (es : List ClientEvent) (hes : ∀ e ∈ es, e.OfFiles) :
    (∀ as, as <+: es →
      (run stageNext (stageStart s) as).1.Shows (run stageNext (stageStart s) as).2) ↔
      Along Client.next Client.Repeats (Client.boot s) es := by
  have hgen : ∀ p : Client × Files, p.1.Sound p.2 → p.1.Agrees p.2 →
      ((∀ as, as <+: es → (run stageNext p as).1.Shows (run stageNext p as).2) ↔
        Along Client.next Client.Repeats p.1 es) := by
    induction es with
    | nil =>
        intro p hsound hagrees
        refine iff_of_true (fun as has => ?_) trivial
        rw [List.prefix_nil.mp has]
        exact (shows_iff hsound).mpr hagrees
    | cons e es ih =>
        intro p hsound hagrees
        obtain ⟨hsound', hstep⟩ := follows hsound (hes e (List.mem_cons_self ..))
        have htail := fun ha => ih (fun e' he' => hes e' (List.mem_cons_of_mem _ he'))
          (stageNext p e) hsound' ha
        constructor
        · intro hall
          have hagrees' : (stageNext p e).1.Agrees (stageNext p e).2 :=
            (shows_iff hsound').mp (hall [e] ⟨es, rfl⟩)
          refine ⟨(hstep hagrees).mp hagrees', (htail hagrees').mp fun as has => ?_⟩
          exact hall (e :: as) ((List.prefix_cons_inj e).mpr has)
        · rintro ⟨hrepeats, halong⟩ as has
          have hagrees' : (stageNext p e).1.Agrees (stageNext p e).2 := (hstep hagrees).mpr hrepeats
          cases as with
          | nil => exact (shows_iff hsound).mpr hagrees
          | cons e' as =>
              obtain ⟨rfl, has'⟩ := List.cons_prefix_cons.mp has
              exact (htail hagrees').mpr halong as has'
  exact hgen (stageStart s) (sound_boot s) (agrees_boot s)

/-! ## A file of one byte, written anew -/

instance Device.decidableBeginsKnown (d : Device) (args : List Byte) :
    Decidable (d.BeginsKnown args) :=
  inferInstanceAs (Decidable (∀ h : args.length = 4, d.offline = true →
    storeFind d.store.slots ⟨args.toArray, h⟩ = none → ∀ i : SlotId, (d.store.slots i).used = true))

instance Device.decidableSendsSame (d : Device) (args : List Byte) : Decidable (d.SendsSame args) :=
  inferInstanceAs (Decidable (d.offline = true → ∀ i : SlotId, d.fileWrSlot = some i →
    d.fileWrLen + args.length ≤ 240 →
      ∀ k < args.length, d.fileWrLen + k < (d.store.slots i).len.toNat →
        (d.store.slots i).data.toList[d.fileWrLen + k]? = args[k]?))

instance ClientEvent.decidableOfFiles : ∀ e, Decidable (ClientEvent.OfFiles e)
  | .regWrite reg _ => inferInstanceAs (Decidable (regFileName ≤ reg ∧ reg ≤ regFileData))
  | .fileFormat _ => isFalse id
  | .service | .regRead _ | .fileBegin _ | .fileData _ | .fileCommit _ | .goOffline =>
      isTrue trivial

instance Client.decidableRepeats (c : Client) : ∀ e, Decidable (c.Repeats e)
  | .fileBegin args => inferInstanceAs (Decidable (c.BeginsKnown args))
  | .fileData args => inferInstanceAs (Decidable (c.SendsSame args))
  | .service | .regWrite _ _ | .regRead _ | .fileCommit _ | .fileFormat _ | .goOffline =>
      isTrue trivial

/-- A store with a file of the byte 1. -/
def oneFile : Store := run Store.next Store.erased [.alloc fileName, editByte 1, .commit 0]

/-- The file is begun, some bytes are sent, and it is committed. -/
def writeFile (bytes : List Byte) : List ClientEvent :=
  [.goOffline, .fileBegin fileName.toList, .fileData bytes, .fileCommit [], .service, .service,
    .service, .service]

theorem staging_unseen_longer :
    Along Client.next Client.Repeats (Client.boot oneFile) (writeFile [1, 2]) ∧
      ∀ as, as <+: writeFile [1, 2] →
        (run stageNext (stageStart oneFile) as).1.Shows (run stageNext (stageStart oneFile) as).2 := by
  have hrepeats : Along Client.next Client.Repeats (Client.boot oneFile) (writeFile [1, 2]) := by
    decide +kernel
  exact ⟨hrepeats, (staging_unseen oneFile (writeFile [1, 2]) (by decide)).mpr hrepeats⟩

/-- A byte sent is read before it is committed. -/
theorem not_always_unseen :
    ¬ ∀ as, as <+: writeFile [2] →
      (run stageNext (stageStart oneFile) as).1.Shows (run stageNext (stageStart oneFile) as).2 := by
  intro hall
  have hread := (hall ((writeFile [2]).take 3) (List.take_prefix ..)).read fileName
  revert hread
  decide +kernel

end SlowBus.Config
