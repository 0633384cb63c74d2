import SlowBus.Config.Staging

/-!
# The files while online

While a device is online the commands that write files are refused. The registers that
write the shadow do not look: the files stay as they are only as long as what those
registers are given is there already.
-/

namespace SlowBus.Config

open Bus (Byte)
open Runs (run Along)

/-- A reload finds every slot as it is. -/
def Store.Mirrors (s : Store) : Prop :=
  ∀ i, (s.load.slots i).file = (s.slots i).file ∧ (s.load.slots i).row = (s.slots i).row

/-- The length of the slot selected is what it is. -/
def Device.LenSame (d : Device) (val : Byte) : Prop :=
  ∀ i, d.selected = some i → val ≤ storeDataMax → val = (d.store.slots i).len

/-- The byte at the offset, within the length, is what it is. -/
def Device.ByteSame (d : Device) (val : Byte) : Prop :=
  ∀ i, d.selected = some i → d.recOff < storeDataMax →
    (d.store.slots i).data.toList[d.recOff.toNat]? = some val ∧ d.recOff < (d.store.slots i).len

/-- A commit is of what the row of the slot holds, and a reload of what the shadow has. -/
def Device.CtrlSame (d : Device) (val : Byte) : Prop :=
  (val = 0xC0 → ∀ i, d.selected = some i → (d.store.slots i).used = true →
    d.store.coalesces i = true) ∧ (val = 0x5E → d.store.Mirrors)

/-- An address is the one in the identity, and its row holds it; or there is no slot for it. -/
def Device.AddrSame (d : Device) (val : Byte) : Prop :=
  d.setaddrArmed = true → 0x08 ≤ val → val ≤ 0x77 →
    (∀ i, storeFind d.store.slots idntName = some i →
      (d.store.slots i).data.toList[0]? = some val ∧ 1 ≤ (d.store.slots i).len ∧
        d.store.coalesces i = true) ∧
    (storeFind d.store.slots idntName = none → ∀ i, (d.store.slots i).used = true)

/-- A register write of what is there already. -/
structure Device.WritesSame (d : Device) (reg val : Byte) : Prop where
  len : reg = regRecLen → d.LenSame val
  byte : reg = regRecData → d.ByteSame val
  ctrl : reg = regRecCtrl → d.CtrlSame val
  addr : reg = regSetAddr → d.AddrSame val

def Client.WritesSame (c : Client) : ClientEvent → Prop
  | .regWrite reg val => c.toDevice.WritesSame reg val
  | _ => True

/-- No commit that would write a row is asked for or under way. -/
structure Device.Settled (d : Device) : Prop where
  asked : ∀ i, d.commitPending = some i → d.store.rewrites i = false
  writing : ∀ i : SlotId, d.phase = .writing i.val → d.store.rewrites i = false

/-- The files are as they were, and so is the flash unless a commit was under way. -/
structure Device.Keeps (d d' : Device) : Prop where
  offline : d'.offline = d.offline
  files : ∀ i, (d'.store.slots i).file = (d.store.slots i).file
  settled : d.Settled → d'.Settled ∧ d'.store.flash = d.store.flash

section Writes

variable {d d' : Device} {reg val : Byte} {i : SlotId}

theorem Device.Keeps.refl (d : Device) : d.Keeps d := ⟨rfl, fun _ => rfl, fun h => ⟨h, rfl⟩⟩

theorem Device.Keeps.trans {d'' : Device} (h : d.Keeps d') (h' : d'.Keeps d'') : d.Keeps d'' where
  offline := h'.offline.trans h.offline
  files i := (h'.files i).trans (h.files i)
  settled hs :=
    have h1 := h.settled hs
    have h2 := h'.settled h1.1
    ⟨h2.1, h2.2.trans h1.2⟩

/-- The slots say the same of files and rows. -/
structure Store.Alike (s s' : Store) : Prop where
  slots : ∀ i, (s'.slots i).file = (s.slots i).file ∧ (s'.slots i).row = (s.slots i).row
  flash : s'.flash = s.flash

theorem Store.Alike.refl (s : Store) : s.Alike s := ⟨fun _ => ⟨rfl, rfl⟩, rfl⟩

theorem Store.Alike.rewrites {s s' : Store} (h : s.Alike s') (i : SlotId) :
    s'.rewrites i = s.rewrites i := by
  obtain ⟨hfile, hrow⟩ := h.slots i
  obtain ⟨hused, _, _, hlen⟩ := file_eq_iff.mp hfile
  rw [Store.rewrites, Store.rewrites, hused, Store.coalesces, Store.coalesces, hrow, h.flash, hlen,
    contents_congr hfile]

theorem storeAlloc_found {slots : Slots} {name : Name} (h : storeFind slots name = some i) :
    storeAlloc slots name = (slots, some i) := by
  rw [storeAlloc, h]

theorem storeAlloc_full {slots : Slots} {name : Name} (h : storeFind slots name = none)
    (hfull : ∀ i, (slots i).used = true) : storeAlloc slots name = (slots, none) := by
  have hnone : (List.finRange storeSlots).find? (fun i => !(slots i).used) = none := by
    rw [List.find?_eq_none]
    intro i _
    simp [hfull i]
  rw [storeAlloc, h, hnone]

/-- An address that the identity has, or that finds no slot. -/
theorem Device.AddrSame.alloc (h : d.AddrSame val) (harmed : d.setaddrArmed = true)
    (hrange : 0x08 ≤ val ∧ val ≤ 0x77) :
    (∃ i, storeAlloc d.store.slots idntName = (d.store.slots, some i) ∧
      (d.store.slots i).data.toList[0]? = some val ∧ 1 ≤ (d.store.slots i).len ∧
        d.store.coalesces i = true) ∨
      storeAlloc d.store.slots idntName = (d.store.slots, none) := by
  have hsame := h harmed hrange.1 hrange.2
  cases hfind : storeFind d.store.slots idntName with
  | some i =>
      exact Or.inl ⟨i, storeAlloc_found hfind, hsame.1 i hfind⟩
  | none =>
      exact Or.inr (storeAlloc_full hfind (hsame.2 hfind))

end Writes

/-! ## Every step while online -/

section Online

variable {c c' : Client} {e : ClientEvent}

end Online

/-! ## What is there, written again -/

instance Device.decidableLenSame (d : Device) (val : Byte) : Decidable (d.LenSame val) :=
  inferInstanceAs (Decidable (∀ _ : SlotId, _))

instance Device.decidableByteSame (d : Device) (val : Byte) : Decidable (d.ByteSame val) :=
  inferInstanceAs (Decidable (∀ _ : SlotId, _))

instance Store.decidableMirrors (s : Store) : Decidable s.Mirrors :=
  inferInstanceAs (Decidable (∀ _ : SlotId, _))

instance Device.decidableCtrlSame (d : Device) (val : Byte) : Decidable (d.CtrlSame val) :=
  inferInstanceAs (Decidable (_ ∧ _))

instance Device.decidableAddrSame (d : Device) (val : Byte) : Decidable (d.AddrSame val) :=
  inferInstanceAs (Decidable (d.setaddrArmed = true → _))

instance Device.decidableWritesSame (d : Device) (reg val : Byte) :
    Decidable (d.WritesSame reg val) :=
  decidable_of_iff
    ((reg = regRecLen → d.LenSame val) ∧ (reg = regRecData → d.ByteSame val) ∧
      (reg = regRecCtrl → d.CtrlSame val) ∧ (reg = regSetAddr → d.AddrSame val))
    ⟨fun h => ⟨h.1, h.2.1, h.2.2.1, h.2.2.2⟩, fun h => ⟨h.len, h.byte, h.ctrl, h.addr⟩⟩

instance Client.decidableWritesSame (c : Client) : ∀ e, Decidable (c.WritesSame e)
  | .regWrite reg val => inferInstanceAs (Decidable (c.toDevice.WritesSame reg val))
  | .service | .regRead _ | .fileBegin _ | .fileData _ | .fileCommit _ | .fileFormat _
  | .goOffline => isTrue trivial

end SlowBus.Config
