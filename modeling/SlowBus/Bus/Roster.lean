import Mathlib.Data.Fintype.Card
import SlowBus.Bus.Frame
import SlowBus.Lib.RoundRobin
import SlowBus.Lib.Runs

/-!
# The roster of the bus controller

`core/bus_roster.c`: a table of slots, empty where the address is zero, a count that is
kept beside it, and a cursor of the caller that goes around the enabled nodes.
-/

namespace SlowBus.Bus

open RoundRobin (Circle turns)
open Runs (run)

def busRosterMax : Nat := 32

instance busRosterMax_neZero : NeZero busRosterMax := ⟨by decide⟩

def busAddrSlaveMin : Byte := 0x01
def busAddrSlaveMax : Byte := 0x7E

def busFlagEnabled : Byte := 0x02

def busRegOk : Byte := 0
def busRegFull : Byte := 1
def busRegDup : Byte := 2
def busRegBadAddr : Byte := 3

/-- `bus_slave_t`; the state is unknown until the node is heard. -/
structure BusSlave where
  addr : Byte := 0
  classId : BitVec 32 := 0
  flags : Byte := 0
  state : Byte := 0
  consecutiveMisses : Byte := 0
  lastSeenMs : BitVec 32 := 0
  deriving DecidableEq, Repr

/-- `bus_sched_cfg_t` -/
structure SchedCfg where
  grantPeriodMs : BitVec 16 := 0
  windowUs : BitVec 16 := 0
  maxMisses : Byte := 0
  tcpRetries : Byte := 0
  enabled : Byte := 0
  deriving DecidableEq, Repr

abbrev RosterSlot := Fin busRosterMax

/-- The statics of the module, as they are before any call. -/
structure BusRoster where
  slots : RosterSlot → BusSlave := fun _ => {}
  count : Byte := 0
  cfg : SchedCfg := {}

/-- `addr_valid` -/
def addrValid (a : Byte) : Prop := busAddrSlaveMin ≤ a ∧ a ≤ busAddrSlaveMax

instance addrValid_decidable (a : Byte) : Decidable (addrValid a) :=
  inferInstanceAs (Decidable (_ ∧ _))

/-- `bus_roster_clear` -/
def BusRoster.clear (r : BusRoster) : BusRoster :=
  { r with slots := fun i => { r.slots i with addr := 0 }, count := 0 }

/-- `bus_roster_init` -/
def BusRoster.init (r : BusRoster) : BusRoster :=
  { r.clear with
    cfg := { grantPeriodMs := 0, windowUs := 2000, maxMisses := 3, tcpRetries := 3, enabled := 0 } }

/-- `bus_roster_find`, with the pointer as an index. -/
def BusRoster.find (r : BusRoster) (addr : Byte) : Option RosterSlot :=
  if addr = 0 then none
  else (List.finRange busRosterMax).find? fun i => (r.slots i).addr == addr

/-- `bus_roster_register`: the reason and the roster, with the count it reports. -/
def BusRoster.register (r : BusRoster) (addr : Byte) (classId : BitVec 32) (flags : Byte) :
    Byte × BusRoster :=
  if ¬ addrValid addr then (busRegBadAddr, r)
  else if (r.find addr).isSome then (busRegDup, r)
  else if busRosterMax ≤ r.count.toNat then (busRegFull, r)
  else
    match (List.finRange busRosterMax).find? fun i => (r.slots i).addr == 0 with
    | some i =>
        (busRegOk, { r with
          slots := Function.update r.slots i { addr, classId, flags }
          count := r.count + 1 })
    | none => (busRegFull, r)

/-- `bus_roster_unregister`: whether the node was there, and the roster, with the count it
reports. -/
def BusRoster.unregister (r : BusRoster) (addr : Byte) : Bool × BusRoster :=
  match r.find addr with
  | some i =>
      (true, { r with
        slots := Function.update r.slots i { r.slots i with addr := 0 }
        count := r.count - 1 })
  | none => (false, r)

/-- The loop of `bus_roster_at`, over the slots that are left. -/
def BusRoster.atFrom (r : BusRoster) (index : Byte) : List RosterSlot → Byte → Option RosterSlot
  | [], _ => none
  | i :: is, seen =>
      if (r.slots i).addr ≠ 0 then
        if seen = index then some i else r.atFrom index is (seen + 1)
      else r.atFrom index is seen

/-- `bus_roster_at` -/
def BusRoster.at (r : BusRoster) (index : Byte) : Option RosterSlot :=
  r.atFrom index (List.finRange busRosterMax) 0

/-- What the rotation asks of a slot. -/
def BusRoster.enabled (r : BusRoster) (i : RosterSlot) : Bool :=
  (r.slots i).addr ≠ 0 && (r.slots i).flags &&& busFlagEnabled ≠ 0

/-- `bus_roster_next_enabled`: the node and the cursor behind it. -/
def BusRoster.nextEnabled (r : BusRoster) (cursor : Byte) : Option RosterSlot × Byte :=
  let slots := (List.range busRosterMax).map fun step => Fin.ofNat busRosterMax (cursor.toNat + step)
  match slots.find? r.enabled with
  | some i => (some i, .ofNat 8 ((i.val + 1) % busRosterMax))
  | none => (none, cursor)

/-! ## Runs -/

inductive RosterOp where
  | init
  | clear
  | register (addr : Byte) (classId : BitVec 32) (flags : Byte)
  | unregister (addr : Byte)
  | count
  | at (index : Byte)
  | find (addr : Byte)
  | nextEnabled (cursor : Byte)
  deriving DecidableEq, Repr

/-- The roster after a call; the lookups only read it. -/
def BusRoster.next (r : BusRoster) : RosterOp → BusRoster
  | .init => r.init
  | .clear => r.clear
  | .register addr classId flags => (r.register addr classId flags).2
  | .unregister addr => (r.unregister addr).2
  | .count | .at _ | .find _ | .nextEnabled _ => r

def BusRoster.occupied (r : BusRoster) : Finset RosterSlot :=
  {i | (r.slots i).addr ≠ 0}

/-- The occupied slots carry valid addresses, no two the same, and are counted. -/
structure BusRoster.Inv (r : BusRoster) : Prop where
  valid : ∀ i ∈ r.occupied, addrValid (r.slots i).addr
  distinct : ∀ i ∈ r.occupied, ∀ j ∈ r.occupied, (r.slots i).addr = (r.slots j).addr → i = j
  counted : r.count.toNat = r.occupied.card

variable {r : BusRoster} {addr : Byte} {i : RosterSlot}

theorem mem_occupied : i ∈ r.occupied ↔ (r.slots i).addr ≠ 0 := by
  simp [BusRoster.occupied]

theorem addrValid.ne_zero (h : addrValid addr) : addr ≠ 0 := by
  rintro rfl
  exact absurd h.1 (by decide)

/-- An address that is not found is in no occupied slot. -/
theorem find_eq_none (haddr : addr ≠ 0) :
    r.find addr = none ↔ ∀ i ∈ r.occupied, (r.slots i).addr ≠ addr := by
  rw [BusRoster.find, if_neg haddr, List.find?_eq_none]
  constructor
  · intro h i _
    simpa using h i (List.mem_finRange i)
  · intro h i _
    by_cases hi : i ∈ r.occupied
    · simpa using h i hi
    · simpa [not_not.mp (mem_occupied.not.mp hi)] using Ne.symm haddr

theorem find_eq_some (h : r.find addr = some i) : i ∈ r.occupied ∧ (r.slots i).addr = addr := by
  unfold BusRoster.find at h
  split at h
  next => cases h
  next hne =>
    have heq : (r.slots i).addr = addr := by simpa using List.find?_some h
    exact ⟨mem_occupied.mpr (heq ▸ hne), heq⟩

inductive RegisterCase (r : BusRoster) (addr : Byte) (classId : BitVec 32) (flags : Byte) :
    Byte × BusRoster → Prop
  | badAddr (haddr : ¬ addrValid addr) : RegisterCase r addr classId flags (busRegBadAddr, r)
  | dup (haddr : addrValid addr) (hdup : ∃ i ∈ r.occupied, (r.slots i).addr = addr) :
      RegisterCase r addr classId flags (busRegDup, r)
  | full : RegisterCase r addr classId flags (busRegFull, r)
  | ok (i : RosterSlot) (hi : i ∉ r.occupied) (haddr : addrValid addr)
      (hnew : ∀ j ∈ r.occupied, (r.slots j).addr ≠ addr) :
      RegisterCase r addr classId flags (busRegOk, { r with
        slots := Function.update r.slots i { addr, classId, flags }
        count := r.count + 1 })

theorem register_case (r : BusRoster) (addr : Byte) (classId : BitVec 32) (flags : Byte) :
    RegisterCase r addr classId flags (r.register addr classId flags) := by
  unfold BusRoster.register
  split
  next haddr => exact .badAddr haddr
  next haddr =>
    have haddr : addrValid addr := not_not.mp haddr
    split
    next hdup =>
      obtain ⟨i, hi⟩ := Option.isSome_iff_exists.mp hdup
      exact .dup haddr ⟨i, find_eq_some hi⟩
    next hnew =>
      split
      next => exact .full
      next =>
        split
        next i hfree =>
          have hi : (r.slots i).addr = 0 := by simpa using List.find?_some hfree
          refine .ok i (fun h => mem_occupied.mp h hi) haddr ?_
          exact (find_eq_none haddr.ne_zero).mp (Option.not_isSome_iff_eq_none.mp hnew)
        next => exact .full

/-! ## What every call keeps -/

theorem occupied_update (r : BusRoster) (i : RosterSlot) (s : BusSlave) (count : Byte) :
    ({ r with slots := Function.update r.slots i s, count } : BusRoster).occupied =
      if s.addr ≠ 0 then insert i r.occupied else r.occupied.erase i := by
  ext j
  rw [mem_occupied]
  show (Function.update r.slots i s j).addr ≠ 0 ↔ _
  by_cases hj : j = i
  · subst hj
    rw [Function.update_self]
    split
    next hs => simpa using hs
    next hs => simpa using hs
  · rw [Function.update_of_ne hj]
    split <;> simp [hj, mem_occupied]

theorem inv_empty (h : ∀ i, (r.slots i).addr = 0) (hcount : r.count = 0) : r.Inv := by
  have hempty : r.occupied = ∅ :=
    Finset.eq_empty_of_forall_notMem fun i hi => mem_occupied.mp hi (h i)
  refine ⟨?_, ?_, ?_⟩
  · simp [hempty]
  · simp [hempty]
  · rw [hempty, hcount]
    rfl

/-- A free slot gets a new address. -/
theorem BusRoster.Inv.fill {s : BusSlave} (h : r.Inv) (hi : i ∉ r.occupied)
    (hs : addrValid s.addr) (hnew : ∀ j ∈ r.occupied, (r.slots j).addr ≠ s.addr) :
    ({ r with slots := Function.update r.slots i s, count := r.count + 1 } : BusRoster).Inv := by
  have hoccupied := occupied_update r i s (r.count + 1)
  rw [if_pos hs.ne_zero] at hoccupied
  have hother : ∀ j ∈ r.occupied, Function.update r.slots i s j = r.slots j :=
    fun j hj => Function.update_of_ne (fun hji : j = i => hi (hji ▸ hj)) ..
  constructor <;> rw [hoccupied]
  · rintro j hj
    show addrValid (Function.update r.slots i s j).addr
    rcases Finset.mem_insert.mp hj with rfl | hj
    · rwa [Function.update_self]
    · rw [hother j hj]
      exact h.valid j hj
  · rintro j hj k hk hjk
    have hjk : (Function.update r.slots i s j).addr = (Function.update r.slots i s k).addr := hjk
    rcases Finset.mem_insert.mp hj with rfl | hj'
    · rcases Finset.mem_insert.mp hk with rfl | hk'
      · rfl
      · rw [hother k hk', Function.update_self] at hjk
        exact absurd hjk.symm (hnew k hk')
    · rcases Finset.mem_insert.mp hk with rfl | hk'
      · rw [hother j hj', Function.update_self] at hjk
        exact absurd hjk (hnew j hj')
      · rw [hother j hj', hother k hk'] at hjk
        exact h.distinct j hj' k hk' hjk
  · have hroom : r.occupied.card + 1 ≤ busRosterMax := by
      have hle := Finset.card_le_univ (insert i r.occupied)
      rwa [Finset.card_insert_of_notMem hi, Fintype.card_fin] at hle
    rw [Finset.card_insert_of_notMem hi, ← h.counted]
    have hlt : r.count.toNat + 1 < 2 ^ 8 :=
      (h.counted ▸ hroom : _ ≤ busRosterMax).trans_lt (by decide)
    exact (BitVec.toNat_add ..).trans (Nat.mod_eq_of_lt hlt)

/-- An occupied slot is emptied. -/
theorem BusRoster.Inv.empty {s : BusSlave} (h : r.Inv) (hi : i ∈ r.occupied) (hs : s.addr = 0) :
    ({ r with slots := Function.update r.slots i s, count := r.count - 1 } : BusRoster).Inv := by
  have hoccupied := occupied_update r i s (r.count - 1)
  rw [if_neg (not_not.mpr hs)] at hoccupied
  have hother : ∀ j ∈ r.occupied.erase i, Function.update r.slots i s j = r.slots j :=
    fun j hj => Function.update_of_ne (Finset.ne_of_mem_erase hj) ..
  constructor <;> rw [hoccupied]
  · rintro j hj
    show addrValid (Function.update r.slots i s j).addr
    rw [hother j hj]
    exact h.valid j (Finset.mem_of_mem_erase hj)
  · rintro j hj k hk hjk
    have hjk : (Function.update r.slots i s j).addr = (Function.update r.slots i s k).addr := hjk
    rw [hother j hj, hother k hk] at hjk
    exact h.distinct j (Finset.mem_of_mem_erase hj) k (Finset.mem_of_mem_erase hk) hjk
  · have hpos : 0 < r.occupied.card := Finset.card_pos.mpr ⟨i, hi⟩
    rw [Finset.card_erase_of_mem hi, ← h.counted]
    rw [← h.counted] at hpos
    exact BitVec.toNat_sub_of_le (BitVec.le_def.mpr hpos)

theorem BusRoster.Inv.register (h : r.Inv) (addr : Byte) (classId : BitVec 32) (flags : Byte) :
    (r.register addr classId flags).2.Inv := by
  have hcase := register_case r addr classId flags
  generalize r.register addr classId flags = out at hcase
  cases hcase with
  | badAddr | dup | full => exact h
  | ok i hi haddr hnew => exact h.fill hi haddr hnew

theorem BusRoster.Inv.unregister (h : r.Inv) (addr : Byte) : (r.unregister addr).2.Inv := by
  unfold BusRoster.unregister
  split
  next i hfind => exact h.empty (find_eq_some hfind).1 rfl
  next => exact h

theorem BusRoster.Inv.next (h : r.Inv) (op : RosterOp) : (r.next op).Inv := by
  cases op with
  | init | clear => exact inv_empty (fun _ => rfl) rfl
  | register addr classId flags => exact h.register addr classId flags
  | unregister addr => exact h.unregister addr
  | count | «at» | find | nextEnabled => exact h

/-! ## Enumeration -/

theorem atFrom_eq {index seen : Byte} {is : List RosterSlot}
    (hwrap : seen.toNat + is.length < 2 ^ 8) (hseen : seen ≤ index) :
    r.atFrom index is seen =
      (is.filter fun i => (r.slots i).addr ≠ 0)[index.toNat - seen.toNat]? := by
  induction is generalizing seen with
  | nil => rfl
  | cons i is ih =>
      rw [List.length_cons] at hwrap
      have hsucc : (seen + 1).toNat = seen.toNat + 1 :=
        (BitVec.toNat_add ..).trans (Nat.mod_eq_of_lt (show seen.toNat + 1 < 2 ^ 8 by omega))
      unfold BusRoster.atFrom
      split
      next hi =>
        rw [List.filter_cons_of_pos (by simpa using hi)]
        split
        next heq => simp [heq]
        next hne =>
          have hlt : seen.toNat < index.toNat :=
            Nat.lt_of_le_of_ne hseen fun h => hne (BitVec.eq_of_toNat_eq h)
          rw [ih (by omega) (BitVec.le_def.mpr (hsucc ▸ hlt)), hsucc]
          rw [show index.toNat - seen.toNat = index.toNat - (seen.toNat + 1) + 1 by omega,
            List.getElem?_cons_succ]
      next hi =>
        rw [List.filter_cons_of_neg (by simpa using hi)]
        exact ih (by omega) hseen

/-- `bus_roster_at` numbers the occupied slots in their order. -/
theorem at_eq (r : BusRoster) (index : Byte) :
    r.at index =
      ((List.finRange busRosterMax).filter fun i => (r.slots i).addr ≠ 0)[index.toNat]? :=
  atFrom_eq (by decide) (Nat.zero_le index.toNat)

/-! ## The rotation -/

/-- The slots from the cursor on. -/
def fromCursor (cursor : Byte) : List RosterSlot :=
  (List.finRange busRosterMax).rotate cursor.toNat

theorem nextEnabled_circle (r : BusRoster) : Circle r.nextEnabled fromCursor r.enabled where
  turn := by
    intro cursor as i bs hview has hi
    have hfind : (fromCursor cursor).find? r.enabled = some i := by
      refine List.find?_eq_some_iff_append.mpr ⟨hi, as, bs, hview, fun a ha => ?_⟩
      rw [has a ha]
      rfl
    have hnext : r.nextEnabled cursor = (some i, .ofNat 8 ((i.val + 1) % busRosterMax)) := by
      rw [fromCursor, RoundRobin.finRange_rotate] at hfind
      unfold BusRoster.nextEnabled
      dsimp only
      rw [hfind]
    have hcursor : (BitVec.ofNat 8 ((i.val + 1) % busRosterMax)).toNat =
        (i.val + 1) % busRosterMax :=
      Nat.mod_eq_of_lt ((Nat.mod_lt _ (by decide)).trans (by decide : busRosterMax < 2 ^ 8))
    refine ⟨by rw [hnext], ?_⟩
    have hmod := List.rotate_mod (List.finRange busRosterMax) (i.val + 1)
    rw [List.length_finRange] at hmod
    rw [hnext, fromCursor, hcursor, hmod]
    exact RoundRobin.finRange_rotate_behind hview

theorem card_enabled (r : BusRoster) (cursor : Byte) :
    ((fromCursor cursor).filter r.enabled).length =
      (Finset.univ.filter fun i => r.enabled i = true).card := by
  have hperm : (fromCursor cursor).Perm (List.finRange busRosterMax) := List.rotate_perm ..
  rw [(hperm.filter _).length_eq,
    ← List.toFinset_card_of_nodup ((List.nodup_finRange busRosterMax).filter _)]
  congr 1
  ext i
  simp

/-- The occupied slots carry pairwise distinct valid addresses and are counted, and each
enabled node has its turn once in as many calls as there are enabled nodes. -/
theorem bus_roster_sound (ops : List RosterOp) (cursor : Byte) :
    let r := run BusRoster.next {} ops
    r.Inv ∧ ∃ taken : List RosterSlot,
      turns r.nextEnabled (Finset.univ.filter fun i => r.enabled i = true).card cursor =
        taken.map some ∧ taken.Nodup ∧ ∀ i, i ∈ taken ↔ r.enabled i = true := by
  intro r
  constructor
  · exact Runs.run_invariant (fun r op h => BusRoster.Inv.next h op)
      (inv_empty (fun _ => rfl) rfl)
  · have hnodup : (fromCursor cursor).Nodup :=
      List.nodup_rotate.mpr (List.nodup_finRange busRosterMax)
    obtain ⟨taken, htaken, hdistinct, hmem⟩ := (nextEnabled_circle r).round hnodup
    refine ⟨taken, card_enabled r cursor ▸ htaken, hdistinct, fun i => ?_⟩
    have hi : i ∈ fromCursor cursor := List.mem_rotate.mpr (List.mem_finRange i)
    rw [hmem i]
    exact and_iff_right hi

end SlowBus.Bus
