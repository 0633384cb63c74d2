import Mathlib.Data.List.Nodup
import Mathlib.Data.List.Perm.Subperm
import SlowBus.Lib.LogStore
import SlowBus.Config.Flash

/-!
# Slots and the rows they shadow

Read as a log, the flash holds a record in every valid row. The slots bind every name
of the log, each to the row of its current record. The scan at boot establishes this
from any log of at most as many names as there are slots.
-/

namespace SlowBus.Config

open Bus (Byte)
open LogStore (Rec Current Holds Free Ranked)

abbrev Record := Rec Name (List Byte)

def Entry.record (e : Entry) : Record := ⟨e.name, e.seq.toNat, e.contents⟩

/-- The flash as a log. -/
def rowsOf (flash : Flash) (r : Row) : Option Record :=
  if (flash r).valid then some (flash r).record else none

theorem rowsOf_eq_some {flash : Flash} {r : Row} {e : Record} (h : rowsOf flash r = some e) :
    (flash r).valid = true ∧ (flash r).record = e := by
  unfold rowsOf at h
  split at h
  next hvalid => exact ⟨hvalid, Option.some_inj.mp h⟩
  next => cases h

theorem rowsOf_update (flash : Flash) (p : Row) (e : Entry) :
    rowsOf (Function.update flash p e) =
      Function.update (rowsOf flash) p (if e.valid then some e.record else none) := by
  funext r
  by_cases hr : r = p
  · subst hr
    simp [rowsOf]
  · simp [rowsOf, Function.update_of_ne hr]

/-! ## Binding -/

/-- What a used slot says of its name is true of the log. -/
def Slot.Shadows (s : Slot) (rows : Row → Option Record) : Prop :=
  match s.row with
  | none => s.seq = 0 ∧ ∀ r e, rows r = some e → e.key ≠ s.name
  | some r => ∃ e, Current rows r e ∧ e.key = s.name ∧ e.seq = s.seq.toNat

structure Binds (rows : Row → Option Record) (slots : Slots) : Prop where
  names : ∀ i j, (slots i).used = true → (slots j).used = true →
    (slots i).name = (slots j).name → i = j
  bound : ∀ r e, rows r = some e → ∃ i, (slots i).used = true ∧ (slots i).name = e.key
  shadows : ∀ i, (slots i).used = true → (slots i).Shadows rows

section Binds

variable {rows : Row → Option Record} {slots slots' : Slots} {i : SlotId} {name : Name}
  {p : Row} {x : Option Record} {e : Record} {s : Slot}

@[simp] theorem Slots.set_self : slots.set i s i = s := Function.update_self ..

theorem Slots.set_of_ne {j : SlotId} (h : j ≠ i) : slots.set i s j = slots j :=
  Function.update_of_ne h ..

theorem storeFind_some (h : storeFind slots name = some i) :
    (slots i).used = true ∧ (slots i).name = name := by
  simpa using List.find?_some h

theorem storeFind_none (h : storeFind slots name = none) (hused : (slots i).used = true) :
    (slots i).name ≠ name := by
  have hi := List.find?_eq_none.mp h i (List.mem_finRange i)
  simpa [hused] using hi

/-- Everything `store_alloc` can do. -/
inductive AllocCase (slots : Slots) (name : Name) : Slots × Option SlotId → Prop
  | found (i : SlotId) (hused : (slots i).used = true) (hname : (slots i).name = name) :
      AllocCase slots name (slots, some i)
  | fresh (i : SlotId) (s : Slot) (hfree : (slots i).used = false)
      (hnew : ∀ j, (slots j).used = true → (slots j).name ≠ name) (hused : s.used = true)
      (hname : s.name = name) (hlen : s.len = 0) (hseq : s.seq = 0) (hrow : s.row = none) :
      AllocCase slots name (slots.set i s, some i)
  | full (hfull : ∀ j, (slots j).used = true)
      (hnew : ∀ j, (slots j).used = true → (slots j).name ≠ name) :
      AllocCase slots name (slots, none)

theorem alloc_case (slots : Slots) (name : Name) :
    AllocCase slots name (storeAlloc slots name) := by
  unfold storeAlloc
  split
  next i hfind => exact .found i (storeFind_some hfind).1 (storeFind_some hfind).2
  next hfind =>
    have hnew : ∀ j, (slots j).used = true → (slots j).name ≠ name :=
      fun j hj => storeFind_none hfind hj
    split
    next i hfree => exact .fresh i _ (by simpa using List.find?_some hfree) hnew rfl rfl rfl rfl rfl
    next hfull =>
      refine .full (fun j => ?_) hnew
      simpa using List.find?_eq_none.mp hfull j (List.mem_finRange j)

/-- No record of a name is newer than its slot says. -/
theorem Binds.newest (h : Binds rows slots) (hused : (slots i).used = true) {r : Row}
    (hr : rows r = some e) (hkey : e.key = (slots i).name) : e.seq ≤ (slots i).seq.toNat := by
  have hshadow := h.shadows i hused
  unfold Slot.Shadows at hshadow
  split at hshadow
  next => exact absurd hkey (hshadow.2 r e hr)
  next r' _ =>
    obtain ⟨e', hcur, hkey', hseq⟩ := hshadow
    rw [← hseq]
    by_cases hne : r = r'
    · subst hne
      rw [Option.some_inj.mp (hr.symm.trans hcur.1)]
    · exact (hcur.2 r e hr (hkey.trans hkey'.symm) hne).le

theorem Binds.alloc (h : Binds rows slots) (name : Name) :
    Binds rows (storeAlloc slots name).1 := by
  have hcase := alloc_case slots name
  generalize storeAlloc slots name = result at hcase
  cases hcase with
  | found | full => exact h
  | fresh i s hfree hnew hused hname hlen hseq hrow =>
      show Binds rows (slots.set i s)
      have hother : ∀ j, (slots.set i s j).used = true → j ≠ i → (slots j).used = true ∧
          (slots.set i s j) = slots j := by
        intro j hj hne
        rw [Slots.set_of_ne hne] at hj
        exact ⟨hj, Slots.set_of_ne hne⟩
      -- a name without a slot has no row
      have hrows : ∀ r e, rows r = some e → e.key ≠ name := by
        intro r e hr heq
        obtain ⟨j, hj, hjname⟩ := h.bound r e hr
        exact hnew j hj (hjname.trans heq)
      refine ⟨fun j k hj hk heq => ?_, fun r e hr => ?_, fun j hj => ?_⟩
      · by_cases hji : j = i <;> by_cases hki : k = i
        · exact hji.trans hki.symm
        · subst hji
          obtain ⟨hk', hksame⟩ := hother k hk hki
          rw [Slots.set_self, hksame, hname] at heq
          exact absurd heq.symm (hnew k hk')
        · subst hki
          obtain ⟨hj', hjsame⟩ := hother j hj hji
          rw [Slots.set_self, hjsame, hname] at heq
          exact absurd heq (hnew j hj')
        · obtain ⟨hj', hjsame⟩ := hother j hj hji
          obtain ⟨hk', hksame⟩ := hother k hk hki
          rw [hjsame, hksame] at heq
          exact h.names j k hj' hk' heq
      · obtain ⟨j, hj, hjname⟩ := h.bound r e hr
        have hne : j ≠ i := by
          rintro rfl
          rw [hfree] at hj
          cases hj
        exact ⟨j, by rwa [Slots.set_of_ne hne], by rwa [Slots.set_of_ne hne]⟩
      · by_cases hji : j = i
        · subst hji
          rw [Slots.set_self, Slot.Shadows, hrow]
          exact ⟨hseq, fun r e hr => hname ▸ hrows r e hr⟩
        · rw [(hother j hj hji).2]
          exact h.shadows j (hother j hj hji).1

/-- A free row rewritten with nothing newer than its slot knows. -/
theorem Binds.rewrite (h : Binds rows slots) (hfree : Free rows p)
    (hx : ∀ e, x = some e →
      ∃ i, (slots i).used = true ∧ (slots i).name = e.key ∧ e.seq < (slots i).seq.toNat) :
    Binds (Function.update rows p x) slots := by
  refine ⟨h.names, fun r e hr => ?_, fun i hi => ?_⟩
  · rcases LogStore.update_eq_some hr with ⟨_, hx'⟩ | ⟨_, hold⟩
    · obtain ⟨i, hi, hname, _⟩ := hx e hx'
      exact ⟨i, hi, hname⟩
    · exact h.bound r e hold
  · have hshadow := h.shadows i hi
    have hkey : ∀ e, x = some e → e.key = (slots i).name → e.seq < (slots i).seq.toNat := by
      intro e he hkey
      obtain ⟨j, hj, hname, hlt⟩ := hx e he
      obtain rfl := h.names j i hj hi (hname.trans hkey)
      exact hlt
    unfold Slot.Shadows at hshadow ⊢
    split at hshadow
    next =>
      refine ⟨hshadow.1, fun r e hr hname => ?_⟩
      rcases LogStore.update_eq_some hr with ⟨_, hx'⟩ | ⟨_, hold⟩
      · have hlt := hkey e hx' hname
        rw [hshadow.1] at hlt
        exact Nat.not_lt_zero _ hlt
      · exact hshadow.2 r e hold hname
    next r _ =>
      obtain ⟨e, hcur, hname, hseq⟩ := hshadow
      have hne : r ≠ p := fun heq => hfree e (heq ▸ hcur)
      refine ⟨e, hcur.update hne fun e' he' hkey' => ?_, hname, hseq⟩
      rw [hseq]
      exact hkey e' he' (hkey'.trans hname)

/-- A free row rewritten with a newer record, and the slot of its name set to it. -/
theorem Binds.append (h : Binds rows slots) (hfree : Free rows p)
    (hused : (slots i).used = true) (hname : (slots i).name = e.key)
    (hnewer : (slots i).seq.toNat < e.seq) (hs : s.used = true) (hsname : s.name = e.key)
    (hseq : s.seq.toNat = e.seq) (hrow : s.row = some p) :
    Binds (Function.update rows p (some e)) (slots.set i s) := by
  -- the record is newer than every row of its name
  have hnew : ∀ r e', rows r = some e' → e'.key = e.key → e'.seq < e.seq :=
    fun r e' hr hkey => lt_of_le_of_lt (h.newest hused hr (hkey.trans hname.symm)) hnewer
  have hslot : ∀ j, (slots.set i s j).used = (slots j).used ∧
      (slots.set i s j).name = (slots j).name := by
    intro j
    by_cases hji : j = i
    · subst hji
      rw [Slots.set_self, hs, hsname]
      exact ⟨hused.symm, hname.symm⟩
    · rw [Slots.set_of_ne hji]
      exact ⟨rfl, rfl⟩
  refine ⟨fun j k hj hk heq => ?_, fun r e' hr => ?_, fun j hj => ?_⟩
  · rw [(hslot j).1] at hj
    rw [(hslot k).1] at hk
    rw [(hslot j).2, (hslot k).2] at heq
    exact h.names j k hj hk heq
  · rcases LogStore.update_eq_some hr with ⟨_, hx⟩ | ⟨_, hold⟩
    · cases hx
      exact ⟨i, (hslot i).1.trans hused, (hslot i).2.trans hname⟩
    · obtain ⟨j, hj, hjname⟩ := h.bound r e' hold
      exact ⟨j, (hslot j).1.trans hj, (hslot j).2.trans hjname⟩
  · by_cases hji : j = i
    · subst hji
      rw [Slots.set_self, Slot.Shadows, hrow]
      exact ⟨e, LogStore.current_append hnew, hsname.symm, hseq.symm⟩
    · rw [(hslot j).1] at hj
      have hother : e.key ≠ (slots j).name := by
        intro heq
        exact hji (h.names j i hj hused (heq.symm.trans hname.symm))
      rw [Slots.set_of_ne hji]
      have hshadow := h.shadows j hj
      unfold Slot.Shadows at hshadow ⊢
      split at hshadow
      next =>
        refine ⟨hshadow.1, fun r e' hr => ?_⟩
        rcases LogStore.update_eq_some hr with ⟨_, hx⟩ | ⟨_, hold⟩
        · cases hx
          exact hother
        · exact hshadow.2 r e' hold
      next r _ =>
        obtain ⟨e', hcur, hname', hseq'⟩ := hshadow
        have hne : r ≠ p := fun heq => hfree e' (heq ▸ hcur)
        refine ⟨e', hcur.update hne fun e'' he'' hkey => ?_, hname', hseq'⟩
        cases he''
        exact absurd (hkey.trans hname') hother

end Binds

end SlowBus.Config
