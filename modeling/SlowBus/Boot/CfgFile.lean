import Mathlib.Data.List.MinMax
import SlowBus.Bus.Frame

/-!
# The store of configuration files

A region of flash holds one entry in each of its rows. The loader goes over all rows, skips what is
not a valid entry of the name it looks for, and takes the entry with the highest sequence number.
-/

namespace SlowBus.Boot

open Bus (Byte busCrc8Update crc8Shift)

def cfgStoreMagic : BitVec 32 := 0x10C0FFEE
def cfgEntryDataMax : Byte := 240

/-- `cfg_entry_t`, without its padding. -/
structure CfgEntry where
  magic : BitVec 32
  seq : BitVec 32
  name : List Byte
  len : Byte
  crc : Byte
  data : List Byte
  deriving DecidableEq, Repr

/-- A row of flash. -/
abbrev CfgRow := Vector Byte 256

/-- A 32-bit word, its low byte first. -/
def wordAt (row : List Byte) (off : Nat) : BitVec 32 :=
  row.getD (off + 3) 0 ++ row.getD (off + 2) 0 ++ row.getD (off + 1) 0 ++ row.getD off 0

/-- The fields of a row. -/
def cfgEntry (row : List Byte) : CfgEntry where
  magic := wordAt row 0
  seq := wordAt row 4
  name := (row.drop 8).take 4
  len := row.getD 12 0
  crc := row.getD 13 0
  data := row.drop 16

/-- `entry_crc` -/
def entryCrc (name : List Byte) (len : Byte) (data : List Byte) : Byte :=
  let c := name.foldl busCrc8Update 0xFF
  let c := busCrc8Update c len
  (data.take len.toNat).foldl busCrc8Update c ^^^ 0xFF

/-- `entry_valid` -/
def entryValid (e : CfgEntry) : Bool :=
  e.magic == cfgStoreMagic && e.name.head? != some 0xFF && decide (e.len ≤ cfgEntryDataMax) &&
    entryCrc e.name e.len e.data == e.crc

/-- The loop over the rows. -/
def cfgBest (name : List Byte) (rows : List CfgEntry) : Option CfgEntry :=
  rows.foldl (fun best e =>
    if entryValid e = false then best
    else if e.name ≠ name then best
    else match best with
      | none => some e
      | some b => if b.seq < e.seq then some e else best) none

/-- What `cfg_load` returns: a code below 0, or the bytes it copies. -/
def cfgLoad (region : Fin 256 → CfgRow) (name : List Byte) (cap : Nat) : Except Int (List Byte) :=
  match cfgBest name ((List.finRange 256).map fun r => cfgEntry (region r).toList) with
  | none => .error (-1)
  | some best =>
      if cap < best.len.toNat then .error (-2) else .ok (best.data.take best.len.toNat)

/-! ## The entry that is taken -/

section Best

variable {name : List Byte} {rows : List CfgEntry}

/-- The loop finds the first entry with the highest number. -/
theorem cfgBest_eq_argmax (name : List Byte) (rows : List CfgEntry) :
    cfgBest name rows =
      (rows.filter fun e => entryValid e && e.name == name).argmax fun e => e.seq.toNat := by
  have hstep (best : Option CfgEntry) (e : CfgEntry) :
      (if entryValid e = false then best
        else if e.name ≠ name then best
        else match best with
          | none => some e
          | some b => if b.seq < e.seq then some e else best) =
      if (entryValid e && e.name == name) = true then
        List.argAux (fun b c : CfgEntry => c.seq.toNat < b.seq.toNat) best e else best := by
    cases hvalid : entryValid e with
    | false => rfl
    | true =>
        by_cases hname : e.name = name
        · rw [if_neg Bool.true_eq_false_eq_False, if_neg (not_not_intro hname),
            beq_iff_eq.mpr hname]
          cases best <;> rfl
        · rw [if_neg Bool.true_eq_false_eq_False, if_pos hname, beq_eq_false_iff_ne.mpr hname]
          rfl
  rw [cfgBest, List.argmax, List.foldl_filter]
  congr 1
  funext best e
  exact hstep best e

/-- An element that none before it reaches and none behind it exceeds. -/
def FirstHighest {α : Type*} (f : α → Nat) (l : List α) (m : α) : Prop :=
  ∃ before after, l = before ++ m :: after ∧ (∀ x ∈ before, f x < f m) ∧ ∀ x ∈ after, f x ≤ f m

theorem FirstHighest.argmax {α : Type*} {f : α → Nat} {l : List α} {m : α}
    (h : FirstHighest f l m) : l.argmax f = some m := by
  obtain ⟨before, after, rfl, hbefore, hafter⟩ := h
  induction after using List.reverseRecOn with
  | nil =>
      rw [List.argmax_concat]
      cases hmax : before.argmax f with
      | none => rfl
      | some c => exact if_pos (hbefore c (List.argmax_mem hmax))
  | append_singleton after x ih =>
      have hx := hafter x (List.mem_append_right _ (List.mem_singleton_self x))
      rw [← List.cons_append, ← List.append_assoc, List.argmax_concat,
        ih fun y hy => hafter y (List.mem_append_left _ hy)]
      exact if_neg (Nat.not_lt.mpr hx)

/-- A list that is not empty has one. -/
theorem exists_firstHighest {α : Type*} (f : α → Nat) {l : List α} (h : l ≠ []) :
    ∃ m, FirstHighest f l m := by
  induction l using List.reverseRecOn with
  | nil => exact absurd rfl h
  | append_singleton l x ih =>
      rcases eq_or_ne l [] with rfl | hl
      · exact ⟨x, [], [], rfl, fun y hy => absurd hy List.not_mem_nil,
          fun y hy => absurd hy List.not_mem_nil⟩
      obtain ⟨m, before, after, rfl, hbefore, hafter⟩ := ih hl
      rcases Nat.lt_or_ge (f m) (f x) with hlt | hge
      · refine ⟨x, before ++ m :: after, [], rfl, fun y hy => ?_,
          fun y hy => absurd hy List.not_mem_nil⟩
        rcases List.mem_append.mp hy with hy | hy
        · exact (hbefore y hy).trans hlt
        · rcases List.mem_cons.mp hy with rfl | hy
          · exact hlt
          · exact (hafter y hy).trans_lt hlt
      · refine ⟨m, before, after ++ [x], by rw [List.append_assoc, List.cons_append], hbefore,
          fun y hy => ?_⟩
        rcases List.mem_append.mp hy with hy | hy
        · exact hafter y hy
        · rw [List.mem_singleton.mp hy]
          exact hge

end Best

end SlowBus.Boot
