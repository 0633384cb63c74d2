import SlowBus.Config.Scan

/-!
# The scan finds the newest entry of every name

The scan takes the rows one after the other. After `k` rows the slots bind the names
of the first `k` rows; after all of them what the shadow has for a name is what the
log holds for it.
-/

namespace SlowBus.Config

open Bus (Byte)
open LogStore (Rec Current Holds Free Ranked)

/-- The log of the first `k` rows. -/
def upTo (rows : Row → Option Record) (k : Nat) (r : Row) : Option Record :=
  if r.val < k then rows r else none

/-- The log has no more names than there are slots. -/
def Fits (rows : Row → Option Record) : Prop :=
  ∃ names : List Name, names.length ≤ storeSlots ∧ ∀ r e, rows r = some e → e.key ∈ names

/-- The slots after `k` rows of the scan. -/
structure Scanned (flash : Flash) (k : Nat) (slots : Slots) : Prop where
  binds : Binds (upTo (rowsOf flash) k) slots
  copied : ∀ i, (slots i).used = true →
    ∃ r, (slots i).row = some r ∧ (slots i).contents = (flash r).contents
  room : ∀ i, (slots i).len ≤ storeDataMax

section Scan

variable {flash : Flash} {rows : Row → Option Record} {slots : Slots} {k : Nat} {r : Row}

theorem take_copyBytes (len : Byte) (src dst : Vector Byte 240) :
    (copyBytes len src dst).toList.take len.toNat = src.toList.take len.toNat := by
  apply List.ext_getElem
  · simp
  · intro i hi hi'
    have hlt : i < len.toNat := by
      simp only [List.length_take] at hi
      omega
    simp [copyBytes, hlt]

theorem upTo_all (h : storeRows ≤ k) : upTo rows k = rows := by
  funext r
  exact if_pos (r.isLt.trans_le h)

theorem upTo_some {e : Record} (h : upTo rows k r = some e) : rows r = some e := by
  unfold upTo at h
  split at h
  next => exact h
  next => cases h

theorem upTo_succ (r : Row) :
    upTo rows (r.val + 1) = Function.update (upTo rows r.val) r (rows r) := by
  funext r'
  by_cases hr : r' = r
  · subst hr
    rw [Function.update_self]
    exact if_pos (Nat.lt_succ_self _)
  · rw [Function.update_of_ne hr]
    have hne : r'.val ≠ r.val := fun heq => hr (Fin.ext heq)
    have hiff : r'.val < r.val + 1 ↔ r'.val < r.val := by omega
    exact if_congr hiff rfl rfl

theorem free_upTo (r : Row) : Free (upTo rows r.val) r := by
  intro e hcur
  have hnone : upTo rows r.val r = none := if_neg (Nat.lt_irrefl _)
  rw [hcur.1] at hnone
  cases hnone

/-- With all slots taken by names of a list that fits, a new name is one too many. -/
theorem names_exceed {names : List Name} {name : Name} (hlength : names.length ≤ storeSlots)
    (hdistinct : ∀ j k, (slots j).name = (slots k).name → j = k)
    (hmem : ∀ j, (slots j).name ∈ names) (hname : name ∈ names)
    (hnew : ∀ j, (slots j).name ≠ name) : False := by
  set taken := (List.finRange storeSlots).map fun j => (slots j).name with htaken
  have hnodup : (name :: taken).Nodup := by
    rw [List.nodup_cons]
    refine ⟨fun hin => ?_, (List.nodup_finRange _).map fun j k heq => hdistinct j k heq⟩
    obtain ⟨j, _, heq⟩ := List.mem_map.mp hin
    exact hnew j heq
  have hsubset : name :: taken ⊆ names := by
    intro x hx
    rcases List.mem_cons.mp hx with rfl | hin
    · exact hname
    · obtain ⟨j, _, rfl⟩ := List.mem_map.mp hin
      exact hmem j
  have hle := (hnodup.subperm hsubset).length_le
  rw [List.length_cons, htaken, List.length_map, List.length_finRange] at hle
  omega

/-- With all slots taken, each shadowing a row, a new name is one too many. -/
theorem not_full (h : Scanned flash k slots) (hfits : Fits (rowsOf flash))
    (hvalid : rowsOf flash r = some (flash r).record) (hfull : ∀ j, (slots j).used = true)
    (hnew : ∀ j, (slots j).used = true → (slots j).name ≠ (flash r).name) : False := by
  obtain ⟨names, hlength, hmem⟩ := hfits
  refine names_exceed hlength (fun j k heq => h.binds.names j k (hfull j) (hfull k) heq)
    (fun j => ?_) (hmem r _ hvalid) fun j => hnew j (hfull j)
  obtain ⟨r', hrow, _⟩ := h.copied j (hfull j)
  have hshadow := h.binds.shadows j (hfull j)
  rw [Slot.Shadows, hrow] at hshadow
  obtain ⟨e, hcur, hkey, _⟩ := hshadow
  rw [← hkey]
  exact hmem r' e (upTo_some hcur.1)

/-- What the scan does with a row that is newer than the slot of its name. -/
def Slot.take (s : Slot) (r : Row) (e : Entry) : Slot :=
  { s with seq := e.seq, len := e.len, row := some r, data := copyBytes e.len e.data s.data }

@[simp] theorem take_used (s : Slot) (r : Row) (e : Entry) : (s.take r e).used = s.used := by
  simp only [Slot.take]

@[simp] theorem take_name (s : Slot) (r : Row) (e : Entry) : (s.take r e).name = s.name := by
  simp only [Slot.take]

theorem scanned_newer {i : SlotId} (hbinds : Binds (upTo (rowsOf flash) r.val) slots)
    (hvalid : rowsOf flash r = some (flash r).record) (hlen : (flash r).len ≤ storeDataMax)
    (hused : (slots i).used = true) (hname : (slots i).name = (flash r).name)
    (hnewer : (slots i).seq < (flash r).seq)
    (hcopied : ∀ j, j ≠ i → (slots j).used = true →
      ∃ r', (slots j).row = some r' ∧ (slots j).contents = (flash r').contents)
    (hroom : ∀ j, (slots j).len ≤ storeDataMax) :
    Scanned flash (r.val + 1) (slots.set i ((slots i).take r (flash r))) := by
  refine ⟨?_, fun j hj => ?_, fun j => ?_⟩
  · rw [upTo_succ, hvalid]
    have hlt : (slots i).seq.toNat < (flash r).record.seq := BitVec.lt_def.mp hnewer
    exact hbinds.append (free_upTo r) hused hname hlt ((take_used ..).trans hused)
      ((take_name ..).trans hname) rfl rfl
  · by_cases hji : j = i
    · subst hji
      rw [Slots.set_self]
      exact ⟨r, rfl, take_copyBytes (flash r).len (flash r).data (slots j).data⟩
    · rw [Slots.set_of_ne hji] at hj ⊢
      exact hcopied j hji hj
  · by_cases hji : j = i
    · subst hji
      rw [Slots.set_self]
      exact hlen
    · rw [Slots.set_of_ne hji]
      exact hroom j

/-- One row of the scan. -/
theorem scanned_step (h : Scanned flash r.val slots) (hranked : Ranked (rowsOf flash))
    (hfits : Fits (rowsOf flash)) : Scanned flash (r.val + 1) (scanRow flash slots r) := by
  unfold scanRow
  dsimp only
  split
  next hinvalid =>
    have hnone : rowsOf flash r = none := if_neg (by simpa using hinvalid)
    refine ⟨?_, h.copied, h.room⟩
    rw [upTo_succ, hnone]
    exact h.binds.rewrite (free_upTo r) fun e he => by cases he
  next hvalid =>
    have hsome : rowsOf flash r = some (flash r).record := if_pos (by simpa using hvalid)
    have hlen : (flash r).len ≤ storeDataMax := by
      simp [Entry.valid] at hvalid
      exact hvalid.1.2
    have halloc := h.binds.alloc (flash r).name
    have hcase := alloc_case slots (flash r).name
    generalize storeAlloc slots (flash r).name = result at halloc hcase
    cases hcase with
    | full hfull hnew => exact (not_full h hfits hsome hfull hnew).elim
    | found i hused hname =>
        dsimp only
        split
        next hnewer =>
          exact scanned_newer h.binds hsome hlen hused hname hnewer (fun j _ => h.copied j) h.room
        next hold =>
          refine ⟨?_, h.copied, h.room⟩
          rw [upTo_succ, hsome]
          refine h.binds.rewrite (free_upTo r) fun e he => ?_
          cases he
          refine ⟨i, hused, hname, lt_of_le_of_ne (BitVec.not_lt.mp hold) fun hseq => ?_⟩
          -- The row the slot shadows is one of the first, so its number is another one.
          obtain ⟨r', hrow, _⟩ := h.copied i hused
          have hshadow := h.binds.shadows i hused
          rw [Slot.Shadows, hrow] at hshadow
          obtain ⟨e', hcur, hkey, hseq'⟩ := hshadow
          have hrr : r = r' := hranked.distinct r r' _ e' hsome (upTo_some hcur.1)
            (hname.symm.trans hkey.symm) (hseq.trans hseq'.symm)
          rw [hrr] at hcur
          exact free_upTo r' e' hcur
    | fresh i s hfree hnew hused hname hlen' hseq hrow =>
        dsimp only at halloc ⊢
        have hpos : (slots.set i s i).seq < (flash r).seq := by
          rw [Slots.set_self, hseq]
          exact hranked.pos r _ hsome
        rw [if_pos hpos]
        refine scanned_newer halloc hsome hlen ?_ ?_ hpos (fun j hji hj => ?_) fun j => ?_
        · rwa [Slots.set_self]
        · rwa [Slots.set_self]
        · rw [Slots.set_of_ne hji] at hj ⊢
          exact h.copied j hj
        · by_cases hji : j = i
          · subst hji
            rw [Slots.set_self, hlen']
            decide
          · rw [Slots.set_of_ne hji]
            exact h.room j

/-- Before the first row no slot is used. -/
theorem scanned_start (h : ∀ i, (slots i).used = false ∧ (slots i).len ≤ storeDataMax) :
    Scanned flash 0 slots := by
  have hunused : ∀ i, (slots i).used = true → False := by
    intro i hi
    rw [(h i).1] at hi
    cases hi
  refine ⟨⟨fun i _ hi => (hunused i hi).elim, fun r e hr => ?_, fun i hi => (hunused i hi).elim⟩,
    fun i hi => (hunused i hi).elim, fun i => (h i).2⟩
  have hnone : upTo (rowsOf flash) 0 r = none := if_neg (Nat.not_lt_zero _)
  rw [hr] at hnone
  cases hnone

theorem scanned_scan (hranked : Ranked (rowsOf flash)) (hfits : Fits (rowsOf flash))
    (slots : Slots) : Scanned flash storeRows (scan flash slots) := by
  have hprefix : ∀ k ≤ storeRows, Scanned flash k
      (((List.finRange storeRows).take k).foldl (scanRow flash) fun i => (slots i).cleared) := by
    intro k hk
    induction k with
    | zero =>
        exact scanned_start fun i => ⟨rfl, by show (0 : Byte) ≤ storeDataMax; decide⟩
    | succ k ih =>
        have hget : (List.finRange storeRows)[k]? = some ⟨k, hk⟩ := by
          have hlt : k < (List.finRange storeRows).length := by
            rw [List.length_finRange]
            exact hk
          rw [List.getElem?_eq_getElem hlt, List.getElem_finRange]
          rfl
        rw [List.take_add_one, hget, List.foldl_append]
        exact scanned_step (r := ⟨k, hk⟩) (ih (by omega)) hranked hfits
  have hall := hprefix storeRows le_rfl
  rw [List.take_of_length_le (by simp)] at hall
  unfold scan
  exact hall

/-- After the scan the shadow has for a name what the log holds for it. -/
theorem holds_lookup {s : Store} (h : Scanned s.flash storeRows s.slots) (name : Name) :
    Holds (rowsOf s.flash) name (s.lookup name) := by
  have hbinds : Binds (rowsOf s.flash) s.slots := by
    have hb := h.binds
    rwa [upTo_all le_rfl] at hb
  unfold Store.lookup
  cases hfind : storeFind s.slots name with
  | none =>
      intro r e hr heq
      obtain ⟨i, hi, hname⟩ := hbinds.bound r e hr
      exact storeFind_none hfind hi (hname.trans heq)
  | some i =>
      obtain ⟨hused, hname⟩ := storeFind_some hfind
      obtain ⟨r, hrow, hcontents⟩ := h.copied i hused
      have hshadow := hbinds.shadows i hused
      rw [Slot.Shadows, hrow] at hshadow
      obtain ⟨e, hcur, hkey, _⟩ := hshadow
      refine ⟨r, e, hcur, hkey.trans hname, ?_⟩
      rw [← (rowsOf_eq_some hcur.1).2]
      exact hcontents.symm

end Scan

end SlowBus.Config
