import Mathlib
import SlowBus.Config.Staging

/-!
# Power lost while the store is erased

The whole store is erased row by row, in the order of the rows. What a scan shows of a
name is the newest of its entries, so that an older entry comes back when the newest was
erased first. Whether that can happen is a matter of where the entries lie.
-/

namespace SlowBus.Config

open Bus (Byte)
open Runs (run)
open LogStore (newer newest)

/-! ## What a scan shows of a name -/

/-- The valid entries of a name in some rows, in their order. -/
def entriesIn (flash : Flash) (name : Name) (rows : List Row) : List Entry :=
  (rows.map flash).filter fun e => e.valid && e.name == name

def Entry.numbered (e : Entry) : Nat × List Byte := (e.seq.toNat, e.contents)

/-- The newest entry of a name in some rows. -/
def newestIn (flash : Flash) (name : Name) (rows : List Row) : Nat × List Byte :=
  newest [] ((entriesIn flash name rows).map Entry.numbered)

/-- What there is of a name in some rows. -/
def shownIn (flash : Flash) (name : Name) (rows : List Row) : Option (List Byte) :=
  if entriesIn flash name rows = [] then none else some (newestIn flash name rows).2

/-- The slots after some rows of the scan: those of the names in these rows, each with
the newest entry of its name. -/
structure Shadowed (flash : Flash) (rows : List Row) (slots : Slots) : Prop extends
    Slots.Tidy slots where
  found : ∀ r ∈ rows, (flash r).valid = true →
    ∃ i, (slots i).used = true ∧ (slots i).name = (flash r).name
  newest : ∀ i, (slots i).used = true → entriesIn flash (slots i).name rows ≠ [] ∧
    newestIn flash (slots i).name rows = ((slots i).seq.toNat, (slots i).contents)

section Scan

variable {flash : Flash} {rows : List Row} {slots : Slots} {name : Name} {r : Row}

theorem entriesIn_append (flash : Flash) (name : Name) (rows rows' : List Row) :
    entriesIn flash name (rows ++ rows') =
      entriesIn flash name rows ++ entriesIn flash name rows' := by
  rw [entriesIn, List.map_append, List.filter_append]
  rfl

theorem newestIn_append (flash : Flash) (name : Name) (rows rows' : List Row) :
    newestIn flash name (rows ++ rows') =
      newer (newestIn flash name rows) (newestIn flash name rows') := by
  rw [newestIn, entriesIn_append, List.map_append, LogStore.newest_append]
  rfl

theorem entriesIn_single (r : Row) :
    entriesIn flash name [r] =
      if (flash r).valid = true ∧ (flash r).name = name then [flash r] else [] := by
  simp [entriesIn, List.filter_cons]

/-- A slot is as a row of its name leaves it, and the others are as before. -/
theorem Shadowed.set {i : SlotId} {t : Slot} {e : Entry} (h : Shadowed flash rows slots)
    (hr : flash r = e) (hvalid : e.valid = true) (htidy : (slots.set i t).Tidy)
    (hused : t.used = true) (hname : t.name = e.name)
    (hslot : ∀ j, (slots j).used = true → (slots j).name = e.name → j = i)
    (hkeep : (slots i).used = true → (slots i).name = e.name)
    (hnewest : newestIn flash e.name (rows ++ [r]) = (t.seq.toNat, t.contents)) :
    Shadowed flash (rows ++ [r]) (slots.set i t) where
  toTidy := htidy
  found r' hr' hvalid' := by
    rcases List.mem_append.mp hr' with hold | hnew
    · obtain ⟨j, hj, hjname⟩ := h.found r' hold hvalid'
      by_cases hji : j = i
      · subst hji
        refine ⟨j, by rwa [Slots.set_self], ?_⟩
        rw [Slots.set_self, hname, ← hjname, hkeep hj]
      · exact ⟨j, by rwa [Slots.set_of_ne hji], by rwa [Slots.set_of_ne hji]⟩
    · rw [List.mem_singleton.mp hnew, hr]
      exact ⟨i, by rwa [Slots.set_self], by rwa [Slots.set_self]⟩
  newest j hj := by
    by_cases hji : j = i
    · subst hji
      rw [Slots.set_self, hname]
      refine ⟨?_, hnewest⟩
      rw [entriesIn_append, entriesIn_single, hr, if_pos ⟨hvalid, rfl⟩]
      simp
    · rw [Slots.set_of_ne hji] at hj ⊢
      have hother : e.name ≠ (slots j).name := fun heq => hji (hslot j hj heq.symm)
      have hnone : entriesIn flash (slots j).name [r] = [] := by
        rw [entriesIn_single, hr, if_neg fun hand => hother hand.2]
      have hsame : newestIn flash (slots j).name (rows ++ [r]) =
          newestIn flash (slots j).name rows := by
        rw [newestIn, entriesIn_append, hnone, List.append_nil]
        rfl
      rw [entriesIn_append, hnone, List.append_nil, hsame]
      exact h.newest j hj

theorem entriesIn_ne_nil (h : entriesIn flash name rows ≠ []) :
    ∃ r ∈ rows, (flash r).valid = true ∧ (flash r).name = name := by
  obtain ⟨e, he⟩ := List.exists_mem_of_ne_nil _ h
  obtain ⟨hmem, hand⟩ := List.mem_filter.mp he
  obtain ⟨r, hr, rfl⟩ := List.mem_map.mp hmem
  simp only [Bool.and_eq_true, beq_iff_eq] at hand
  exact ⟨r, hr, hand⟩

/-- The newest entry of the name of a row, after that row. -/
theorem newestIn_row (h : (flash r).valid = true) :
    newestIn flash (flash r).name (rows ++ [r]) =
      newer (newestIn flash (flash r).name rows) (flash r).numbered := by
  have hsingle : newestIn flash (flash r).name [r] = newer (⊥, []) (flash r).numbered := by
    rw [newestIn, entriesIn_single, if_pos ⟨h, rfl⟩]
    rfl
  rw [newestIn_append, hsingle, LogStore.newer_absorb]

/-- A row that holds no entry shows nothing. -/
theorem Shadowed.skip (h : Shadowed flash rows slots) (hinvalid : ¬(flash r).valid = true) :
    Shadowed flash (rows ++ [r]) slots where
  toTidy := h.toTidy
  found r' hr' hvalid' := by
    rcases List.mem_append.mp hr' with hold | hnew
    · exact h.found r' hold hvalid'
    · rw [List.mem_singleton.mp hnew] at hvalid'
      exact absurd hvalid' hinvalid
  newest i hi := by
    have hnone : entriesIn flash (slots i).name [r] = [] := by
      rw [entriesIn_single, if_neg fun hand => hinvalid hand.1]
    rw [newestIn, entriesIn_append, hnone, List.append_nil]
    exact h.newest i hi

/-- Of a name without a slot the rows so far have no entry. -/
theorem Shadowed.newestIn_eq_bot (h : Shadowed flash rows slots)
    (hnew : ∀ j, (slots j).used = true → (slots j).name ≠ name) :
    newestIn flash name rows = (⊥, []) := by
  have hempty : entriesIn flash name rows = [] := by
    by_contra hne
    obtain ⟨r, hr, hvalid, hname⟩ := entriesIn_ne_nil hne
    obtain ⟨j, hj, hjname⟩ := h.found r hr hvalid
    exact hnew j hj (hjname.trans hname)
  rw [newestIn, hempty]
  rfl

/-- Names that fit leave a slot for the name of every row. -/
theorem Shadowed.not_full (h : Shadowed flash rows slots) (hfits : Fits (rowsOf flash))
    (hvalid : (flash r).valid = true) (hfull : ∀ j, (slots j).used = true) :
    ∃ j, (slots j).name = (flash r).name := by
  by_contra! hnew
  obtain ⟨names, hlength, hmem⟩ := hfits
  have hmem' : ∀ r', (flash r').valid = true → (flash r').name ∈ names :=
    fun r' hr' => hmem r' (flash r').record (if_pos hr')
  refine names_exceed hlength (fun j k => h.names j k (hfull j) (hfull k)) (fun j => ?_)
    (hmem' r hvalid) hnew
  obtain ⟨r', _, hr', hname⟩ := entriesIn_ne_nil (h.newest j (hfull j)).1
  exact hname ▸ hmem' r' hr'

/-- A row of the scan. -/
theorem shadowed_scanRow (h : Shadowed flash rows slots) (hfits : Fits (rowsOf flash)) (r : Row) :
    Shadowed flash (rows ++ [r]) (scanRow flash slots r) := by
  have htidy := tidy_scanRow flash h.toTidy r
  unfold scanRow at htidy ⊢
  dsimp only at htidy ⊢
  split at htidy
  next hinvalid =>
    rw [if_pos hinvalid]
    exact h.skip (by simpa using hinvalid)
  next hvalid =>
    rw [if_neg hvalid]
    have hvalid : (flash r).valid = true := by simpa using hvalid
    have hnumber : newestIn flash (flash r).name (rows ++ [r]) = _ := newestIn_row hvalid
    have hcase := alloc_case slots (flash r).name
    generalize storeAlloc slots (flash r).name = result at htidy hcase
    cases hcase with
    -- there are as many slots as names, so a slot is found
    | full hfull hnew =>
        obtain ⟨j, hname⟩ := h.not_full hfits hvalid hfull
        exact absurd hname (hnew j (hfull j))
    | found i hused hname =>
        dsimp only at htidy ⊢
        have hslot : ∀ j, (slots j).used = true → (slots j).name = (flash r).name → j = i :=
          fun j hj heq => h.names j i hj hused (heq.trans hname.symm)
        have hold := (h.newest i hused).2
        rw [hname] at hold
        rw [hold] at hnumber
        split at htidy
        next hnewer =>
          rw [if_pos hnewer]
          refine h.set rfl hvalid htidy hused hname hslot (fun _ => hname) ?_
          rw [hnumber, LogStore.newer_of_lt (BitVec.lt_def.mp hnewer)]
          exact congrArg (Prod.mk _) (take_copyBytes ..).symm
        next hnewer =>
          rw [if_neg hnewer]
          have hself : slots.set i (slots i) = slots := Function.update_eq_self ..
          rw [← hself] at htidy ⊢
          refine h.set rfl hvalid htidy hused hname hslot (fun _ => hname) ?_
          rw [hnumber, LogStore.newer_of_le (BitVec.not_lt.mp hnewer)]
    | fresh i s hfree hnew hused hname hlen hseq hrow =>
        dsimp only at htidy ⊢
        have hold := h.newestIn_eq_bot hnew
        have hslot : ∀ j, (slots j).used = true → (slots j).name = (flash r).name → j = i :=
          fun j hj heq => absurd heq (hnew j hj)
        have hkeep : (slots i).used = true → (slots i).name = (flash r).name := by
          intro hi
          rw [hfree] at hi
          cases hi
        rw [hold] at hnumber
        split at htidy
        next hnewer =>
          -- the row is the first of its name and above the number of a fresh slot
          rw [if_pos hnewer]
          have hset : ∀ t, (slots.set i s).set i t = slots.set i t :=
            fun t => Function.update_idem ..
          rw [hset] at htidy ⊢
          have hpos : (⊥ : Nat) < (flash r).seq.toNat := by
            rw [Slots.set_self, hseq] at hnewer
            exact BitVec.lt_def.mp hnewer
          refine h.set rfl hvalid htidy ?_ ?_ hslot hkeep ?_
          · rwa [Slots.set_self]
          · rwa [Slots.set_self]
          · rw [hnumber, LogStore.newer_of_lt hpos]
            exact congrArg (Prod.mk _) (take_copyBytes ..).symm
        next hnewer =>
          rw [if_neg hnewer]
          have hzero : (flash r).seq.toNat ≤ (⊥ : Nat) := by
            rw [Slots.set_self, hseq] at hnewer
            exact BitVec.not_lt.mp hnewer
          refine h.set rfl hvalid htidy hused hname hslot hkeep ?_
          have hbytes : s.contents = [] := by
            rw [Slot.contents, hlen]
            exact List.take_zero
          have holder := LogStore.newer_of_le (a := (⊥, [])) (b := (flash r).numbered) hzero
          refine (hnumber.trans holder).trans ?_
          rw [hseq, hbytes]
          rfl

theorem shadowed_scan (hfits : Fits (rowsOf flash)) (slots : Slots) :
    Shadowed flash (List.finRange storeRows) (scan flash slots) := by
  have hfold : ∀ (todo done : List Row) (slots : Slots), Shadowed flash done slots →
      Shadowed flash (done ++ todo) (todo.foldl (scanRow flash) slots) := by
    intro todo
    induction todo with
    | nil =>
        intro done slots h
        rwa [List.append_nil]
    | cons r todo ih =>
        intro done slots h
        rw [List.foldl_cons, List.append_cons]
        exact ih _ _ (shadowed_scanRow h hfits r)
  have hstart : Shadowed flash [] fun i => (slots i).cleared := by
    refine ⟨⟨fun i _ hi => ?_, fun i => ?_⟩, fun r hr => ?_, fun i hi => ?_⟩
    · cases hi
    · show (0 : Byte) ≤ storeDataMax
      decide
    · cases hr
    · cases hi
  have hall := hfold (List.finRange storeRows) [] _ hstart
  rw [List.nil_append] at hall
  unfold scan
  exact hall

/-- What a scan shows of a name is the newest of its entries. -/
theorem lookup_scan {s : Store} (hfits : Fits (rowsOf s.flash)) {slots : Slots}
    (hs : s.slots = scan s.flash slots) (name : Name) :
    s.lookup name = shownIn s.flash name (List.finRange storeRows) := by
  have h := shadowed_scan hfits slots
  rw [← hs] at h
  rw [Store.lookup, shownIn]
  cases hfind : storeFind s.slots name with
  | none =>
      have hempty : entriesIn s.flash name (List.finRange storeRows) = [] := by
        by_contra hne
        obtain ⟨r, hr, hvalid, hname⟩ := entriesIn_ne_nil hne
        obtain ⟨i, hi, hiname⟩ := h.found r hr hvalid
        exact storeFind_none hfind hi (hiname.trans hname)
      rw [if_pos hempty]
      rfl
  | some i =>
      obtain ⟨hused, hname⟩ := storeFind_some hfind
      obtain ⟨hne, hnewest⟩ := h.newest i hused
      rw [hname] at hne hnewest
      rw [if_neg hne, hnewest]
      rfl

end Scan

/-! ## The rows erased so far -/

/-- The flash when power is lost after `n` rows are erased. -/
def Store.cutFormat (s : Store) (n : Nat) : Flash :=
  eraseRows s.flash ((formatRows s.flash).take n)

section Erase

variable {flash : Flash} {s : Store} {rows : List Row} {name : Name} {r : Row} {n : Nat}

theorem eraseRows_apply (flash : Flash) (rows : List Row) (r : Row) :
    eraseRows flash rows r = if r ∈ rows then Entry.blank else flash r := by
  induction rows generalizing flash with
  | nil => rfl
  | cons r' rows ih =>
      have hcons : eraseRows flash (r' :: rows) =
          eraseRows (Function.update flash r' Entry.blank) rows := rfl
      rw [hcons, ih]
      by_cases hmem : r ∈ rows
      · rw [if_pos hmem, if_pos (List.mem_cons_of_mem _ hmem)]
      · rw [if_neg hmem]
        by_cases heq : r = r'
        · subst heq
          rw [Function.update_self, if_pos (List.mem_cons_self ..)]
        · rw [Function.update_of_ne heq, if_neg]
          simp [heq, hmem]

/-- Only entries that were there are left. -/
theorem eraseRows_valid (h : (eraseRows flash rows r).valid = true) :
    eraseRows flash rows r = flash r ∧ r ∉ rows := by
  rw [eraseRows_apply] at h ⊢
  split at h
  next =>
    rw [blank_invalid] at h
    cases h
  next hmem =>
    rw [if_neg hmem]
    exact ⟨rfl, hmem⟩

theorem fits_eraseRows (h : Fits (rowsOf flash)) (rows : List Row) :
    Fits (rowsOf (eraseRows flash rows)) := by
  obtain ⟨names, hlength, hmem⟩ := h
  refine ⟨names, hlength, fun r e hr => ?_⟩
  obtain ⟨hvalid, rfl⟩ := rowsOf_eq_some hr
  obtain ⟨heq, _⟩ := eraseRows_valid hvalid
  rw [heq] at hvalid ⊢
  exact hmem r _ (if_pos hvalid)

/-- Rows without a valid entry may be passed over. -/
theorem entriesIn_filter {q : Row → Bool} (h : ∀ r ∈ rows, (flash r).valid = true → q r = true) :
    entriesIn flash name (rows.filter q) = entriesIn flash name rows := by
  rw [entriesIn, entriesIn, List.filter_map, List.filter_map, List.filter_filter]
  congr 1
  refine List.filter_congr fun r hr => ?_
  cases hvalid : (flash r).valid with
  | false => simp [hvalid]
  | true => simp [hvalid, h r hr hvalid]

theorem magic_valid {e : Entry} (h : e.valid = true) : (e.magic != 0xFFFFFFFF) = true := by
  simp only [Entry.valid, Bool.and_eq_true, beq_iff_eq] at h
  rw [h.1.1.1]
  decide

/-- The entries of a name are in rows the erasing goes through. -/
theorem entriesIn_format (flash : Flash) (name : Name) :
    entriesIn flash name (formatRows flash) = entriesIn flash name (List.finRange storeRows) :=
  entriesIn_filter fun _ _ => magic_valid

theorem filter_notMem_take {l : List Row} (h : l.Nodup) (n : Nat) :
    l.filter (fun r => decide (r ∉ l.take n)) = l.drop n := by
  have hsplit : (l.take n ++ l.drop n).filter (fun r => decide (r ∉ l.take n)) = l.drop n := by
    rw [List.filter_append]
    have htake : (l.take n).filter (fun r => decide (r ∉ l.take n)) = [] := by
      rw [List.filter_eq_nil_iff]
      intro r hr
      simpa using hr
    have hdrop : (l.drop n).filter (fun r => decide (r ∉ l.take n)) = l.drop n := by
      rw [List.filter_eq_self]
      intro r hr
      have hboth : (l.take n ++ l.drop n).Nodup := by rwa [List.take_append_drop]
      have hdisjoint := (List.nodup_append.mp hboth).2.2
      simp only [decide_eq_true_eq]
      exact fun hmem => hdisjoint r hmem r hr rfl
    rw [htake, hdrop, List.nil_append]
  rwa [List.take_append_drop] at hsplit

/-- After some rows are erased the entries left are those of the other rows. -/
theorem entriesIn_cut (s : Store) (name : Name) (n : Nat) :
    entriesIn (s.cutFormat n) name (List.finRange storeRows) =
      entriesIn s.flash name ((formatRows s.flash).drop n) := by
  set erased := (formatRows s.flash).take n with herased
  have hnodup : (formatRows s.flash).Nodup := (List.nodup_finRange _).filter _
  have hleft : ∀ r ∈ (List.finRange storeRows).filter (fun r => decide (r ∉ erased)),
      s.cutFormat n r = s.flash r := by
    intro r hr
    have hnot : r ∉ erased := by simpa using (List.mem_filter.mp hr).2
    rw [Store.cutFormat, eraseRows_apply, if_neg hnot]
  calc entriesIn (s.cutFormat n) name (List.finRange storeRows)
      = entriesIn (s.cutFormat n) name
          ((List.finRange storeRows).filter fun r => decide (r ∉ erased)) :=
        (entriesIn_filter fun r _ hvalid => by simpa using (eraseRows_valid hvalid).2).symm
    _ = entriesIn s.flash name ((List.finRange storeRows).filter fun r => decide (r ∉ erased)) := by
        rw [entriesIn, entriesIn, List.map_congr_left hleft]
    _ = entriesIn s.flash name (((List.finRange storeRows).filter fun r => decide (r ∉ erased)).filter
          fun r => (s.flash r).magic != 0xFFFFFFFF) :=
        (entriesIn_filter fun _ _ => magic_valid).symm
    _ = entriesIn s.flash name ((formatRows s.flash).drop n) := by
        rw [← filter_notMem_take hnodup n, formatRows, List.filter_filter, List.filter_filter]
        congr 2
        funext r
        exact Bool.and_comm ..

end Erase

/-! ## Every history leaves room for its names -/

/-- What happens to a store, with its erasing, and the loss of power in that after some
rows. -/
inductive HistoryEvent where
  | store (e : StoreEvent)
  | format
  | cutFormat (n : Nat)

def Store.after (s : Store) : HistoryEvent → Store
  | .store e => s.next e
  | .format => s.format
  | .cutFormat n => { s with flash := s.cutFormat n }.reboot

/-- Every valid entry has a slot of its name. -/
structure Store.Housed (s : Store) : Prop extends s.slots.Tidy where
  found : ∀ r, (s.flash r).valid = true →
    ∃ i, (s.slots i).used = true ∧ (s.slots i).name = (s.flash r).name

section History

variable {s : Store} {flash : Flash} {i : SlotId}

theorem Store.Housed.fits (h : s.Housed) : Fits (rowsOf s.flash) := by
  refine ⟨(List.finRange storeSlots).map fun j => (s.slots j).name, by simp, fun r e hr => ?_⟩
  obtain ⟨hvalid, rfl⟩ := rowsOf_eq_some hr
  obtain ⟨i, _, hname⟩ := h.found r hvalid
  exact List.mem_map.mpr ⟨i, List.mem_finRange i, hname⟩

theorem housed_scan (h : Fits (rowsOf s.flash)) {slots : Slots} (hs : s.slots = scan s.flash slots) :
    s.Housed := by
  have hshadowed := shadowed_scan h slots
  rw [← hs] at hshadowed
  exact ⟨hshadowed.toTidy, fun r => hshadowed.found r (List.mem_finRange r)⟩

/-- A row of a used slot, valid only under the name of the slot. -/
theorem fits_update {p : Row} {e : Entry} (h : s.Housed)
    (hname : e.valid = true → e.name = (s.slots i).name) :
    Fits (rowsOf (Function.update s.flash p e)) := by
  refine ⟨(List.finRange storeSlots).map fun j => (s.slots j).name, by simp, fun r x hr => ?_⟩
  obtain ⟨hvalid, rfl⟩ := rowsOf_eq_some hr
  by_cases hrp : r = p
  · subst hrp
    rw [Function.update_self] at hvalid ⊢
    exact List.mem_map.mpr ⟨i, List.mem_finRange i, (hname hvalid).symm⟩
  · rw [Function.update_of_ne hrp] at hvalid ⊢
    obtain ⟨j, _, hj⟩ := h.found r hvalid
    exact List.mem_map.mpr ⟨j, List.mem_finRange j, hj⟩

/-- Once its first page is written a row has the name of the entry. -/
theorem written_name (e : Entry) {k : Nat} (hk : 0 < k) : (e.written k).name = e.name := by
  induction k with
  | zero => exact absurd hk (Nat.lt_irrefl 0)
  | succ k ih =>
      have hnext : e.written (k + 1) = (e.written k).withPage e k := by
        rw [Entry.written, List.range_succ, List.foldl_append]
        rfl
      rw [hnext]
      cases k with
      | zero => simp [Entry.withPage]
      | succ k =>
          have hold := ih (Nat.succ_pos k)
          simpa [Entry.withPage] using hold

theorem fits_cutFlash (h : s.Housed) (i : SlotId) (n : Nat) : Fits (rowsOf (s.cutFlash i n)) := by
  rcases cutFlash_case s i n with heq | ⟨p, k, rfl, hrewrites, hpick, heq⟩
  · rw [heq]
    exact h.fits
  · rw [heq]
    refine fits_update (i := i) h fun hvalid => ?_
    cases hmin : min k 4 with
    | zero =>
        rw [hmin] at hvalid
        have hblank : (s.slots i).entry.written 0 = Entry.blank := rfl
        rw [hblank, blank_invalid] at hvalid
        cases hvalid
    | succ m => exact written_name _ (Nat.succ_pos m)

/-- A slot edited under its own name. -/
theorem Store.Housed.set {t : Slot} (h : s.Housed) (hused : t.used = (s.slots i).used)
    (hname : t.name = (s.slots i).name) (hroom : t.len ≤ storeDataMax) :
    ∀ s' : Store, s'.slots = s.slots.set i t → s'.flash = s.flash → s'.Housed := by
  intro s' hslots hflash
  refine ⟨?_, fun r hvalid => ?_⟩
  · rw [hslots]
    refine h.toTidy.set hroom fun j hji hj ht heq => hji ?_
    exact h.names j i hj (hused ▸ ht) (heq.trans hname)
  · rw [hflash] at hvalid ⊢
    obtain ⟨j, hj, hjname⟩ := h.found r hvalid
    rw [hslots]
    by_cases hji : j = i
    · subst hji
      exact ⟨j, by rw [Slots.set_self, hused, hj], by rw [Slots.set_self, hname, hjname]⟩
    · exact ⟨j, by rwa [Slots.set_of_ne hji], by rwa [Slots.set_of_ne hji]⟩

theorem housed_alloc (h : s.Housed) (name : Name) :
    Store.Housed { s with slots := (storeAlloc s.slots name).1 } := by
  refine ⟨tidy_alloc h.toTidy name, fun r hvalid => ?_⟩
  obtain ⟨j, hj, hjname⟩ := h.found r hvalid
  have hcase := alloc_case s.slots name
  dsimp only
  generalize storeAlloc s.slots name = result at hcase
  cases hcase with
  | found | full => exact ⟨j, hj, hjname⟩
  | fresh i t hfree =>
      have hji : j ≠ i := by
        rintro rfl
        rw [hfree] at hj
        cases hj
      dsimp only
      exact ⟨j, by rwa [Slots.set_of_ne hji], by rwa [Slots.set_of_ne hji]⟩

theorem housed_commit (h : s.Housed) (slot : Nat) : (s.commit slot).1.Housed := by
  have hcase := commit_case s slot
  generalize s.commit slot = result at hcase
  cases hcase with
  | refused => exact h
  | same i hslot hused =>
      exact h.set (i := i) (t := { s.slots i with dirty := false }) rfl rfl (h.room i) _ rfl rfl
  | failed i p hpick hinvalid =>
      refine ⟨h.toTidy, fun r hvalid => ?_⟩
      dsimp only at hvalid ⊢
      by_cases hrp : r = p
      · subst hrp
        rw [Function.update_self, hinvalid] at hvalid
        cases hvalid
      · rw [Function.update_of_ne hrp] at hvalid ⊢
        exact h.found r hvalid
  | done i p hslot hrewrites hpick hvalid =>
      have hset := h.set (i := i) (t := { s.slots i with
        seq := (s.slots i).entry.seq, row := some p, dirty := false }) rfl rfl (h.room i)
        { s with slots := _ } rfl rfl
      refine ⟨hset.toTidy, fun r hr => ?_⟩
      dsimp only at hr ⊢
      by_cases hrp : r = p
      · subst hrp
        rw [Function.update_self]
        refine ⟨i, ?_, ?_⟩
        · rw [Slots.set_self]
          exact used_of_rewrites hrewrites
        · rw [Slots.set_self]
          rfl
      · rw [Function.update_of_ne hrp] at hr ⊢
        exact hset.found r hr

theorem Store.Housed.record (h : s.Housed) (o : Outcome) : (s.record o).Housed :=
  ⟨h.toTidy, h.found⟩

theorem housed_after (h : s.Housed) (e : HistoryEvent) : (s.after e).Housed := by
  cases e with
  | format => exact housed_scan (fits_eraseRows h.fits _) rfl
  | cutFormat n => exact housed_scan (fits_eraseRows h.fits _) rfl
  | store e =>
      show (s.next e).Housed
      cases e with
      | alloc name => exact housed_alloc h name
      | load => exact housed_scan h.fits rfl
      | reboot => exact housed_scan h.fits rfl
      | edit i data len =>
          unfold Store.next
          dsimp only
          split
          next hlen =>
            exact h.set (i := i) (t := { s.slots i with data, len, dirty := true }) rfl rfl hlen _
              rfl rfl
          next => exact h
      | commit slot =>
          unfold Store.next
          dsimp only
          split
          next => exact (housed_commit h slot).record _
          next => exact housed_commit h slot
      | cut i n =>
          have hcut : Store.Housed (Store.reboot { s with flash := s.cutFlash i n }) :=
            housed_scan (fits_cutFlash h i n) rfl
          unfold Store.next
          dsimp only
          split
          next => exact hcut.record _
          next => exact hcut

theorem housed_erased : Store.erased.Housed := by
  refine ⟨⟨fun i _ hi => ?_, fun i => ?_⟩, fun r hr => ?_⟩
  · cases hi
  · show (0 : Byte) ≤ storeDataMax
    decide
  · rw [show Store.erased.flash r = Entry.blank from rfl, blank_invalid] at hr
    cases hr

end History

/-! ## Power lost while the store is erased -/

/-- No name is left an entry while a newer one of it with other contents is among the
first `n` rows erased. -/
def Store.OldestFirst (s : Store) (n : Nat) : Prop :=
  ∀ name, entriesIn s.flash name ((formatRows s.flash).drop n) = [] ∨
    (newestIn s.flash name ((formatRows s.flash).take n)).1 <
      (newestIn s.flash name ((formatRows s.flash).drop n)).1 ∨
    (newestIn s.flash name ((formatRows s.flash).take n)).2 =
      (newestIn s.flash name ((formatRows s.flash).drop n)).2

/-- After every history, with power lost after `n` rows of the store are erased: the next
boot shows of every name what it had or nothing, if and only if no name is left an older
entry with other contents than the newest erased. -/
theorem format_never_resurrects (es : List HistoryEvent) (n : Nat) :
    let s := run Store.after Store.erased es
    (∀ name, (s.after (.cutFormat n)).lookup name = s.reboot.lookup name ∨
      (s.after (.cutFormat n)).lookup name = none) ↔ s.OldestFirst n := by
  intro s
  have hhoused : s.Housed := Runs.run_invariant (fun _ e h => housed_after h e) housed_erased
  refine forall_congr' fun name => ?_
  have hbefore : s.reboot.lookup name = shownIn s.flash name
      ((formatRows s.flash).take n ++ (formatRows s.flash).drop n) := by
    rw [lookup_scan (s := s.reboot) hhoused.fits rfl, shownIn, shownIn, newestIn, newestIn,
      List.take_append_drop, entriesIn_format]
    rfl
  have hafter : (s.after (.cutFormat n)).lookup name =
      shownIn s.flash name ((formatRows s.flash).drop n) := by
    rw [lookup_scan (s := s.after (.cutFormat n)) (fits_eraseRows hhoused.fits _) rfl]
    show shownIn (s.cutFormat n) name _ = _
    rw [shownIn, shownIn, newestIn, newestIn, entriesIn_cut]
  rw [hbefore, hafter, shownIn, shownIn, newestIn_append, entriesIn_append]
  by_cases hempty : entriesIn s.flash name ((formatRows s.flash).drop n) = []
  · simp [hempty]
  · have happend : entriesIn s.flash name ((formatRows s.flash).take n) ++
        entriesIn s.flash name ((formatRows s.flash).drop n) ≠ [] := by simp [hempty]
    rw [if_neg hempty, if_neg happend]
    generalize newestIn s.flash name ((formatRows s.flash).take n) = erased
    generalize newestIn s.flash name ((formatRows s.flash).drop n) = left
    rcases lt_or_ge erased.1 left.1 with hlt | hle
    · rw [LogStore.newer_of_lt hlt]
      simp [hlt]
    · rw [LogStore.newer_of_le hle]
      simp [hempty, not_lt.mpr hle, eq_comm]

/-- A file committed twice, and once more after a boot: the newest entry is in row 0, and
row 1 has the one before it. -/
def wrapAround : List HistoryEvent :=
  [.store (.alloc fileName), .store (editByte 1), .store (.commit 0), .store (editByte 2),
    .store (.commit 0), .store .reboot, .store (editByte 3), .store (.commit 0)]

/-- With one row erased the second contents are back. -/
theorem format_resurrects :
    let s := run Store.after Store.erased wrapAround
    ¬ ∀ name, (s.after (.cutFormat 1)).lookup name = s.reboot.lookup name ∨
      (s.after (.cutFormat 1)).lookup name = none := by
  intro s hall
  have hback : s.reboot.lookup fileName = some [3] ∧
      (s.after (.cutFormat 1)).lookup fileName = some [2] := by decide +kernel
  have hname := hall fileName
  rw [hback.1, hback.2] at hname
  revert hname
  decide

end SlowBus.Config
