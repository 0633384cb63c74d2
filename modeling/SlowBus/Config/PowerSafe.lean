import SlowBus.Config.Commit

/-!
# The store survives the loss of power

Through any history of commits, reloads and losses of power the log holds for every
name what was last committed, and a name whose commit was cut short has its previous
or its new contents.
-/

namespace SlowBus.Config

open Bus (Byte)
open Runs (run Along)
open LogStore (Rec Current Holds Free Ranked)

/-- What a store may hold after a history: nothing at first, the contents committed
last, and either of two contents for a name whose commit was cut short. -/
inductive Possible : List Outcome → (Name → Option (List Byte)) → Prop
  | erased : Possible [] fun _ => none
  | committed {log stored} (name : Name) (contents : List Byte) (h : Possible log stored) :
      Possible (log ++ [.committed name contents]) (Function.update stored name (some contents))
  | lost {log stored} (name : Name) (contents : List Byte) (h : Possible log stored) :
      Possible (log ++ [.interrupted name contents]) stored
  | kept {log stored} (name : Name) (contents : List Byte) (h : Possible log stored) :
      Possible (log ++ [.interrupted name contents]) (Function.update stored name (some contents))

/-- A row left partially written is not valid, unless it holds the whole entry already. -/
def Store.TornInvalid (s : Store) : StoreEvent → Prop
  | .cut i (k + 1) => s.rewrites i = true →
      (s.slots i).entry.written (min k 4) ≠ (s.slots i).entry →
        ((s.slots i).entry.written (min k 4)).valid = false
  | _ => True

/-- The sequence number of the name written can still grow. -/
def Store.CanGrow (s : Store) : StoreEvent → Prop
  | .commit slot => ∀ i : SlotId, slot = i.val → s.rewrites i = true → (s.slots i).seq ≠ maxSeq
  | .cut i _ => s.rewrites i = true → (s.slots i).seq ≠ maxSeq
  | _ => True

def Store.Orderly (s : Store) (e : StoreEvent) : Prop := s.TornInvalid e ∧ s.CanGrow e

/-- An event is a commit of a name. -/
def StoreEvent.Writes (s : Store) (name : Name) : StoreEvent → Prop
  | .commit slot => ∃ i : SlotId, slot = i.val ∧ (s.slots i).name = name
  | .cut i _ => (s.slots i).name = name
  | _ => False

structure Store.Inv (s : Store) : Prop where
  binds : Binds (rowsOf s.flash) s.slots
  ranked : Ranked (rowsOf s.flash)
  room : ∀ i, (s.slots i).len ≤ storeDataMax
  stored : ∃ stored, Possible s.log stored ∧ ∀ name, Holds (rowsOf s.flash) name (stored name)

section Steps

variable {s : Store} {i : SlotId} {p : Row} {slots slots' : Slots} {rows : Row → Option Record}

/-- Slots that agree on what is committed bind the same rows. -/
theorem Binds.congr (h : Binds rows slots)
    (heq : ∀ j, (slots' j).used = (slots j).used ∧ (slots' j).name = (slots j).name ∧
      (slots' j).seq = (slots j).seq ∧ (slots' j).row = (slots j).row) : Binds rows slots' := by
  refine ⟨fun j k hj hk hname => ?_, fun r e hr => ?_, fun j hj => ?_⟩
  · rw [(heq j).1] at hj
    rw [(heq k).1] at hk
    rw [(heq j).2.1, (heq k).2.1] at hname
    exact h.names j k hj hk hname
  · obtain ⟨j, hj, hname⟩ := h.bound r e hr
    exact ⟨j, (heq j).1.trans hj, (heq j).2.1.trans hname⟩
  · rw [(heq j).1] at hj
    have hshadow := h.shadows j hj
    rwa [Slot.Shadows, (heq j).2.1, (heq j).2.2.1, (heq j).2.2.2]

theorem Binds.fits (h : Binds rows slots) : Fits rows := by
  refine ⟨(List.finRange storeSlots).map fun j => (slots j).name, by simp, fun r e hr => ?_⟩
  obtain ⟨j, _, hname⟩ := h.bound r e hr
  exact List.mem_map.mpr ⟨j, List.mem_finRange j, hname⟩

/-- The flash after a commit, or after one cut short: the log is as it was, it has
lost a record that was not current, or it has a newer one of the name written. -/
inductive LogCase (s : Store) (e : StoreEvent) : Flash → Prop
  | same : LogCase s e s.flash
  | lost (p : Row) (x : Entry) (hfree : Free (rowsOf s.flash) p) (hinvalid : x.valid = false) :
      LogCase s e (Function.update s.flash p x)
  | appended (i : SlotId) (p : Row) (hfree : Free (rowsOf s.flash) p)
      (hused : (s.slots i).used = true) (hwrites : e.Writes s (s.slots i).name)
      (hseq : (s.slots i).seq ≠ maxSeq) (hvalid : (s.slots i).entry.valid = true) :
      LogCase s e (Function.update s.flash p (s.slots i).entry)

theorem rows_lost {flash : Flash} {x : Entry} (h : x.valid = false) :
    rowsOf (Function.update flash p x) = Function.update (rowsOf flash) p none := by
  rw [rowsOf_update, h]
  rfl

theorem rows_appended {flash : Flash} {x : Entry} (h : x.valid = true) :
    rowsOf (Function.update flash p x) = Function.update (rowsOf flash) p (some x.record) := by
  rw [rowsOf_update, h]
  rfl

/-- No record of a name is as new as the entry its slot commits. -/
theorem Inv.newer (h : s.Inv) (hused : (s.slots i).used = true) (hseq : (s.slots i).seq ≠ maxSeq)
    {r : Row} {e : Record} (hr : rowsOf s.flash r = some e)
    (hkey : e.key = (s.slots i).entry.record.key) : e.seq < (s.slots i).entry.record.seq := by
  have hle := h.binds.newest hused hr hkey
  have hnext := entry_seq hseq
  show e.seq < (s.slots i).entry.seq.toNat
  omega

/-- The log stays ranked, and what it holds for a name changes only if the event
writes the name. -/
theorem LogCase.ranked {e : StoreEvent} {flash : Flash} (h : s.Inv) (hcase : LogCase s e flash) :
    Ranked (rowsOf flash) := by
  cases hcase with
  | same => exact h.ranked
  | lost p x hfree hinvalid =>
      rw [rows_lost hinvalid]
      exact h.ranked.update fun e he => by cases he
  | appended i p hfree hused hwrites hseq hvalid =>
      rw [rows_appended hvalid]
      refine h.ranked.update fun e he => ?_
      cases he
      refine ⟨?_, fun r e' hr _ hkey => (Inv.newer h hused hseq hr hkey).ne⟩
      show 0 < (s.slots i).entry.seq.toNat
      rw [entry_seq hseq]
      exact Nat.succ_pos _

theorem LogCase.fits {e : StoreEvent} {flash : Flash} (h : s.Inv) (hcase : LogCase s e flash) :
    Fits (rowsOf flash) := by
  cases hcase with
  | same => exact h.binds.fits
  | lost p x hfree hinvalid =>
      rw [rows_lost hinvalid]
      exact (h.binds.rewrite hfree fun e he => by cases he).fits
  | appended i p hfree hused hwrites hseq hvalid =>
      rw [rows_appended hvalid]
      refine ⟨(List.finRange storeSlots).map fun j => (s.slots j).name, by simp, fun r e hr => ?_⟩
      rcases LogStore.update_eq_some hr with ⟨_, hx⟩ | ⟨_, hold⟩
      · cases hx
        exact List.mem_map.mpr ⟨i, List.mem_finRange i, rfl⟩
      · obtain ⟨j, _, hname⟩ := h.binds.bound r e hold
        exact List.mem_map.mpr ⟨j, List.mem_finRange j, hname⟩

theorem LogCase.frame {e : StoreEvent} {flash : Flash} (hcase : LogCase s e flash) {name : Name}
    (hname : ¬ e.Writes s name) {o : Option (List Byte)} (ho : Holds (rowsOf s.flash) name o) :
    Holds (rowsOf flash) name o := by
  cases hcase with
  | same => exact ho
  | lost p x hfree hinvalid =>
      rw [rows_lost hinvalid]
      exact ho.update hfree fun e he => by cases he
  | appended i p hfree hused hwrites hseq hvalid =>
      rw [rows_appended hvalid]
      refine ho.update hfree fun e he hkey => hname ?_
      cases he
      rw [← hkey]
      exact hwrites

/-- What is stored after a record of a slot is appended. -/
theorem holds_appended (h : s.Inv) (hfree : Free (rowsOf s.flash) p)
    (hused : (s.slots i).used = true) (hseq : (s.slots i).seq ≠ maxSeq)
    {stored : Name → Option (List Byte)}
    (hstored : ∀ name, Holds (rowsOf s.flash) name (stored name)) (name : Name) :
    Holds (Function.update (rowsOf s.flash) p (some (s.slots i).entry.record)) name
      (Function.update stored (s.slots i).name (some (s.slots i).contents) name) := by
  by_cases hname : name = (s.slots i).name
  · subst hname
    rw [Function.update_self, ← entry_contents]
    exact LogStore.holds_append fun r e hr hkey => Inv.newer h hused hseq hr hkey
  · rw [Function.update_of_ne hname]
    refine (hstored name).update hfree fun e he hkey => hname ?_
    cases he
    exact hkey.symm

theorem used_of_rewrites (h : s.rewrites i = true) : (s.slots i).used = true := by
  simp only [Store.rewrites, Bool.and_eq_true] at h
  exact h.1

/-- A row that does not hold the whole entry is not valid. -/
theorem cut_case {n : Nat} (h : s.Inv) (hord : s.Orderly (.cut i n)) :
    LogCase s (.cut i n) (s.cutFlash i n) := by
  rcases cutFlash_case s i n with heq | ⟨p, k, rfl, hrewrites, hpick, heq⟩
  · rw [heq]
    exact .same
  · have hfree := pickRow_free h.binds hpick
    rw [heq]
    by_cases hwhole : (s.slots i).entry.written (min k 4) = (s.slots i).entry
    · rw [hwhole]
      cases hvalid : (s.slots i).entry.valid with
      | true =>
          exact .appended i p hfree (used_of_rewrites hrewrites) rfl (hord.2 hrewrites) hvalid
      | false => exact .lost p _ hfree hvalid
    · exact .lost p _ hfree (hord.1 hrewrites hwhole)

theorem commitFlash_case {slot : Nat} (h : s.Inv) (hord : s.Orderly (.commit slot)) :
    LogCase s (.commit slot) (s.commit slot).1.flash := by
  have hcase := commit_case s slot
  generalize s.commit slot = result at hcase
  cases hcase with
  | refused | same => exact .same
  | failed i p hpick hinvalid => exact .lost p _ (pickRow_free h.binds hpick) hinvalid
  | done i p hslot hrewrites hpick hvalid =>
      exact .appended i p (pickRow_free h.binds hpick) (used_of_rewrites hrewrites)
        ⟨i, hslot, rfl⟩ (hord.2 i hslot hrewrites) hvalid

theorem flash_commit (s : Store) (slot : Nat) :
    (s.next (.commit slot)).flash = (s.commit slot).1.flash := by
  unfold Store.next
  dsimp only
  split <;> rfl

theorem flash_cut (s : Store) (i : SlotId) (n : Nat) :
    (s.next (.cut i n)).flash = s.cutFlash i n := by
  unfold Store.next
  dsimp only
  split <;> rfl

theorem log_case {e : StoreEvent} (h : s.Inv) (hord : s.Orderly e) :
    LogCase s e (s.next e).flash := by
  cases e with
  | commit slot =>
      rw [flash_commit]
      exact commitFlash_case h hord
  | cut i n =>
      rw [flash_cut]
      exact cut_case h hord
  | edit i data len =>
      unfold Store.next
      dsimp only
      split <;> exact .same
  | alloc | load | reboot => exact .same

/-! ## Every event keeps the invariant -/

theorem Scanned.bound {flash : Flash} (h : Scanned flash storeRows slots) :
    Binds (rowsOf flash) slots := by
  have hbinds := h.binds
  rwa [upTo_all le_rfl] at hbinds

theorem room_set {t : Slot} (hroom : ∀ i, (slots i).len ≤ storeDataMax)
    (ht : t.len ≤ storeDataMax) : ∀ j, (slots.set i t j).len ≤ storeDataMax := by
  intro j
  by_cases hji : j = i
  · subst hji
    rwa [Slots.set_self]
  · rw [Slots.set_of_ne hji]
    exact hroom j

theorem room_alloc (hroom : ∀ i, (slots i).len ≤ storeDataMax) (name : Name) :
    ∀ i, ((storeAlloc slots name).1 i).len ≤ storeDataMax := by
  have hcase := alloc_case slots name
  generalize storeAlloc slots name = result at hcase
  intro j
  cases hcase with
  | found | full => exact hroom j
  | fresh i t _ _ _ _ hlen => exact room_set hroom (by rw [hlen]; decide) j

theorem Binds.set {t : Slot} (h : Binds rows slots) (hused : t.used = (slots i).used)
    (hname : t.name = (slots i).name) (hseq : t.seq = (slots i).seq)
    (hrow : t.row = (slots i).row) : Binds rows (slots.set i t) := by
  refine h.congr fun j => ?_
  by_cases hji : j = i
  · subst hji
    rw [Slots.set_self]
    exact ⟨hused, hname, hseq, hrow⟩
  · rw [Slots.set_of_ne hji]
    exact ⟨rfl, rfl, rfl, rfl⟩

theorem inv_commit {slot : Nat} (h : s.Inv) (hord : s.Orderly (.commit slot)) :
    (s.next (.commit slot)).Inv := by
  have hlog := commitFlash_case h hord
  obtain ⟨stored, hpossible, hholds⟩ := h.stored
  have hcase := commit_case s slot
  rw [Store.next]
  generalize s.commit slot = result at hcase hlog
  cases hcase with
  | refused =>
      dsimp only
      rw [dif_neg (by simp)]
      exact h
  -- the row that was written is not valid, so the file is as before
  | failed i p hpick hinvalid =>
      dsimp only
      rw [dif_neg (by simp)]
      have hfree := pickRow_free h.binds hpick
      refine ⟨?_, hlog.ranked h, h.room, stored, hpossible, fun name => ?_⟩
      · show Binds (rowsOf (Function.update s.flash p (s.slots i).entry)) s.slots
        rw [rows_lost hinvalid]
        exact h.binds.rewrite hfree fun e he => by cases he
      · show Holds (rowsOf (Function.update s.flash p (s.slots i).entry)) name (stored name)
        rw [rows_lost hinvalid]
        exact (hholds name).update hfree fun e he => by cases he
  -- the live row holds the contents already
  | same i hslot hused hcoal =>
      subst hslot
      dsimp only
      rw [dif_pos ⟨rfl, i.isLt⟩]
      refine ⟨h.binds.set rfl rfl rfl rfl, h.ranked, room_set h.room (h.room i), _,
        .committed _ _ hpossible, fun name => ?_⟩
      by_cases hname : name = (s.slots i).name
      · subst hname
        rw [Function.update_self]
        exact holds_coalesces h.binds hused hcoal
      · rw [Function.update_of_ne hname]
        exact hholds name
  | done i p hslot hrewrites hpick hvalid =>
      subst hslot
      dsimp only
      rw [dif_pos ⟨rfl, i.isLt⟩]
      have hused := used_of_rewrites hrewrites
      have hseq := hord.2 i rfl hrewrites
      have hfree := pickRow_free h.binds hpick
      have hnext : (s.slots i).seq.toNat < (s.slots i).entry.record.seq := by
        show (s.slots i).seq.toNat < (s.slots i).entry.seq.toNat
        rw [entry_seq hseq]
        exact Nat.lt_succ_self _
      refine ⟨?_, hlog.ranked h, room_set h.room (h.room i), _,
        .committed _ _ hpossible, fun name => ?_⟩
      · show Binds (rowsOf (Function.update s.flash p (s.slots i).entry)) _
        rw [rows_appended hvalid]
        exact h.binds.append hfree hused rfl hnext hused rfl rfl rfl
      · show Holds (rowsOf (Function.update s.flash p (s.slots i).entry)) name _
        rw [rows_appended hvalid]
        exact holds_appended h hfree hused hseq hholds name

theorem inv_cut {n : Nat} (h : s.Inv) (hord : s.Orderly (.cut i n)) :
    (s.next (.cut i n)).Inv := by
  have hlog := cut_case h hord
  have hscanned := scanned_scan (hlog.ranked h) (hlog.fits h) fun _ => {}
  obtain ⟨stored, hpossible, hholds⟩ := h.stored
  have hstored : ∃ stored, Possible (s.next (.cut i n)).log stored ∧
      ∀ name, Holds (rowsOf (s.cutFlash i n)) name (stored name) := by
    have hkeep : ∃ stored, Possible (s.next (.cut i n)).log stored ∧
        ∀ name, Holds (rowsOf s.flash) name (stored name) := by
      rw [Store.next]
      split
      next => exact ⟨stored, .lost _ _ hpossible, hholds⟩
      next => exact ⟨stored, hpossible, hholds⟩
    rcases cutFlash_case s i n with heq | ⟨p, k, rfl, hrewrites, hpick, heq⟩
    · rwa [heq]
    · have hfree := pickRow_free h.binds hpick
      have hused := used_of_rewrites hrewrites
      rw [heq]
      cases hvalid : ((s.slots i).entry.written (min k 4)).valid with
      | false =>
          obtain ⟨stored, hpossible, hholds⟩ := hkeep
          refine ⟨stored, hpossible, fun name => ?_⟩
          rw [rows_lost hvalid]
          exact (hholds name).update hfree fun e he => by cases he
      | true =>
          -- a row that is valid when the power goes was written as a whole
          have hwhole : (s.slots i).entry.written (min k 4) = (s.slots i).entry := by
            by_contra hne
            rw [hord.1 hrewrites hne] at hvalid
            cases hvalid
          refine ⟨Function.update stored (s.slots i).name (some (s.slots i).contents), ?_,
            fun name => ?_⟩
          · rw [Store.next, if_pos hused]
            exact .kept _ _ hpossible
          · rw [rows_appended hvalid, hwhole]
            exact holds_appended h hfree hused (hord.2 hrewrites) hholds name
  have hslots : (s.next (.cut i n)).slots = scan (s.cutFlash i n) fun _ => {} := by
    rw [Store.next]
    split <;> rfl
  rw [← flash_cut] at hstored hlog
  refine ⟨?_, hlog.ranked h, ?_, hstored⟩
  · rw [flash_cut, hslots]
    exact hscanned.bound
  · rw [hslots]
    exact hscanned.room

theorem inv_scan (h : s.Inv) (slots : Slots) :
    Store.Inv { s with slots := scan s.flash slots, cursor := 0 } := by
  have hscanned := scanned_scan h.ranked h.binds.fits slots
  exact ⟨hscanned.bound, h.ranked, hscanned.room, h.stored⟩

theorem inv_event {e : StoreEvent} (h : s.Inv) (hord : s.Orderly e) : (s.next e).Inv := by
  cases e with
  | alloc name => exact ⟨h.binds.alloc name, h.ranked, room_alloc h.room name, h.stored⟩
  | edit i data len =>
      unfold Store.next
      dsimp only
      split
      next hlen => exact ⟨h.binds.set rfl rfl rfl rfl, h.ranked, room_set h.room hlen, h.stored⟩
      next => exact h
  | commit slot => exact inv_commit h hord
  | load => exact inv_scan h s.slots
  | reboot => exact inv_scan h fun _ => {}
  | cut i n => exact inv_cut h hord

theorem rows_erased : rowsOf Store.erased.flash = fun _ => none := by
  funext r
  exact if_neg (by rw [Store.erased, blank_invalid]; exact Bool.false_ne_true)

theorem inv_erased : Store.erased.Inv := by
  have hunused : ∀ i, (Store.erased.slots i).used = true → False := fun i hi => by cases hi
  refine ⟨⟨fun i _ hi => (hunused i hi).elim, ?_, fun i hi => (hunused i hi).elim⟩, ?_, ?_,
    _, .erased, ?_⟩
  · rw [rows_erased]
    intro r e hr
    cases hr
  · rw [rows_erased]
    constructor
    · intro r e hr
      cases hr
    · intro r r' e e' hr
      cases hr
  · intro i
    show (0 : Byte) ≤ storeDataMax
    decide
  · rw [rows_erased]
    intro name r e hr
    cases hr

/-- What a reload shows of a name is what the log holds for it. -/
theorem holds_load (h : s.Inv) (name : Name) :
    Holds (rowsOf s.flash) name (s.load.lookup name) :=
  holds_lookup (s := s.load) (scanned_scan h.ranked h.binds.fits s.slots) name

end Steps

/-- Through every history of a store that starts erased, with power lost between any two
flash commands, as long as no sequence number runs out: a reload shows for every name
what was committed last, or one of two contents if that commit was cut short; the row
a commit erases is current for no name, and there always is one; and no event changes
what is shown of a name it does not write. -/
theorem store_power_safe (es : List StoreEvent)
    (horderly : Along Store.next Store.Orderly Store.erased es) :
    let s := run Store.next Store.erased es
    (∃ stored, Possible s.log stored ∧ ∀ name, s.load.lookup name = stored name) ∧
      (s.pickRow ≠ none ∧ ∀ p, s.pickRow = some p → Free (rowsOf s.flash) p) ∧
      ∀ e name, s.Orderly e → ¬ e.Writes s name →
        (s.next e).load.lookup name = s.load.lookup name := by
  intro s
  have hinv : s.Inv :=
    Runs.run_along (P := Store.Inv) (fun _ _ h hord => inv_event h hord) horderly inv_erased
  obtain ⟨stored, hpossible, hholds⟩ := hinv.stored
  refine ⟨⟨stored, hpossible, fun name => ?_⟩, ⟨pickRow_isSome s, fun p => pickRow_free hinv.binds⟩,
    fun e name hord hname => ?_⟩
  · exact (holds_load hinv name).unique (hholds name)
  · have hframe := (log_case hinv hord).frame hname (holds_load hinv name)
    exact (holds_load (inv_event hinv hord) name).unique hframe

/-! ## One file, committed and cut short -/

instance Store.decidableTornInvalid : ∀ s e, Decidable (Store.TornInvalid s e)
  | s, .cut i (k + 1) => inferInstanceAs (Decidable (s.rewrites i = true →
      (s.slots i).entry.written (min k 4) ≠ (s.slots i).entry →
        ((s.slots i).entry.written (min k 4)).valid = false))
  | _, .cut _ 0 | _, .alloc _ | _, .edit _ _ _ | _, .commit _ | _, .load | _, .reboot =>
      isTrue trivial

instance Store.decidableCanGrow : ∀ s e, Decidable (Store.CanGrow s e)
  | s, .commit slot => inferInstanceAs (Decidable
      (∀ i : SlotId, slot = i.val → s.rewrites i = true → (s.slots i).seq ≠ maxSeq))
  | s, .cut i _ => inferInstanceAs (Decidable (s.rewrites i = true → (s.slots i).seq ≠ maxSeq))
  | _, .alloc _ | _, .edit _ _ _ | _, .load | _, .reboot => isTrue trivial

instance Store.decidableOrderly (s : Store) (e : StoreEvent) : Decidable (s.Orderly e) :=
  inferInstanceAs (Decidable (_ ∧ _))

def fileName : Name := Vector.replicate 4 0x41

def fileSlot : SlotId := ⟨0, by decide⟩

/-- The file is edited to hold one byte. -/
def editByte (b : Byte) : StoreEvent := .edit fileSlot (Vector.replicate 240 b) 1

/-- A second commit is cut short after the row was erased. -/
def cutHistory : List StoreEvent :=
  [.alloc fileName, editByte 1, .commit 0, editByte 2, .cut fileSlot 1]

theorem orderly_cut : Along Store.next Store.Orderly Store.erased cutHistory := by
  decide +kernel

theorem lookup_cut :
    (run Store.next Store.erased cutHistory).load.lookup fileName = some [1] := by
  decide +kernel

theorem store_power_safe_cut :
    (∃ stored, Possible (run Store.next Store.erased cutHistory).log stored ∧
      ∀ name, (run Store.next Store.erased cutHistory).load.lookup name = stored name) ∧
    (run Store.next Store.erased cutHistory).load.lookup fileName = some [1] :=
  And.intro (And.left (store_power_safe cutHistory orderly_cut)) lookup_cut

/-! ## A name committed 2^32 times -/

section Wrap

variable {s : Store} {i : SlotId} {b : Byte}

theorem commit_rewrites (h : s.rewrites i = true) (hvalid : (s.slots i).entry.valid = true) :
    ∃ p, s.commit i.val =
      ({ s with
        flash := Function.update s.flash p (s.slots i).entry
        cursor := (p.val + 1) % storeRows
        slots := s.slots.set i { s.slots i with
          seq := (s.slots i).entry.seq
          row := some p
          dirty := false } }, true) := by
  obtain ⟨p, hpick⟩ := Option.ne_none_iff_exists'.mp (pickRow_isSome s)
  obtain ⟨hused, hcoal⟩ : (s.slots i).used = true ∧ s.coalesces i = false := by
    simpa [Store.rewrites] using h
  refine ⟨p, ?_⟩
  simp [Store.commit, hused, hcoal, hpick, programRow_all, hvalid]

/-- A file of one byte is written anew unless its live row holds the byte. -/
theorem commit_byte (hused : (s.slots fileSlot).used = true)
    (hname : (s.slots fileSlot).name = fileName)
    (hlive : ∀ r, (s.slots fileSlot).row = some r → (s.flash r).contents ≠ [b]) :
    ∃ p e, e.contents = [b] ∧ e.seq = (s.slots fileSlot).seq + 1 ∧
      let s' := run Store.next s [editByte b, .commit 0]
      s'.flash = Function.update s.flash p e ∧ s'.log = s.log ++ [.committed fileName [b]] ∧
        (s'.slots fileSlot).used = true ∧ (s'.slots fileSlot).name = fileName ∧
        (s'.slots fileSlot).seq = (s.slots fileSlot).seq + 1 ∧
        (s'.slots fileSlot).row = some p := by
  set t : Slot := { s.slots fileSlot with
    data := Vector.replicate 240 b, len := 1, dirty := true } with ht
  have hedit : s.next (editByte b) = { s with slots := s.slots.set fileSlot t } := by
    rw [editByte, Store.next, if_pos (by decide)]
  have hcontents : t.contents = [b] := rfl
  -- the live row does not hold the byte, so nothing coalesces
  have hrewrites : (s.next (editByte b)).rewrites fileSlot = true := by
    have hcoal : (s.next (editByte b)).coalesces fileSlot = false := by
      by_contra hcoal
      have hcoal := Bool.eq_true_of_not_eq_false hcoal
      rw [hedit] at hcoal
      unfold Store.coalesces at hcoal
      split at hcoal
      next => cases hcoal
      next r hrow =>
        simp only [Slots.set_self, Bool.and_eq_true, beq_iff_eq] at hrow hcoal
        refine hlive r hrow ?_
        rw [← hcontents, ← hcoal.2, ← hcoal.1]
        rfl
    rw [Store.rewrites, hcoal, hedit]
    simpa using hused
  have hvalid : ((s.next (editByte b)).slots fileSlot).entry.valid = true := by
    rw [hedit]
    simp only [Slots.set_self]
    rw [entry_valid (show (1 : Byte) ≤ storeDataMax by decide), ht, hname]
    decide
  obtain ⟨p, hcommit⟩ := commit_rewrites hrewrites hvalid
  have hnext : run Store.next s [editByte b, .commit 0] =
      (((s.next (editByte b)).commit fileSlot.val).1).record (.committed fileName [b]) := by
    show (s.next (editByte b)).next (.commit fileSlot.val) = _
    rw [Store.next, hcommit]
    dsimp only
    rw [dif_pos ⟨rfl, by decide⟩, hedit]
    simp only [Slots.set_self, Fin.eta]
    rw [ht, hname]
    rfl
  refine ⟨p, t.entry, (entry_contents t).trans hcontents, rfl, ?_⟩
  intro s'
  have hs' : s' = _ := hnext
  rw [hs', hcommit, hedit]
  dsimp only [Store.record]
  rw [Slots.set_self, Slots.set_self]
  exact ⟨rfl, rfl, hused, hname, rfl, rfl⟩

/-- The commands that commit a file of one byte `n` times, with 0 and 1 in turn. -/
def commits : Nat → List StoreEvent
  | 0 => [.alloc fileName]
  | n + 1 => commits n ++ [editByte (.ofNat 8 (n % 2)), .commit 0]

/-- What holds after `n` commits. -/
structure Committed (n : Nat) (s : Store) : Prop where
  used : (s.slots fileSlot).used = true
  name : (s.slots fileSlot).name = fileName
  seq : (s.slots fileSlot).seq = .ofNat 32 n
  live : ∀ r, (s.slots fileSlot).row = some r → (s.flash r).contents ≠ [.ofNat 8 (n % 2)]
  bytes : ∀ r, (s.flash r).contents ≠ [2]

theorem byte_ne (n : Nat) : (BitVec.ofNat 8 (n % 2) : Byte) ≠ 2 ∧
    BitVec.ofNat 8 (n % 2) ≠ BitVec.ofNat 8 ((n + 1) % 2) := by
  rcases Nat.mod_two_eq_zero_or_one n with h | h
  · rw [h, show (n + 1) % 2 = 1 by omega]
    decide
  · rw [h, show (n + 1) % 2 = 0 by omega]
    decide

theorem committed_commits (n : Nat) :
    Along Store.next Store.TornInvalid Store.erased (commits n) ∧
      Committed n (run Store.next Store.erased (commits n)) := by
  induction n with
  | zero =>
      refine ⟨⟨trivial, trivial⟩, by decide +kernel, by decide +kernel, by decide +kernel,
        fun r hr => ?_, fun r => ?_⟩
      · have hnone : ((run Store.next Store.erased (commits 0)).slots fileSlot).row = none := by
          decide +kernel
        rw [hnone] at hr
        cases hr
      · show Entry.blank.contents ≠ [2]
        decide +kernel
  | succ n ih =>
      obtain ⟨halong, h⟩ := ih
      obtain ⟨p, e, hcontents, _, hflash, _, hused, hname, hseq, hrow⟩ :=
        commit_byte h.used h.name h.live
      refine ⟨Runs.along_append.mpr ⟨halong, trivial, trivial, trivial⟩, ?_⟩
      rw [commits, Runs.run_append]
      refine ⟨hused, hname, ?_, fun r hr => ?_, fun r => ?_⟩
      · rw [hseq, h.seq, BitVec.ofNat_add]
        rfl
      · rw [hrow] at hr
        cases hr
        rw [hflash, Function.update_self, hcontents]
        exact fun heq => (byte_ne n).2 (List.singleton_inj.mp heq)
      · rw [hflash]
        by_cases hr : r = p
        · subst hr
          rw [Function.update_self, hcontents]
          exact fun heq => (byte_ne n).1 (List.singleton_inj.mp heq)
        · rw [Function.update_of_ne hr]
          exact h.bytes r

theorem scanRow_avoids {flash : Flash} {slots : Slots} {c : List Byte}
    (hempty : ∀ t : Slot, t.len = 0 → t.contents ≠ c)
    (h : ∀ r, (flash r).seq ≠ 0 → (flash r).contents ≠ c)
    (hslots : ∀ i, (slots i).contents ≠ c) (r : Row) (i : SlotId) :
    (scanRow flash slots r i).contents ≠ c := by
  unfold scanRow
  dsimp only
  split
  next => exact hslots i
  next =>
    have hcase := alloc_case slots (flash r).name
    generalize storeAlloc slots (flash r).name = result at hcase
    have halloc : ∀ i, (result.1 i).contents ≠ c := by
      cases hcase with
      | found | full => exact hslots
      | fresh j t _ _ _ _ hlen =>
          intro i
          show (slots.set j t i).contents ≠ c
          by_cases hij : i = j
          · subst hij
            rw [Slots.set_self]
            exact hempty t hlen
          · rw [Slots.set_of_ne hij]
            exact hslots i
    obtain ⟨slots', o⟩ := result
    cases o with
    | none => exact halloc i
    | some j =>
        dsimp only
        split
        next hnewer =>
          by_cases hij : i = j
          · subst hij
            rw [Slots.set_self]
            -- no number is below zero
            have hseq : (flash r).seq ≠ 0 := by
              intro hzero
              rw [hzero] at hnewer
              exact absurd hnewer (BitVec.not_lt_zero)
            intro heq
            have hcopy := take_copyBytes (flash r).len (flash r).data (slots' i).data
            exact h r hseq (hcopy.symm.trans heq)
          · rw [Slots.set_of_ne hij]
            exact halloc i
        next => exact halloc i

/-- The scan passes over records numbered zero. -/
theorem scan_avoids {flash : Flash} {c : List Byte} (hc : c ≠ [])
    (h : ∀ r, (flash r).seq ≠ 0 → (flash r).contents ≠ c) (slots : Slots) (i : SlotId) :
    (scan flash slots i).contents ≠ c := by
  have hempty : ∀ t : Slot, t.len = 0 → t.contents ≠ c := by
    intro t ht
    rw [Slot.contents, ht]
    exact Ne.symm hc
  have hstep : ∀ (rows : List Row) (slots : Slots), (∀ i, (slots i).contents ≠ c) →
      ∀ i, (rows.foldl (scanRow flash) slots i).contents ≠ c := by
    intro rows
    induction rows with
    | nil => exact fun _ hslots => hslots
    | cons r rows ih => exact fun slots hslots => ih _ (scanRow_avoids hempty h hslots r)
  unfold scan
  exact hstep _ _ (fun j => hempty _ rfl) i

theorem possible_committed {log : List Outcome} {stored : Name → Option (List Byte)} {name : Name}
    {contents : List Byte} (h : Possible (log ++ [.committed name contents]) stored) :
    stored name = some contents := by
  generalize hall : log ++ [Outcome.committed name contents] = all at h
  cases h with
  | erased => simp at hall
  | committed name' contents' h =>
      obtain ⟨_, hlast⟩ := List.append_inj' hall rfl
      cases hlast
      exact Function.update_self ..
  | lost | kept =>
      obtain ⟨_, hlast⟩ := List.append_inj' hall rfl
      cases hlast

/-- `n` commits, and one of the byte 2. -/
def wrapHistory (n : Nat) : List StoreEvent := commits n ++ [editByte 2, .commit 0]

/-- A commit with the sequence number past the largest is not found by the next scan. -/
theorem wrapped (n : Nat) (hn : BitVec.ofNat 32 n = maxSeq) :
    Along Store.next Store.TornInvalid Store.erased (wrapHistory n) ∧
      ¬ ∃ stored, Possible (run Store.next Store.erased (wrapHistory n)).log stored ∧
        ∀ name, (run Store.next Store.erased (wrapHistory n)).load.lookup name = stored name := by
  obtain ⟨halong, h⟩ := committed_commits n
  obtain ⟨p, e, hcontents, heseq, hflash, hlog, _⟩ :=
    commit_byte h.used h.name fun r _ => h.bytes r
  rw [wrapHistory, Runs.run_append]
  refine ⟨Runs.along_append.mpr ⟨halong, trivial, trivial, trivial⟩, ?_⟩
  rintro ⟨stored, hpossible, hlookup⟩
  have hstored : stored fileName = some [2] := by
    rw [hlog] at hpossible
    exact possible_committed hpossible
  have hzero : e.seq = 0 := by
    rw [heseq, h.seq, hn]
    decide
  have hrows : ∀ r, (Function.update (run Store.next Store.erased (commits n)).flash p e r).seq ≠ 0 →
      (Function.update (run Store.next Store.erased (commits n)).flash p e r).contents ≠ [2] := by
    intro r hr
    by_cases hrp : r = p
    · subst hrp
      rw [Function.update_self] at hr
      exact absurd hzero hr
    · rw [Function.update_of_ne hrp]
      exact h.bytes r
  have hfound := hlookup fileName
  rw [hstored, Store.lookup, Option.map_eq_some_iff] at hfound
  obtain ⟨i, _, hi⟩ := hfound
  refine scan_avoids (by decide) ?_ _ i hi
  rw [hflash]
  exact hrows

/-- Not so without the bound: the 2^32nd commit of a name is numbered zero. -/
theorem not_always_power_safe :
    ∃ es, Along Store.next Store.TornInvalid Store.erased es ∧
      ¬ ∃ stored, Possible (run Store.next Store.erased es).log stored ∧
        ∀ name, (run Store.next Store.erased es).load.lookup name = stored name :=
  ⟨wrapHistory 0xFFFFFFFF, wrapped 0xFFFFFFFF rfl⟩

end Wrap

end SlowBus.Config
