import Mathlib.Data.Fintype.Card
import SlowBus.Config.Recovery

/-!
# What a commit does to the log

A commit finds a row that is not current, whatever the cursor. When it ends the log
has one more record there, the newest of its name; when power is lost on the way the
row holds either that record or none.
-/

namespace SlowBus.Config

open Bus (Byte)
open LogStore (Rec Current Holds Free Ranked)

section Commit

variable {flash : Flash} {s : Store} {i : SlotId} {p : Row} {e : Entry}

/-! ## The flash after some commands -/

/-- An erased row after its first `k` pages are written. -/
def Entry.written (e : Entry) (k : Nat) : Entry :=
  (List.range k).foldl (fun old page => old.withPage e page) Entry.blank

theorem writePages (flash : Flash) (p : Row) (e x : Entry) (k : Nat) :
    ((List.range k).map (FlashCmd.writePage p · e)).foldl FlashCmd.apply
        (Function.update flash p x) =
      Function.update flash p ((List.range k).foldl (fun old page => old.withPage e page) x) := by
  induction k with
  | zero => rfl
  | succ k ih =>
      rw [List.range_succ, List.map_append, List.foldl_append, ih, List.foldl_append]
      simp [FlashCmd.apply]

/-- The flash after the erase and `k` further commands. -/
theorem programRow_take (flash : Flash) (p : Row) (e : Entry) (k : Nat) :
    ((programRow p e).take (k + 1)).foldl FlashCmd.apply flash =
      Function.update flash p (e.written (min k 4)) := by
  rw [programRow, List.take_succ_cons, List.foldl_cons, ← List.map_take, List.take_range]
  exact writePages flash p e Entry.blank (min k 4)

/-- With its four pages written the row holds the entry. -/
theorem written_all (e : Entry) : e.written 4 = e := by
  have hpages : e.written 4 =
      (((Entry.blank.withPage e 0).withPage e 1).withPage e 2).withPage e 3 := rfl
  rw [hpages]
  ext j hj
  case data =>
    have hpage : (j + 16) / 64 < 4 := by omega
    simp only [Entry.withPage, Vector.getElem_ofFn]
    grind
  all_goals simp [Entry.withPage]

theorem programRow_all (flash : Flash) (p : Row) (e : Entry) :
    (programRow p e).foldl FlashCmd.apply flash = Function.update flash p e := by
  have htake := programRow_take flash p e 4
  rwa [List.take_of_length_le (by simp [programRow]), Nat.min_self, written_all] at htake

theorem blank_invalid : Entry.blank.valid = false := by decide +kernel

/-! ## The entry of a slot -/

theorem entry_contents (t : Slot) : t.entry.contents = t.contents :=
  take_copyBytes t.len t.data _

theorem entry_valid {t : Slot} (h : t.len ≤ storeDataMax) :
    t.entry.valid = (t.name.get 0 != 0xFF) := by
  have hcrc : storeCrc t.name t.len (copyBytes t.len t.data (Vector.replicate 240 0xFF)) =
      storeCrc t.name t.len t.data := by
    rw [storeCrc, take_copyBytes, storeCrc]
  simp only [Entry.valid, Slot.entry, hcrc, h, beq_self_eq_true, decide_true, Bool.true_and,
    Bool.and_true]
  rfl

/-- The largest sequence number: the one after it is zero. -/
def maxSeq : BitVec 32 := 0xFFFFFFFF

theorem entry_seq {t : Slot} (h : t.seq ≠ maxSeq) : t.entry.seq.toNat = t.seq.toNat + 1 := by
  have hne : t.seq.toNat ≠ 0xFFFFFFFF := fun heq => h (BitVec.eq_of_toNat_eq heq)
  have hlt := t.seq.isLt
  have hone : (1 : BitVec 32).toNat = 1 := rfl
  rw [Slot.entry, BitVec.toNat_add, hone]
  omega

/-! ## The row picked -/

theorem rowLive_iff {slots : Slots} {r : Row} :
    storeRowLive slots r = true ↔ ∃ i, (slots i).used = true ∧ (slots i).row = some r := by
  simp [storeRowLive]

/-- There are more rows than slots. -/
theorem pickRow_isSome (s : Store) : s.pickRow ≠ none := by
  intro hnone
  have hlive : ∀ n : Fin storeRows, ∃ i, (s.slots i).used = true ∧
      (s.slots i).row = some (rowAt (s.cursor + n.val)) := by
    intro n
    have hn := List.find?_eq_none.mp hnone (rowAt (s.cursor + n.val))
      (List.mem_map.mpr ⟨n.val, List.mem_range.mpr n.isLt, rfl⟩)
    exact rowLive_iff.mp (by simpa using hn)
  choose slot hslot using hlive
  have hinj : Function.Injective slot := by
    intro n m heq
    have hrow : rowAt (s.cursor + n.val) = rowAt (s.cursor + m.val) := by
      have hn := (hslot n).2
      rw [heq, (hslot m).2] at hn
      exact (Option.some_inj.mp hn).symm
    have hmod : (s.cursor + n.val) % 256 = (s.cursor + m.val) % 256 := congrArg Fin.val hrow
    have hn : n.val < 256 := n.isLt
    have hm : m.val < 256 := m.isLt
    exact Fin.ext (by omega)
  have hcard := Fintype.card_le_of_injective slot hinj
  rw [Fintype.card_fin, Fintype.card_fin] at hcard
  exact absurd hcard (by decide)

/-- The row picked holds the current record of no name. -/
theorem pickRow_free (h : Binds (rowsOf s.flash) s.slots) (hpick : s.pickRow = some p) :
    Free (rowsOf s.flash) p := by
  intro e hcur
  have hdead : storeRowLive s.slots p = false := by simpa using List.find?_some hpick
  obtain ⟨i, hused, hname⟩ := h.bound p e hcur.1
  have hshadow := h.shadows i hused
  unfold Slot.Shadows at hshadow
  split at hshadow
  next => exact hshadow.2 p e hcur.1 hname.symm
  next r hrow =>
    obtain ⟨e', hcur', hkey, _⟩ := hshadow
    obtain rfl := hcur.row_unique hcur' (hname.symm.trans hkey.symm)
    rw [rowLive_iff.mpr ⟨i, hused, hrow⟩] at hdead
    cases hdead

/-- What a coalesced commit would write is current already. -/
theorem holds_coalesces (h : Binds (rowsOf s.flash) s.slots) (hused : (s.slots i).used = true)
    (hcoal : s.coalesces i = true) :
    Holds (rowsOf s.flash) (s.slots i).name (some (s.slots i).contents) := by
  have hshadow := h.shadows i hused
  unfold Store.coalesces at hcoal
  unfold Slot.Shadows at hshadow
  split at hcoal
  next => cases hcoal
  next r hrow =>
    rw [hrow] at hshadow
    obtain ⟨e, hcur, hkey, _⟩ := hshadow
    simp only [Bool.and_eq_true, beq_iff_eq] at hcoal
    refine ⟨r, e, hcur, hkey, ?_⟩
    rw [← (rowsOf_eq_some hcur.1).2, ← hcoal.2, ← hcoal.1]
    rfl

/-! ## Cases -/

/-- A commit of slot `i` writes a row. -/
def Store.rewrites (s : Store) (i : SlotId) : Bool := (s.slots i).used && !s.coalesces i

/-- Everything `store_commit` can do. -/
inductive CommitCase (s : Store) (slot : Nat) : Store × Bool → Prop
  | refused : CommitCase s slot (s, false)
  | same (i : SlotId) (hslot : slot = i.val) (hused : (s.slots i).used = true)
      (hcoal : s.coalesces i = true) :
      CommitCase s slot
        ({ s with slots := s.slots.set i { s.slots i with dirty := false } }, true)
  /-- A name that begins with 0xFF: what was written is not valid. -/
  | failed (i : SlotId) (p : Row) (hpick : s.pickRow = some p)
      (hinvalid : (s.slots i).entry.valid = false) :
      CommitCase s slot
        ({ s with
          flash := Function.update s.flash p (s.slots i).entry
          cursor := (p.val + 1) % storeRows }, false)
  | done (i : SlotId) (p : Row) (hslot : slot = i.val) (hrewrites : s.rewrites i = true)
      (hpick : s.pickRow = some p) (hvalid : (s.slots i).entry.valid = true) :
      CommitCase s slot
        ({ s with
          flash := Function.update s.flash p (s.slots i).entry
          cursor := (p.val + 1) % storeRows
          slots := s.slots.set i { s.slots i with
            seq := (s.slots i).entry.seq
            row := some p
            dirty := false } }, true)

theorem commit_case (s : Store) (slot : Nat) : CommitCase s slot (s.commit slot) := by
  unfold Store.commit
  split
  next h =>
    dsimp only
    split
    next => exact .refused
    next hused =>
      split
      next hcoal => exact .same ⟨slot, h⟩ rfl (by simpa using hused) hcoal
      next hcoal =>
        have hrewrites : s.rewrites ⟨slot, h⟩ = true := by
          rw [Store.rewrites, Bool.eq_false_of_not_eq_true hcoal]
          simpa using hused
        split
        next => exact .refused
        next p hpick =>
          simp only [programRow_all, Function.update_self]
          cases hvalid : (s.slots ⟨slot, h⟩).entry.valid with
          | false => exact .failed ⟨slot, h⟩ p hpick hvalid
          | true =>
              simp only [bne_self_eq_false, Bool.not_true, Bool.or_false, Bool.false_eq_true,
                if_false]
              exact .done ⟨slot, h⟩ p rfl hrewrites hpick hvalid
  next => exact .refused

/-- The flash when a commit is cut short: no command was given, or the row picked was
erased and some of its pages are written. -/
theorem cutFlash_case (s : Store) (i : SlotId) (n : Nat) :
    s.cutFlash i n = s.flash ∨
      ∃ p k, n = k + 1 ∧ s.rewrites i = true ∧ s.pickRow = some p ∧
        s.cutFlash i n = Function.update s.flash p ((s.slots i).entry.written (min k 4)) := by
  unfold Store.cutFlash
  split
  next => exact Or.inl rfl
  next hgo =>
    split
    next => exact Or.inl rfl
    next p hpick =>
      cases n with
      | zero => exact Or.inl rfl
      | succ k =>
          right
          refine ⟨p, k, rfl, ?_, hpick, programRow_take ..⟩
          simpa [Store.rewrites] using hgo

end Commit

end SlowBus.Config
