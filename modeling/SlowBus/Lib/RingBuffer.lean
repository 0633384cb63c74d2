import Mathlib.Data.BitVec
import Mathlib.Data.List.Forall2

/-!
# Rings with free-running indices

Both indices of a ring count up and wrap at `2 ^ w`. Their difference is the number of entries
held, and a slot is an index modulo the capacity. The capacity divides `2 ^ w` and is smaller, so
that entries next to each other stay so across the wrap and a full ring is not an empty one.
-/

namespace SlowBus.RingBuffer

structure Buffer (w cap : Nat) (α : Type*) where
  slot : Fin cap → α
  /-- Where the next entry goes. -/
  head : BitVec w
  /-- The oldest entry. -/
  tail : BitVec w

variable {w cap : Nat} {α : Type*} {r : Buffer w cap α} {v : α} {k n : Nat}

/-- The slot of an index. -/
def place (cap : Nat) [NeZero cap] (i : BitVec w) : Fin cap := Fin.ofNat cap i.toNat

namespace Buffer

def count (r : Buffer w cap α) : Nat := (r.head - r.tail).toNat

/-- The oldest entries are given up. -/
def skip (r : Buffer w cap α) (n : Nat) : Buffer w cap α :=
  { r with tail := r.tail + BitVec.ofNat w n }

theorem tail_add_count (r : Buffer w cap α) : r.tail + BitVec.ofNat w r.count = r.head := by
  rw [count, BitVec.ofNat_toNat, BitVec.setWidth_eq]
  exact add_sub_cancel _ _

theorem count_eq_zero_iff : r.count = 0 ↔ r.head = r.tail := by
  rw [count, ← sub_eq_zero (a := r.head), ← BitVec.toNat_inj]
  rfl

theorem count_skip (h : n ≤ r.count) : (r.skip n).count = r.count - n := by
  have hlt := (r.head - r.tail).isLt
  have hskip : r.head - (r.tail + BitVec.ofNat w n) = r.head - r.tail - BitVec.ofNat w n :=
    sub_add_eq_sub_sub _ _ _
  have hn : (BitVec.ofNat w n).toNat = n := by
    rw [BitVec.toNat_ofNat, Nat.mod_eq_of_lt (Nat.lt_of_le_of_lt h hlt)]
  rw [count, skip, hskip, BitVec.toNat_sub_of_le (by rw [BitVec.le_def, hn]; exact h), hn, count]

/-! ## What is held -/

variable [NeZero cap]

/-- The entries held, the oldest first. -/
def contents (r : Buffer w cap α) : List α :=
  (List.range r.count).map fun k => r.slot (place cap (r.tail + BitVec.ofNat w k))

def push (r : Buffer w cap α) (v : α) : Buffer w cap α :=
  { r with slot := Function.update r.slot (place cap r.head) v, head := r.head + 1 }

@[simp] theorem length_contents (r : Buffer w cap α) : r.contents.length = r.count := by
  simp [contents]

theorem contents_eq_nil_iff : r.contents = [] ↔ r.head = r.tail := by
  rw [← List.length_eq_zero_iff, length_contents, count_eq_zero_iff]

theorem contents_skip (h : n ≤ r.count) : (r.skip n).contents = r.contents.drop n := by
  refine List.ext_getElem (by simp [count_skip h]) fun k hk _ => ?_
  simp only [contents, List.getElem_map, List.getElem_range, List.getElem_drop, skip]
  rw [BitVec.ofNat_add, add_assoc]

/-- The oldest entry is in the slot of the tail. -/
theorem contents_eq_cons (h : r.head ≠ r.tail) :
    r.contents = r.slot (place cap r.tail) :: (r.skip 1).contents := by
  have hpos : 0 < r.count := by
    rw [← length_contents]
    exact List.length_pos_of_ne_nil fun hnil => h (contents_eq_nil_iff.mp hnil)
  rw [contents_skip hpos]
  obtain ⟨n, hn⟩ := Nat.exists_eq_add_of_lt hpos
  simp [contents, hn, List.range_succ_eq_map]

/-! ## Adding an entry -/

section Push

variable (hdvd : cap ∣ 2 ^ w) (hcap : cap < 2 ^ w)

include hdvd in
/-- Indices within the capacity have slots of their own, also across the wrap. -/
theorem place_add_inj {i : BitVec w} (hk : k < cap) (hn : n < cap)
    (h : place cap (i + BitVec.ofNat w k) = place cap (i + BitVec.ofNat w n)) : k = n := by
  have hmod (m : Nat) : (i + BitVec.ofNat w m).toNat % cap = (i.toNat + m) % cap := by
    rw [BitVec.toNat_add, BitVec.toNat_ofNat, Nat.add_mod_mod, Nat.mod_mod_of_dvd _ hdvd]
  have hval : (i.toNat + k) % cap = (i.toNat + n) % cap := by
    rw [← hmod, ← hmod]
    exact congrArg Fin.val h
  exact (Nat.ModEq.add_left_cancel' i.toNat hval).eq_of_lt_of_lt hk hn

include hcap in
theorem count_push (h : r.count < cap) (v : α) : (r.push v).count = r.count + 1 := by
  have hone : r.head + 1 - r.tail = r.head - r.tail + 1 := add_sub_right_comm _ _ _
  have hpos : 0 < cap := Nat.pos_of_neZero cap
  have honeNat : (1 : BitVec w).toNat = 1 :=
    Nat.mod_eq_of_lt (Nat.lt_of_le_of_lt hpos hcap)
  rw [count, push, hone, BitVec.toNat_add, ← count, honeNat, Nat.mod_eq_of_lt (by omega)]

include hdvd hcap in
/-- An entry added while there is room comes after those held, which stay. -/
theorem contents_push (h : r.count < cap) (v : α) :
    (r.push v).contents = r.contents ++ [v] := by
  have hkept : ∀ k ∈ List.range r.count,
      (r.push v).slot (place cap (r.tail + BitVec.ofNat w k)) =
        r.slot (place cap (r.tail + BitVec.ofNat w k)) := by
    intro k hk
    have hlt := List.mem_range.mp hk
    refine Function.update_of_ne (fun heq => ?_) _ _
    rw [← r.tail_add_count] at heq
    exact hlt.ne (place_add_inj hdvd (hlt.trans h) h heq)
  have hnew : (r.push v).slot (place cap (r.tail + BitVec.ofNat w r.count)) = v := by
    rw [r.tail_add_count]
    exact Function.update_self _ _ _
  rw [contents, count_push hcap h, List.range_succ, List.map_append]
  exact congrArg₂ (· ++ ·) (List.map_congr_left hkept) (congrArg (fun x => [x]) hnew)

/-- One entry after the other. -/
def pushAll (r : Buffer w cap α) (vs : List α) : Buffer w cap α := vs.foldl push r

theorem pushAll_append (r : Buffer w cap α) (vs us : List α) :
    r.pushAll (vs ++ us) = (r.pushAll vs).pushAll us := List.foldl_append

@[simp] theorem tail_pushAll (r : Buffer w cap α) (vs : List α) : (r.pushAll vs).tail = r.tail := by
  induction vs generalizing r with
  | nil => rfl
  | cons v vs ih => exact ih (r.push v)

include hdvd hcap in
theorem contents_pushAll {vs : List α} (h : r.count + vs.length ≤ cap) :
    (r.pushAll vs).contents = r.contents ++ vs := by
  induction vs generalizing r with
  | nil => exact (List.append_nil _).symm
  | cons v vs ih =>
      rw [List.length_cons] at h
      have hroom : r.count < cap := by omega
      have hnext : (r.push v).count + vs.length ≤ cap := by
        rw [count_push hcap hroom]
        omega
      show ((r.push v).pushAll vs).contents = _
      rw [ih hnext, contents_push hdvd hcap hroom, List.append_assoc, List.singleton_append]

include hdvd hcap in
theorem count_pushAll {vs : List α} (h : r.count + vs.length ≤ cap) :
    (r.pushAll vs).count = r.count + vs.length := by
  rw [← length_contents, contents_pushAll hdvd hcap h, List.length_append, length_contents]

/-- With the head set back to an earlier index the entries up to it are held. -/
theorem contents_rewind {i : BitVec w} (h : (i - r.tail).toNat ≤ r.count) :
    { r with head := i }.contents = r.contents.take (i - r.tail).toNat := by
  rw [contents, contents, ← List.map_take, List.take_range, min_eq_left h]
  rfl

include hdvd hcap in
/-- Entries that were added and given up again leave what was held before. -/
theorem contents_giveUp {vs : List α} (h : r.count + vs.length ≤ cap) :
    { r.pushAll vs with head := r.head }.contents = r.contents := by
  have hheld : (r.head - (r.pushAll vs).tail).toNat = r.contents.length := by
    rw [tail_pushAll, length_contents, count]
  have hle : (r.head - (r.pushAll vs).tail).toNat ≤ (r.pushAll vs).count := by
    rw [hheld, count_pushAll hdvd hcap h, length_contents]
    exact Nat.le_add_right ..
  rw [contents_rewind hle, hheld, contents_pushAll hdvd hcap h, List.take_left]

/-- A piece is added if there is room for it. -/
def offer (r : Buffer w cap α) (piece : List α) : Except (Buffer w cap α) (Buffer w cap α) :=
  if r.count + piece.length ≤ cap then .ok (r.pushAll piece) else .error r

include hdvd hcap in
/-- Pieces offered one after the other are all added if there is room for all of them; else
adding stops, with no more added than there was room for. -/
theorem offerAll_eq {pieces : List (List α)} (hroom : r.count ≤ cap) :
    ∃ part : List α, r.count + part.length ≤ cap ∧
      pieces.foldlM offer r =
        if r.count + pieces.flatten.length ≤ cap then .ok (r.pushAll pieces.flatten)
        else .error (r.pushAll part) := by
  induction pieces generalizing r with
  | nil => exact ⟨[], by simpa using hroom, by simp [hroom, pushAll]; rfl⟩
  | cons piece pieces ih =>
      rw [List.foldlM_cons, List.flatten_cons, List.length_append]
      by_cases hpiece : r.count + piece.length ≤ cap
      · have hcount := count_pushAll hdvd hcap hpiece
        obtain ⟨part, hpart, heq⟩ := ih (hcount.trans_le hpiece)
        rw [hcount] at hpart heq
        refine ⟨piece ++ part, by rw [List.length_append]; omega, ?_⟩
        rw [offer, if_pos hpiece, pushAll_append, pushAll_append, ← Nat.add_assoc]
        exact heq
      · refine ⟨[], by simpa using hroom, ?_⟩
        rw [offer, if_neg hpiece, if_neg (by omega)]
        rfl

end Push

end Buffer

/-! ## First in, first out -/

/-- What a reader got of an entry that it took; it may have taken it unread. -/
def Handed (got : Option α) (v : α) : Prop := ∀ x ∈ got, x = v

/-- Of what was added, the first entries have been taken in order, each once, and the rest is
held. -/
def Follows (taken : List (Option α)) (added held : List α) : Prop :=
  ∃ front, List.Forall₂ Handed taken front ∧ added = front ++ held

section Follows

variable {taken : List (Option α)} {added held : List α}

theorem Follows.start : Follows ([] : List (Option α)) added added := ⟨[], .nil, rfl⟩

theorem Follows.add (h : Follows taken added held) (v : α) :
    Follows taken (added ++ [v]) (held ++ [v]) := by
  obtain ⟨front, hfront, rfl⟩ := h
  exact ⟨front, hfront, List.append_assoc ..⟩

theorem Follows.take {got : Option α} (h : Follows taken added (v :: held)) (hgot : Handed got v) :
    Follows (taken ++ [got]) added held := by
  obtain ⟨front, hfront, rfl⟩ := h
  exact ⟨front ++ [v], List.rel_append hfront (.cons hgot .nil), by simp⟩

end Follows

end SlowBus.RingBuffer
