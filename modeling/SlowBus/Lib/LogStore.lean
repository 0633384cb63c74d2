import Mathlib.Logic.Function.Basic
import Mathlib.Order.BoundedOrder.Basic
import Mathlib.Order.Lattice

/-!
# Log-structured stores

A store that never overwrites a record in place: rows hold records with a key and a
sequence number, and the newest record of a key is its value. Erasing a row that is
not current, or appending a record newer than those of its key, says what becomes of
every key.
-/

namespace SlowBus.LogStore

structure Rec (κ ν : Type*) where
  key : κ
  seq : Nat
  val : ν

section Rows

variable {ρ κ ν : Type*} {rows : ρ → Option (Rec κ ν)} {r r' p : ρ} {e e' : Rec κ ν} {k : κ}
  {o o' : Option ν} {x : Option (Rec κ ν)}

/-- The record of row `r` is newer than every other one of its key. -/
def Current (rows : ρ → Option (Rec κ ν)) (r : ρ) (e : Rec κ ν) : Prop :=
  rows r = some e ∧
    ∀ r' e', rows r' = some e' → e'.key = e.key → r' ≠ r → e'.seq < e.seq

/-- The value of a key: none if no row has a record of it. -/
def Holds (rows : ρ → Option (Rec κ ν)) (k : κ) : Option ν → Prop
  | none => ∀ r e, rows r = some e → e.key ≠ k
  | some v => ∃ r e, Current rows r e ∧ e.key = k ∧ e.val = v

/-- A row that may be erased. -/
def Free (rows : ρ → Option (Rec κ ν)) (p : ρ) : Prop := ∀ e, ¬ Current rows p e

/-- No two records of a key have the same sequence number, and none has number zero. -/
structure Ranked (rows : ρ → Option (Rec κ ν)) : Prop where
  pos : ∀ r e, rows r = some e → 0 < e.seq
  distinct : ∀ r r' e e', rows r = some e → rows r' = some e' → e.key = e'.key →
    e.seq = e'.seq → r = r'

theorem Current.row_unique (h : Current rows r e) (h' : Current rows r' e')
    (hkey : e.key = e'.key) : r = r' := by
  by_contra hne
  have hlt := h.2 r' e' h'.1 hkey.symm (Ne.symm hne)
  have hgt := h'.2 r e h.1 hkey hne
  exact Nat.lt_asymm hlt hgt

theorem Holds.unique (h : Holds rows k o) (h' : Holds rows k o') : o = o' := by
  match o, o', h, h' with
  | none, none, _, _ => rfl
  | none, some _, h, ⟨r, e, hcur, hkey, _⟩ => exact absurd hkey (h r e hcur.1)
  | some _, none, ⟨r, e, hcur, hkey, _⟩, h' => exact absurd hkey (h' r e hcur.1)
  | some _, some _, ⟨r, e, hcur, hkey, hval⟩, ⟨r', e', hcur', hkey', hval'⟩ =>
      obtain rfl := hcur.row_unique hcur' (hkey.trans hkey'.symm)
      have heq : e = e' := Option.some_inj.mp (hcur.1.symm.trans hcur'.1)
      rw [← hval, ← hval', heq]

variable [DecidableEq ρ]

theorem update_eq_some {rows : ρ → Option (Rec κ ν)} (h : Function.update rows p x r = some e) :
    (r = p ∧ x = some e) ∨ (r ≠ p ∧ rows r = some e) := by
  by_cases hr : r = p
  · left
    subst hr
    rw [Function.update_self] at h
    exact ⟨rfl, h⟩
  · right
    rw [Function.update_of_ne hr] at h
    exact ⟨hr, h⟩

/-- A current record stays so when another row is rewritten with an older record of
its key, one of another key, or none. -/
theorem Current.update (h : Current rows r e) (hr : r ≠ p)
    (hx : ∀ e', x = some e' → e'.key = e.key → e'.seq < e.seq) :
    Current (Function.update rows p x) r e := by
  refine ⟨(Function.update_of_ne hr _ _).trans h.1, fun r' e' hr' hkey hne => ?_⟩
  rcases update_eq_some hr' with ⟨_, hx'⟩ | ⟨_, hold⟩
  · exact hx e' hx' hkey
  · exact h.2 r' e' hold hkey hne

/-- Rewriting a free row without a record of `k` leaves `k` as it is. -/
theorem Holds.update (h : Holds rows k o) (hfree : Free rows p)
    (hx : ∀ e, x = some e → e.key ≠ k) : Holds (Function.update rows p x) k o := by
  match o, h with
  | none, h =>
      intro r e hr
      rcases update_eq_some hr with ⟨_, hx'⟩ | ⟨_, hold⟩
      · exact hx e hx'
      · exact h r e hold
  | some v, ⟨r, e, hcur, hkey, hval⟩ =>
      have hne : r ≠ p := fun heq => hfree e (heq ▸ hcur)
      refine ⟨r, e, hcur.update hne ?_, hkey, hval⟩
      intro e' he' hkey'
      exact absurd (hkey'.trans hkey) (hx e' he')

/-- A record appended behind all others of its key is current. -/
theorem current_append (hnew : ∀ r e', rows r = some e' → e'.key = e.key → e'.seq < e.seq) :
    Current (Function.update rows p (some e)) p e := by
  refine ⟨Function.update_self .., fun r' e' hr' hkey hne => ?_⟩
  rcases update_eq_some hr' with ⟨heq, _⟩ | ⟨_, hold⟩
  · exact absurd heq hne
  · exact hnew r' e' hold hkey

theorem holds_append (hnew : ∀ r e', rows r = some e' → e'.key = e.key → e'.seq < e.seq) :
    Holds (Function.update rows p (some e)) e.key (some e.val) :=
  ⟨p, e, current_append hnew, rfl, rfl⟩

theorem Ranked.update (h : Ranked rows)
    (hx : ∀ e, x = some e → 0 < e.seq ∧
      ∀ r e', rows r = some e' → r ≠ p → e'.key = e.key → e'.seq ≠ e.seq) :
    Ranked (Function.update rows p x) := by
  constructor
  · intro r e hr
    rcases update_eq_some hr with ⟨_, hx'⟩ | ⟨_, hold⟩
    · exact (hx e hx').1
    · exact h.pos r e hold
  · intro r r' e e' hr hr' hkey hseq
    rcases update_eq_some hr with ⟨rfl, hx'⟩ | ⟨hne, hold⟩ <;>
      rcases update_eq_some hr' with ⟨rfl, hx''⟩ | ⟨hne', hold'⟩
    · rfl
    · exact absurd hseq.symm ((hx e hx').2 r' e' hold' hne' hkey.symm)
    · exact absurd hseq ((hx e' hx'').2 r e hold hne hkey)
    · exact h.distinct r r' e e' hold hold' hkey hseq

end Rows

/-! ## The newest of a list

A scan that goes through the records of one key and keeps the newest, the earlier one
of two with the same number. -/

section Newest

variable {σ ν : Type*} [LinearOrder σ]

/-- The newer of two numbered values. -/
def newer (a b : σ × ν) : σ × ν := if a.1 < b.1 then b else a

theorem newer_of_lt {a b : σ × ν} (h : a.1 < b.1) : newer a b = b := if_pos h

theorem newer_of_le {a b : σ × ν} (h : b.1 ≤ a.1) : newer a b = a := if_neg (not_lt.mpr h)

theorem newer_assoc (a b c : σ × ν) : newer (newer a b) c = newer a (newer b c) := by
  rcases lt_or_ge a.1 b.1 with hab | hab
  · rw [newer_of_lt hab]
    rcases lt_or_ge b.1 c.1 with hbc | hbc
    · rw [newer_of_lt hbc, newer_of_lt (hab.trans hbc)]
    · rw [newer_of_le hbc, newer_of_lt hab]
  · rw [newer_of_le hab]
    rcases lt_or_ge b.1 c.1 with hbc | hbc
    · rw [newer_of_lt hbc]
    · rw [newer_of_le hbc, newer_of_le hab, newer_of_le (hbc.trans hab)]

variable [OrderBot σ]

/-- The newest of a list, `v` if none has a number above the least. -/
def newest (v : ν) (l : List (σ × ν)) : σ × ν := l.foldl newer (⊥, v)

theorem newer_bot (a : σ × ν) (v : ν) : newer a (⊥, v) = a := newer_of_le bot_le

/-- A value that is not above the least number counts for nothing behind another. -/
theorem newer_absorb (a b : σ × ν) (v : ν) : newer a (newer (⊥, v) b) = newer a b := by
  rw [← newer_assoc, newer_bot]

theorem foldl_newer (a : σ × ν) (v : ν) (l : List (σ × ν)) :
    l.foldl newer a = newer a (newest v l) := by
  induction l generalizing a with
  | nil => exact (newer_bot a v).symm
  | cons b l ih =>
      have hcons : newest v (b :: l) = newer (newer (⊥, v) b) (newest v l) := ih _
      rw [List.foldl_cons, ih, hcons, newer_assoc, newer_assoc, newer_absorb]

theorem newest_append (v : ν) (l l' : List (σ × ν)) :
    newest v (l ++ l') = newer (newest v l) (newest v l') := by
  rw [newest, List.foldl_append]
  exact foldl_newer _ v l'

end Newest

end SlowBus.LogStore
