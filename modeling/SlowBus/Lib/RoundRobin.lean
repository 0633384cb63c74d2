import Mathlib.Algebra.Ring.Nat
import Mathlib.Data.List.FinRange
import Mathlib.Data.List.Rotate

/-!
# Turns around a circle

A scheduler stands at a place of a circle. A turn goes to the next element that wants
one, and the scheduler moves behind it. As many turns as elements want one give each
of them exactly one, from every place.
-/

namespace SlowBus.RoundRobin

variable {σ α : Type*} {next : σ → Option α × σ} {view : σ → List α} {p : α → Bool} {s : σ}
  {k : Nat}

/-- The elements `k` turns go to. -/
def turns (next : σ → Option α × σ) : Nat → σ → List (Option α)
  | 0, _ => []
  | k + 1, s => (next s).1 :: turns next k (next s).2

/-- The scheduler sees the circle from where it stands, and takes turns of the elements
that want one. -/
structure Circle (next : σ → Option α × σ) (view : σ → List α) (p : α → Bool) : Prop where
  turn : ∀ {s as x bs}, view s = as ++ x :: bs → (∀ a ∈ as, p a = false) → p x = true →
    (next s).1 = some x ∧ view (next s).2 = bs ++ (as ++ [x])

theorem filter_eq_nil_of_false {as : List α} (h : ∀ a ∈ as, p a = false) : as.filter p = [] :=
  List.filter_eq_nil_iff.mpr fun a ha => by simp [h a ha]

/-- The elements that want a turn, in the order in which they are seen. -/
theorem Circle.turns_eq (h : Circle next view p) (hk : k ≤ ((view s).filter p).length) :
    turns next k s = (((view s).filter p).take k).map some := by
  induction k generalizing s with
  | zero => rfl
  | succ k ih =>
      obtain ⟨x, hx, hpx⟩ : ∃ x ∈ view s, p x = true := by
        obtain ⟨x, hx⟩ := List.exists_mem_of_length_pos (Nat.lt_of_lt_of_le k.succ_pos hk)
        exact ⟨x, List.mem_filter.mp hx⟩
      obtain ⟨x, as, bs, has, hpx, hview, -⟩ := List.exists_of_eraseP hx hpx
      have has : ∀ a ∈ as, p a = false := fun a ha => Bool.eq_false_of_not_eq_true (has a ha)
      obtain ⟨htaken, hbehind⟩ := h.turn hview has hpx
      have hfilter : (view s).filter p = x :: bs.filter p := by
        rw [hview, List.filter_append, filter_eq_nil_of_false has, List.filter_cons_of_pos hpx]
        rfl
      have hrest : (view (next s).2).filter p = bs.filter p ++ [x] := by
        rw [hbehind, List.filter_append, List.filter_append, filter_eq_nil_of_false has,
          List.filter_cons_of_pos hpx]
        rfl
      rw [hfilter, List.length_cons, Nat.add_le_add_iff_right] at hk
      rw [turns, htaken, hfilter, List.take_succ_cons, List.map_cons]
      congr 1
      rw [ih (by rw [hrest, List.length_append]; omega), hrest, List.take_append_of_le_length hk]

/-- One round: each element that wants a turn has exactly one. -/
theorem Circle.round (h : Circle next view p) (hnodup : (view s).Nodup) :
    ∃ taken : List α, turns next ((view s).filter p).length s = taken.map some ∧ taken.Nodup ∧
      ∀ x, x ∈ taken ↔ x ∈ view s ∧ p x = true := by
  refine ⟨(view s).filter p, ?_, hnodup.filter p, fun x => List.mem_filter⟩
  rw [h.turns_eq le_rfl, List.take_length]

/-- The first turns are turns from the same place. -/
theorem turns_of_prefix {window after : List (Option α)} (h : turns next k s = window ++ after) :
    window = turns next window.length s := by
  induction window generalizing k s with
  | nil => rfl
  | cons o window ih =>
      cases k with
      | zero => cases h
      | succ k =>
          obtain ⟨ho, hrest⟩ := List.cons.inj h
          rw [List.length_cons, turns, ho, ← ih hrest]

/-- Consecutive turns are turns from the place reached before them. -/
theorem turns_window {before window after : List (Option α)}
    (h : turns next k s = before ++ (window ++ after)) :
    ∃ s', window = turns next window.length s' := by
  induction before generalizing k s with
  | nil => exact ⟨s, turns_of_prefix h⟩
  | cons o before ih =>
      cases k with
      | zero => cases h
      | succ k => exact ih (List.cons.inj h).2

/-! ## Numbered places -/

section Places

variable {n : Nat} [NeZero n] {c : Nat}

/-- The places from `c` on, around the circle. -/
theorem finRange_rotate (n c : Nat) [NeZero n] :
    (List.finRange n).rotate c = (List.range n).map fun k => Fin.ofNat n (c + k) := by
  refine List.ext_getElem (by simp) fun k hk hk' => ?_
  rw [List.getElem_rotate]
  ext
  simp [Nat.add_comm]

/-- What is seen from behind a place. -/
theorem finRange_rotate_behind {as bs : List (Fin n)} {i : Fin n}
    (h : (List.finRange n).rotate c = as ++ i :: bs) :
    (List.finRange n).rotate (i.val + 1) = bs ++ (as ++ [i]) := by
  have hlen : as.length < ((List.finRange n).rotate c).length := by simp [h]
  have hi : i = Fin.ofNat n (c + as.length) := by
    have hget : ((List.finRange n).rotate c)[as.length]? = some i := by simp [h]
    rw [finRange_rotate, List.getElem?_map, List.getElem?_range (by simpa using hlen)] at hget
    exact (Option.some.inj hget).symm
  have hmod : (i.val + 1) % n = (c + (as.length + 1)) % n := by
    rw [hi, Fin.val_ofNat, Nat.mod_add_mod, Nat.add_assoc]
  have hturn : (List.finRange n).rotate (i.val + 1) =
      ((List.finRange n).rotate c).rotate (as.length + 1) := by
    rw [List.rotate_rotate, ← List.rotate_mod, ← List.rotate_mod _ (c + _), List.length_finRange,
      hmod]
  have hsplit : as ++ i :: bs = (as ++ [i]) ++ bs := by simp
  rw [hturn, h, hsplit]
  simpa using List.rotate_append_length_eq (as ++ [i]) bs

end Places

end SlowBus.RoundRobin
