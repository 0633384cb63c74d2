import Mathlib.Data.List.Nodup
import Mathlib.Data.List.Perm.Subperm
import Mathlib.Logic.Function.Basic

/-!
# Things in places

Finitely many things are distributed over places. Each is at exactly one place,
and the things at one place form a list without repetition. Moving one thing, or
everything at some places, keeps this.
-/

namespace SlowBus.Placement

variable {ι α : Type*} {stock : α → Prop} {placed : ι → List α}

/-- Everything in stock is at exactly one place. -/
structure Places (stock : α → Prop) (placed : ι → List α) : Prop where
  stock_iff : ∀ a, stock a ↔ ∃ p, a ∈ placed p
  unique : ∀ p q a, a ∈ placed p → a ∈ placed q → p = q
  nodup : ∀ p, (placed p).Nodup

theorem Places.existsUnique (h : Places stock placed) {a : α} (ha : stock a) :
    ∃! p, a ∈ placed p := by
  obtain ⟨p, hp⟩ := (h.stock_iff a).mp ha
  exact ⟨p, hp, fun q hq => h.unique q p a hq hp⟩

/-- Something at one place is nowhere else. -/
theorem Places.not_mem (h : Places stock placed) {p q : ι} {a : α} (ha : a ∈ placed p)
    (hpq : p ≠ q) : a ∉ placed q :=
  fun hq => hpq (h.unique p q a ha hq)

/-- A place holds no more than there is. -/
theorem Places.length_le {n : Nat} {placed : ι → List Nat} (h : Places (· < n) placed) (p : ι) :
    (placed p).length ≤ n := by
  have hsub : placed p ⊆ List.range n := fun b hb =>
    List.mem_range.mpr ((h.stock_iff b).mpr ⟨p, hb⟩)
  simpa using (List.subperm_of_subset (h.nodup p) hsub).length_le

variable [DecidableEq ι]

/-- The first thing at `p` goes to the front of `q`. -/
def move (placed : ι → List α) (p q : ι) (a : α) : ι → List α :=
  Function.update (Function.update placed p (placed p).tail) q (a :: placed q)

theorem move_from {p q : ι} {a : α} (hpq : p ≠ q) : move placed p q a p = (placed p).tail := by
  rw [move, Function.update_of_ne hpq, Function.update_self]

@[simp] theorem move_to {p q : ι} {a : α} : move placed p q a q = a :: placed q :=
  Function.update_self ..

theorem move_other {p q r : ι} {a : α} (hp : r ≠ p) (hq : r ≠ q) :
    move placed p q a r = placed r := by
  rw [move, Function.update_of_ne hq, Function.update_of_ne hp]

/-- Where something is after a move. -/
theorem mem_move {p q r : ι} {a b : α} {l : List α} (hp : placed p = a :: l)
    (hnodup : (placed p).Nodup) (hpq : p ≠ q) :
    b ∈ move placed p q a r ↔ (b = a ∧ r = q) ∨ (b ∈ placed r ∧ ¬(b = a ∧ r = p)) := by
  rw [hp, List.nodup_cons] at hnodup
  rcases eq_or_ne r q with rfl | hq
  · rw [move_to, List.mem_cons]
    constructor
    · rintro (rfl | hb)
      · exact Or.inl ⟨rfl, rfl⟩
      · exact Or.inr ⟨hb, fun h => hpq h.2.symm⟩
    · rintro (⟨rfl, -⟩ | ⟨hb, -⟩)
      · exact Or.inl rfl
      · exact Or.inr hb
  rcases eq_or_ne r p with rfl | hr
  · rw [move_from hpq, hp, List.tail_cons, List.mem_cons]
    constructor
    · intro hb
      refine Or.inr ⟨Or.inr hb, fun h => ?_⟩
      rw [h.1] at hb
      exact hnodup.1 hb
    · rintro (⟨-, h⟩ | ⟨hb, hne⟩)
      · exact absurd h hq
      · exact hb.resolve_left fun h => hne ⟨h, rfl⟩
  · rw [move_other hr hq]
    constructor
    · intro hb
      exact Or.inr ⟨hb, fun h => hr h.2⟩
    · rintro (⟨-, h⟩ | ⟨hb, -⟩)
      · exact absurd h hq
      · exact hb

theorem Places.move (h : Places stock placed) {p q : ι} {a : α} {l : List α}
    (hp : placed p = a :: l) (hpq : p ≠ q) : Places stock (move placed p q a) := by
  have hmem {r : ι} {b : α} := mem_move (r := r) (b := b) hp (h.nodup p) hpq
  have hap : a ∈ placed p := hp ▸ List.mem_cons_self
  constructor
  · intro b
    rw [h.stock_iff]
    constructor
    · rintro ⟨r, hr⟩
      rcases eq_or_ne b a with rfl | hb
      · exact ⟨q, hmem.mpr (Or.inl ⟨rfl, rfl⟩)⟩
      · exact ⟨r, hmem.mpr (Or.inr ⟨hr, fun h => hb h.1⟩)⟩
    · rintro ⟨r, hr⟩
      rcases hmem.mp hr with ⟨rfl, -⟩ | ⟨hr, -⟩
      · exact ⟨p, hap⟩
      · exact ⟨r, hr⟩
  · intro r r' b hr hr'
    rcases hmem.mp hr with ⟨hb, rfl⟩ | ⟨hmr, hne⟩ <;>
      rcases hmem.mp hr' with ⟨hb', rfl⟩ | ⟨hmr', hne'⟩
    · rfl
    · exact absurd ⟨hb, h.unique r' p b hmr' (hb ▸ hap)⟩ hne'
    · exact absurd ⟨hb', h.unique r p b hmr (hb' ▸ hap)⟩ hne
    · exact h.unique r r' b hmr hmr'
  · intro r
    rcases eq_or_ne r q with rfl | hq
    · rw [move_to, List.nodup_cons]
      exact ⟨h.not_mem hap hpq, h.nodup r⟩
    rcases eq_or_ne r p with rfl | hr
    · rw [move_from hpq]
      exact (h.nodup r).tail
    · rw [move_other hr hq]
      exact h.nodup r

/-- Everything at the places in `S` goes to the place `q`. -/
def gather (placed : ι → List α) (S : ι → Prop) [DecidablePred S] (q : ι) (l : List α) :
    ι → List α :=
  fun r => if r = q then l else if S r then [] else placed r

variable {S : ι → Prop} [DecidablePred S] {q : ι} {l : List α}

@[simp] theorem gather_to : gather placed S q l q = l := if_pos rfl

theorem gather_from {r : ι} (hq : r ≠ q) (hr : S r) : gather placed S q l r = [] := by
  rw [gather, if_neg hq, if_pos hr]

theorem gather_other {r : ι} (hq : r ≠ q) (hr : ¬S r) : gather placed S q l r = placed r := by
  rw [gather, if_neg hq, if_neg hr]

/-- Where something is after a gathering. -/
theorem mem_gather (hl : ∀ a, a ∈ l ↔ ∃ p, S p ∧ a ∈ placed p) (hempty : placed q = [])
    {r : ι} {a : α} :
    a ∈ gather placed S q l r ↔
      (r = q ∧ ∃ p, S p ∧ a ∈ placed p) ∨ (¬S r ∧ a ∈ placed r) := by
  rcases eq_or_ne r q with rfl | hq
  · rw [gather_to, hl, hempty]
    simp
  by_cases hr : S r
  · rw [gather_from hq hr]
    simp [hq, hr]
  · rw [gather_other hq hr]
    simp [hq, hr]

theorem Places.gather (h : Places stock placed) (hempty : placed q = []) (hnodup : l.Nodup)
    (hl : ∀ a, a ∈ l ↔ ∃ p, S p ∧ a ∈ placed p) : Places stock (gather placed S q l) := by
  have hmem {r : ι} {a : α} := mem_gather (r := r) (a := a) hl hempty
  constructor
  · intro a
    rw [h.stock_iff]
    constructor
    · rintro ⟨r, hr⟩
      by_cases hS : S r
      · exact ⟨q, hmem.mpr (Or.inl ⟨rfl, r, hS, hr⟩)⟩
      · exact ⟨r, hmem.mpr (Or.inr ⟨hS, hr⟩)⟩
    · rintro ⟨r, hr⟩
      rcases hmem.mp hr with ⟨-, p, -, hp⟩ | ⟨-, hr⟩
      · exact ⟨p, hp⟩
      · exact ⟨r, hr⟩
  · intro r r' a hr hr'
    rcases hmem.mp hr with ⟨rfl, p, hp, ha⟩ | ⟨hS, ha⟩ <;>
      rcases hmem.mp hr' with ⟨rfl, p', hp', ha'⟩ | ⟨hS', ha'⟩
    · rfl
    · exact absurd (h.unique p r' a ha ha' ▸ hp) hS'
    · exact absurd (h.unique p' r a ha' ha ▸ hp') hS
    · exact h.unique r r' a ha ha'
  · intro r
    rcases eq_or_ne r q with rfl | hq
    · rwa [gather_to]
    by_cases hr : S r
    · rw [gather_from hq hr]
      exact List.nodup_nil
    · rw [gather_other hq hr]
      exact h.nodup r

end SlowBus.Placement
