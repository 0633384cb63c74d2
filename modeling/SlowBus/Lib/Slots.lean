import Mathlib.Data.List.Basic

/-!
# Slots without an order of their own

A list of slots, searched from the first on, where the one that is found is changed
in place. What is asked of the slots is a filter, and its order is that of the
slots: the first that matches is the head, and a slot that begins to match joins
where it lies.
-/

namespace SlowBus.Slots

variable {α : Type*} {p q : α → Bool} {f : α → α} {slots slots' : List α} {x : α}

/-- The first slot that matches, and the slots with it changed. -/
def updateFirst (p : α → Bool) (f : α → α) : List α → Option (α × List α)
  | [] => none
  | x :: rest =>
      if p x then some (x, f x :: rest)
      else (updateFirst p f rest).map fun found => (found.1, x :: found.2)

/-- The slots behind the first that matches. -/
def behind (p : α → Bool) (slots : List α) : List α := (slots.dropWhile fun x => !p x).tail

/-- Where the slot that is found lies. -/
theorem updateFirst_split (h : updateFirst p f slots = some (x, slots')) :
    ∃ before, slots = before ++ x :: behind p slots ∧ (∀ y ∈ before, p y = false) ∧
      p x = true ∧ slots' = before ++ f x :: behind p slots := by
  induction slots generalizing slots' with
  | nil => cases h
  | cons y rest ih =>
      unfold updateFirst at h
      split at h
      next hy =>
        cases h
        refine ⟨[], ?_, by simp, hy, ?_⟩ <;> simp [behind, hy]
      next hy =>
        obtain ⟨⟨x', rest'⟩, hrest, heq⟩ := Option.map_eq_some_iff.mp h
        cases heq
        obtain ⟨before, hsplit, hbefore, hx, hchanged⟩ := ih hrest
        have hbehind : behind p (y :: rest) = behind p rest := by simp [behind, hy]
        refine ⟨y :: before, ?_, List.forall_mem_cons.mpr ⟨by simpa using hy, hbefore⟩, hx, ?_⟩
        · rw [hbehind, List.cons_append, ← hsplit]
        · rw [hbehind, List.cons_append, ← hchanged]

/-- What was found was there. -/
theorem mem_of_updateFirst (h : updateFirst p f slots = some (x, slots')) :
    x ∈ slots ∧ p x = true := by
  obtain ⟨before, hsplit, _, hx, _⟩ := updateFirst_split h
  rw [hsplit]
  exact ⟨List.mem_append_right before List.mem_cons_self, hx⟩

theorem mem_updateFirst {y : α} (h : updateFirst p f slots = some (x, slots')) (hy : y ∈ slots') :
    y ∈ slots ∨ y = f x := by
  obtain ⟨before, hsplit, _, _, rfl⟩ := updateFirst_split h
  rw [hsplit]
  simp only [List.mem_append, List.mem_cons] at hy ⊢
  tauto

/-- A slot that begins to match, with no match behind it, is the last one. -/
theorem filter_append (h : updateFirst p f slots = some (x, slots')) (hold : q x = false)
    (hnew : q (f x) = true) (hbehind : ∀ y ∈ behind p slots, q y = false) :
    slots'.filter q = slots.filter q ++ [f x] := by
  obtain ⟨before, hsplit, _, _, rfl⟩ := updateFirst_split h
  have hnone : (behind p slots).filter q = [] :=
    List.filter_eq_nil_iff.mpr fun y hy => by rw [hbehind y hy]; exact Bool.false_ne_true
  conv_rhs => rw [hsplit]
  rw [List.filter_append, List.filter_append, List.filter_cons_of_pos hnew,
    List.filter_cons_of_neg (by rw [hold]; exact Bool.false_ne_true), hnone, List.append_nil]

/-- A slot that matches neither before nor after is not seen. -/
theorem filter_same (h : updateFirst p f slots = some (x, slots')) (hold : q x = false)
    (hnew : q (f x) = false) : slots'.filter q = slots.filter q := by
  obtain ⟨before, hsplit, _, _, rfl⟩ := updateFirst_split h
  conv_rhs => rw [hsplit]
  rw [List.filter_append, List.filter_append,
    List.filter_cons_of_neg (by rw [hnew]; exact Bool.false_ne_true),
    List.filter_cons_of_neg (by rw [hold]; exact Bool.false_ne_true)]

/-- The first match is the head, and when it no longer matches the others stay. -/
theorem filter_cons (h : updateFirst p f slots = some (x, slots')) (hnew : p (f x) = false) :
    slots.filter p = x :: slots'.filter p := by
  obtain ⟨before, hsplit, hbefore, hx, rfl⟩ := updateFirst_split h
  have hnone : before.filter p = [] :=
    List.filter_eq_nil_iff.mpr fun y hy => by rw [hbefore y hy]; exact Bool.false_ne_true
  conv_lhs => rw [hsplit]
  rw [List.filter_append, List.filter_append, hnone, List.filter_cons_of_pos hx,
    List.filter_cons_of_neg (by rw [hnew]; exact Bool.false_ne_true), List.nil_append,
    List.nil_append]

end SlowBus.Slots
