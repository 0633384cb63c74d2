import Mathlib.Data.List.Basic
import Mathlib.Logic.Function.Basic

/-!
# Intrusive singly linked lists

A linked list threaded through a `next` field: a head, and the cells reached from
it. The shape of the list is a predicate over the field, so that the lists of one
heap can be described side by side.
-/

namespace SlowBus.Linked

variable {α : Type*}

/-- From `head` the field leads through exactly the cells of the list. -/
def Chain (next : α → Option α) : Option α → List α → Prop
  | head, [] => head = none
  | head, a :: l => head = some a ∧ Chain next (next a) l

variable {next : α → Option α} {head : Option α} {a b : α} {l l' : List α}

@[simp] theorem chain_nil : Chain next head [] ↔ head = none := Iff.rfl

@[simp] theorem chain_cons : Chain next head (a :: l) ↔ head = some a ∧ Chain next (next a) l :=
  Iff.rfl

theorem chain_none : Chain next none l ↔ l = [] := by
  cases l <;> simp

theorem chain_some : Chain next (some a) l ↔ ∃ l', l = a :: l' ∧ Chain next (next a) l' := by
  cases l with
  | nil => simp
  | cons b l =>
      rw [chain_cons, Option.some_inj]
      constructor
      · rintro ⟨rfl, h⟩
        exact ⟨l, rfl, h⟩
      · rintro ⟨l', heq, h⟩
        cases heq
        exact ⟨rfl, h⟩

/-- A head leads through one list only. -/
theorem Chain.unique (h : Chain next head l) (h' : Chain next head l') : l = l' := by
  induction l generalizing head l' with
  | nil =>
      rw [chain_nil.mp h, chain_none] at h'
      exact h'.symm
  | cons a l ih =>
      obtain ⟨rfl, h⟩ := h
      obtain ⟨l'', rfl, htail⟩ := chain_some.mp h'
      rw [ih h htail]

/-- Writing the field of a cell outside a list leaves the list as it is. -/
theorem Chain.update [DecidableEq α] (h : Chain next head l) (hb : b ∉ l) (x : Option α) :
    Chain (Function.update next b x) head l := by
  induction l generalizing head with
  | nil => exact h
  | cons a l ih =>
      rw [List.mem_cons, not_or] at hb
      obtain ⟨rfl, h⟩ := h
      refine ⟨rfl, ?_⟩
      rw [Function.update_of_ne (Ne.symm hb.1)]
      exact ih h hb.2

/-- Pushing a cell from outside the list. -/
theorem Chain.push [DecidableEq α] (h : Chain next head l) (hb : b ∉ l) :
    Chain (Function.update next b head) (some b) (b :: l) := by
  refine ⟨rfl, ?_⟩
  rw [Function.update_self]
  exact h.update hb head

/-- The field agrees on the cells of the list. -/
theorem Chain.congr {next' : α → Option α} (h : Chain next head l)
    (heq : ∀ a ∈ l, next' a = next a) : Chain next' head l := by
  induction l generalizing head with
  | nil => exact h
  | cons a l ih =>
      obtain ⟨rfl, h⟩ := h
      obtain ⟨ha, heq⟩ := List.forall_mem_cons.mp heq
      refine ⟨rfl, ?_⟩
      rw [ha]
      exact ih h heq

end SlowBus.Linked
