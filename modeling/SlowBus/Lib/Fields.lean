import Mathlib.Data.List.DropRight
import Mathlib.Data.List.Lattice

/-!
# Separated fields

Texts made of fields between separator characters, with padding around the
fields: what splitting and trimming such a text gives back.
-/

namespace SlowBus.Fields

variable {α : Type*}

/-- A list without the padding at its ends. -/
def trim (pad : α → Bool) (l : List α) : List α := (l.dropWhile pad).rdropWhile pad

theorem dropWhile_of_forall_not {pad : α → Bool} {w : List α} (hw : ∀ x ∈ w, pad x = false) :
    w.dropWhile pad = w := by
  cases w with
  | nil => rfl
  | cons x w => simp [hw x (List.mem_cons_self ..)]

/-- Padding around a field without padding trims away. -/
theorem trim_padded {pad : α → Bool} {a w b : List α} (ha : ∀ x ∈ a, pad x = true)
    (hw : ∀ x ∈ w, pad x = false) (hb : ∀ x ∈ b, pad x = true) :
    trim pad (a ++ (w ++ b)) = w := by
  have hright : (w ++ b).rdropWhile pad = w := by
    rw [List.rdropWhile, List.reverse_append,
      List.dropWhile_append_of_pos fun x hx => hb x (List.mem_reverse.mp hx),
      dropWhile_of_forall_not fun x hx => hw x (List.mem_reverse.mp hx), List.reverse_reverse]
  rw [trim, List.dropWhile_append_of_pos ha]
  cases w with
  | nil =>
      rw [List.nil_append, List.dropWhile_eq_nil_iff.mpr hb]
      rfl
  | cons x w =>
      rw [List.cons_append, List.dropWhile_cons_of_neg (by simp [hw x (List.mem_cons_self ..)])]
      exact hright

theorem disjoint_append_cons {a b seps : List α} {sep : α} (ha : a.Disjoint seps)
    (hsep : sep ∉ seps) (hb : b.Disjoint seps) : (a ++ sep :: b).Disjoint seps :=
  List.disjoint_append_left.mpr ⟨ha, List.disjoint_cons_left.mpr ⟨hsep, hb⟩⟩

section Split

variable [DecidableEq α] {sep : α} {a : List α}

theorem splitOn_append_of_not_mem (ha : sep ∉ a) (l : List α) :
    (a ++ l).splitOn sep = (l.splitOn sep).modifyHead (a ++ ·) := by
  induction a with
  | nil =>
      obtain ⟨x, xs, hsplit⟩ := List.exists_cons_of_ne_nil (List.splitOn_ne_nil sep l)
      simp [hsplit]
  | cons x a ih =>
      rw [List.mem_cons, not_or] at ha
      obtain ⟨y, ys, hsplit⟩ := List.exists_cons_of_ne_nil (List.splitOn_ne_nil sep l)
      rw [List.cons_append, List.splitOn_cons_eq_if_modifyHead, ih ha.2, hsplit]
      simp [Ne.symm ha.1]

theorem takeWhile_append_cons (ha : sep ∉ a) (l : List α) :
    (a ++ sep :: l).takeWhile (fun x => x != sep) = a := by
  rw [List.takeWhile_append_of_pos fun x hx => by
    simpa using fun heq : x = sep => ha (heq ▸ hx)]
  simp

theorem dropWhile_append_cons (ha : sep ∉ a) (l : List α) :
    (a ++ sep :: l).dropWhile (fun x => x != sep) = sep :: l := by
  rw [List.dropWhile_append_of_pos fun x hx => by
    simpa using fun heq : x = sep => ha (heq ▸ hx)]
  simp

end Split

end SlowBus.Fields
