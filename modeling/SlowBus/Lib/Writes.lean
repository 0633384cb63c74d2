import Mathlib.Data.List.Nodup
import Mathlib.Logic.Function.Basic

/-!
# A bank of cells under a list of writes

Each write acts on the one cell it names. What a list of writes leaves in a cell is
what the writes to this cell make of it, in their order.
-/

namespace SlowBus.Writes

variable {κ α ω ι : Type*} [DecidableEq κ] {key : ω → κ} {act : ω → α → α} {m : κ → α}
  {ws ws' : List ω} {k : κ}

/-- The bank after a list of writes. -/
def play (key : ω → κ) (act : ω → α → α) (m : κ → α) (ws : List ω) : κ → α :=
  ws.foldl (fun m w => Function.update m (key w) (act w (m (key w)))) m

@[simp] theorem play_nil : play key act m [] = m := rfl

theorem play_cons {w : ω} :
    play key act m (w :: ws) = play key act (Function.update m (key w) (act w (m (key w)))) ws :=
  rfl

theorem play_append : play key act m (ws ++ ws') = play key act (play key act m ws) ws' :=
  List.foldl_append ..

/-- A cell sees the writes to it and no others. -/
theorem play_apply (m : κ → α) (ws : List ω) (k : κ) :
    play key act m ws k = (ws.filter fun w => key w = k).foldl (fun a w => act w a) (m k) := by
  induction ws generalizing m with
  | nil => rfl
  | cons w ws ih =>
      rw [play_cons, ih]
      by_cases hk : key w = k
      · subst hk
        simp
      · rw [List.filter_cons_of_neg (by simpa using hk), Function.update_of_ne (Ne.symm hk)]

theorem play_of_ne (h : ∀ w ∈ ws, key w ≠ k) : play key act m ws k = m k := by
  have hnone : (ws.filter fun w => key w = k) = [] := by
    simpa [List.filter_eq_nil_iff] using h
  rw [play_apply, hnone, List.foldl_nil]

/-- Two banks that agree on a cell agree on it after the same writes. -/
theorem play_congr {m' : κ → α} (h : m k = m' k) :
    play key act m ws k = play key act m' ws k := by
  rw [play_apply, play_apply, h]

/-- What every write to a cell preserves. -/
theorem play_preserves {P : α → Prop} (hstep : ∀ w ∈ ws, key w = k → ∀ a, P a → P (act w a))
    (hstart : P (m k)) : P (play key act m ws k) := by
  induction ws generalizing m with
  | nil => exact hstart
  | cons w ws ih =>
      rw [play_cons]
      refine ih (fun v hv => hstep v (List.mem_cons_of_mem w hv)) ?_
      by_cases hk : key w = k
      · subst hk
        rw [Function.update_self]
        exact hstep w List.mem_cons_self rfl _ hstart
      · rwa [Function.update_of_ne (Ne.symm hk)]

/-- Groups of writes, each to a cell of its own. -/
theorem play_flatMap {f : ι → List ω} {cell : ι → κ} (hcell : Function.Injective cell)
    (hf : ∀ i, ∀ w ∈ f i, key w = cell i) {xs : List ι} (hxs : xs.Nodup) {i : ι} (hi : i ∈ xs) :
    play key act m (xs.flatMap f) (cell i) = play key act m (f i) (cell i) := by
  induction xs generalizing m with
  | nil => cases hi
  | cons x xs ih =>
      obtain ⟨hnot, hnodup⟩ := List.nodup_cons.mp hxs
      rw [List.flatMap_cons, play_append]
      by_cases hx : i = x
      · subst hx
        refine play_of_ne fun w hw => ?_
        obtain ⟨j, hj, hw⟩ := List.mem_flatMap.mp hw
        rw [hf j w hw]
        exact fun heq => hnot (hcell heq ▸ hj)
      · have hrest : i ∈ xs := (List.mem_cons.mp hi).resolve_left hx
        rw [ih hnodup hrest]
        refine play_congr (play_of_ne fun w hw => ?_)
        rw [hf x w hw]
        exact fun heq => hx (hcell heq).symm

/-- No group writes to this cell. -/
theorem play_flatMap_of_ne {f : ι → List ω} {cell : ι → κ} (hf : ∀ i, ∀ w ∈ f i, key w = cell i)
    {xs : List ι} (h : ∀ i ∈ xs, cell i ≠ k) : play key act m (xs.flatMap f) k = m k := by
  refine play_of_ne fun w hw => ?_
  obtain ⟨i, hi, hw⟩ := List.mem_flatMap.mp hw
  rw [hf i w hw]
  exact h i hi

/-! ## One field of a cell -/

section Field

variable {β : Type*} (act) (f : α → β) (sets : ω → Bool)

/-- A field that no write sets. -/
theorem foldl_keep (hkeep : ∀ w, sets w = false → ∀ a, f (act w a) = f a)
    (hnone : ws.any sets = false) (a : α) : f (ws.foldl (fun a w => act w a) a) = f a := by
  induction ws generalizing a with
  | nil => rfl
  | cons w ws ih =>
      obtain ⟨hw, hws⟩ := Bool.or_eq_false_iff.mp (List.any_cons.symm.trans hnone)
      exact (ih hws _).trans (hkeep w hw a)

/-- A field that some write sets does not remember what was there. -/
theorem foldl_agree (hset : ∀ w, sets w = true → ∀ a a', f (act w a) = f (act w a'))
    (hkeep : ∀ w, sets w = false → ∀ a, f (act w a) = f a) (hsome : ws.any sets = true)
    (a a' : α) : f (ws.foldl (fun a w => act w a) a) = f (ws.foldl (fun a w => act w a) a') := by
  induction ws generalizing a a' with
  | nil => cases hsome
  | cons w ws ih =>
      by_cases hws : ws.any sets = true
      · exact ih hws _ _
      · have hnone : ws.any sets = false := by simpa using hws
        have hw : sets w = true := by simpa [hnone] using hsome
        show f (ws.foldl _ _) = f (ws.foldl _ _)
        rw [foldl_keep act f sets hkeep hnone, foldl_keep act f sets hkeep hnone]
        exact hset w hw a a'

end Field

end SlowBus.Writes
