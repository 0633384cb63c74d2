import Mathlib.Data.List.Basic
import Mathlib.Data.List.Induction

/-!
# Stuffed bodies

A body is sent between two marks. Where the mark or the escape symbol stands in it, the escape
symbol and a code are sent instead, so that no mark is left in what stands between the marks. Read
symbol by symbol, a stretch without marks is the stuffed form of exactly one body, stops behind an
escape symbol, or is spoilt.
-/

namespace SlowBus.Stuffing

structure Code (α : Type*) where
  mark : α
  esc : α
  markCode : α
  escCode : α
  mark_ne_esc : mark ≠ esc
  mark_ne_markCode : mark ≠ markCode
  mark_ne_escCode : mark ≠ escCode
  markCode_ne_escCode : markCode ≠ escCode

variable {α : Type*} [DecidableEq α]

/-- What is sent for a symbol. -/
def Code.stuff (c : Code α) (x : α) : List α :=
  if x = c.mark then [c.esc, c.markCode] else if x = c.esc then [c.esc, c.escCode] else [x]

/-- What a stretch without marks spells so far. -/
inductive Reading (α : Type*) where
  | body (bs : List α)
  /-- A body and an escape symbol. -/
  | escaped (bs : List α)
  | spoilt

/-- One symbol that is not a mark. -/
def Code.read (c : Code α) : Reading α → α → Reading α
  | .body bs, x => if x = c.esc then .escaped bs else .body (bs ++ [x])
  | .escaped bs, x =>
      if x = c.markCode then .body (bs ++ [c.mark])
      else if x = c.escCode then .body (bs ++ [c.esc])
      else .spoilt
  | .spoilt, _ => .spoilt

/-- The stretch is the one that spells the reading. -/
def Code.Spells (c : Code α) (s : List α) : Reading α → Prop
  | .body bs => s = bs.flatMap c.stuff
  | .escaped bs => s = bs.flatMap c.stuff ++ [c.esc]
  | .spoilt => True

variable {c : Code α} {s bs : List α} {x : α}

@[simp] theorem stuff_mark : c.stuff c.mark = [c.esc, c.markCode] := by simp [Code.stuff]

@[simp] theorem stuff_esc : c.stuff c.esc = [c.esc, c.escCode] := by
  simp [Code.stuff, c.mark_ne_esc.symm]

theorem stuff_plain (hmark : x ≠ c.mark) (hesc : x ≠ c.esc) : c.stuff x = [x] := by
  simp [Code.stuff, hmark, hesc]

theorem mark_notMem_stuff (x : α) : c.mark ∉ c.stuff x := by
  unfold Code.stuff
  split
  next => simp [c.mark_ne_esc, c.mark_ne_markCode]
  next hx =>
    split
    next => simp [c.mark_ne_esc, c.mark_ne_escCode]
    next => simpa using Ne.symm hx

/-- Of the marks around it none is taken for one of the body. -/
theorem mark_notMem_flatMap (bs : List α) : c.mark ∉ bs.flatMap c.stuff := by
  simp [List.mem_flatMap, mark_notMem_stuff]

/-- One more symbol. -/
theorem Code.Spells.step {r : Reading α} (h : c.Spells s r) (hx : x ≠ c.mark) :
    c.Spells (s ++ [x]) (c.read r x) := by
  cases r with
  | body bs =>
      obtain rfl : s = bs.flatMap c.stuff := h
      by_cases hesc : x = c.esc
      · subst hesc
        rw [Code.read, if_pos rfl]
        rfl
      · rw [Code.read, if_neg hesc]
        simp [Code.Spells, stuff_plain hx hesc]
  | escaped bs =>
      obtain rfl : s = bs.flatMap c.stuff ++ [c.esc] := h
      by_cases hmark : x = c.markCode
      · subst hmark
        rw [Code.read, if_pos rfl]
        simp [Code.Spells]
      · by_cases hesc : x = c.escCode
        · subst hesc
          rw [Code.read, if_neg hmark, if_pos rfl]
          simp [Code.Spells]
        · rw [Code.read, if_neg hmark, if_neg hesc]
          trivial
  | spoilt => trivial

theorem spells_read (hs : c.mark ∉ s) : c.Spells s (s.foldl c.read (.body [])) := by
  induction s using List.reverseRecOn with
  | nil => rfl
  | append_singleton s x ih =>
      rw [List.mem_append, not_or, List.mem_singleton] at hs
      rw [List.foldl_concat]
      exact (ih hs.1).step (Ne.symm hs.2)

end SlowBus.Stuffing
