import Mathlib.Data.List.Nodup

/-!
# Tables

A table is its rows. The statements that change tables, and what they do to a column whose
values are to be distinct.
-/

namespace SlowBus.Table

variable {ρ κ ν : Type*}

def delete (p : ρ → Bool) (rows : List ρ) : List ρ := rows.filter fun r => !p r

def update (p : ρ → Bool) (f : ρ → ρ) (rows : List ρ) : List ρ :=
  rows.map fun r => if p r then f r else r

def insert (r : ρ) (rows : List ρ) : List ρ := rows ++ [r]

/-- The rows with the key of `r` are changed; if there is none `r` is inserted. -/
def upsert [DecidableEq κ] (key : ρ → κ) (r : ρ) (f : ρ → ρ) (rows : List ρ) : List ρ :=
  if rows.any fun r' => key r' = key r then update (fun r' => key r' = key r) f rows
  else insert r rows

/-- No value of a column occurs twice. -/
def Unique (col : ρ → κ) (rows : List ρ) : Prop := (rows.map col).Nodup

variable {col : ρ → κ} {rows : List ρ} {p : ρ → Bool} {f : ρ → ρ} {r r' : ρ}

instance Unique.decidable [DecidableEq κ] : Decidable (Unique col rows) :=
  inferInstanceAs (Decidable (rows.map col).Nodup)

@[simp] theorem mem_delete : r ∈ delete p rows ↔ r ∈ rows ∧ p r = false := by
  simp [delete]

@[simp] theorem mem_insert : r ∈ insert r' rows ↔ r ∈ rows ∨ r = r' := by
  simp [insert]

/-- A column that an update leaves as it is. -/
theorem map_update (hf : ∀ r ∈ rows, p r = true → col (f r) = col r) :
    (update p f rows).map col = rows.map col := by
  rw [update, List.map_map]
  refine List.map_congr_left fun r hr => ?_
  show col (if p r then f r else r) = col r
  split
  next hp => exact hf r hr hp
  next => rfl

theorem Unique.delete (h : Unique col rows) : Unique col (delete p rows) :=
  h.sublist (List.filter_sublist.map col)

theorem Unique.update (h : Unique col rows) (hf : ∀ r ∈ rows, p r = true → col (f r) = col r) :
    Unique col (update p f rows) := by
  rw [Unique, map_update hf]
  exact h

theorem unique_insert : Unique col (insert r rows) ↔
    Unique col rows ∧ ∀ r' ∈ rows, col r' ≠ col r := by
  rw [Unique, insert, List.map_append, List.map_singleton, List.nodup_append]
  simp [Unique]

/-- Two rows with one value in the column are the same row. -/
theorem Unique.eq (h : Unique col rows) (hr : r ∈ rows) (hr' : r' ∈ rows) (heq : col r = col r') :
    r = r' :=
  List.inj_on_of_nodup_map h hr hr' heq

variable [DecidableEq κ]

/-- An upsert keeps its key distinct. -/
theorem Unique.upsert (h : Unique col rows) (hf : ∀ r, col (f r) = col r) :
    Unique col (upsert col r f rows) := by
  unfold Table.upsert
  split
  next => exact h.update fun r _ _ => hf r
  next hnone => exact unique_insert.mpr ⟨h, by simpa using hnone⟩

/-- A row put in place of the one with its key. -/
theorem Unique.replace (h : Unique col rows) (r : ρ) :
    Unique col (Table.upsert col r (fun _ => r) rows) := by
  unfold Table.upsert
  split
  next => exact h.update fun r' _ heq => (of_decide_eq_true heq).symm
  next hnone => exact unique_insert.mpr ⟨h, by simpa using hnone⟩

/-- The keys after an upsert. -/
theorem key_of_mem_upsert (hf : ∀ r, col (f r) = col r) (hr : r' ∈ Table.upsert col r f rows) :
    col r' = col r ∨ ∃ r₀ ∈ rows, col r₀ = col r' := by
  unfold Table.upsert at hr
  split at hr
  next =>
    refine .inr (List.mem_map.mp ?_)
    rw [← map_update (p := fun r' => col r' = col r) (f := f) fun r _ _ => hf r]
    exact List.mem_map_of_mem hr
  next =>
    rcases mem_insert.mp hr with hr | rfl
    · exact .inr ⟨r', hr, rfl⟩
    · exact .inl rfl

variable (col) in
/-- What a query by the key finds after an upsert. -/
theorem find_upsert (hf : ∀ r, col (f r) = col r) (r : ρ) (rows : List ρ) :
    (Table.upsert col r f rows).find? (fun r' => col r' = col r) =
      some (((rows.find? fun r' => col r' = col r).map f).getD r) := by
  unfold Table.upsert
  split
  next hany =>
    obtain ⟨r₀, hr₀⟩ : ∃ r₀, rows.find? (fun r' => col r' = col r) = some r₀ := by
      apply Option.isSome_iff_exists.mp
      rw [List.find?_isSome]
      exact List.any_eq_true.mp hany
    rw [hr₀, Option.map_some, Option.getD_some]
    clear hany
    induction rows with
    | nil => cases hr₀
    | cons r₁ rows ih =>
        rw [Table.update, List.map_cons]
        by_cases hkey : col r₁ = col r
        · rw [List.find?_cons_of_pos (by simpa using hkey)] at hr₀
          cases hr₀
          simp [hkey, hf]
        · rw [List.find?_cons_of_neg (by simpa using hkey)] at hr₀
          rw [List.find?_cons_of_neg (by simp [hkey])]
          exact ih hr₀
  next hnone =>
    have hrows : rows.find? (fun r' => col r' = col r) = none := by
      rw [List.find?_eq_none]
      simpa using hnone
    rw [Table.insert, List.find?_append, hrows]
    simp

/-- What a query by a distinct column finds. -/
theorem Unique.find_eq_some (h : Unique col rows) {val : ρ → ν} {k : κ} {v : ν} :
    (rows.find? fun r => col r = k).map val = some v ↔ ∃ r ∈ rows, col r = k ∧ val r = v := by
  rw [Option.map_eq_some_iff]
  constructor
  · rintro ⟨r, hfind, hval⟩
    exact ⟨r, List.mem_of_find?_eq_some hfind, by simpa using List.find?_some hfind, hval⟩
  · rintro ⟨r, hr, hk, hval⟩
    obtain ⟨r', hfind⟩ : ∃ r', rows.find? (fun r => col r = k) = some r' :=
      Option.isSome_iff_exists.mp (List.find?_isSome.mpr ⟨r, hr, by simpa using hk⟩)
    have hk' : col r' = k := by simpa using List.find?_some hfind
    exact ⟨r', hfind, by rw [h.eq (List.mem_of_find?_eq_some hfind) hr (hk'.trans hk.symm), hval]⟩

theorem find_eq_none {val : ρ → ν} {k : κ} :
    (rows.find? fun r => col r = k).map val = none ↔ ∀ r ∈ rows, col r ≠ k := by
  simp [List.find?_eq_none]

end SlowBus.Table
