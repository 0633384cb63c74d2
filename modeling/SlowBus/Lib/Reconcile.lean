import Mathlib.Data.List.Nodup
import Mathlib.Data.List.Perm.Basic
import Mathlib.Tactic.Tauto

/-!
# Bringing a part of a table up to date

Of the rows whose keys are in a scope, those without a place in a target go, the others are
written, and the keys that are missing get fresh rows. What refers to a row that goes, goes with
it. Doing it once more changes nothing, and two targets with disjoint scopes do not get in each
other's way.
-/

namespace SlowBus.Reconcile

variable {ρ κ δ : Type*}

/-- What a scope of a table is to hold. -/
structure Target (key : ρ → κ) where
  scope : κ → Bool
  keys : List κ
  /-- What is written into a row that stays. -/
  write : ρ → ρ
  fresh : κ → Option ρ
  inScope : ∀ k ∈ keys, scope k = true
  key_write : ∀ r, key (write r) = key r
  write_write : ∀ r, write (write r) = write r
  key_fresh : ∀ k ∈ keys, ∃ r, fresh k = some r ∧ key r = k
  write_fresh : ∀ k r, fresh k = some r → write r = r

variable {key : ρ → κ} {T U : Target key} {l l' l₁ l₂ l₁₂ l₂₁ : List ρ} {r : ρ} {k : κ}

namespace Target

theorem map_fresh (T : Target key) {ks : List κ} (h : ∀ k ∈ ks, k ∈ T.keys) :
    (ks.filterMap T.fresh).map key = ks := by
  induction ks with
  | nil => rfl
  | cons k ks ih =>
      obtain ⟨r, hr, hkey⟩ := T.key_fresh k (h k List.mem_cons_self)
      rw [List.filterMap_cons_some hr, List.map_cons, hkey,
        ih fun k hk => h k (List.mem_cons_of_mem _ hk)]

/-- The scopes have no key in common. -/
def Apart (T U : Target key) : Prop := ∀ k, T.scope k = true → U.scope k = false

theorem Apart.symm (h : T.Apart U) : U.Apart T := by
  intro k hU
  cases hT : T.scope k with
  | false => rfl
  | true => exact absurd hU (Bool.eq_false_iff.mp (h k hT))

theorem Apart.not_mem_keys (h : T.Apart U) (hk : k ∈ T.keys) : k ∉ U.keys :=
  fun hk' => Bool.eq_false_iff.mp (h k (T.inScope k hk)) (U.inScope k hk')

variable [DecidableEq κ]

/-- A row with this key stays. -/
def keeps (T : Target key) (k : κ) : Bool := !T.scope k || k ∈ T.keys

def put (T : Target key) (r : ρ) : ρ := if key r ∈ T.keys then T.write r else r

/-- The rows of the keys that are missing. -/
def missing (T : Target key) (l : List ρ) : List ρ :=
  (T.keys.filter (· ∉ l.map key)).filterMap T.fresh

/-- The table is brought to the target; the fresh rows come in any order. -/
def Brings (T : Target key) (l l' : List ρ) : Prop :=
  ∃ rows, rows.Perm (T.missing l) ∧ l' = (l.filter (T.keeps ∘ key)).map T.put ++ rows

/-- What stays of the rows that refer to a table. -/
def refers (T : Target key) (l : List ρ) (ref : δ → κ) (ds : List δ) : List δ :=
  ds.filter fun x => T.keeps (ref x) || ref x ∉ l.map key

theorem keeps_iff : T.keeps k = true ↔ (T.scope k = true → k ∈ T.keys) := by
  unfold keeps
  cases T.scope k <;> simp

/-- The rows that refer to a key that stays or that the table does not have. -/
theorem filter_eq_refers {l : List ρ} {ref : δ → κ} {ds : List δ} {q : δ → Bool}
    (h : ∀ x ∈ ds, q x = true ↔ ref x ∈ l.map key → T.keeps (ref x) = true) :
    ds.filter q = T.refers l ref ds := by
  refine List.filter_congr fun x hx => ?_
  rw [Bool.eq_iff_iff, h x hx, Bool.or_eq_true, decide_eq_true_eq]
  tauto

theorem key_put (T : Target key) (r : ρ) : key (T.put r) = key r := by
  unfold put
  split
  next => exact T.key_write r
  next => rfl

theorem put_of_not_mem (h : key r ∉ T.keys) : T.put r = r := if_neg h

@[simp] theorem put_put (T : Target key) (r : ρ) : T.put (T.put r) = T.put r := by
  by_cases h : key r ∈ T.keys
  · have hput : T.put r = T.write r := if_pos h
    rw [hput, put, T.key_write, if_pos h, T.write_write]
  · rw [put_of_not_mem h, put_of_not_mem h]

/-- A fresh row is as it is to be. -/
theorem put_missing (hr : r ∈ T.missing l) :
    key r ∈ T.keys ∧ key r ∉ l.map key ∧ T.put r = r := by
  obtain ⟨k, hk, hfresh⟩ := List.mem_filterMap.mp hr
  obtain ⟨hkeys, hnot⟩ := List.mem_filter.mp hk
  obtain ⟨r', hr', hkey⟩ := T.key_fresh k hkeys
  obtain rfl := Option.some_inj.mp (hr'.symm.trans hfresh)
  rw [hkey]
  refine ⟨hkeys, of_decide_eq_true hnot, ?_⟩
  unfold put
  split
  next => exact T.write_fresh k _ hfresh
  next => rfl

theorem map_missing (T : Target key) (l : List ρ) :
    (T.missing l).map key = T.keys.filter (· ∉ l.map key) :=
  T.map_fresh fun _ hk => (List.mem_filter.mp hk).1

/-! ## What is there afterwards -/

/-- The keys, those that stay and those that were missing. -/
theorem Brings.keys (h : T.Brings l l') :
    (l'.map key).Perm ((l.map key).filter T.keeps ++ T.keys.filter (· ∉ l.map key)) := by
  obtain ⟨rows, hrows, rfl⟩ := h
  have hput : key ∘ T.put = key := funext T.key_put
  rw [List.map_append, List.map_map, hput, ← T.map_missing, List.filter_map]
  exact (hrows.map key).append_left _

theorem Brings.mem_keys (h : T.Brings l l') :
    k ∈ l'.map key ↔ if T.scope k then k ∈ T.keys else k ∈ l.map key := by
  rw [h.keys.mem_iff, List.mem_append, List.mem_filter, List.mem_filter]
  unfold keeps
  generalize l.map key = ks
  by_cases hk : k ∈ T.keys
  · simp [hk, T.inScope k hk, em]
  · by_cases hscope : T.scope k = true <;> simp [hk, hscope]

theorem Brings.mem_keys_of_scope (h : T.Brings l l') (hscope : T.scope k = true) :
    k ∈ l'.map key ↔ k ∈ T.keys := by
  rw [h.mem_keys, if_pos hscope]

theorem Brings.nodup (h : T.Brings l l') (hkeys : T.keys.Nodup) (hl : (l.map key).Nodup) :
    (l'.map key).Nodup := by
  refine h.keys.nodup_iff.mpr ((hl.filter _).append (hkeys.filter _) fun k hk hk' => ?_)
  exact of_decide_eq_true (List.mem_filter.mp hk').2 (List.mem_filter.mp hk).1

/-- What is written is there. -/
theorem Brings.put_eq (h : T.Brings l l') (hr : r ∈ l') : T.put r = r := by
  obtain ⟨rows, hrows, rfl⟩ := h
  rcases List.mem_append.mp hr with hold | hnew
  · obtain ⟨r₀, -, rfl⟩ := List.mem_map.mp hold
    exact T.put_put r₀
  · exact (put_missing (hrows.mem_iff.mp hnew)).2.2

theorem Brings.write_eq (h : T.Brings l l') (hr : r ∈ l') (hk : key r ∈ T.keys) :
    T.write r = r :=
  (if_pos hk).symm.trans (h.put_eq hr)

theorem Brings.outside (h : T.Brings l l') :
    l'.filter (fun r => !T.scope (key r)) = l.filter fun r => !T.scope (key r) := by
  obtain ⟨rows, hrows, rfl⟩ := h
  have hnew : rows.filter (fun r => !T.scope (key r)) = [] := by
    refine List.filter_eq_nil_iff.mpr fun r hr => ?_
    have hkey := (put_missing (hrows.mem_iff.mp hr)).1
    simp [T.inScope _ hkey]
  have hscope : (fun r => !T.scope (key r)) ∘ T.put = fun r => !T.scope (key r) :=
    funext fun r => by rw [Function.comp_apply, T.key_put]
  rw [List.filter_append, hnew, List.append_nil, List.filter_map, hscope, List.filter_filter]
  have hkeeps : (l.filter fun r => (!T.scope (key r)) && (T.keeps ∘ key) r) =
      l.filter fun r => !T.scope (key r) := by
    refine List.filter_congr fun r _ => ?_
    simp only [keeps, Function.comp_apply]
    cases T.scope (key r) <;> rfl
  rw [hkeeps]
  refine (List.map_congr_left fun r hr => ?_).trans (List.map_id _)
  refine put_of_not_mem fun hkey => ?_
  have hout := (List.mem_filter.mp hr).2
  rw [T.inScope _ hkey] at hout
  cases hout

/-- Once more. -/
theorem Brings.again (h : T.Brings l l') (h' : T.Brings l' l₁) : l₁ = l' := by
  obtain ⟨rows, hrows, rfl⟩ := h'
  have hkeeps : l'.filter (T.keeps ∘ key) = l' := by
    refine List.filter_eq_self.mpr fun r hr => ?_
    have hmem := h.mem_keys.mp (List.mem_map_of_mem hr)
    simp only [keeps, Function.comp_apply]
    split at hmem
    next hscope => simp [hmem]
    next hscope => simp [hscope]
  have hmissing : T.missing l' = [] := by
    have hnone : T.keys.filter (· ∉ l'.map key) = [] := by
      refine List.filter_eq_nil_iff.mpr fun k hk => ?_
      have hmem : k ∈ l'.map key := h.mem_keys.mpr (by rwa [if_pos (T.inScope k hk)])
      simpa using hmem
    rw [missing, hnone]
    rfl
  rw [hmissing, List.perm_nil] at hrows
  rw [hrows, List.append_nil, hkeeps]
  exact (List.map_congr_left fun r hr => h.put_eq hr).trans (List.map_id _)

/-! ## Two targets -/

/-- What the second target finds missing, it would find missing before the first. -/
theorem Brings.missing_eq (hapart : T.Apart U) (h : T.Brings l l₁) :
    U.missing l₁ = U.missing l := by
  refine congrArg (List.filterMap U.fresh) (List.filter_congr fun k hk => ?_)
  have hscope := hapart.symm k (U.inScope k hk)
  have hiff : k ∈ l₁.map key ↔ k ∈ l.map key := by
    rw [h.mem_keys, hscope]
    exact Iff.rfl
  rw [decide_eq_decide, hiff]

/-- The table after both, from what it was before. -/
theorem Brings.both (hapart : T.Apart U) (h : T.Brings l l₁) (h' : U.Brings l₁ l₁₂) :
    ∃ rows rows', rows.Perm (T.missing l) ∧ rows'.Perm (U.missing l) ∧
      l₁₂ = (l.filter fun r => T.keeps (key r) && U.keeps (key r)).map (U.put ∘ T.put) ++
        rows ++ rows' := by
  have hmissing := h.missing_eq hapart
  obtain ⟨rows, hrows, rfl⟩ := h
  obtain ⟨rows', hrows', rfl⟩ := h'
  have hnew : ∀ r ∈ rows, key r ∈ T.keys := fun r hr =>
    (put_missing (hrows.mem_iff.mp hr)).1
  have hkept : rows.filter (U.keeps ∘ key) = rows := by
    refine List.filter_eq_self.mpr fun r hr => ?_
    have hscope := hapart _ (T.inScope _ (hnew r hr))
    simp [keeps, hscope]
  have hput : rows.map U.put = rows :=
    (List.map_congr_left fun r hr =>
      put_of_not_mem (hapart.not_mem_keys (hnew r hr))).trans (List.map_id _)
  have hkeeps : (U.keeps ∘ key) ∘ T.put = U.keeps ∘ key :=
    funext fun r => congrArg U.keeps (T.key_put r)
  refine ⟨rows, rows', hrows, hmissing ▸ hrows', ?_⟩
  rw [List.filter_append, hkept, List.map_append, hput, List.filter_map, hkeeps,
    List.filter_filter, List.map_map]
  refine congrArg (· ++ rows ++ rows') (congrArg (List.map _) (List.filter_congr fun r _ => ?_))
  exact Bool.and_comm _ _

/-- Targets with disjoint scopes can be taken in either order. -/
theorem Brings.comm (hapart : T.Apart U) (h₁ : T.Brings l l₁) (h₁₂ : U.Brings l₁ l₁₂)
    (h₂ : U.Brings l l₂) (h₂₁ : T.Brings l₂ l₂₁) : l₁₂.Perm l₂₁ := by
  obtain ⟨rows, rows', hrows, hrows', rfl⟩ := h₁.both hapart h₁₂
  obtain ⟨rows₂, rows₂', hrows₂, hrows₂', rfl⟩ := h₂.both hapart.symm h₂₁
  have hput : U.put ∘ T.put = T.put ∘ U.put := by
    funext r
    show U.put (T.put r) = T.put (U.put r)
    by_cases hr : key r ∈ T.keys
    · have hnot := hapart.not_mem_keys hr
      rw [put_of_not_mem (T := U) (by rwa [T.key_put]), put_of_not_mem (T := U) hnot]
    · rw [put_of_not_mem hr, put_of_not_mem (T := T) (by rwa [U.key_put])]
  have hfilter : (l.filter fun r => T.keeps (key r) && U.keeps (key r)) =
      l.filter fun r => U.keeps (key r) && T.keeps (key r) :=
    List.filter_congr fun r _ => Bool.and_comm _ _
  rw [hput, hfilter, List.append_assoc, List.append_assoc]
  refine List.Perm.append_left _ (List.perm_append_comm.trans ?_)
  exact (hrows'.trans hrows₂.symm).append (hrows.trans hrows₂'.symm)

/-! ## What refers to the table -/

section Refers

variable {ref : δ → κ} {ds : List δ}

theorem refers_outside (T : Target key) (l : List ρ) :
    (T.refers l ref ds).filter (fun x => !T.scope (ref x)) =
      ds.filter fun x => !T.scope (ref x) := by
  rw [refers, List.filter_filter]
  refine List.filter_congr fun x _ => ?_
  simp only [keeps]
  cases T.scope (ref x) <;> simp

/-- What refers to a key that is there afterwards stays. -/
theorem Brings.refers_kept (h : T.Brings l l') (hk : k ∈ l'.map key) :
    (T.refers l ref ds).filter (ref · = k) = ds.filter (ref · = k) := by
  rw [refers, List.filter_filter]
  refine List.filter_congr fun x _ => ?_
  rw [h.mem_keys] at hk
  by_cases hx : ref x = k
  · split at hk
    next hscope => simp [hx, keeps, hk]
    next hscope => simp [hx, keeps, hscope]
  · simp [hx]

/-- What refers to a key that is gone is gone too. -/
theorem Brings.refers_lost (h : T.Brings l l') (hk : k ∈ l.map key) (hgone : k ∉ l'.map key) :
    ∀ x ∈ T.refers l ref ds, ref x ≠ k := by
  rintro x hx rfl
  rw [h.mem_keys] at hgone
  obtain ⟨-, hstays⟩ := List.mem_filter.mp hx
  split at hgone
  next hscope => simp [keeps, hscope, hgone, hk] at hstays
  next => exact hgone hk

theorem Brings.refers_again (h : T.Brings l l') :
    T.refers l' ref (T.refers l ref ds) = T.refers l ref ds := by
  refine List.filter_eq_self.mpr fun x _ => ?_
  by_cases hx : ref x ∈ l'.map key
  · have hmem := h.mem_keys.mp hx
    split at hmem
    next hscope => simp [keeps, hmem]
    next hscope => simp [keeps, hscope]
  · rw [decide_eq_true hx, Bool.or_true]

theorem Brings.refers_comm (hapart : T.Apart U) (h₁ : T.Brings l l₁) (h₂ : U.Brings l l₂) :
    U.refers l₁ ref (T.refers l ref ds) = T.refers l₂ ref (U.refers l ref ds) := by
  rw [refers, refers, refers, refers, List.filter_filter, List.filter_filter]
  refine List.filter_congr fun x _ => ?_
  simp only [h₁.mem_keys, h₂.mem_keys]
  generalize ref x = k, l.map key = ks
  cases hT : T.scope k with
  | true => simp [keeps, hT, hapart k hT]
  | false => cases hU : U.scope k <;> simp [keeps, hT, hU]

end Refers

end Target

end SlowBus.Reconcile
