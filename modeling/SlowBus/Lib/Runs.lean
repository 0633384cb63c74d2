import Mathlib.Logic.Relation

/-!
# Runs of a transition relation

What every step preserves holds all along a run. A run is a chain of related
states, or a list of actions of a machine.
-/

namespace SlowBus.Runs

open Relation

variable {α : Type} {step : α → α → Prop} {a b : α}

theorem preserved {P : α → Prop} (hstep : ∀ a b, P a → step a b → P b)
    (hrun : ReflTransGen step a b) (hstart : P a) : P b := by
  induction hrun with
  | refl => exact hstart
  | tail _ hlast ih => exact hstep _ _ ih hlast

/-- A property that steps preserve under an invariant of the run. -/
theorem preserved_under {I P : α → Prop} (hinv : ∀ a b, I a → step a b → I b)
    (hstep : ∀ a b, I a → P a → step a b → P b) (hrun : ReflTransGen step a b)
    (hinvStart : I a) (hstart : P a) : P b :=
  (preserved (P := fun x => I x ∧ P x)
    (fun x y hx hxy => ⟨hinv x y hx.1 hxy, hstep x y hx.1 hx.2 hxy⟩) hrun ⟨hinvStart, hstart⟩).2

/-! ## Runs of a machine -/

section Machine

variable {σ ι : Type*} {next : σ → ι → σ} {C : σ → ι → Prop} {s : σ} {as : List ι}

/-- The state after a list of actions. -/
def run (next : σ → ι → σ) (s : σ) (as : List ι) : σ := as.foldl next s

@[simp] theorem run_nil : run next s [] = s := rfl

@[simp] theorem run_cons {a : ι} : run next s (a :: as) = run next (next s a) as := rfl

@[simp] theorem run_append {as' : List ι} :
    run next s (as ++ as') = run next (run next s as) as' :=
  List.foldl_append ..

/-- Every action of a run meets `C` in the state it is taken in. -/
def Along (next : σ → ι → σ) (C : σ → ι → Prop) : σ → List ι → Prop
  | _, [] => True
  | s, a :: as => C s a ∧ Along next C (next s a) as

theorem Along.imp {C' : σ → ι → Prop} (hC : ∀ s a, C s a → C' s a) (h : Along next C s as) :
    Along next C' s as := by
  induction as generalizing s with
  | nil => trivial
  | cons a as ih => exact ⟨hC s a h.1, ih h.2⟩

theorem along_of_forall (h : ∀ a ∈ as, ∀ s, C s a) : Along next C s as := by
  induction as generalizing s with
  | nil => trivial
  | cons a as ih =>
      exact ⟨h a List.mem_cons_self s, ih fun b hb => h b (List.mem_cons_of_mem a hb)⟩

theorem Along.and {C' : σ → ι → Prop} (h : Along next C s as) (h' : Along next C' s as) :
    Along next (fun s a => C s a ∧ C' s a) s as := by
  induction as generalizing s with
  | nil => trivial
  | cons a as ih => exact ⟨⟨h.1, h'.1⟩, ih h.2 h'.2⟩

theorem along_append {as' : List ι} :
    Along next C s (as ++ as') ↔ Along next C s as ∧ Along next C (run next s as) as' := by
  induction as generalizing s with
  | nil => simp [Along]
  | cons b as ih => simp only [List.cons_append, Along, ih, run_cons, and_assoc]

theorem along_concat {a : ι} :
    Along next C s (as ++ [a]) ↔ Along next C s as ∧ C (run next s as) a := by
  rw [along_append]
  simp only [Along, and_true]

/-- What every action that meets the condition preserves. -/
theorem run_along {P : σ → Prop} (hstep : ∀ s a, P s → C s a → P (next s a))
    (halong : Along next C s as) (hstart : P s) : P (run next s as) := by
  induction as generalizing s with
  | nil => exact hstart
  | cons a as ih => exact ih halong.2 (hstep s a hstart halong.1)

/-- What every action preserves. -/
theorem run_invariant {P : σ → Prop} (hstep : ∀ s a, P s → P (next s a)) (hstart : P s) :
    P (run next s as) := by
  induction as generalizing s with
  | nil => exact hstart
  | cons a as ih => exact ih (hstep s a hstart)

/-- Two conditions that agree where `P` holds agree along a run, if the first keeps `P`. -/
theorem along_congr {C' : σ → ι → Prop} {P : σ → Prop} (hiff : ∀ s a, P s → (C s a ↔ C' s a))
    (hstep : ∀ s a, P s → C s a → P (next s a)) (hstart : P s) :
    Along next C s as ↔ Along next C' s as := by
  induction as generalizing s with
  | nil => exact Iff.rfl
  | cons a as ih =>
      unfold Along
      rw [hiff s a hstart]
      exact and_congr_right fun ha => ih (hstep s a hstart ((hiff s a hstart).mpr ha))

instance Along.decidable [∀ s a, Decidable (C s a)] : ∀ s as, Decidable (Along next C s as)
  | _, [] => isTrue trivial
  | s, a :: as =>
      have := Along.decidable (next s a) as
      inferInstanceAs (Decidable (C s a ∧ Along next C (next s a) as))

end Machine

end SlowBus.Runs
