import Mathlib.Algebra.Group.Basic
import SlowBus.Lib.Runs

/-!
# What is taken from a tally and what is left

A quantity that each step of a machine adds to and takes from. Over a run, what is left and
what was taken is what was there and what came in.
-/

namespace SlowBus.Runs

variable {σ ι M : Type*} [AddCommMonoid M] {next : σ → ι → σ} {s : σ} {as : List ι}

/-- What the actions of a run amount to. -/
def total (next : σ → ι → σ) (f : σ → ι → M) : σ → List ι → M
  | _, [] => 0
  | s, a :: as => f s a + total next f (next s a) as

@[simp] theorem total_nil {f : σ → ι → M} : total next f s [] = 0 := rfl

@[simp] theorem total_cons {f : σ → ι → M} {a : ι} :
    total next f s (a :: as) = f s a + total next f (next s a) as := rfl

/-- A balance that every action keeps under an invariant holds of the whole run. -/
theorem balance {v : σ → M} {gain loss : σ → ι → M} {P : σ → Prop}
    (hkeep : ∀ s a, P s → P (next s a))
    (hstep : ∀ s a, P s → v (next s a) + loss s a = v s + gain s a) (hstart : P s)
    (as : List ι) :
    v (run next s as) + total next loss s as = v s + total next gain s as := by
  induction as generalizing s with
  | nil => rfl
  | cons a as ih =>
      have hrest := ih (hkeep s a hstart)
      rw [run_cons, total_cons, total_cons, add_left_comm, hrest, ← add_assoc, ← add_assoc,
        add_comm (loss s a), hstep s a hstart]

end SlowBus.Runs
