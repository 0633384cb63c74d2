import Mathlib.Tactic.Common

/-!
# Runs of labelled steps

A run is a chain of steps with the list of their labels. A relation that every step of one
system carries over to a step of another with the same label carries whole runs over.
-/

namespace SlowBus.Runs

variable {σ τ ι : Type*} {step : σ → ι → σ → Prop} {step' : τ → ι → τ → Prop} {s t u : σ}
  {is js : List ι}

inductive Steps (step : σ → ι → σ → Prop) : σ → List ι → σ → Prop
  | refl (s : σ) : Steps step s [] s
  | head {s t u : σ} {i : ι} {is : List ι} (hstep : step s i t) (hrest : Steps step t is u) :
      Steps step s (i :: is) u

/-- What the steps with some labels preserve, on a run of these. -/
theorem Steps.preserves_of {P : σ → Prop} {C : ι → Prop}
    (hstep : ∀ s i t, C i → P s → step s i t → P t) (h : Steps step s is t)
    (hC : ∀ i ∈ is, C i) (hs : P s) : P t := by
  induction h with
  | refl s => exact hs
  | head hfirst _ ih =>
      obtain ⟨hi, his⟩ := List.forall_mem_cons.mp hC
      exact ih his (hstep _ _ _ hi hs hfirst)

/-- A forward simulation carries runs over. -/
theorem Steps.simulates {R : σ → τ → Prop} {a : τ}
    (hstep : ∀ s i t a, R s a → step s i t → ∃ b, step' a i b ∧ R t b)
    (h : Steps step s is t) (hs : R s a) : ∃ b, Steps step' a is b ∧ R t b := by
  induction h generalizing a with
  | refl s => exact ⟨a, .refl a, hs⟩
  | head hfirst _ ih =>
      obtain ⟨b, hb, hR⟩ := hstep _ _ _ _ hs hfirst
      obtain ⟨c, hc, hR⟩ := ih hR
      exact ⟨c, .head hb hc, hR⟩

/-- The states of a run are seen through a function, under an invariant. -/
theorem Steps.refines {I : σ → Prop} {f : σ → τ}
    (hstep : ∀ s i t, I s → step s i t → I t ∧ step' (f s) i (f t))
    (h : Steps step s is t) (hs : I s) : I t ∧ Steps step' (f s) is (f t) := by
  have hfollows : ∀ s i t a, (I s ∧ f s = a) → step s i t → ∃ b, step' a i b ∧ I t ∧ f t = b := by
    rintro s i t a ⟨hI, rfl⟩ hfirst
    obtain ⟨hI', hfirst'⟩ := hstep s i t hI hfirst
    exact ⟨f t, hfirst', hI', rfl⟩
  obtain ⟨b, hrun, hI, rfl⟩ := h.simulates hfollows ⟨hs, rfl⟩
  exact ⟨hI, hrun⟩

end SlowBus.Runs
