import Mathlib.Data.List.Forall2

/-!
# Fallible computations

Taking a successful `Except` computation apart, and invariants of the loops it
runs.
-/

namespace SlowBus.Fallible

variable {ε α β : Type}

theorem ok_bind (a : α) (f : α → Except ε β) : (Except.ok a >>= f) = f a := rfl

/-- A sequence succeeds when both parts do. -/
theorem bind_eq_ok {x : Except ε α} {f : α → Except ε β} {b : β} :
    (x >>= f) = .ok b ↔ ∃ a, x = .ok a ∧ f a = .ok b := by
  cases x with
  | error e => simp [bind, Except.bind]
  | ok a => simp [bind, Except.bind]

/-- A failure that none of its parts has, a sequence does not have. -/
theorem bind_ne_error {x : Except ε α} {f : α → Except ε β} {e : ε} (hx : x ≠ .error e)
    (hf : ∀ a, x = .ok a → f a ≠ .error e) : (x >>= f) ≠ .error e := by
  cases x with
  | error e' => exact fun h => hx (congrArg Except.error (Except.error.inj h))
  | ok a => exact hf a rfl

theorem mapError_eq_ok {ε' : Type} {x : Except ε α} {f : ε → ε'} {a : α} :
    x.mapError f = .ok a ↔ x = .ok a := by
  cases x with
  | error e => exact ⟨nofun, nofun⟩
  | ok a' => exact ⟨fun h => congrArg _ (Except.ok.inj h), fun h => congrArg _ (Except.ok.inj h)⟩

theorem map_eq_ok {x : Except ε α} {f : α → β} {b : β} :
    x.map f = .ok b ↔ ∃ a, x = .ok a ∧ f a = b := by
  cases x with
  | error e => exact ⟨nofun, fun h => nomatch h.choose_spec.1⟩
  | ok a =>
      refine ⟨fun h => ⟨a, rfl, Except.ok.inj h⟩, ?_⟩
      rintro ⟨a', ha', rfl⟩
      cases ha'
      rfl

/-- A list is mapped when each of its members is. -/
theorem mapM_eq_ok {f : α → Except ε β} {l : List α} {bs : List β} :
    l.mapM f = .ok bs ↔ List.Forall₂ (fun a b => f a = .ok b) l bs := by
  induction l generalizing bs with
  | nil =>
      rw [List.mapM_nil, List.forall₂_nil_left_iff]
      exact ⟨fun h => (Except.ok.inj h).symm, fun h => congrArg Except.ok h.symm⟩
  | cons a l ih =>
      rw [List.mapM_cons, bind_eq_ok]
      constructor
      · rintro ⟨b, hb, h⟩
        obtain ⟨bs', hbs', h⟩ := bind_eq_ok.mp h
        obtain rfl := Except.ok.inj h
        exact .cons hb (ih.mp hbs')
      · rintro (_ | ⟨hb, hbs⟩)
        exact ⟨_, hb, bind_eq_ok.mpr ⟨_, ih.mpr hbs, rfl⟩⟩

/-- What every turn of a fallible loop preserves holds of its result. -/
theorem foldlM_invariant {P : β → Prop} {f : β → α → Except ε β}
    (hstep : ∀ b a b', P b → f b a = .ok b' → P b') {items : List α} {b b' : β}
    (hinit : P b) (hrun : items.foldlM f b = .ok b') : P b' := by
  induction items generalizing b with
  | nil =>
      cases hrun
      exact hinit
  | cons a items ih =>
      rw [List.foldlM_cons, bind_eq_ok] at hrun
      obtain ⟨c, hc, hrun⟩ := hrun
      exact ih (hstep b a c hinit hc) hrun

/-- A fallible loop none of whose turns fails, under an invariant, succeeds. -/
theorem foldlM_total {P : β → Prop} {f : β → α → Except ε β}
    (hstep : ∀ b a, P b → ∃ b', f b a = .ok b' ∧ P b') (items : List α) {b : β}
    (hinit : P b) : ∃ b', items.foldlM f b = .ok b' ∧ P b' := by
  induction items generalizing b with
  | nil => exact ⟨b, rfl, hinit⟩
  | cons a items ih =>
      obtain ⟨c, hc, hP⟩ := hstep b a hinit
      obtain ⟨b', hrun, hP'⟩ := ih hP
      exact ⟨b', by rw [List.foldlM_cons, bind_eq_ok]; exact ⟨c, hc, hrun⟩, hP'⟩

/-- Whatever the computation fails with has the property. -/
def FailsWith (E : ε → Prop) (x : Except ε α) : Prop := ∀ e, x = .error e → E e

section FailsWith

variable {E : ε → Prop} {x : Except ε α} {f : α → Except ε β}

@[simp] theorem failsWith_ok (a : α) : FailsWith E (.ok a : Except ε α) := nofun

@[simp] theorem failsWith_error {e : ε} : FailsWith E (.error e : Except ε α) ↔ E e :=
  ⟨fun h => h e rfl, fun h _ he' => Except.error.inj he' ▸ h⟩

theorem FailsWith.bind (hx : FailsWith E x) (hf : ∀ a, x = .ok a → FailsWith E (f a)) :
    FailsWith E (x >>= f) := by
  cases x with
  | error e => exact fun e' he' => hx e' (congrArg Except.error (Except.error.inj he'))
  | ok a => exact hf a rfl

theorem failsWith_foldlM {f : β → α → Except ε β} (hstep : ∀ b a, FailsWith E (f b a))
    (items : List α) (b : β) : FailsWith E (items.foldlM f b) := by
  induction items generalizing b with
  | nil => exact failsWith_ok b
  | cons a items ih =>
      rw [List.foldlM_cons]
      exact (hstep b a).bind fun b' _ => ih b'

end FailsWith

/-- The computation succeeds with a value that passes a test. -/
def succeedsWith (x : Except ε α) (p : α → Bool) : Bool :=
  match x with
  | .ok a => p a
  | .error _ => false

theorem exists_of_succeedsWith {x : Except ε α} {p : α → Bool}
    (h : succeedsWith x p = true) : ∃ a, x = .ok a ∧ p a = true := by
  cases x with
  | error e => cases h
  | ok a => exact ⟨a, rfl, h⟩

end SlowBus.Fallible
