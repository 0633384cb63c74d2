import Mathlib.Logic.Basic

/-!
# Programs that leave a trace

A program reads and changes a state, reports events, and succeeds, fails, or runs out of the
fuel it was given. Triples say what one run does to the state and which events it reports;
relations say that two runs end alike, or that a program finds what another one does.
-/

namespace SlowBus

/-- How a program ends. -/
inductive Outcome (ε α : Type) where
  | ok (a : α)
  | fail (e : ε)
  | spent
deriving DecidableEq

/-- The end of a program, the state it left and the events it reported. -/
structure Run (σ τ ε α : Type) where
  outcome : Outcome ε α
  state : σ
  events : List τ
deriving DecidableEq

def Prog (σ τ ε α : Type) : Type := σ → Run σ τ ε α

namespace Prog

variable {σ τ ε ε' ε₁ ε₁' α α' β β' : Type}

/-! ## Programs -/

def fail (e : ε) : Prog σ τ ε α := fun s => ⟨.fail e, s, []⟩

def spent : Prog σ τ ε α := fun s => ⟨.spent, s, []⟩

protected def pure (a : α) : Prog σ τ ε α := fun s => ⟨.ok a, s, []⟩

protected def bind (m : Prog σ τ ε α) (f : α → Prog σ τ ε β) : Prog σ τ ε β := fun s =>
  match m s with
  | ⟨.ok a, t, evs⟩ => ⟨(f a t).outcome, (f a t).state, evs ++ (f a t).events⟩
  | ⟨.fail e, t, evs⟩ => ⟨.fail e, t, evs⟩
  | ⟨.spent, t, evs⟩ => ⟨.spent, t, evs⟩

instance : Monad (Prog σ τ ε) where
  pure := Prog.pure
  bind := Prog.bind

/-- A failure as the caller reports it. -/
def mapFail (g : ε → ε') (m : Prog σ τ ε α) : Prog σ τ ε' α := fun s =>
  match m s with
  | ⟨.ok a, t, evs⟩ => ⟨.ok a, t, evs⟩
  | ⟨.fail e, t, evs⟩ => ⟨.fail (g e), t, evs⟩
  | ⟨.spent, t, evs⟩ => ⟨.spent, t, evs⟩

/-- Any failure is `e`. -/
def orFail (m : Prog σ τ ε α) (e : ε') : Prog σ τ ε' α := m.mapFail fun _ => e

/-- The body for each of `n` indices from `i` on; it is given a value and hands one on. -/
def loop (body : Nat → α → Prog σ τ ε α) : Nat → Nat → α → Prog σ τ ε α
  | _, 0, a => pure a
  | i, n + 1, a => do
      let b ← body i a
      loop body (i + 1) n b

theorem loop_const (f : α → Prog σ τ ε α) (i j n : Nat) (a : α) :
    loop (fun _ => f) i n a = loop (fun _ => f) j n a := by
  induction n generalizing i j a with
  | zero => rfl
  | succ n ih => exact congrArg (f a >>= ·) (funext fun b => ih (i + 1) (j + 1) b)

theorem bind_assoc (m : Prog σ τ ε α) (f : α → Prog σ τ ε β) {γ : Type}
    (g : β → Prog σ τ ε γ) : (m >>= f) >>= g = m >>= fun a => f a >>= g := by
  funext s
  show Prog.bind (Prog.bind m f) g s = Prog.bind m (fun a => Prog.bind (f a) g) s
  unfold Prog.bind
  generalize m s = r
  obtain ⟨out, t, evs⟩ := r
  cases out with
  | fail e => rfl
  | spent => rfl
  | ok a =>
      dsimp only
      generalize f a t = r'
      obtain ⟨out', t', evs'⟩ := r'
      cases out' with
      | ok b => exact congrArg (Run.mk _ _) (List.append_assoc ..)
      | fail e => rfl
      | spent => rfl

theorem bind_pure (m : Prog σ τ ε α) : (m >>= fun a => pure a) = m := by
  funext s
  show Prog.bind m Prog.pure s = m s
  unfold Prog.bind
  generalize m s = r
  obtain ⟨out, t, evs⟩ := r
  cases out with
  | ok a => exact congrArg (Run.mk _ _) (List.append_nil evs)
  | fail e => rfl
  | spent => rfl

theorem mapFail_id (m : Prog σ τ ε α) : m.mapFail id = m := by
  funext s
  unfold mapFail
  generalize m s = r
  obtain ⟨out, t, evs⟩ := r
  cases out with
  | ok a => rfl
  | fail e => rfl
  | spent => rfl

/-- A loop in two parts. -/
theorem loop_add (body : Nat → α → Prog σ τ ε α) (i n k : Nat) (a : α) :
    loop body i (n + k) a = loop body i n a >>= fun b => loop body (i + n) k b := by
  induction n generalizing i a with
  | zero =>
      rw [Nat.zero_add]
      rfl
  | succ n ih =>
      rw [Nat.succ_add, loop, loop, bind_assoc]
      refine congrArg (body i a >>= ·) (funext fun b => ?_)
      rw [ih, Nat.succ_add_eq_add_succ]

/-! ## How a run ends -/

/-- The run from `s` ends in this way, in the state `t`. -/
def Ends (m : Prog σ τ ε α) (s : σ) (out : Outcome ε α) (t : σ) : Prop :=
  (m s).outcome = out ∧ (m s).state = t

section Ends

variable {m : Prog σ τ ε α} {f : α → Prog σ τ ε β} {s t u : σ} {a : α} {e : ε}
  {out : Outcome ε β} {body : Nat → α → Prog σ τ ε α} {i n k : Nat}

theorem bind_apply (m : Prog σ τ ε α) (f : α → Prog σ τ ε β) (s : σ) :
    (m >>= f) s =
      match m s with
      | ⟨.ok a, t, evs⟩ => ⟨(f a t).outcome, (f a t).state, evs ++ (f a t).events⟩
      | ⟨.fail e, t, evs⟩ => ⟨.fail e, t, evs⟩
      | ⟨.spent, t, evs⟩ => ⟨.spent, t, evs⟩ := rfl

@[simp] theorem pure_ends : (pure a : Prog σ τ ε α).Ends s (.ok a) s := ⟨rfl, rfl⟩

@[simp] theorem fail_ends : (fail e : Prog σ τ ε α).Ends s (.fail e) s := ⟨rfl, rfl⟩

theorem Ends.bind (hm : m.Ends s (.ok a) t) (hf : (f a).Ends t out u) :
    (m >>= f).Ends s out u := by
  unfold Ends
  rw [bind_apply]
  obtain ⟨hout, hstate⟩ := hm
  generalize m s = r at hout hstate
  obtain ⟨out₁, t₁, evs⟩ := r
  obtain rfl : out₁ = .ok a := hout
  obtain rfl : t₁ = t := hstate
  exact hf

theorem Ends.bind_fail (hm : m.Ends s (.fail e) t) : (m >>= f).Ends s (.fail e) t := by
  unfold Ends
  rw [bind_apply]
  obtain ⟨hout, hstate⟩ := hm
  generalize m s = r at hout hstate
  obtain ⟨out₁, t₁, evs⟩ := r
  obtain rfl : out₁ = .fail e := hout
  exact ⟨rfl, hstate⟩

theorem Ends.unique {out out' : Outcome ε α} (h : m.Ends s out t) (h' : m.Ends s out' u) :
    out = out' ∧ t = u :=
  ⟨h.1.symm.trans h'.1, h.2.symm.trans h'.2⟩

theorem mapFail_ok {g : ε → ε'} (h : m.Ends s (.ok a) t) : (m.mapFail g).Ends s (.ok a) t := by
  unfold Ends mapFail
  obtain ⟨hout, hstate⟩ := h
  generalize m s = r at hout hstate
  obtain ⟨out₁, t₁, evs⟩ := r
  obtain rfl : out₁ = .ok a := hout
  exact ⟨rfl, hstate⟩

end Ends

/-! ## What a run reports -/

/-- The run from `s` ends in this way, and all its events are in `E` exactly when `C` holds. -/
structure Reports (E : τ → Prop) (m : Prog σ τ ε α) (s : σ) (out : Outcome ε α) (t : σ)
    (C : Prop) : Prop where
  ends : m.Ends s out t
  events : (∀ ev ∈ (m s).events, E ev) ↔ C

section Reports

variable {E : τ → Prop} {m : Prog σ τ ε α} {f : α → Prog σ τ ε β} {s t u : σ} {a : α}
  {out : Outcome ε β} {C D : Prop}

theorem Reports.pure : (pure a : Prog σ τ ε α).Reports E s (.ok a) s True :=
  ⟨pure_ends, iff_of_true nofun trivial⟩

theorem Reports.bind (hm : m.Reports E s (.ok a) t C) (hf : (f a).Reports E t out u D) :
    (m >>= f).Reports E s out u (C ∧ D) := by
  refine ⟨hm.ends.bind hf.ends, ?_⟩
  rw [bind_apply]
  obtain ⟨⟨hout, hstate⟩, hevents⟩ := hm
  generalize m s = r at hout hstate hevents
  obtain ⟨out₁, t₁, evs⟩ := r
  obtain rfl : out₁ = .ok a := hout
  obtain rfl : t₁ = t := hstate
  exact List.forall_mem_append.trans (and_congr hevents hf.events)

theorem Reports.congr {out : Outcome ε α} (h : m.Reports E s out t C) (hC : C ↔ D) :
    m.Reports E s out t D :=
  ⟨h.ends, h.events.trans hC⟩

/-- What is done first reports only events in `E`. -/
theorem Reports.after (hm : m.Reports E s (.ok a) t True) (hf : (f a).Reports E t out u D) :
    (m >>= f).Reports E s out u D :=
  ⟨(hm.bind hf).ends, (hm.bind hf).events.trans (and_iff_right trivial)⟩

end Reports

/-! ## More fuel -/

/-- The second program does what the first does, unless that is out of fuel. -/
def Refines (m m' : Prog σ τ ε α) : Prop := ∀ s, (m s).outcome ≠ .spent → m' s = m s

section Refines

variable {m m' : Prog σ τ ε α} {f f' : α → Prog σ τ ε β}

theorem Refines.refl (m : Prog σ τ ε α) : Refines m m := fun _ _ => rfl

theorem Refines.spent : Refines spent m := fun _ h => absurd rfl h

theorem Refines.bind (hm : Refines m m') (hf : ∀ a, Refines (f a) (f' a)) :
    Refines (m >>= f) (m' >>= f') := by
  intro s h
  rw [bind_apply] at h
  rw [bind_apply, bind_apply]
  have hsame := hm s
  generalize m s = r at h hsame
  obtain ⟨out, t, evs⟩ := r
  cases out with
  | ok a =>
      rw [hsame nofun]
      dsimp only at h ⊢
      rw [hf a t h]
  | fail e => rw [hsame nofun]
  | spent => exact absurd rfl h

theorem Refines.mapFail {g : ε → ε'} (hm : Refines m m') :
    Refines (m.mapFail g) (m'.mapFail g) := by
  intro s h
  have hsame := hm s
  unfold Prog.mapFail at h ⊢
  generalize m s = r at h hsame
  obtain ⟨out, t, evs⟩ := r
  cases out with
  | ok a => rw [hsame nofun]
  | fail e => rw [hsame nofun]
  | spent => exact absurd rfl h

theorem Refines.loop {body body' : Nat → α → Prog σ τ ε α}
    (hbody : ∀ i a, Refines (body i a) (body' i a)) (i n : Nat) (a : α) :
    Refines (loop body i n a) (loop body' i n a) := by
  induction n generalizing i a with
  | zero => exact .refl _
  | succ n ih => exact (hbody i a).bind fun b => ih (i + 1) b

end Refines

/-! ## Triples -/

/-- From a state in `P` the events are all in `E`; a value returned leaves the state in `Q`, and
any other end leaves it in `F`. -/
def Triple (E : τ → Prop) (P : σ → Prop) (m : Prog σ τ ε α) (Q : α → σ → Prop)
    (F : σ → Prop) : Prop :=
  ∀ s, P s → (∀ ev ∈ (m s).events, E ev) ∧
    match (m s).outcome with
    | .ok a => Q a (m s).state
    | _ => F (m s).state

section Triple

variable {E : τ → Prop} {P P' F : σ → Prop} {m : Prog σ τ ε α} {Q Q' : α → σ → Prop}
  {f : α → Prog σ τ ε β} {R : β → σ → Prop}

theorem Triple.weaken (h : Triple E P m Q F) (hP : ∀ s, P' s → P s)
    (hQ : ∀ a s, Q a s → Q' a s) : Triple E P' m Q' F := by
  intro s hs
  obtain ⟨hevs, hend⟩ := h s (hP s hs)
  refine ⟨hevs, ?_⟩
  generalize (m s).outcome = out at hend
  cases out with
  | ok a => exact hQ a _ hend
  | fail e => exact hend
  | spent => exact hend

theorem Triple.pure {a : α} : Triple E (Q a) (pure a : Prog σ τ ε α) Q F :=
  fun _ hs => ⟨nofun, hs⟩

theorem Triple.fail {e : ε} : Triple E F (fail e : Prog σ τ ε α) Q F := fun _ hs => ⟨nofun, hs⟩

theorem Triple.spent : Triple E F (spent : Prog σ τ ε α) Q F := fun _ hs => ⟨nofun, hs⟩

theorem Triple.bind (hm : Triple E P m Q F) (hf : ∀ a, Triple E (Q a) (f a) R F) :
    Triple E P (m >>= f) R F := by
  intro s hs
  obtain ⟨hevs, hend⟩ := hm s hs
  rw [bind_apply]
  generalize m s = r at hevs hend
  obtain ⟨out, t, evs⟩ := r
  cases out with
  | ok a =>
      obtain ⟨hevs', hend'⟩ := hf a t hend
      exact ⟨fun ev hev => (List.mem_append.mp hev).elim (hevs ev) (hevs' ev), hend'⟩
  | fail e => exact ⟨hevs, hend⟩
  | spent => exact ⟨hevs, hend⟩

theorem Triple.mapFail {g : ε → ε'} (hm : Triple E P m Q F) : Triple E P (m.mapFail g) Q F := by
  intro s hs
  obtain ⟨hevs, hend⟩ := hm s hs
  unfold Prog.mapFail
  generalize m s = r at hevs hend
  obtain ⟨out, t, evs⟩ := r
  cases out with
  | ok a => exact ⟨hevs, hend⟩
  | fail e => exact ⟨hevs, hend⟩
  | spent => exact ⟨hevs, hend⟩

/-- What each turn preserves a loop preserves. -/
theorem Triple.loop {body : Nat → α → Prog σ τ ε α}
    (hbody : ∀ i a, Triple E (Q a) (body i a) Q F) (i n : Nat) (a : α) :
    Triple E (Q a) (loop body i n a) Q F := by
  induction n generalizing i a with
  | zero => exact .pure
  | succ n ih => exact (hbody i a).bind fun b => ih (i + 1) b

end Triple

/-! ## Two runs -/

/-- Both return values that are related, or both fail with errors that are. -/
inductive Together (Q : α → α' → Prop) (F : ε → ε' → Prop) :
    Outcome ε α → Outcome ε' α' → Prop
  | ok {a a'} : Q a a' → Together Q F (.ok a) (.ok a')
  | fail {e e'} : F e e' → Together Q F (.fail e) (.fail e')

/-- From states related by `P`, two runs all of whose events are in `C` end alike. -/
def Relates (C : τ → Prop) (P : σ → σ → Prop) (m : Prog σ τ ε α) (m' : Prog σ τ ε' α')
    (Q : α → α' → σ → σ → Prop) (F : ε → ε' → Prop) : Prop :=
  ∀ s s', P s s' → (∀ ev ∈ (m s).events, C ev) → (∀ ev ∈ (m' s').events, C ev) →
    Together (fun a a' => Q a a' (m s).state (m' s').state) F (m s).outcome (m' s').outcome

section Relates

variable {C : τ → Prop} {P J : σ → σ → Prop} {m : Prog σ τ ε α} {m' : Prog σ τ ε' α'}
  {Q Q' : α → α' → σ → σ → Prop} {F : ε → ε' → Prop} {f : α → Prog σ τ ε β}
  {f' : α' → Prog σ τ ε' β'} {R : β → β' → σ → σ → Prop}

theorem Relates.weaken (h : Relates C P m m' Q F) (hP : ∀ s s', J s s' → P s s')
    (hQ : ∀ a a' s s', Q a a' s s' → Q' a a' s s') : Relates C J m m' Q' F := by
  intro s s' hs hc hc'
  have hend := h s s' (hP s s' hs) hc hc'
  generalize (m s).outcome = out, (m' s').outcome = out' at hend
  cases hend with
  | ok hq => exact .ok (hQ _ _ _ _ hq)
  | fail hf => exact .fail hf

/-- A precondition may be assumed. -/
theorem Relates.of_pre {p : Prop} (hp : ∀ s s', P s s' → p) (h : p → Relates C P m m' Q F) :
    Relates C P m m' Q F :=
  fun s s' hs => h (hp s s' hs) s s' hs

theorem Relates.pure {a : α} {a' : α'} : Relates C (Q a a') (pure a : Prog σ τ ε α)
    (pure a' : Prog σ τ ε' α') Q F :=
  fun _ _ hs _ _ => .ok hs

theorem Relates.fail {e : ε} {e' : ε'} (h : F e e') : Relates C P (fail e : Prog σ τ ε α)
    (Prog.fail e' : Prog σ τ ε' α') Q F :=
  fun _ _ _ _ _ => .fail h

/-- Two runs that return. -/
theorem Relates.of_ends (h : ∀ s s', P s s' → ∃ a a' t t', m.Ends s (.ok a) t ∧
    m'.Ends s' (.ok a') t' ∧ Q a a' t t') : Relates C P m m' Q F := by
  intro s s' hs _ _
  obtain ⟨a, a', t, t', ⟨hout, hstate⟩, ⟨hout', hstate'⟩, hq⟩ := h s s' hs
  rw [hout, hout', hstate, hstate']
  exact .ok hq

theorem Relates.bind (hm : Relates C P m m' Q F)
    (hf : ∀ a a', Relates C (Q a a') (f a) (f' a') R F) :
    Relates C P (m >>= f) (m' >>= f') R F := by
  intro s s' hs hc hc'
  have hend := hm s s' hs
  rw [bind_apply] at hc ⊢
  rw [bind_apply] at hc' ⊢
  generalize m s = r, m' s' = r' at hc hc' hend
  obtain ⟨out, t, evs⟩ := r
  obtain ⟨out', t', evs'⟩ := r'
  -- the events of the first part are among those of the whole
  have hfirst : ∀ ev ∈ evs, C ev := by
    intro ev hev
    cases out with
    | ok a => exact hc ev (List.mem_append_left _ hev)
    | fail e => exact hc ev hev
    | spent => exact hc ev hev
  have hfirst' : ∀ ev ∈ evs', C ev := by
    intro ev hev
    cases out' with
    | ok a => exact hc' ev (List.mem_append_left _ hev)
    | fail e => exact hc' ev hev
    | spent => exact hc' ev hev
  cases hend hfirst hfirst' with
  | ok hq =>
      exact hf _ _ t t' hq (fun ev hev => hc ev (List.mem_append_right _ hev))
        (fun ev hev => hc' ev (List.mem_append_right _ hev))
  | fail he => exact .fail he

/-- The second run may do something the first does not. -/
theorem Relates.bind_right {a' : α'} {S : α → β' → σ → σ → Prop}
    (hm : ∀ s s', P s s' → ∃ t', m'.Ends s' (.ok a') t' ∧ J s t')
    (hf : Relates C J m (f' a') S F) : Relates C P m (m' >>= f') S F := by
  intro s s' hs hc hc'
  obtain ⟨t', ⟨hout, hstate⟩, ht⟩ := hm s s' hs
  rw [bind_apply] at hc' ⊢
  generalize m' s' = r' at hc' hout hstate
  obtain ⟨out', t₁, evs'⟩ := r'
  obtain rfl : out' = .ok a' := hout
  obtain rfl : t₁ = t' := hstate
  exact hf s t₁ ht hc fun ev hev => hc' ev (List.mem_append_right _ hev)

theorem Relates.mapFail {ε₁ ε₁' : Type} {g : ε → ε₁} {g' : ε' → ε₁'} {F' : ε₁ → ε₁' → Prop}
    (hm : Relates C P m m' Q F) (hF : ∀ e e', F e e' → F' (g e) (g' e')) :
    Relates C P (m.mapFail g) (m'.mapFail g') Q F' := by
  intro s s' hs hc hc'
  have hend := hm s s' hs
  unfold Prog.mapFail at hc hc' ⊢
  generalize m s = r, m' s' = r' at hc hc' hend
  obtain ⟨out, t, evs⟩ := r
  obtain ⟨out', t', evs'⟩ := r'
  have hc₁ : ∀ ev ∈ evs, C ev := by cases out <;> exact hc
  have hc₁' : ∀ ev ∈ evs', C ev := by cases out' <;> exact hc'
  cases hend hc₁ hc₁' with
  | ok hq => exact .ok hq
  | fail he => exact .fail (hF _ _ he)

/-- Loops of as many turns, each of which relates what it is given with a turn less to go. -/
theorem Relates.loop {body : Nat → α → Prog σ τ ε α} {body' : Nat → α' → Prog σ τ ε' α'}
    {I : Nat → α → α' → σ → σ → Prop}
    (hbody : ∀ i k a a', Relates C (I (k + 1) a a') (body i a) (body' i a') (I k) F)
    (i i' n : Nat) (hi : i = i') (a : α) (a' : α') :
    Relates C (I n a a') (loop body i n a) (loop body' i' n a') (I 0) F := by
  subst hi
  induction n generalizing i a a' with
  | zero => exact .pure
  | succ n ih => exact (hbody i n a a').bind fun b b' => ih (i + 1) b b'

end Relates

/-! ## What another program finds -/

/-- Whatever the first program returns, the second one returns something related to it in the same
state; the first fails only with an error in `E`. -/
def Mirrors (m : Prog σ τ ε α) (m' : Prog σ τ ε' α') (A : α → α' → Prop) (E : ε → Prop) : Prop :=
  ∀ s, (∀ a t, m.Ends s (.ok a) t → ∃ a', m'.Ends s (.ok a') t ∧ A a a') ∧
    ∀ e t, m.Ends s (.fail e) t → E e

section Mirrors

variable {m : Prog σ τ ε α} {m' : Prog σ τ ε' α'} {A A' : α → α' → Prop} {B : β → β' → Prop}
  {E : ε → Prop} {f : α → Prog σ τ ε β} {f' : α' → Prog σ τ ε' β'} {s u : σ}

/-- What a sequence ends with, its first part ends with or its second. -/
theorem Ends.of_bind {out : Outcome ε β} (h : (m >>= f).Ends s out u) :
    (∃ a t, m.Ends s (.ok a) t ∧ (f a).Ends t out u) ∨
      (∃ e, m.Ends s (.fail e) u ∧ out = .fail e) ∨ out = .spent := by
  unfold Ends at h ⊢
  rw [bind_apply] at h
  generalize m s = r at h ⊢
  obtain ⟨out₁, t, evs⟩ := r
  cases out₁ with
  | ok a => exact .inl ⟨a, t, ⟨rfl, rfl⟩, h⟩
  | fail e => exact .inr (.inl ⟨e, ⟨rfl, h.2⟩, h.1.symm⟩)
  | spent => exact .inr (.inr h.1.symm)

theorem Ends.of_mapFail {g : ε → ε₁} {out : Outcome ε₁ α} (h : (m.mapFail g).Ends s out u) :
    (∃ a, out = .ok a ∧ m.Ends s (.ok a) u) ∨ (∃ e, out = .fail (g e) ∧ m.Ends s (.fail e) u) ∨
      out = .spent := by
  unfold Ends mapFail at h
  unfold Ends
  generalize m s = r at h ⊢
  obtain ⟨out₁, t, evs⟩ := r
  cases out₁ with
  | ok a => exact .inl ⟨a, h.1.symm, rfl, h.2⟩
  | fail e => exact .inr (.inl ⟨e, h.1.symm, rfl, h.2⟩)
  | spent => exact .inr (.inr h.1.symm)

theorem Mirrors.weaken (h : Mirrors m m' A E) (hA : ∀ a a', A a a' → A' a a') :
    Mirrors m m' A' E := by
  intro s
  refine ⟨fun a t hends => ?_, (h s).2⟩
  obtain ⟨a', hends', ha⟩ := (h s).1 a t hends
  exact ⟨a', hends', hA a a' ha⟩

theorem Mirrors.pure {a : α} {a' : α'} (h : A a a') :
    Mirrors (pure a : Prog σ τ ε α) (pure a' : Prog σ τ ε' α') A E := by
  intro s
  constructor
  · rintro b t ⟨hout, hstate⟩
    cases hout
    exact ⟨a', ⟨rfl, hstate⟩, h⟩
  · rintro e t ⟨hout, -⟩
    cases hout

theorem Mirrors.fail {e : ε} (h : E e) : Mirrors (fail e : Prog σ τ ε α) m' A E := by
  intro s
  constructor
  · rintro a t ⟨hout, -⟩
    cases hout
  · rintro e' t ⟨hout, -⟩
    cases hout
    exact h

theorem Mirrors.bind (hm : Mirrors m m' A E) (hf : ∀ a a', A a a' → Mirrors (f a) (f' a') B E) :
    Mirrors (m >>= f) (m' >>= f') B E := by
  intro s
  constructor
  · intro b u hends
    rcases hends.of_bind with ⟨a, t, hfirst, hrest⟩ | ⟨e, -, hout⟩ | hout
    · obtain ⟨a', hfirst', ha⟩ := (hm s).1 a t hfirst
      obtain ⟨b', hrest', hb⟩ := (hf a a' ha t).1 b u hrest
      exact ⟨b', hfirst'.bind hrest', hb⟩
    · cases hout
    · cases hout
  · intro e u hends
    rcases hends.of_bind with ⟨a, t, hfirst, hrest⟩ | ⟨e', hfirst, hout⟩ | hout
    · obtain ⟨a', -, ha⟩ := (hm s).1 a t hfirst
      exact (hf a a' ha t).2 e u hrest
    · cases hout
      exact (hm s).2 e u hfirst
    · cases hout

/-- The first program may do something before that leaves the state as it is. -/
theorem Mirrors.bind_left {x : β'} {m₁ : Prog σ τ ε' α'} {f : β → Prog σ τ ε α} {A : α → α' → Prop}
    {m : Prog σ τ ε β} (hm : Mirrors m (Pure.pure x : Prog σ τ ε' β') (fun _ _ => True) E)
    (hf : ∀ b, Mirrors (f b) m₁ A E) : Mirrors (m >>= f) m₁ A E := by
  intro s
  have hstay : ∀ b t, m.Ends s (.ok b) t → s = t := by
    intro b t hends
    obtain ⟨_, hpure, -⟩ := (hm s).1 b t hends
    exact hpure.2
  constructor
  · intro a u hends
    rcases hends.of_bind with ⟨b, t, hfirst, hrest⟩ | ⟨e, -, hout⟩ | hout
    · obtain rfl := hstay b t hfirst
      exact (hf b s).1 a u hrest
    · cases hout
    · cases hout
  · intro e u hends
    rcases hends.of_bind with ⟨b, t, hfirst, hrest⟩ | ⟨e', hfirst, hout⟩ | hout
    · exact (hf b t).2 e u hrest
    · cases hout
      exact (hm s).2 e u hfirst
    · cases hout

theorem Mirrors.mapFail {g : ε → ε₁} {g' : ε' → ε₁'} {E' : ε₁ → Prop} (hm : Mirrors m m' A E)
    (hE : ∀ e, E e → E' (g e)) : Mirrors (m.mapFail g) (m'.mapFail g') A E' := by
  intro s
  constructor
  · intro a t hends
    rcases hends.of_mapFail with ⟨b, hout, hfirst⟩ | ⟨e, hout, -⟩ | hout
    · cases hout
      obtain ⟨a', hfirst', ha⟩ := (hm s).1 a t hfirst
      exact ⟨a', mapFail_ok hfirst', ha⟩
    · cases hout
    · cases hout
  · intro e t hends
    rcases hends.of_mapFail with ⟨b, hout, -⟩ | ⟨e', hout, hfirst⟩ | hout
    · cases hout
    · cases hout
      exact hE e' ((hm s).2 e' t hfirst)
    · cases hout

/-- A program next to itself: it finds the same. -/
theorem Mirrors.same (h : ∀ s e t, m.Ends s (.fail e) t → E e) : Mirrors m m Eq E :=
  fun s => ⟨fun a _ hends => ⟨a, hends, rfl⟩, h s⟩

theorem Mirrors.orFail {m : Prog σ τ ε₁ α} {e : ε} {e' : ε'} (he : E e) :
    Mirrors (m.orFail e) (m.orFail e') Eq E :=
  (Mirrors.same fun _ _ _ _ => trivial).mapFail fun _ (_ : True) => he

theorem Mirrors.ite_left {p : Prop} [Decidable p] {m₁ : Prog σ τ ε α} (hm : p → Mirrors m m' A E)
    (hm₁ : ¬p → Mirrors m₁ m' A E) : Mirrors (if p then m else m₁) m' A E := by
  split
  next h => exact hm h
  next h => exact hm₁ h

theorem Mirrors.ite {p : Prop} [Decidable p] {m₁ : Prog σ τ ε α} {m₁' : Prog σ τ ε' α'}
    (hm : p → Mirrors m m' A E) (hm₁ : ¬p → Mirrors m₁ m₁' A E) :
    Mirrors (if p then m else m₁) (if p then m' else m₁') A E := by
  split
  next h => exact hm h
  next h => exact hm₁ h

theorem Mirrors.loop {body : Nat → α → Prog σ τ ε α} {body' : Nat → α' → Prog σ τ ε' α'}
    (hbody : ∀ i a a', A a a' → Mirrors (body i a) (body' i a') A E) (i n : Nat) {a : α} {a' : α'}
    (h : A a a') : Mirrors (loop body i n a) (loop body' i n a') A E := by
  induction n generalizing i a a' with
  | zero => exact .pure h
  | succ n ih => exact (hbody i a a' h).bind fun b b' hb => ih (i + 1) hb

end Mirrors

end Prog

end SlowBus
