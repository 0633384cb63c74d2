import Mathlib.Logic.Basic
import Mathlib.Data.List.Basic

/-!
# Normal forms of boolean formulas

Formulas over literals that have a complement. Negations are driven into the
literals, conjunctions are distributed over disjunctions, and repeated literals of a
product are dropped; none of this changes the value.
-/

namespace SlowBus

inductive Formula (α : Type*) where
  | lit (a : α)
  | not (f : Formula α)
  | and (fs : List (Formula α))
  | or (fs : List (Formula α))

/-- A formula without negations. -/
inductive Nnf (α : Type*) where
  | lit (a : α)
  | and (fs : List (Nnf α))
  | or (fs : List (Nnf α))

section Values

variable {α : Type*} (v : α → Bool)

mutual

def Formula.eval : Formula α → Bool
  | .lit a => v a
  | .not f => !f.eval
  | .and fs => Formula.evalAll fs
  | .or fs => Formula.evalAny fs

def Formula.evalAll : List (Formula α) → Bool
  | [] => true
  | f :: fs => f.eval && Formula.evalAll fs

def Formula.evalAny : List (Formula α) → Bool
  | [] => false
  | f :: fs => f.eval || Formula.evalAny fs

end

mutual

def Nnf.eval : Nnf α → Bool
  | .lit a => v a
  | .and fs => Nnf.evalAll fs
  | .or fs => Nnf.evalAny fs

def Nnf.evalAll : List (Nnf α) → Bool
  | [] => true
  | f :: fs => f.eval && Nnf.evalAll fs

def Nnf.evalAny : List (Nnf α) → Bool
  | [] => false
  | f :: fs => f.eval || Nnf.evalAny fs

end

/-- A product of literals. -/
def evalTerm (term : List α) : Bool := term.all v

/-- A sum of products. -/
def evalTerms (terms : List (List α)) : Bool := terms.any (evalTerm v)

end Values

/-! ## Negations driven inwards -/

section PushNot

variable {α : Type*} (inv : α → α)

mutual

def Formula.pushNot (neg : Bool) : Formula α → Nnf α
  | .lit a => .lit (if neg then inv a else a)
  | .not f => f.pushNot (!neg)
  | .and fs => if neg then .or (Formula.pushNots neg fs) else .and (Formula.pushNots neg fs)
  | .or fs => if neg then .and (Formula.pushNots neg fs) else .or (Formula.pushNots neg fs)

def Formula.pushNots (neg : Bool) : List (Formula α) → List (Nnf α)
  | [] => []
  | f :: fs => f.pushNot neg :: Formula.pushNots neg fs

end

variable {inv} {v : α → Bool}

mutual

/-- With `neg` the value is the opposite one. -/
theorem eval_pushNot (hinv : ∀ a, v (inv a) = !v a) :
    ∀ (f : Formula α) (neg : Bool), (f.pushNot inv neg).eval v = (neg ^^ f.eval v)
  | .lit a, neg => by
      cases neg <;> simp [Formula.pushNot, Nnf.eval, Formula.eval, hinv]
  | .not f, neg => by
      rw [Formula.pushNot, eval_pushNot hinv f (!neg), Formula.eval]
      cases neg <;> cases f.eval v <;> rfl
  | .and fs, neg => by
      cases neg
      · simp [Formula.pushNot, Nnf.eval, Formula.eval, evalAll_pushNots hinv fs]
      · simp [Formula.pushNot, Nnf.eval, Formula.eval, evalAny_pushNots_true hinv fs]
  | .or fs, neg => by
      cases neg
      · simp [Formula.pushNot, Nnf.eval, Formula.eval, evalAny_pushNots hinv fs]
      · simp [Formula.pushNot, Nnf.eval, Formula.eval, evalAll_pushNots_true hinv fs]

theorem evalAll_pushNots (hinv : ∀ a, v (inv a) = !v a) : ∀ fs : List (Formula α),
    Nnf.evalAll v (Formula.pushNots inv false fs) = Formula.evalAll v fs
  | [] => rfl
  | f :: fs => by
      simp [Formula.pushNots, Nnf.evalAll, Formula.evalAll, eval_pushNot hinv f,
        evalAll_pushNots hinv fs]

theorem evalAny_pushNots (hinv : ∀ a, v (inv a) = !v a) : ∀ fs : List (Formula α),
    Nnf.evalAny v (Formula.pushNots inv false fs) = Formula.evalAny v fs
  | [] => rfl
  | f :: fs => by
      simp [Formula.pushNots, Nnf.evalAny, Formula.evalAny, eval_pushNot hinv f,
        evalAny_pushNots hinv fs]

theorem evalAny_pushNots_true (hinv : ∀ a, v (inv a) = !v a) : ∀ fs : List (Formula α),
    Nnf.evalAny v (Formula.pushNots inv true fs) = !Formula.evalAll v fs
  | [] => rfl
  | f :: fs => by
      simp [Formula.pushNots, Nnf.evalAny, Formula.evalAll, eval_pushNot hinv f,
        evalAny_pushNots_true hinv fs]

theorem evalAll_pushNots_true (hinv : ∀ a, v (inv a) = !v a) : ∀ fs : List (Formula α),
    Nnf.evalAll v (Formula.pushNots inv true fs) = !Formula.evalAny v fs
  | [] => rfl
  | f :: fs => by
      simp [Formula.pushNots, Nnf.evalAll, Formula.evalAny, eval_pushNot hinv f,
        evalAll_pushNots_true hinv fs]

end

end PushNot

/-! ## Sums of products -/

section Dnf

variable {α : Type*}

/-- Every product of the one sum with every product of the other. -/
def crossTerms (terms terms' : List (List α)) : List (List α) :=
  terms.flatMap fun pre => terms'.map (pre ++ ·)

mutual

def Nnf.toDnf : Nnf α → List (List α)
  | .lit a => [[a]]
  | .or fs => Nnf.sumTerms fs
  | .and fs => Nnf.productTerms [[]] fs

def Nnf.sumTerms : List (Nnf α) → List (List α)
  | [] => []
  | f :: fs => f.toDnf ++ Nnf.sumTerms fs

def Nnf.productTerms (terms : List (List α)) : List (Nnf α) → List (List α)
  | [] => terms
  | f :: fs => Nnf.productTerms (crossTerms terms f.toDnf) fs

end

variable {v : α → Bool} {terms terms' : List (List α)}

@[simp] theorem evalTerms_nil : evalTerms v [] = false := rfl

@[simp] theorem evalTerms_append :
    evalTerms v (terms ++ terms') = (evalTerms v terms || evalTerms v terms') := by
  simp [evalTerms]

theorem evalTerms_cross (v : α → Bool) (terms terms' : List (List α)) :
    evalTerms v (crossTerms terms terms') = (evalTerms v terms && evalTerms v terms') := by
  have hmap : ∀ pre : List α,
      evalTerms v (terms'.map (pre ++ ·)) = (evalTerm v pre && evalTerms v terms') := by
    intro pre
    induction terms' with
    | nil => simp
    | cons term terms' ih =>
        simp only [evalTerms, List.map_cons, List.any_cons] at ih ⊢
        rw [ih, evalTerm, List.all_append, Bool.and_or_distrib_left]
        rfl
  induction terms with
  | nil => simp [crossTerms]
  | cons pre terms ih =>
      have hcons : crossTerms (pre :: terms) terms' =
          terms'.map (pre ++ ·) ++ crossTerms terms terms' := rfl
      rw [hcons, evalTerms_append, hmap, ih, ← Bool.and_or_distrib_right]
      rfl

mutual

theorem evalTerms_toDnf : ∀ f : Nnf α, evalTerms v f.toDnf = f.eval v
  | .lit a => by simp [Nnf.toDnf, evalTerms, evalTerm, Nnf.eval]
  | .or fs => by rw [Nnf.toDnf, Nnf.eval, evalTerms_sum fs]
  | .and fs => by
      rw [Nnf.toDnf, Nnf.eval, evalTerms_product [[]] fs]
      simp [evalTerms, evalTerm]

theorem evalTerms_sum : ∀ fs : List (Nnf α), evalTerms v (Nnf.sumTerms fs) = Nnf.evalAny v fs
  | [] => rfl
  | f :: fs => by
      rw [Nnf.sumTerms, evalTerms_append, evalTerms_toDnf f, evalTerms_sum fs, Nnf.evalAny]

theorem evalTerms_product : ∀ (terms : List (List α)) (fs : List (Nnf α)),
    evalTerms v (Nnf.productTerms terms fs) = (evalTerms v terms && Nnf.evalAll v fs)
  | terms, [] => by simp [Nnf.productTerms, Nnf.evalAll]
  | terms, f :: fs => by
      rw [Nnf.productTerms, evalTerms_product _ fs, evalTerms_cross, evalTerms_toDnf f,
        Nnf.evalAll, Bool.and_assoc]

end

/-- The literals of a product, each once, where it comes first. -/
def dedupTerm [DecidableEq α] (term : List α) : List α := term.eraseDups

theorem evalTerm_dedup [DecidableEq α] (term : List α) :
    evalTerm v (dedupTerm term) = evalTerm v term := by
  rw [Bool.eq_iff_iff]
  simp [evalTerm, dedupTerm, List.all_eq_true]

theorem evalTerms_dedup [DecidableEq α] (terms : List (List α)) :
    evalTerms v (terms.map dedupTerm) = evalTerms v terms := by
  induction terms with
  | nil => rfl
  | cons term terms ih =>
      simp only [evalTerms, List.map_cons, List.any_cons, evalTerm_dedup] at ih ⊢
      rw [ih]

/-- The whole compilation, from a formula to a sum of products. -/
theorem evalTerms_compiled [DecidableEq α] {inv : α → α} (hinv : ∀ a, v (inv a) = !v a)
    (f : Formula α) :
    evalTerms v ((f.pushNot inv false).toDnf.map dedupTerm) = f.eval v := by
  rw [evalTerms_dedup, evalTerms_toDnf, eval_pushNot hinv]
  exact Bool.false_xor _

end Dnf

/-! ## Literals with a property -/

section Literals

variable {α : Type*} (P : α → Prop)

mutual

/-- All literals have the property, and no conjunction or disjunction is empty. -/
def Formula.Proper : Formula α → Prop
  | .lit a => P a
  | .not f => f.Proper
  | .and fs => fs ≠ [] ∧ Formula.ProperAll fs
  | .or fs => fs ≠ [] ∧ Formula.ProperAll fs

def Formula.ProperAll : List (Formula α) → Prop
  | [] => True
  | f :: fs => f.Proper ∧ Formula.ProperAll fs

end

mutual

def Nnf.Proper : Nnf α → Prop
  | .lit a => P a
  | .and fs => fs ≠ [] ∧ Nnf.ProperAll fs
  | .or fs => fs ≠ [] ∧ Nnf.ProperAll fs

def Nnf.ProperAll : List (Nnf α) → Prop
  | [] => True
  | f :: fs => f.Proper ∧ Nnf.ProperAll fs

end

/-- There is a product, none is empty, and all literals have the property. -/
def ProperTerms (terms : List (List α)) : Prop :=
  terms ≠ [] ∧ ∀ term ∈ terms, term ≠ [] ∧ ∀ a ∈ term, P a

variable {P} {inv : α → α}

theorem pushNots_ne_nil (neg : Bool) {fs : List (Formula α)} (h : fs ≠ []) :
    Formula.pushNots inv neg fs ≠ [] := by
  obtain ⟨f, fs, rfl⟩ := List.exists_cons_of_ne_nil h
  exact List.cons_ne_nil _ _

mutual

theorem proper_pushNot (hinv : ∀ a, P a → P (inv a)) :
    ∀ (f : Formula α) (neg : Bool), f.Proper P → (f.pushNot inv neg).Proper P
  | .lit a, neg, h => by
      cases neg
      · exact h
      · exact hinv a h
  | .not f, neg, h => proper_pushNot hinv f (!neg) h
  | .and fs, neg, h => by
      have hall := properAll_pushNots hinv fs neg h.2
      have hne := @pushNots_ne_nil _ inv neg fs h.1
      cases neg <;> exact ⟨hne, hall⟩
  | .or fs, neg, h => by
      have hall := properAll_pushNots hinv fs neg h.2
      have hne := @pushNots_ne_nil _ inv neg fs h.1
      cases neg <;> exact ⟨hne, hall⟩

theorem properAll_pushNots (hinv : ∀ a, P a → P (inv a)) :
    ∀ (fs : List (Formula α)) (neg : Bool), Formula.ProperAll P fs →
      Nnf.ProperAll P (Formula.pushNots inv neg fs)
  | [], _, _ => trivial
  | f :: fs, neg, h => ⟨proper_pushNot hinv f neg h.1, properAll_pushNots hinv fs neg h.2⟩

end

theorem ProperTerms.append {terms terms' : List (List α)} (h : ProperTerms P terms)
    (h' : ∀ term ∈ terms', term ≠ [] ∧ ∀ a ∈ term, P a) : ProperTerms P (terms ++ terms') :=
  ⟨List.append_ne_nil_of_left_ne_nil h.1 _, List.forall_mem_append.mpr ⟨h.2, h'⟩⟩

theorem ProperTerms.cross {terms terms' : List (List α)} (hne : terms ≠ [])
    (hterms : ∀ pre ∈ terms, ∀ a ∈ pre, P a) (h : ProperTerms P terms') :
    ProperTerms P (crossTerms terms terms') := by
  obtain ⟨pre, pres, rfl⟩ := List.exists_cons_of_ne_nil hne
  obtain ⟨term, rest, rfl⟩ := List.exists_cons_of_ne_nil h.1
  refine ⟨by simp [crossTerms], ?_⟩
  intro joint hjoint
  obtain ⟨pre', hpre', hjoint⟩ := List.mem_flatMap.mp hjoint
  obtain ⟨term', hterm', rfl⟩ := List.mem_map.mp hjoint
  obtain ⟨hterm, hall⟩ := h.2 term' hterm'
  exact ⟨List.append_ne_nil_of_right_ne_nil _ hterm,
    List.forall_mem_append.mpr ⟨hterms pre' hpre', hall⟩⟩

mutual

theorem proper_toDnf : ∀ f : Nnf α, f.Proper P → ProperTerms P f.toDnf
  | .lit a, h => by
      have ha : P a := h
      exact ⟨List.cons_ne_nil _ _, by simpa [Nnf.toDnf] using ha⟩
  | .or fs, h => by
      obtain ⟨f, fs, rfl⟩ := List.exists_cons_of_ne_nil h.1
      exact (proper_toDnf f h.2.1).append (proper_sumTerms fs h.2.2)
  | .and fs, h => by
      obtain ⟨f, fs, rfl⟩ := List.exists_cons_of_ne_nil h.1
      refine proper_productTerms fs _ h.2.2 (.cross (List.cons_ne_nil _ _) ?_ (proper_toDnf f h.2.1))
      simp

theorem proper_sumTerms : ∀ fs : List (Nnf α), Nnf.ProperAll P fs →
    ∀ term ∈ Nnf.sumTerms fs, term ≠ [] ∧ ∀ a ∈ term, P a
  | [], _ => by simp [Nnf.sumTerms]
  | f :: fs, h => List.forall_mem_append.mpr ⟨(proper_toDnf f h.1).2, proper_sumTerms fs h.2⟩

theorem proper_productTerms : ∀ (fs : List (Nnf α)) (terms : List (List α)),
    Nnf.ProperAll P fs → ProperTerms P terms → ProperTerms P (Nnf.productTerms terms fs)
  | [], _, _, h => h
  | f :: fs, _, hfs, h =>
      proper_productTerms fs _ hfs.2
        (.cross h.1 (fun pre hpre => (h.2 pre hpre).2) (proper_toDnf f hfs.1))

end

/-- The compilation of a proper formula is a sum of products over the same literals and
their complements. -/
theorem proper_compiled [DecidableEq α] (hinv : ∀ a, P a → P (inv a)) {f : Formula α}
    (h : f.Proper P) : ProperTerms P ((f.pushNot inv false).toDnf.map dedupTerm) := by
  obtain ⟨hne, hall⟩ := proper_toDnf _ (proper_pushNot hinv f false h)
  refine ⟨fun hnil => hne (List.map_eq_nil_iff.mp hnil), ?_⟩
  intro term' hterm'
  obtain ⟨term, hterm, rfl⟩ := List.mem_map.mp hterm'
  obtain ⟨hne, hall⟩ := hall term hterm
  refine ⟨?_, fun a ha => hall a (List.mem_eraseDups.mp ha)⟩
  obtain ⟨a, ha⟩ := List.exists_mem_of_ne_nil term hne
  exact List.ne_nil_of_mem (List.mem_eraseDups.mpr ha)

end Literals

end SlowBus
