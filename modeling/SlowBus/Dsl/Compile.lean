import SlowBus.Dsl.Parser

/-!
# Compiling an expression

`_compile_expr` brings an expression into the form of the firmware: groups of
comparisons, each group a product and the groups a sum. The expression itself is read
by a grammar that knows nothing of the parser, and both evaluate to the same value.
-/

namespace SlowBus.Dsl

open Fallible

/-! ## The compiler -/

def Clause.invert (clause : Clause) : Clause := { clause with op := clause.op.invert }

/-- `_push_not` -/
def pushNot (neg : Bool) (node : Ast) : Nnf Clause := node.pushNot Clause.invert neg

/-- `_compile_expr` -/
def compileExpr (c : Ctx) (text : Text) : Except DslError (List (List Clause)) := do
  let toks ← tokenize c.py text
  let ast ← parse c toks
  .ok ((pushNot false ast).toDnf.map dedupTerm)

/-! ## What groups mean -/

/-- A value for every input. -/
abbrev Env := Text → Int

def Op.holds : Op → Int → Int → Bool
  | .gt, x, y => x > y
  | .lt, x, y => x < y
  | .ge, x, y => x ≥ y
  | .le, x, y => x ≤ y
  | .eq, x, y => x = y
  | .ne, x, y => x ≠ y

def Clause.holds (env : Env) (clause : Clause) : Bool :=
  clause.op.holds (env clause.operand) clause.thr

/-- The sum over the groups of the products of their comparisons. -/
def groupsHold (env : Env) (groups : List (List Clause)) : Bool := evalTerms (Clause.holds env) groups

theorem invert_holds (env : Env) (clause : Clause) :
    clause.invert.holds env = !clause.holds env := by
  obtain ⟨operand, op, thr⟩ := clause
  rw [Bool.eq_iff_iff]
  cases op <;> simp [Clause.holds, Clause.invert, Op.invert, Op.holds]

/-! ## The expression as written -/

/-- A pin or a stream, and what it is compared with. -/
structure Atom where
  id : Text
  window : Option (Text × Text)
  test : Option (Op × Text)

inductive Source where
  | atom (a : Atom)
  | not (e : Source)
  | and (e f : Source)
  | or (e f : Source)

/-- The input an atom names. -/
def Atom.input (c : Ctx) (a : Atom) : Text :=
  if c.adc then
    match a.window with
    | none => upper a.id
    | some (stat, win) => streamName (upper a.id) stat win
  else pinName a.id

/-- The count a numeral stands for. -/
def Ctx.count (c : Ctx) (numeral : Text) : Nat :=
  if inVolts numeral then (c.voltsToCount numeral.dropLast).getD 0 else (c.py.int numeral).getD 0

/-- A bare pin holds when its value is 1. -/
def Atom.eval (c : Ctx) (env : Env) (a : Atom) : Bool :=
  match a.test with
  | none => env (a.input c) = 1
  | some (op, numeral) => op.holds (env (a.input c)) (c.count numeral)

def Source.eval (c : Ctx) (env : Env) : Source → Bool
  | .atom a => a.eval c env
  | .not e => !e.eval c env
  | .and e f => e.eval c env && f.eval c env
  | .or e f => e.eval c env || f.eval c env

def windowToks : Option (Text × Text) → List Tok
  | none => []
  | some (stat, win) => [.dot, .ident stat, .dot, .ident win]

def testToks : Option (Op × Text) → List Tok
  | none => []
  | some (op, numeral) => [.cmp op, .num numeral]

inductive Level where
  | or
  | and
  | not
  | atom

/-- How an expression is written: `~` binds tighter than `&&`, and this tighter than
`||`; both associate to the left. -/
inductive Spells : Level → Source → List Tok → Prop
  | or {e f us ts} (he : Spells .or e us) (hf : Spells .and f ts) :
      Spells .or (.or e f) (us ++ .orOp :: ts)
  | orOne {e us} (he : Spells .and e us) : Spells .or e us
  | and {e f us ts} (he : Spells .and e us) (hf : Spells .not f ts) :
      Spells .and (.and e f) (us ++ .andOp :: ts)
  | andOne {e us} (he : Spells .not e us) : Spells .and e us
  | not {e us} (he : Spells .not e us) : Spells .not (.not e) (.notOp :: us)
  | notOne {e us} (he : Spells .atom e us) : Spells .not e us
  | paren {e us} (he : Spells .or e us) : Spells .atom e (.lp :: (us ++ [.rp]))
  | atom (a : Atom) : Spells .atom (.atom a) (.ident a.id :: (windowToks a.window ++ testToks a.test))

/-! ## The parser reads what is written -/

section Sound

variable {c : Ctx} {toks rest : List Tok} {node : Ast} {nodes : List Ast} {fuel : Nat}

/-- The parser took an expression of this level off the tokens. -/
def Reads (c : Ctx) (level : Level) (toks : List Tok) (node : Ast) (rest : List Tok) : Prop :=
  ∃ e used, toks = used ++ rest ∧ Spells level e used ∧
    ∀ env, node.eval (Clause.holds env) = e.eval c env

/-- The parser took the rest of a chain off the tokens; `value` says what it adds to the
value of the operands before. -/
def ReadsRest (c : Ctx) (level : Level) (toks : List Tok) (value : Env → Bool → Bool)
    (rest : List Tok) : Prop :=
  ∃ used, toks = used ++ rest ∧ ∀ e us, Spells level e us →
    ∃ e', Spells level e' (us ++ used) ∧ ∀ env, e'.eval c env = value env (e.eval c env)

/-- What the parser reads with some fuel. -/
structure ParserSound (c : Ctx) (fuel : Nat) : Prop where
  or : ∀ toks node rest, parseOr c fuel toks = .ok (node, rest) → Reads c .or toks node rest
  ors : ∀ toks nodes rest, parseOrs c fuel toks = .ok (nodes, rest) →
    ReadsRest c .or toks (fun env b => b || Formula.evalAny (Clause.holds env) nodes) rest
  and : ∀ toks node rest, parseAnd c fuel toks = .ok (node, rest) → Reads c .and toks node rest
  ands : ∀ toks nodes rest, parseAnds c fuel toks = .ok (nodes, rest) →
    ReadsRest c .and toks (fun env b => b && Formula.evalAll (Clause.holds env) nodes) rest
  not : ∀ toks node rest, parseNot c fuel toks = .ok (node, rest) → Reads c .not toks node rest
  atom : ∀ toks node rest, parseAtom c fuel toks = .ok (node, rest) → Reads c .atom toks node rest

theorem chain_or (env : Env) (first : Ast) (nodes : List Ast) :
    (chain .or first nodes).eval (Clause.holds env) =
      (first.eval (Clause.holds env) || Formula.evalAny (Clause.holds env) nodes) := by
  cases nodes with
  | nil => exact (Bool.or_false _).symm
  | cons => rfl

theorem chain_and (env : Env) (first : Ast) (nodes : List Ast) :
    (chain .and first nodes).eval (Clause.holds env) =
      (first.eval (Clause.holds env) && Formula.evalAll (Clause.holds env) nodes) := by
  cases nodes with
  | nil => exact (Bool.and_true _).symm
  | cons => rfl

theorem sound_or (h : ParserSound c fuel) (hrun : parseOr c (fuel + 1) toks = .ok (node, rest)) :
    Reads c .or toks node rest := by
  rw [parseOr] at hrun
  obtain ⟨⟨first, toks₁⟩, hfirst, hrun⟩ := bind_eq_ok.mp hrun
  obtain ⟨⟨nodes, toks₂⟩, hnodes, hrun⟩ := bind_eq_ok.mp hrun
  cases hrun
  obtain ⟨e, us, rfl, hspells, heval⟩ := h.and _ _ _ hfirst
  obtain ⟨used, rfl, hrest⟩ := h.ors _ _ _ hnodes
  obtain ⟨e', hspells', heval'⟩ := hrest e us (.orOne hspells)
  refine ⟨e', us ++ used, (List.append_assoc ..).symm, hspells', fun env => ?_⟩
  rw [chain_or, heval env, heval' env]

theorem sound_ors (h : ParserSound c fuel)
    (hrun : parseOrs c (fuel + 1) toks = .ok (nodes, rest)) :
    ReadsRest c .or toks (fun env b => b || Formula.evalAny (Clause.holds env) nodes) rest := by
  unfold parseOrs at hrun
  split at hrun
  next toks =>
    obtain ⟨⟨first, toks₁⟩, hfirst, hrun⟩ := bind_eq_ok.mp hrun
    obtain ⟨⟨nodes, toks₂⟩, hnodes, hrun⟩ := bind_eq_ok.mp hrun
    cases hrun
    obtain ⟨f, ts, rfl, hspells, heval⟩ := h.and _ _ _ hfirst
    obtain ⟨used, rfl, hrest⟩ := h.ors _ _ _ hnodes
    refine ⟨.orOp :: ts ++ used, by simp, fun e us he => ?_⟩
    obtain ⟨e', hspells', heval'⟩ := hrest (.or e f) _ (.or he hspells)
    refine ⟨e', by simpa using hspells', fun env => ?_⟩
    rw [heval' env, Source.eval, ← heval env]
    exact Bool.or_assoc ..
  next =>
    cases hrun
    exact ⟨[], rfl, fun e us he => ⟨e, by simpa using he, fun env => (Bool.or_false _).symm⟩⟩

theorem sound_and (h : ParserSound c fuel) (hrun : parseAnd c (fuel + 1) toks = .ok (node, rest)) :
    Reads c .and toks node rest := by
  rw [parseAnd] at hrun
  obtain ⟨⟨first, toks₁⟩, hfirst, hrun⟩ := bind_eq_ok.mp hrun
  obtain ⟨⟨nodes, toks₂⟩, hnodes, hrun⟩ := bind_eq_ok.mp hrun
  cases hrun
  obtain ⟨e, us, rfl, hspells, heval⟩ := h.not _ _ _ hfirst
  obtain ⟨used, rfl, hrest⟩ := h.ands _ _ _ hnodes
  obtain ⟨e', hspells', heval'⟩ := hrest e us (.andOne hspells)
  refine ⟨e', us ++ used, (List.append_assoc ..).symm, hspells', fun env => ?_⟩
  rw [chain_and, heval env, heval' env]

theorem sound_ands (h : ParserSound c fuel)
    (hrun : parseAnds c (fuel + 1) toks = .ok (nodes, rest)) :
    ReadsRest c .and toks (fun env b => b && Formula.evalAll (Clause.holds env) nodes) rest := by
  unfold parseAnds at hrun
  split at hrun
  next toks =>
    obtain ⟨⟨first, toks₁⟩, hfirst, hrun⟩ := bind_eq_ok.mp hrun
    obtain ⟨⟨nodes, toks₂⟩, hnodes, hrun⟩ := bind_eq_ok.mp hrun
    cases hrun
    obtain ⟨f, ts, rfl, hspells, heval⟩ := h.not _ _ _ hfirst
    obtain ⟨used, rfl, hrest⟩ := h.ands _ _ _ hnodes
    refine ⟨.andOp :: ts ++ used, by simp, fun e us he => ?_⟩
    obtain ⟨e', hspells', heval'⟩ := hrest (.and e f) _ (.and he hspells)
    refine ⟨e', by simpa using hspells', fun env => ?_⟩
    rw [heval' env, Source.eval, ← heval env]
    exact Bool.and_assoc ..
  next =>
    cases hrun
    exact ⟨[], rfl, fun e us he => ⟨e, by simpa using he, fun env => (Bool.and_true _).symm⟩⟩

theorem sound_not (h : ParserSound c fuel) (hrun : parseNot c (fuel + 1) toks = .ok (node, rest)) :
    Reads c .not toks node rest := by
  unfold parseNot at hrun
  split at hrun
  next toks =>
    obtain ⟨⟨node, toks₁⟩, hnode, hrun⟩ := bind_eq_ok.mp hrun
    cases hrun
    obtain ⟨e, us, rfl, hspells, heval⟩ := h.not _ _ _ hnode
    exact ⟨.not e, .notOp :: us, rfl, .not hspells, fun env => congrArg (!·) (heval env)⟩
  next =>
    obtain ⟨e, us, heq, hspells, heval⟩ := h.atom _ _ _ hrun
    exact ⟨e, us, heq, .notOne hspells, heval⟩

/-! Atoms -/

theorem volts_count {numeral : Text} {n : Nat} (hvolts : inVolts numeral = true)
    (h : c.volts numeral = .ok n) : c.count numeral = n := by
  unfold Ctx.volts at h
  split at h
  next n' hn =>
    cases h
    rw [Ctx.count, if_pos hvolts, hn]
    rfl
  next => cases h

theorem int_count {numeral : Text} {n : Nat} (hvolts : ¬ inVolts numeral = true)
    (h : c.int numeral = .ok n) : c.count numeral = n := by
  unfold Ctx.int at h
  split at h
  next n' hn =>
    cases h
    rw [Ctx.count, if_neg hvolts, hn]
    rfl
  next => cases h

/-- The threshold of a stream is the count its numeral stands for. -/
theorem streamThreshold_count {numeral : Text} {n : Nat}
    (h : c.streamThreshold numeral = .ok n) : c.count numeral = n := by
  unfold Ctx.streamThreshold at h
  split at h
  next hvolts => exact volts_count hvolts h
  next hvolts =>
    obtain ⟨m, hm, h⟩ := bind_eq_ok.mp h
    split at h
    next =>
      cases h
      exact int_count hvolts hm
    next => cases h

theorem value_count {pin numeral : Text} {base : RoleBase} {n : Nat}
    (h : c.value pin base numeral = .ok n) : c.count numeral = n := by
  unfold Ctx.value at h
  split at h
  next hvolts =>
    split at h
    next => cases h
    next => exact volts_count hvolts h
  next hvolts =>
    obtain ⟨m, hm, h⟩ := bind_eq_ok.mp h
    split at h
    all_goals
      split at h
      next =>
        cases h
        exact int_count hvolts hm
      next => cases h

theorem expectNum_ok {op : Op} {numeral : Text} (h : expectNum op toks = .ok (numeral, rest)) :
    toks = .num numeral :: rest := by
  unfold expectNum at h
  split at h
  next =>
    cases h
    rfl
  next => cases h

theorem streamOperand_ok {chan operand : Text} (h : streamOperand chan toks = .ok (operand, rest)) :
    ∃ window, toks = windowToks window ++ rest ∧
      operand = match window with
        | none => chan
        | some (stat, win) => streamName chan stat win := by
  unfold streamOperand at h
  split at h
  next =>
    split at h
    next stat _ =>
      split at h
      next =>
        split at h
        next =>
          split at h
          next win _ =>
            split at h
            next =>
              cases h
              exact ⟨some (stat, win), rfl, rfl⟩
            next => cases h
          next => cases h
        next => cases h
      next => cases h
    next => cases h
  next =>
    cases h
    exact ⟨none, rfl, rfl⟩

theorem reads_adcComparison {id : Text} (hadc : c.adc = true)
    (h : adcComparison c (upper id) toks = .ok (node, rest)) :
    Reads c .atom (.ident id :: toks) node rest := by
  unfold adcComparison at h
  split at h
  next => cases h
  next =>
    obtain ⟨⟨operand, toks₁⟩, hoperand, htest⟩ := bind_eq_ok.mp h
    obtain ⟨window, rfl, hname⟩ := streamOperand_ok hoperand
    dsimp only at htest
    split at htest
    next op toks₂ =>
      obtain ⟨⟨numeral, toks₃⟩, hnum, htest⟩ := bind_eq_ok.mp htest
      obtain ⟨thr, hthr, htest⟩ := bind_eq_ok.mp htest
      cases htest
      obtain rfl := expectNum_ok hnum
      refine ⟨.atom ⟨id, window, some (op, numeral)⟩, _, ?_, .atom _, fun env => ?_⟩
      · simp [testToks]
      · have hinput : Atom.input c ⟨id, window, some (op, numeral)⟩ = operand := by
          rw [Atom.input, if_pos hadc, hname]
        show op.holds (env operand) thr = op.holds (env (Atom.input c _)) (c.count numeral)
        rw [hinput, streamThreshold_count hthr]
    next => cases htest

theorem reads_comparison {id : Text} (hadc : c.adc = false)
    (h : comparison c (pinName id) toks = .ok (node, rest)) :
    Reads c .atom (.ident id :: toks) node rest := by
  have hinput : ∀ test, Atom.input c ⟨id, none, test⟩ = pinName id := by
    intro test
    rw [Atom.input, if_neg (by simp [hadc])]
  unfold comparison at h
  split at h
  next => cases h
  next role _ =>
    split at h
    next => cases h
    next =>
      split at h
      next op toks₁ =>
        obtain ⟨⟨numeral, toks₂⟩, hnum, h⟩ := bind_eq_ok.mp h
        obtain ⟨thr, hthr, h⟩ := bind_eq_ok.mp h
        cases h
        obtain rfl := expectNum_ok hnum
        refine ⟨.atom ⟨id, none, some (op, numeral)⟩, _, ?_, .atom _, fun env => ?_⟩
        · simp [testToks, windowToks]
        · show op.holds (env (pinName id)) thr = op.holds (env (Atom.input c _)) (c.count numeral)
          rw [hinput, value_count hthr]
      next =>
        split at h
        next => cases h
        next =>
          cases h
          refine ⟨.atom ⟨id, none, none⟩, _, rfl, .atom _, fun env => ?_⟩
          show (Op.eq.holds (env (pinName id)) 1) = decide (env (Atom.input c _) = 1)
          rw [hinput]
          rfl

theorem sound_atom (h : ParserSound c fuel)
    (hrun : parseAtom c (fuel + 1) toks = .ok (node, rest)) : Reads c .atom toks node rest := by
  unfold parseAtom at hrun
  split at hrun
  next toks =>
    obtain ⟨⟨node, toks₁⟩, hnode, hrun⟩ := bind_eq_ok.mp hrun
    dsimp only at hrun
    split at hrun
    next =>
      cases hrun
      obtain ⟨e, us, rfl, hspells, heval⟩ := h.or _ _ _ hnode
      exact ⟨e, _, by simp, .paren hspells, heval⟩
    next => cases hrun
  next id toks =>
    cases hadc : c.adc with
    | true =>
        rw [hadc] at hrun
        exact reads_adcComparison hadc hrun
    | false =>
        rw [hadc] at hrun
        exact reads_comparison hadc hrun
  next => cases hrun

theorem parser_sound (c : Ctx) (fuel : Nat) : ParserSound c fuel := by
  induction fuel with
  | zero =>
      constructor
      all_goals
        intro _ _ _ h
        simp only [parseOr, parseOrs, parseAnd, parseAnds, parseNot, parseAtom] at h
        cases h
  | succ fuel ih =>
      exact ⟨fun _ _ _ => sound_or ih, fun _ _ _ => sound_ors ih, fun _ _ _ => sound_and ih,
        fun _ _ _ => sound_ands ih, fun _ _ _ => sound_not ih, fun _ _ _ => sound_atom ih⟩

/-! The fuel is enough -/

theorem Reads.length_le {level : Level} (h : Reads c level toks node rest) :
    rest.length ≤ toks.length := by
  obtain ⟨e, used, rfl, _⟩ := h
  simp

theorem ReadsRest.length_le {level : Level} {value : Env → Bool → Bool}
    (h : ReadsRest c level toks value rest) : rest.length ≤ toks.length := by
  obtain ⟨used, rfl, _⟩ := h
  simp

structure ParserTotal (c : Ctx) (fuel : Nat) : Prop where
  or : ∀ toks, 4 * toks.length + 4 ≤ fuel → parseOr c fuel toks ≠ .error .tooDeep
  ors : ∀ toks, 4 * toks.length + 1 ≤ fuel → parseOrs c fuel toks ≠ .error .tooDeep
  and : ∀ toks, 4 * toks.length + 3 ≤ fuel → parseAnd c fuel toks ≠ .error .tooDeep
  ands : ∀ toks, 4 * toks.length + 1 ≤ fuel → parseAnds c fuel toks ≠ .error .tooDeep
  not : ∀ toks, 4 * toks.length + 2 ≤ fuel → parseNot c fuel toks ≠ .error .tooDeep
  atom : ∀ toks, 4 * toks.length + 1 ≤ fuel → parseAtom c fuel toks ≠ .error .tooDeep

theorem number_ne_tooDeep (numeral : Text) :
    c.volts numeral ≠ .error .tooDeep ∧ c.int numeral ≠ .error .tooDeep := by
  unfold Ctx.volts Ctx.int
  constructor <;> split <;> simp

theorem expectNum_ne_tooDeep (op : Op) (toks : List Tok) :
    expectNum op toks ≠ .error .tooDeep := by
  unfold expectNum
  split <;> simp

theorem adcComparison_ne_tooDeep (c : Ctx) (chan : Text) (toks : List Tok) :
    adcComparison c chan toks ≠ .error .tooDeep := by
  have hoperand : streamOperand chan toks ≠ .error .tooDeep := by
    unfold streamOperand
    repeat' split
    all_goals simp
  have hthr : ∀ numeral, c.streamThreshold numeral ≠ .error .tooDeep := by
    intro numeral
    unfold Ctx.streamThreshold
    split
    next => exact (number_ne_tooDeep numeral).1
    next =>
      refine bind_ne_error (number_ne_tooDeep numeral).2 fun n _ => ?_
      split <;> simp
  unfold adcComparison
  split
  next => simp
  next =>
    refine bind_ne_error hoperand fun a _ => ?_
    dsimp only
    split
    next =>
      refine bind_ne_error (expectNum_ne_tooDeep _ _) fun b _ => ?_
      exact bind_ne_error (hthr b.1) fun _ _ => by simp
    next => simp

theorem comparison_ne_tooDeep (c : Ctx) (pin : Text) (toks : List Tok) :
    comparison c pin toks ≠ .error .tooDeep := by
  have hvalue : ∀ base numeral, c.value pin base numeral ≠ .error .tooDeep := by
    intro base numeral
    unfold Ctx.value
    split
    next =>
      split
      next => simp
      next => exact (number_ne_tooDeep numeral).1
    next =>
      refine bind_ne_error (number_ne_tooDeep numeral).2 fun n _ => ?_
      repeat' split
      all_goals simp
  unfold comparison
  split
  next => simp
  next =>
    split
    next => simp
    next =>
      split
      next =>
        refine bind_ne_error (expectNum_ne_tooDeep _ _) fun b _ => ?_
        exact bind_ne_error (hvalue _ b.1) fun _ _ => by simp
      next => split <;> simp

theorem parser_total (c : Ctx) (fuel : Nat) : ParserTotal c fuel := by
  induction fuel with
  | zero => constructor <;> intro toks h <;> omega
  -- what a call has consumed pays for the fuel of the next one
  | succ fuel ih =>
      have hsound := parser_sound c fuel
      constructor
      · intro toks hfuel
        rw [parseOr]
        refine bind_ne_error (ih.and toks (by omega)) fun a ha => ?_
        have hle := (hsound.and _ _ _ ha).length_le
        exact bind_ne_error (ih.ors _ (by omega)) fun _ _ => by simp
      · intro toks hfuel
        unfold parseOrs
        split
        next toks =>
          rw [List.length_cons] at hfuel
          refine bind_ne_error (ih.and toks (by omega)) fun a ha => ?_
          have hle := (hsound.and _ _ _ ha).length_le
          exact bind_ne_error (ih.ors _ (by omega)) fun _ _ => by simp
        next => simp
      · intro toks hfuel
        rw [parseAnd]
        refine bind_ne_error (ih.not toks (by omega)) fun a ha => ?_
        have hle := (hsound.not _ _ _ ha).length_le
        exact bind_ne_error (ih.ands _ (by omega)) fun _ _ => by simp
      · intro toks hfuel
        unfold parseAnds
        split
        next toks =>
          rw [List.length_cons] at hfuel
          refine bind_ne_error (ih.not toks (by omega)) fun a ha => ?_
          have hle := (hsound.not _ _ _ ha).length_le
          exact bind_ne_error (ih.ands _ (by omega)) fun _ _ => by simp
        next => simp
      · intro toks hfuel
        unfold parseNot
        split
        next toks =>
          rw [List.length_cons] at hfuel
          exact bind_ne_error (ih.not toks (by omega)) fun _ _ => by simp
        next => exact ih.atom toks (by omega)
      · intro toks hfuel
        unfold parseAtom
        split
        next toks =>
          rw [List.length_cons] at hfuel
          refine bind_ne_error (ih.or toks (by omega)) fun a _ => ?_
          dsimp only
          split <;> simp
        next =>
          split
          next => exact adcComparison_ne_tooDeep _ _ _
          next => exact comparison_ne_tooDeep _ _ _
        next => simp

/-- The parser never runs out of fuel. -/
theorem parse_ne_tooDeep (c : Ctx) (toks : List Tok) : parse c toks ≠ .error .tooDeep := by
  refine bind_ne_error ((parser_total c _).or toks le_rfl) fun a _ => ?_
  dsimp only
  split <;> simp

theorem parse_sound (h : parse c toks = .ok node) :
    ∃ e, Spells .or e toks ∧ ∀ env, node.eval (Clause.holds env) = e.eval c env := by
  obtain ⟨⟨node', rest⟩, hor, h⟩ := bind_eq_ok.mp h
  dsimp only at h
  split at h
  next hrest =>
    cases h
    obtain ⟨e, used, rfl, hspells, heval⟩ := (parser_sound c _).or _ _ _ hor
    rw [hrest, List.append_nil]
    exact ⟨e, hspells, heval⟩
  next => cases h

end Sound

/-- Whatever the values of the inputs, the groups an accepted expression is compiled to
hold if and only if the expression does, whose tokens are the text without its white space. -/
theorem compile_preserves {c : Ctx} {text : Text} {groups : List (List Clause)}
    (h : compileExpr c text = .ok groups) :
    ∃ toks e, tokenize c.py text = .ok toks ∧ Spells .or e toks ∧
      (toks.map Tok.spelling).flatten = text.filter (!c.py.isSpace ·) ∧
      ∀ env, groupsHold env groups = e.eval c env := by
  obtain ⟨toks, htoks, h⟩ := bind_eq_ok.mp h
  obtain ⟨ast, hast, h⟩ := bind_eq_ok.mp h
  cases h
  obtain ⟨e, hspells, heval⟩ := parse_sound hast
  refine ⟨toks, e, htoks, hspells, tokenize_spelled htoks, fun env => ?_⟩
  rw [groupsHold, pushNot, evalTerms_compiled (invert_holds env), heval]

/-! ## An expression of two negations -/

theorem asciiDigit_space (c : Char) (h : asciiSpace c = true) : asciiDigit c = none := by
  have hrange : ¬ ('0' ≤ c ∧ c ≤ '9') := by
    intro hdigit
    have h0 : 48 ≤ c.toNat := hdigit.1
    simp only [asciiSpace, Bool.or_eq_true, Bool.and_eq_true, decide_eq_true_eq] at h
    omega
  exact if_neg hrange

/-- The tables of ASCII alone. -/
def asciiPython : Python where
  isSpace := asciiSpace
  digit := asciiDigit
  maxStrDigits := none
  space_ascii _ _ := rfl
  digit_ascii _ _ := rfl
  space_digit := asciiDigit_space

/-- Two inputs of a GPIO unit. -/
def twoPins : Ctx where
  py := asciiPython
  adc := false
  roles := [("D0".toList, ⟨.input, []⟩), ("D1".toList, ⟨.input, []⟩)]
  voltsToCount _ := none

theorem compile_preserves_nand :
    ∃ toks e, tokenize asciiPython "~(D0 && ~(d1 == 0))".toList = .ok toks ∧ Spells .or e toks ∧
      (toks.map Tok.spelling).flatten =
        "~(D0 && ~(d1 == 0))".toList.filter (!asciiPython.isSpace ·) ∧
      ∀ env, groupsHold env [[⟨"D0".toList, .ne, 1⟩], [⟨"D1".toList, .eq, 0⟩]] = e.eval twoPins env :=
  @compile_preserves twoPins "~(D0 && ~(d1 == 0))".toList _ (by decide +kernel)

end SlowBus.Dsl
