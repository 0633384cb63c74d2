import SlowBus.Dsl.Emit

/-!
# What the groups of an expression compare

Every comparison that an accepted expression is compiled to is of an operand the parser has
taken, with a threshold it has checked; no group is empty.
-/

namespace SlowBus.Dsl

open Fallible

/-! ## From the parser to the groups -/

section Proper

variable {c : Ctx} {P : Clause → Prop} {fuel : Nat}

/-- Every literal that the parser makes with some fuel has the property. -/
structure ParserProper (c : Ctx) (P : Clause → Prop) (fuel : Nat) : Prop where
  or : ∀ toks node rest, parseOr c fuel toks = .ok (node, rest) → node.Proper P
  ors : ∀ toks nodes rest, parseOrs c fuel toks = .ok (nodes, rest) → Formula.ProperAll P nodes
  and : ∀ toks node rest, parseAnd c fuel toks = .ok (node, rest) → node.Proper P
  ands : ∀ toks nodes rest, parseAnds c fuel toks = .ok (nodes, rest) → Formula.ProperAll P nodes
  not : ∀ toks node rest, parseNot c fuel toks = .ok (node, rest) → node.Proper P
  atom : ∀ toks node rest, parseAtom c fuel toks = .ok (node, rest) → node.Proper P

/-- The atoms of the mode have the property. -/
def AtomsProper (c : Ctx) (P : Clause → Prop) : Prop :=
  ∀ id toks node rest,
    (if c.adc then adcComparison c (upper id) toks else comparison c (pinName id) toks) =
      .ok (node, rest) → node.Proper P

theorem proper_chain {join : List Ast → Ast}
    (hjoin : ∀ nodes, nodes ≠ [] → Formula.ProperAll P nodes → (join nodes).Proper P) {first : Ast}
    {nodes : List Ast} (hfirst : first.Proper P) (hnodes : Formula.ProperAll P nodes) :
    (chain join first nodes).Proper P := by
  cases nodes with
  | nil => exact hfirst
  | cons node nodes => exact hjoin _ (List.cons_ne_nil _ _) ⟨hfirst, hnodes⟩

/-- A loop of the parser adds an operand at a time. -/
theorem proper_rest {toks rest : List Tok} {nodes : List Ast}
    {item : List Tok → Except DslError (Ast × List Tok)}
    {items : List Tok → Except DslError (List Ast × List Tok)}
    (hitem : ∀ toks node rest, item toks = .ok (node, rest) → node.Proper P)
    (hitems : ∀ toks nodes rest, items toks = .ok (nodes, rest) → Formula.ProperAll P nodes)
    (hrun : (do
      let (first, toks) ← item toks
      let (nodes, toks) ← items toks
      .ok (first :: nodes, toks)) = .ok (nodes, rest)) : Formula.ProperAll P nodes := by
  obtain ⟨⟨first, toks₁⟩, hfirst, hrun⟩ := bind_eq_ok.mp hrun
  obtain ⟨⟨others, toks₂⟩, hothers, hrun⟩ := bind_eq_ok.mp hrun
  cases hrun
  exact ⟨hitem _ _ _ hfirst, hitems _ _ _ hothers⟩

theorem proper_first (join : List Ast → Ast) {toks rest : List Tok} {node : Ast}
    {item : List Tok → Except DslError (Ast × List Tok)}
    {items : List Tok → Except DslError (List Ast × List Tok)}
    (hjoin : ∀ nodes, nodes ≠ [] → Formula.ProperAll P nodes → (join nodes).Proper P)
    (hitem : ∀ toks node rest, item toks = .ok (node, rest) → node.Proper P)
    (hitems : ∀ toks nodes rest, items toks = .ok (nodes, rest) → Formula.ProperAll P nodes)
    (hrun : (do
      let (first, toks) ← item toks
      let (nodes, toks) ← items toks
      .ok (chain join first nodes, toks)) = .ok (node, rest)) : node.Proper P := by
  obtain ⟨⟨first, toks₁⟩, hfirst, hrun⟩ := bind_eq_ok.mp hrun
  obtain ⟨⟨others, toks₂⟩, hothers, hrun⟩ := bind_eq_ok.mp hrun
  cases hrun
  exact proper_chain hjoin (hitem _ _ _ hfirst) (hitems _ _ _ hothers)

theorem parser_proper (hatoms : AtomsProper c P) (fuel : Nat) : ParserProper c P fuel := by
  induction fuel with
  | zero =>
      constructor
      all_goals
        intro _ _ _ h
        simp only [parseOr, parseOrs, parseAnd, parseAnds, parseNot, parseAtom] at h
        cases h
  -- the calls of the parser use one unit of fuel less
  | succ fuel ih =>
      constructor
      · intro toks node rest hrun
        rw [parseOr] at hrun
        exact proper_first .or (fun _ hne hall => ⟨hne, hall⟩) ih.and ih.ors hrun
      · intro toks nodes rest hrun
        unfold parseOrs at hrun
        split at hrun
        next => exact proper_rest ih.and ih.ors hrun
        next =>
          cases hrun
          trivial
      · intro toks node rest hrun
        rw [parseAnd] at hrun
        exact proper_first .and (fun _ hne hall => ⟨hne, hall⟩) ih.not ih.ands hrun
      · intro toks nodes rest hrun
        unfold parseAnds at hrun
        split at hrun
        next => exact proper_rest ih.not ih.ands hrun
        next =>
          cases hrun
          trivial
      · intro toks node rest hrun
        unfold parseNot at hrun
        split at hrun
        next =>
          obtain ⟨⟨inner, toks₁⟩, hinner, hrun⟩ := bind_eq_ok.mp hrun
          cases hrun
          exact ih.not _ inner _ hinner
        next => exact ih.atom _ _ _ hrun
      · intro toks node rest hrun
        unfold parseAtom at hrun
        split at hrun
        next =>
          obtain ⟨⟨inner, toks₁⟩, hinner, hrun⟩ := bind_eq_ok.mp hrun
          dsimp only at hrun
          split at hrun
          next =>
            cases hrun
            exact ih.or _ _ _ hinner
          next => cases hrun
        next id toks => exact hatoms id toks _ _ hrun
        next => cases hrun

/-- The groups of an accepted expression. -/
theorem compileExpr_proper {text : Text} {groups : List (List Clause)}
    (hatoms : AtomsProper c P) (hinvert : ∀ clause, P clause → P clause.invert)
    (h : compileExpr c text = .ok groups) : ProperTerms P groups := by
  obtain ⟨toks, -, h⟩ := bind_eq_ok.mp h
  obtain ⟨ast, hast, h⟩ := bind_eq_ok.mp h
  cases h
  obtain ⟨⟨node, rest⟩, hor, hast⟩ := bind_eq_ok.mp hast
  dsimp only at hast
  split at hast
  next =>
    cases hast
    exact proper_compiled hinvert ((parser_proper hatoms _).or _ _ _ hor)
  next => cases hast

end Proper

/-! ## Pins with a role -/

/-- The operand has a role; unless it is converted it is compared with a bit. -/
def Clause.Declared (roles : Roles) (clause : Clause) : Prop :=
  ∃ role, roles.lookup clause.operand = some role ∧ (role.base ≠ .adc → clause.thr ≤ 1)

theorem comparison_declared {c : Ctx} (hadc : c.adc = false) :
    AtomsProper c (Clause.Declared c.roles) := by
  intro id toks node rest hrun
  rw [hadc, if_neg Bool.false_ne_true] at hrun
  unfold comparison at hrun
  split at hrun
  next => cases hrun
  next role hrole =>
    split at hrun
    next => cases hrun
    next =>
      split at hrun
      next op toks =>
        obtain ⟨⟨numeral, toks₁⟩, -, hrun⟩ := bind_eq_ok.mp hrun
        obtain ⟨thr, hthr, hrun⟩ := bind_eq_ok.mp hrun
        cases hrun
        refine ⟨role, hrole, fun hbase => ?_⟩
        unfold Ctx.value at hthr
        split at hthr
        next => cases hthr
        next =>
          obtain ⟨n, -, hthr⟩ := bind_eq_ok.mp hthr
          split at hthr
          next hbit =>
            cases hthr
            show thr ≤ 1
            omega
          next => cases hthr
      next =>
        split at hrun
        next => cases hrun
        next =>
          cases hrun
          exact ⟨role, hrole, fun _ => le_rfl⟩

/-- The groups of a GPIO or MIXED unit compare pins with a role. -/
theorem compileExpr_declared {c : Ctx} {text : Text} {groups : List (List Clause)}
    (hadc : c.adc = false) (h : compileExpr c text = .ok groups) :
    ProperTerms (Clause.Declared c.roles) groups :=
  compileExpr_proper (comparison_declared hadc) (fun _ hclause => hclause) h

end SlowBus.Dsl
