import SlowBus.Interlock.Grammar
import SlowBus.Interlock.Sampled

/-!
# What an interlock text means

A text with at most one watch section, and no hysteresis or debounce, is true of
the samples when some alternative of its watch section has all its comparisons
true of the pins they name. The parser's tables of inputs, watches and group
numbers keep that meaning, and `eval_slot` computes it.
-/

namespace SlowBus.Interlock

open Fallible Fields

/-! ## Meaning -/

/-- The pin a label names: a virtual input or a pin of the board. -/
def Board.pinOf (board : Board) (label : Text) : Option Nat :=
  if peek label = '_' then board.virtLookup label
  else (board.pinLookup label).map BoardPin.gpio

/-- The value sampled for the pin a label names. -/
def sampleOf (hal : Hal) (s : Samples) (inst : Inst) (label : Text) : Nat :=
  match (rp2040.pinOf label).bind fun pin => inst.inputs.find? (·.physId == pin) with
  | some i => rawSample hal s i
  | none => 0

/-- A comparison, as written, is true of the sampled values. -/
def ComparisonHolds (sample : Text → Nat) (t : Text) : Prop :=
  ∃ c, comparisonOf t = some c ∧ c.op.holds (sample c.label) c.value = true

/-- Some alternative of a watch body has all its comparisons true. -/
def WatchHolds (sample : Text → Nat) (body : Text) : Prop :=
  ∃ alternative ∈ alternatives body, ∀ t ∈ alternative, ComparisonHolds sample t

/-- The bodies of the watch sections. -/
def watchBodies (secs : List Section) : List Text :=
  (secs.filter (·.keyword = "watch".toList)).map Section.body

/-- A configuration section has a hysteresis or debounce modifier. -/
def Section.Modified (sec : Section) : Prop :=
  sec.keyword = "cfg".toList ∧ (hystStem <:+: sec.body ∨ debounceStem <:+: sec.body)

instance (sec : Section) : Decidable sec.Modified := inferInstanceAs (Decidable (_ ∧ (_ ∨ _)))

/-! ## Inputs -/

/-- The sample of the input is compared as it is. -/
def Input.Plain (i : Input) : Prop := i.hyst = 0 ∧ i.debounceDepth = 0

/-- Inputs are only added, and if `plain` holds the added ones are plain. -/
structure Inst.Grows (plain : Prop) (inst inst' : Inst) : Prop where
  inputs : inst.inputs <+: inst'.inputs
  allPlain : plain → (∀ i ∈ inst.inputs, i.Plain) → ∀ i ∈ inst'.inputs, i.Plain

theorem Inst.Grows.refl (plain : Prop) (inst : Inst) : inst.Grows plain inst :=
  ⟨List.prefix_rfl, fun _ h => h⟩

theorem Inst.Grows.trans {plain : Prop} {inst mid inst' : Inst} (h : inst.Grows plain mid)
    (h' : mid.Grows plain inst') : inst.Grows plain inst' :=
  ⟨h.inputs.trans h'.inputs, fun hplain hall => h'.allPlain hplain (h.allPlain hplain hall)⟩

theorem Inst.Grows.mono {plain plain' : Prop} {inst inst' : Inst} (h : inst.Grows plain inst')
    (himp : plain' → plain) : inst.Grows plain' inst' :=
  ⟨h.inputs, fun hplain => h.allPlain (himp hplain)⟩

theorem Inst.Grows.addInput {plain : Prop} (inst : Inst) {i : Input} (hi : plain → i.Plain) :
    inst.Grows plain { inst with inputs := inst.inputs ++ [i] } :=
  ⟨List.prefix_append .., fun hplain hall =>
    List.forall_mem_append.mpr ⟨hall, List.forall_mem_singleton.mpr (hi hplain)⟩⟩

section Inputs

variable {board : Board} {inst inst' : Inst}

theorem findInputIdx_of_prefix {pin idx : Nat} (hgrown : inst.inputs <+: inst'.inputs)
    (hfind : findInputIdx inst pin = some idx) : findInputIdx inst' pin = some idx := by
  obtain ⟨new, hnew⟩ := hgrown
  unfold findInputIdx at hfind ⊢
  rw [← hnew, List.findIdx?_append, hfind]
  rfl

theorem findInputIdx_concat {i : Input} (hfresh : findInputIdx inst i.physId = none) :
    findInputIdx { inst with inputs := inst.inputs ++ [i] } i.physId =
      some inst.inputs.length := by
  unfold findInputIdx at hfresh ⊢
  rw [List.findIdx?_append, hfresh]
  simp

/-- A watch label resolves to the input of the pin it names. -/
theorem resolveOperand_eq_ok {label : Text} {idx : Nat}
    (hrun : resolveOperand board false inst label = .ok (inst', idx)) :
    (∃ pin, board.pinOf label = some pin ∧ findInputIdx inst' pin = some idx) ∧
      inst.Grows True inst' ∧ inst'.watches = inst.watches := by
  unfold resolveOperand at hrun
  simp only [Bool.false_eq_true, if_false] at hrun
  split at hrun
  next hvirtual =>
    split at hrun
    · cases hrun
    next pin hpin =>
      have hnames : board.pinOf label = some pin := by
        rw [Board.pinOf, if_pos hvirtual, hpin]
      split at hrun
      next idx' hfound =>
        cases hrun
        exact ⟨⟨pin, hnames, hfound⟩, .refl .., rfl⟩
      next hfresh =>
        split_ifs at hrun
        cases hrun
        exact ⟨⟨pin, hnames, findInputIdx_concat hfresh⟩, .addInput inst fun _ => ⟨rfl, rfl⟩, rfl⟩
  next hpin =>
    split at hrun
    · cases hrun
    next bp hlookup =>
      split at hrun
      next idx' hfound =>
        cases hrun
        refine ⟨⟨bp.gpio, ?_, hfound⟩, .refl .., rfl⟩
        rw [Board.pinOf, if_neg hpin, hlookup]
        rfl
      · cases hrun

theorem declarePin_grows {g : GroupCfg} {label : Text}
    (hrun : declarePin board g inst label = .ok inst') :
    inst.Grows (g.hyst = 0 ∧ g.debounceDepth = 0) inst' ∧ inst'.watches = inst.watches := by
  unfold declarePin at hrun
  split at hrun
  · cases hrun
  split at hrun
  · cases hrun
  split at hrun
  · cases hrun
  split at hrun
  · split at hrun
    · cases hrun
    · cases hrun
      refine ⟨.addInput inst fun ⟨hhyst, hdepth⟩ => ?_, rfl⟩
      simp [Input.Plain, hhyst, hdepth]
  · split at hrun
    · cases hrun
    · cases hrun
      exact ⟨⟨List.prefix_rfl, fun _ h => h⟩, rfl⟩

/-- A modifier that is neither a hysteresis nor a debounce leaves both at zero. -/
theorem applyModifier_plain {g g' : GroupCfg} {m : Text}
    (hrun : applyModifier g m = .ok g') (hhyst : isParamMod m hystStem = false)
    (hdepth : isParamMod m debounceStem = false) (h : g.hyst = 0 ∧ g.debounceDepth = 0) :
    g'.hyst = 0 ∧ g'.debounceDepth = 0 := by
  unfold applyModifier at hrun
  simp only [hhyst, hdepth, Bool.false_eq_true, if_false] at hrun
  split_ifs at hrun
  · obtain ⟨n, -, hrun⟩ := bind_eq_ok.mp hrun
    split at hrun <;> cases hrun
    exact h
  · obtain ⟨n, -, hrun⟩ := bind_eq_ok.mp hrun
    split_ifs at hrun
    cases hrun
    exact h
  all_goals
    cases hrun
    exact h

theorem resolveMode_plain {m : Text} {g : GroupCfg} (hrun : resolveMode m = .ok g) :
    g.hyst = 0 ∧ g.debounceDepth = 0 := by
  unfold resolveMode at hrun
  split_ifs at hrun <;> cases hrun <;> exact ⟨rfl, rfl⟩

theorem applyModifiers_plain {mods : List Text} {g g' : GroupCfg}
    (hrun : mods.foldlM applyModifier g = .ok g')
    (hmods : ∀ m ∈ mods, isParamMod m hystStem = false ∧ isParamMod m debounceStem = false)
    (h : g.hyst = 0 ∧ g.debounceDepth = 0) : g'.hyst = 0 ∧ g'.debounceDepth = 0 := by
  induction mods generalizing g with
  | nil =>
      cases hrun
      exact h
  | cons m mods ih =>
      rw [List.foldlM_cons] at hrun
      obtain ⟨g₁, hmod, hrun⟩ := bind_eq_ok.mp hrun
      obtain ⟨hm, hmods⟩ := List.forall_mem_cons.mp hmods
      exact ih hrun hmods (applyModifier_plain hmod hm.1 hm.2 h)

theorem resolveGroup_plain {mods : List Text} {g : GroupCfg} (hrun : resolveGroup mods = .ok g)
    (hmods : ∀ m ∈ mods, isParamMod m hystStem = false ∧ isParamMod m debounceStem = false) :
    g.hyst = 0 ∧ g.debounceDepth = 0 := by
  cases mods with
  | nil => cases hrun
  | cons m mods =>
      obtain ⟨g₀, hmode, hrun⟩ := bind_eq_ok.mp hrun
      exact applyModifiers_plain hrun (List.forall_mem_cons.mp hmods).2 (resolveMode_plain hmode)

theorem infix_of_isParamMod {m stem : Text} (h : isParamMod m stem = true) : stem <:+: m := by
  simp only [isParamMod, Bool.and_eq_true, List.isPrefixOf_iff_prefix] at h
  exact h.1.2.isInfix

/-- A configuration body without hysteresis and debounce declares plain inputs. -/
theorem parseCfg_grows {fuel : Nat} {p q : Text}
    (hrun : parseCfg board fuel inst p = .ok (inst', q)) :
    ∃ t, Spans p t q ∧ inst.Grows (¬(hystStem <:+: t ∨ debounceStem <:+: t)) inst' ∧
      inst'.watches = inst.watches := by
  induction fuel generalizing inst p with
  | zero => cases hrun
  | succ fuel ih =>
      rw [parseCfg] at hrun
      obtain ⟨⟨labels, p₁⟩, hpins, hrun⟩ := bind_eq_ok.mp hrun
      obtain ⟨p₂, hcolon, hrun⟩ := bind_eq_ok.mp hrun
      obtain ⟨⟨mods, p₃⟩, hmods, hrun⟩ := bind_eq_ok.mp hrun
      obtain ⟨g, hgroup, hrun⟩ := bind_eq_ok.mp hrun
      obtain ⟨mid, hmid, hrun⟩ := bind_eq_ok.mp hrun
      obtain ⟨t₁, h₁⟩ := readPins_spans hpins
      obtain ⟨t₂, h₂⟩ := expectChar_spans (by decide) hcolon
      obtain ⟨t₃, h₃, hstand⟩ := readModifiers_spans hmods
      -- every pin of the group gets the settings of the group
      have hgrow : inst.Grows (g.hyst = 0 ∧ g.debounceDepth = 0) mid ∧
          mid.watches = inst.watches := by
        refine foldlM_invariant (P := fun mid => inst.Grows (g.hyst = 0 ∧ g.debounceDepth = 0) mid ∧
          mid.watches = inst.watches) (fun b a c hb hc => ?_) ⟨.refl .., rfl⟩ (atText_eq_ok.mp hmid)
        obtain ⟨hstep, hwatches⟩ := declarePin_grows hc
        exact ⟨hb.1.trans hstep, hwatches.trans hb.2⟩
      -- a modifier that sets one of the two stands in the text read so far
      have hplain : ∀ u, ¬(hystStem <:+: t₁ ++ t₂ ++ t₃ ++ u ∨
          debounceStem <:+: t₁ ++ t₂ ++ t₃ ++ u) → g.hyst = 0 ∧ g.debounceDepth = 0 := by
        intro u hnot
        refine resolveGroup_plain (atText_eq_ok.mp hgroup) fun m hm => ?_
        have hin : m <:+: t₁ ++ t₂ ++ t₃ ++ u :=
          ((hstand m hm).resolve_left (by simp)).trans ⟨t₁ ++ t₂, u, rfl⟩
        rw [not_or] at hnot
        constructor
        · by_contra hmod
          exact hnot.1 ((infix_of_isParamMod (Bool.not_eq_false _ ▸ hmod)).trans hin)
        · by_contra hmod
          exact hnot.2 ((infix_of_isParamMod (Bool.not_eq_false _ ▸ hmod)).trans hin)
      have hspan := (h₁.trans h₂).trans h₃
      split at hrun
      next p₄ hcomma =>
        obtain ⟨t₄, h₄⟩ := consumeChar_spans (by decide) hcomma
        obtain ⟨t₅, h₅, hrest, hwatches⟩ := ih hrun
        refine ⟨t₁ ++ t₂ ++ t₃ ++ (t₄ ++ t₅), hspan.trans (h₄.trans h₅), ?_,
          hwatches.trans hgrow.2⟩
        refine (hgrow.1.mono (hplain _)).trans (hrest.mono fun hnot hmod => hnot ?_)
        -- what stands in the rest stands in the whole body
        have hsub : t₅ <:+: t₁ ++ t₂ ++ t₃ ++ (t₄ ++ t₅) :=
          ⟨t₁ ++ t₂ ++ t₃ ++ t₄, [], by simp⟩
        exact hmod.imp (·.trans hsub) (·.trans hsub)
      next p₄ hcomma =>
        cases hrun
        obtain ⟨t₄, h₄⟩ := consumeChar_spans (by decide) hcomma
        exact ⟨_, hspan.trans h₄, hgrow.1.mono (hplain _), hgrow.2⟩

end Inputs

/-! ## Watches -/

/-- The comparisons of the alternatives, tagged with their group numbers. -/
def numbered (group : Nat) : List (List Clause) → List (Nat × Clause)
  | [] => []
  | cs :: rest => cs.map (group, ·) ++ numbered (group + 1) rest

/-- The watch makes the comparison, in its group and on the input of its pin. -/
def Denotes (board : Board) (inst : Inst) (w : Watch) (x : Nat × Clause) : Prop :=
  w.group = x.1 ∧ w.op = x.2.op ∧ w.threshold = x.2.value ∧
    ∃ pin, board.pinOf x.2.label = some pin ∧ findInputIdx inst pin = some w.inputIdx

section Watches

variable {board : Board} {inst inst' : Inst}

theorem Denotes.grows {plain : Prop} {w : Watch} {x : Nat × Clause} (h : Denotes board inst w x)
    (hgrows : inst.Grows plain inst') : Denotes board inst' w x := by
  obtain ⟨hgroup, hop, hval, pin, hpin, hidx⟩ := h
  exact ⟨hgroup, hop, hval, pin, hpin, findInputIdx_of_prefix hgrows.inputs hidx⟩

theorem addClause_eq_ok {group : Nat} {c : Clause}
    (hrun : addClause board false group inst c = .ok inst') :
    inst.Grows True inst' ∧ inst.watches.length < maxWatches ∧
      ∃ w, inst'.watches = inst.watches ++ [w] ∧ Denotes board inst' w (group, c) := by
  obtain ⟨mid, idx, hres, hroom, rfl⟩ := addClause_appends hrun
  obtain ⟨⟨pin, hpin, hidx⟩, hgrows, hwatches⟩ := resolveOperand_eq_ok hres
  rw [hwatches] at hroom
  exact ⟨⟨hgrows.inputs, hgrows.allPlain⟩, hroom, ⟨idx, c.op, c.value, group⟩,
    by rw [hwatches], rfl, rfl, rfl, pin, hpin, hidx⟩

/-- The instance gains exactly the watches that make these comparisons. -/
structure WatchRead (board : Board) (inst inst' : Inst) (xs : List (Nat × Clause)) : Prop where
  grows : inst.Grows True inst'
  denotes : ∃ new, inst'.watches = inst.watches ++ new ∧ List.Forall₂ (Denotes board inst') new xs

theorem WatchRead.nil (inst : Inst) : WatchRead board inst inst [] :=
  ⟨.refl .., [], by simp, .nil⟩

/-- A comparison read before the others. -/
theorem WatchRead.cons {mid : Inst} {w : Watch} {x : Nat × Clause} {xs : List (Nat × Clause)}
    (hgrows : inst.Grows True mid) (hw : mid.watches = inst.watches ++ [w])
    (hx : Denotes board mid w x) (h : WatchRead board mid inst' xs) :
    WatchRead board inst inst' (x :: xs) := by
  obtain ⟨new, hnew, hall⟩ := h.denotes
  refine ⟨hgrows.trans h.grows, w :: new, ?_, .cons (hx.grows h.grows) hall⟩
  rw [hnew, hw]
  simp

/-- The parser reads a watch body as it is written. -/
theorem parseWatch_reads {fuel group : Nat} {p q : Text} (hgroup : group ≤ inst.watches.length)
    (hrun : parseWatch board false fuel group inst p = .ok (inst', q)) :
    ∃ t groups, Spans p t q ∧ WatchRead board inst inst' (numbered group groups) ∧
      (∀ cs ∈ groups, cs ≠ []) ∧ ∀ w, Blank w → clausesOf (t ++ w) = groups.map (·.map some) := by
  induction fuel generalizing group inst p with
  | zero => cases hrun
  | succ fuel ih =>
      rw [parseWatch] at hrun
      obtain ⟨⟨c, p₁⟩, hclause, hrun⟩ := bind_eq_ok.mp hrun
      obtain ⟨mid, hmid, hrun⟩ := bind_eq_ok.mp hrun
      obtain ⟨t₁, hp, hends, hcomp⟩ := readClause_eq_ok hclause
      obtain ⟨hgrows, hroom, w₀, hw₀, hdenotes⟩ := addClause_eq_ok (atText_eq_ok.mp hmid)
      have hlen : mid.watches.length = inst.watches.length + 1 := by simp [hw₀]
      -- blanks after a comparison belong to it, up to the mark that ends it
      have hpad : ∀ {w}, Blank w → (t₁ ++ w).Disjoint clauseEnds := fun hw =>
        List.disjoint_append_left.mpr ⟨hends, hw.disjoint clauseEnds_subset⟩
      have hinside : ∀ {w}, Blank w → (t₁ ++ w).Disjoint bodyEnds := fun hw =>
        List.disjoint_of_subset_right (by decide) (hpad hw)
      split at hrun
      next p₂ hcomma =>
        obtain ⟨w₁, hw₁, hp₁⟩ := consumeChar_eq hcomma
        obtain ⟨t₂, groups, hspan, hread, hinhab, hclauses⟩ := ih (by omega) hrun
        -- the comparison joins the first alternative of the rest
        obtain ⟨cs, gs, rfl⟩ : ∃ cs gs, groups = cs :: gs := by
          refine List.exists_cons_of_ne_nil fun hnil => ?_
          have hempty := hclauses [] blank_nil
          rw [hnil] at hempty
          exact clausesOf_ne_nil _ hempty
        refine ⟨t₁ ++ w₁ ++ ',' :: t₂, (c :: cs) :: gs, ⟨?_, ?_⟩, .cons hgrows hw₀ hdenotes hread,
          ?_, fun w hw => ?_⟩
        · rw [hp, hp₁, hspan.eq]
          simp
        · exact disjoint_append_cons (hinside hw₁) (by decide) hspan.inside
        · exact List.forall_mem_cons.mpr ⟨by simp, (List.forall_mem_cons.mp hinhab).2⟩
        · have hcons := clausesOf_comma (hpad hw₁) (t₂ ++ w)
          rw [hclauses w hw, hcomp w₁ hw₁] at hcons
          simpa using hcons
      next p₂ hcomma =>
        obtain ⟨w₁, hw₁, hp₁⟩ := consumeChar_eq hcomma
        split at hrun
        next p₃ hbar =>
          obtain ⟨w₂, hw₂, hp₂⟩ := consumeChar_eq hbar
          have hw := hw₁.append hw₂
          -- the 8-bit group number does not wrap: each group has a watch
          have hmod : (group + 1) % 256 = group + 1 :=
            Nat.mod_eq_of_lt (by rw [maxWatches] at hroom; omega)
          rw [hmod] at hrun
          obtain ⟨t₂, groups, hspan, hread, hinhab, hclauses⟩ := ih (by omega) hrun
          refine ⟨t₁ ++ (w₁ ++ w₂) ++ '|' :: t₂, [c] :: groups, ⟨?_, ?_⟩,
            .cons hgrows hw₀ hdenotes hread, ?_, fun w' hw' => ?_⟩
          · rw [hp, hp₁, hp₂, hspan.eq]
            simp
          · exact disjoint_append_cons (hinside hw) (by decide) hspan.inside
          · exact List.forall_mem_cons.mpr ⟨by simp, hinhab⟩
          · have hcons := clausesOf_bar (hpad hw) (t₂ ++ w')
            rw [hclauses w' hw', hcomp _ hw] at hcons
            simpa using hcons
        next p₃ hbar =>
          cases hrun
          obtain ⟨w₂, hw₂, hp₂⟩ := consumeChar_eq hbar
          have hw := hw₁.append hw₂
          refine ⟨t₁ ++ (w₁ ++ w₂), [[c]], ⟨?_, hinside hw⟩, .cons hgrows hw₀ hdenotes (.nil _),
            by simp, fun w' hw' => ?_⟩
          · rw [hp, hp₁, hp₂]
            simp
          · have hone := clausesOf_single (hpad (hw.append hw'))
            rw [hcomp _ (hw.append hw')] at hone
            simpa using hone

end Watches

/-! ## Sections -/

/-- What reading one section does to the instance. -/
structure SectionRead (board : Board) (sec : Section) (inst inst' : Inst) : Prop where
  grows : inst.Grows (¬sec.Modified) inst'
  others : sec.keyword ≠ "watch".toList → inst'.watches = inst.watches
  watch : sec.keyword = "watch".toList → ∃ groups, WatchRead board inst inst' (numbered 0 groups) ∧
    (∀ cs ∈ groups, cs ≠ []) ∧ clausesOf sec.body = groups.map (·.map some)

/-- The sections of a text, read one after the other. -/
inductive SectionsRead (board : Board) : Inst → List Section → Inst → Prop
  | nil (inst : Inst) : SectionsRead board inst [] inst
  | cons {sec : Section} {secs : List Section} {inst mid inst' : Inst} :
      SectionRead board sec inst mid → SectionsRead board mid secs inst' →
        SectionsRead board inst (sec :: secs) inst'

section Sections

variable {board : Board} {inst inst' : Inst} {p q : Text}

theorem parseOutBlock_keeps {isOk : Bool} {fuel : Nat}
    (hrun : parseOutBlock board isOk fuel inst p = .ok (inst', q)) :
    inst'.inputs = inst.inputs ∧ inst'.watches = inst.watches := by
  induction fuel generalizing inst p with
  | zero => cases hrun
  | succ fuel ih =>
      rw [parseOutBlock] at hrun
      obtain ⟨⟨label, p₁⟩, -, hrun⟩ := bind_eq_ok.mp hrun
      obtain ⟨p₂, -, hrun⟩ := bind_eq_ok.mp hrun
      obtain ⟨⟨val, p₃⟩, -, hrun⟩ := bind_eq_ok.mp hrun
      obtain ⟨mid, hmid, hrun⟩ := bind_eq_ok.mp hrun
      have hset := setOutput_frame (atText_eq_ok.mp hmid)
      split at hrun
      · obtain ⟨hinputs, hwatches⟩ := ih hrun
        exact ⟨hinputs.trans hset.1, hwatches.trans hset.2⟩
      · cases hrun
        exact hset

theorem SectionRead.of_outBlock {kw t : Text} {isOk : Bool} {fuel : Nat}
    (hkw : kw ≠ "watch".toList) (hrun : parseOutBlock board isOk fuel inst p = .ok (inst', q)) :
    SectionRead board ⟨kw, t⟩ inst inst' := by
  obtain ⟨hinputs, hwatches⟩ := parseOutBlock_keeps hrun
  exact ⟨⟨hinputs ▸ List.prefix_rfl, fun _ h => by rwa [hinputs]⟩, fun _ => hwatches,
    fun heq => absurd heq hkw⟩

/-- One section, whatever white space follows its body. -/
theorem parseSection_reads {kw : Text} {d d' : Draft}
    (hrun : parseSection board false kw d p = .ok (d', q)) :
    ∃ t, Spans p t q ∧ ∀ w, Blank w → SectionRead board ⟨kw, t ++ w⟩ d.inst d'.inst := by
  unfold parseSection at hrun
  dsimp only at hrun
  split_ifs at hrun with hcfg hwatch hok herr
  all_goals
    obtain ⟨⟨inst', p₁⟩, hbody, hrun⟩ := bind_eq_ok.mp hrun
    cases hrun
  · obtain ⟨t, hspan, hgrows, hwatches⟩ := parseCfg_grows hbody
    refine ⟨t, hspan, fun w _ => ⟨hgrows.mono fun hnot hmod => hnot ⟨hcfg, ?_⟩, fun _ => hwatches,
      fun heq => ?_⟩⟩
    · have hsub : t <:+: t ++ w := (List.prefix_append t w).isInfix
      exact hmod.imp (·.trans hsub) (·.trans hsub)
    · cases hcfg.symm.trans heq
  · obtain ⟨t, groups, hspan, hread, hinhab, hclauses⟩ := parseWatch_reads (Nat.zero_le _) hbody
    refine ⟨t, hspan, fun w hw => ⟨hread.grows.mono fun _ => trivial, fun hne => absurd hwatch hne,
      fun _ => ⟨groups, hread, hinhab, hclauses w hw⟩⟩⟩
  · obtain ⟨t, hspan⟩ := parseOutBlock_spans hbody
    exact ⟨t, hspan, fun _ _ => .of_outBlock (hok ▸ by decide) hbody⟩
  · obtain ⟨t, hspan⟩ := parseOutBlock_spans hbody
    exact ⟨t, hspan, fun _ _ => .of_outBlock (herr ▸ by decide) hbody⟩

/-- The sections of a text, parsed one after the other. -/
inductive SectionsParsed (board : Board) : Draft → List Section → Draft → Prop
  | nil (d : Draft) : SectionsParsed board d [] d
  | cons {kw p t q w : Text} {d d₁ d' : Draft} {secs : List Section}
      (hsec : parseSection board false kw d p = .ok (d₁, q)) (hspan : Spans p t q) (hw : Blank w)
      (hrest : SectionsParsed board d₁ secs d') :
      SectionsParsed board d (⟨kw, t ++ w⟩ :: secs) d'

/-- The parser goes through the sections of a text as they are written. -/
theorem parseSections_parsed {fuel : Nat} {d d' : Draft}
    (hrun : parseSections board false fuel d p = .ok (d', q)) (hend : skipWs q = []) :
    SectionsParsed board d (sectionsOf p) d' := by
  induction fuel generalizing d p with
  | zero => cases hrun
  | succ fuel ih =>
      rw [parseSections] at hrun
      split at hrun
      next p₁ hsemi =>
        cases hrun
        obtain ⟨w, hw, hp⟩ := consumeChar_eq hsemi
        obtain ⟨w', hw', hq⟩ := skipWs_eq q
        rw [hend, List.append_nil] at hq
        have hblank : Blank p := by
          rw [hp, hq]
          exact hw.append hw'
        rw [sectionsOf_of_not_mem fun hc => hblank.disjoint bodyEnds_subset hc (by decide)]
        exact .nil _
      next p₁ hsemi =>
        obtain ⟨⟨kw, p₂⟩, hkw, hrun⟩ := bind_eq_ok.mp hrun
        obtain ⟨p₃, hopen, hrun⟩ := bind_eq_ok.mp hrun
        obtain ⟨⟨d₁, p₄⟩, hsec, hrun⟩ := bind_eq_ok.mp hrun
        obtain ⟨p₅, hclose, hrun⟩ := bind_eq_ok.mp hrun
        obtain ⟨w₀, hw₀, hp⟩ := consumeChar_eq hsemi
        obtain ⟨w₁, hw₁, hword, hp₁⟩ := expectIdent_eq_ok hkw
        obtain ⟨w₂, hw₂, hp₂⟩ := expectChar_eq_ok hopen
        obtain ⟨t, hspan, -⟩ := parseSection_reads hsec
        obtain ⟨w₃, hw₃, hp₄⟩ := expectChar_eq_ok hclose
        have hfield : Field kw (w₁ ++ (kw ++ w₂)) := ⟨hword, w₁, w₂, hw₁, hw₂, rfl⟩
        have hbody : (t ++ w₃).Disjoint bodyEnds :=
          List.disjoint_append_left.mpr ⟨hspan.inside, hw₃.disjoint bodyEnds_subset⟩
        have htext : p = w₀ ++ ';' :: ((w₁ ++ (kw ++ w₂)) ++ '[' :: ((t ++ w₃) ++ ']' :: p₅)) := by
          rw [hp, if_pos rfl, hp₁, hp₂, hspan.eq, hp₄]
          simp
        rw [htext, sectionsOf_append fun hc => hw₀.disjoint bodyEnds_subset hc (by decide),
          sectionsOf_cons hfield hbody]
        exact .cons hsec hspan hw₃ (ih hrun)

/-- The parser reads the sections of a text as they are written. -/
theorem SectionsParsed.reads {secs : List Section} {d d' : Draft}
    (h : SectionsParsed board d secs d') : SectionsRead board d.inst secs d'.inst := by
  induction h with
  | nil d => exact .nil _
  | cons hsec hspan hw _ ih =>
      obtain ⟨t, hspan', hread⟩ := parseSection_reads hsec
      obtain rfl := List.append_cancel_right (hspan.eq.symm.trans hspan'.eq)
      exact .cons (hread _ hw) ih

theorem SectionsRead.grows {secs : List Section} (h : SectionsRead board inst secs inst') :
    inst.Grows (∀ sec ∈ secs, ¬sec.Modified) inst' := by
  induction h with
  | nil inst => exact .refl ..
  | cons hsec _ ih =>
      refine (hsec.grows.mono fun h => h _ (List.mem_cons_self ..)).trans (ih.mono fun h => ?_)
      exact fun sec hmem => h sec (List.mem_cons_of_mem _ hmem)

theorem watchBodies_cons_of_watch {sec : Section} (h : sec.keyword = "watch".toList)
    (secs : List Section) : watchBodies (sec :: secs) = sec.body :: watchBodies secs := by
  rw [watchBodies, List.filter_cons_of_pos (by simp [h]), List.map_cons]
  rfl

theorem watchBodies_cons_of_ne {sec : Section} (h : sec.keyword ≠ "watch".toList)
    (secs : List Section) : watchBodies (sec :: secs) = watchBodies secs := by
  rw [watchBodies, List.filter_cons_of_neg (by simpa using h)]
  rfl

theorem SectionsRead.no_watch {secs : List Section} (h : SectionsRead board inst secs inst')
    (hbodies : watchBodies secs = []) : inst'.watches = inst.watches := by
  induction h with
  | nil inst => rfl
  | @cons sec secs inst mid inst' hsec _ ih =>
      by_cases hkw : sec.keyword = "watch".toList
      · rw [watchBodies_cons_of_watch hkw] at hbodies
        cases hbodies
      · rw [watchBodies_cons_of_ne hkw] at hbodies
        exact (ih hbodies).trans (hsec.others hkw)

/-- A single watch section gives an instance all its watches. -/
theorem SectionsRead.one_watch {secs : List Section} {body : Text}
    (h : SectionsRead board inst secs inst') (hbodies : watchBodies secs = [body])
    (hnone : inst.watches = []) :
    ∃ groups, List.Forall₂ (Denotes board inst') inst'.watches (numbered 0 groups) ∧
      (∀ cs ∈ groups, cs ≠ []) ∧ clausesOf body = groups.map (·.map some) := by
  induction h with
  | nil inst => cases hbodies
  | @cons sec secs inst mid inst' hsec hrest ih =>
      by_cases hkw : sec.keyword = "watch".toList
      · rw [watchBodies_cons_of_watch hkw] at hbodies
        obtain ⟨hbody, hothers⟩ := List.cons.inj hbodies
        obtain ⟨groups, hread, hinhab, hclauses⟩ := hsec.watch hkw
        obtain ⟨new, hnew, hall⟩ := hread.denotes
        refine ⟨groups, ?_, hinhab, hbody ▸ hclauses⟩
        rw [hrest.no_watch hothers, hnew, hnone, List.nil_append]
        exact hall.imp fun _ _ hden => hden.grows hrest.grows
      · rw [watchBodies_cons_of_ne hkw] at hbodies
        exact ih hbodies ((hsec.others hkw).trans hnone)

end Sections

/-! ## Evaluation -/

section Evaluation

variable (hal : Hal) (s : Samples) {inst : Inst}

theorem readInputs_plain {inputs : List Input} (hplain : ∀ i ∈ inputs, i.Plain) (k : Nat)
    (rt : SlotRuntime) : (readInputs hal s k inputs rt).1 = inputs.map (rawSample hal s) := by
  have hdeb : ∀ i ∈ inputs, i.debounces = false := fun i hi => by
    unfold Input.debounces
    rw [(hplain i hi).2]
    cases i.mode <;> rfl
  rw [readInputs_sampled, sampledInputs_map hdeb]

theorem evalWatches_plain {inputs : List Input} (hplain : ∀ i ∈ inputs, i.Plain) (vals : List Nat)
    (ws : List Watch) (k : Nat) (rt : SlotRuntime) :
    (evalWatches inputs vals k ws rt).1 =
      ws.map fun w => w.op.holds (vals.getD w.inputIdx 0) w.threshold :=
  evalWatches_map (fun i hi => (hplain i hi).1) vals ws k rt

/-- The result over the outcomes of the watches: some group has only true ones. -/
theorem ilDnfResult_watches (hgroups : ∀ w ∈ inst.watches, w.group < 255) (holds : Watch → Bool) :
    ∃ b, ilDnfResult inst.watches (inst.watches.map holds) = some b ∧
      ((if b then TfState.isTrue else .isFalse) = .isTrue ↔ inst.watches = [] ∨
        ∃ g, (∃ w ∈ inst.watches, w.group = g) ∧
          ∀ w ∈ inst.watches, w.group = g → holds w = true) := by
  obtain ⟨b, hb, hiff⟩ := ilDnfResult_eq (inst.watches.map holds) hgroups
  refine ⟨b, hb, ?_⟩
  have htf : (if b then TfState.isTrue else .isFalse) = .isTrue ↔ b = true := by
    cases b <;> simp
  rw [htf, hiff, ← List.map_prod_left_eq_zip]
  simp only [List.mem_map, exists_exists_and_eq_and, forall_exists_index, and_imp,
    forall_apply_eq_imp_iff₂]

/-- The truth value of an instance with plain inputs. -/
theorem evalSlot_plain (hplain : ∀ i ∈ inst.inputs, i.Plain)
    (hgroups : ∀ w ∈ inst.watches, w.group < 255) (rt : SlotRuntime) :
    ∃ e, evalSlot hal s inst rt = some e ∧ (e.inst.tfState = .isTrue ↔ inst.watches = [] ∨
      ∃ g, (∃ w ∈ inst.watches, w.group = g) ∧ ∀ w ∈ inst.watches, w.group = g →
        w.op.holds ((inst.inputs.map (rawSample hal s)).getD w.inputIdx 0) w.threshold = true) := by
  unfold evalSlot
  dsimp only
  have hvals := readInputs_plain hal s hplain 0 rt
  generalize readInputs hal s 0 inst.inputs rt = r at hvals
  obtain ⟨vals, rt'⟩ := r
  have hpasses := evalWatches_plain hplain vals inst.watches 0 rt'
  dsimp only at hvals ⊢
  generalize evalWatches inst.inputs vals 0 inst.watches rt' = r at hpasses
  obtain ⟨wpass, rt''⟩ := r
  dsimp only at hpasses ⊢
  subst hvals hpasses
  obtain ⟨b, hb, hiff⟩ := ilDnfResult_watches hgroups fun w =>
    w.op.holds ((inst.inputs.map (rawSample hal s)).getD w.inputIdx 0) w.threshold
  exact ⟨_, by rw [hb]; rfl, hiff⟩

/-- The watch compares the sample of the pin that the comparison names. -/
theorem Denotes.sample {w : Watch} {x : Nat × Clause} (h : Denotes rp2040 inst w x) :
    (inst.inputs.map (rawSample hal s)).getD w.inputIdx 0 = sampleOf hal s inst x.2.label := by
  obtain ⟨-, -, -, pin, hpin, hidx⟩ := h
  obtain ⟨hlt, hfound, hfirst⟩ := List.findIdx?_eq_some_iff_getElem.mp hidx
  have hfind : inst.inputs.find? (·.physId == pin) = some inst.inputs[w.inputIdx] :=
    List.find?_eq_some_iff_getElem.mpr ⟨hfound, w.inputIdx, hlt, rfl, fun j hj => by
      simpa using hfirst j hj⟩
  simp [sampleOf, hpin, hfind, hlt]

end Evaluation

/-! ## Groups and alternatives -/

theorem mem_numbered {group k : Nat} {c : Clause} {groups : List (List Clause)} :
    (k, c) ∈ numbered group groups ↔ ∃ i cs, groups[i]? = some cs ∧ k = group + i ∧ c ∈ cs := by
  induction groups generalizing group with
  | nil => simp [numbered]
  | cons cs groups ih =>
      rw [numbered, List.mem_append, ih]
      constructor
      · rintro (hmem | ⟨i, cs', hcs', rfl, hc⟩)
        · obtain ⟨c', hc', heq⟩ := List.mem_map.mp hmem
          cases heq
          exact ⟨0, cs, rfl, rfl, hc'⟩
        · exact ⟨i + 1, cs', hcs', by omega, hc⟩
      · rintro ⟨i, cs', hcs', rfl, hc⟩
        cases i with
        | zero =>
            cases hcs'
            exact .inl (List.mem_map_of_mem hc)
        | succ i => exact .inr ⟨i, cs', hcs', by omega, hc⟩

/-- Some group passes exactly when some alternative does. -/
theorem exists_group_iff {groups : List (List Clause)} (hinhab : ∀ cs ∈ groups, cs ≠ [])
    (P : Clause → Prop) :
    (∃ g, (∃ x ∈ numbered 0 groups, x.1 = g) ∧ ∀ x ∈ numbered 0 groups, x.1 = g → P x.2) ↔
      ∃ cs ∈ groups, ∀ c ∈ cs, P c := by
  constructor
  · rintro ⟨g, ⟨⟨k, c⟩, hmem, rfl⟩, hall⟩
    obtain ⟨i, cs, hcs, rfl, hc⟩ := mem_numbered.mp hmem
    refine ⟨cs, List.mem_of_getElem? hcs, fun c' hc' => ?_⟩
    exact hall (0 + i, c') (mem_numbered.mpr ⟨i, cs, hcs, rfl, hc'⟩) rfl
  · rintro ⟨cs, hcs, hall⟩
    obtain ⟨i, hi⟩ := List.mem_iff_getElem?.mp hcs
    obtain ⟨c, hc⟩ := List.exists_mem_of_ne_nil cs (hinhab cs hcs)
    refine ⟨0 + i, ⟨(0 + i, c), mem_numbered.mpr ⟨i, cs, hi, rfl, hc⟩, rfl⟩, ?_⟩
    rintro ⟨k, c'⟩ hmem rfl
    obtain ⟨j, cs', hcs', hij, hc'⟩ := mem_numbered.mp hmem
    obtain rfl : i = j := by omega
    cases hi.symm.trans hcs'
    exact hall c' hc'

theorem exists_mem_iff_of_forall₂ {α β : Type*} {R : α → β → Prop} {P : α → Prop} {Q : β → Prop}
    {l : List α} {l' : List β} (h : List.Forall₂ R l l') (hiff : ∀ a b, R a b → (P a ↔ Q b)) :
    (∃ a ∈ l, P a) ↔ ∃ b ∈ l', Q b := by
  induction h with
  | nil => simp
  | cons hab _ ih => simp only [List.exists_mem_cons_iff, hiff _ _ hab, ih]

theorem forall_mem_iff_of_forall₂ {α β : Type*} {R : α → β → Prop} {P : α → Prop} {Q : β → Prop}
    {l : List α} {l' : List β} (h : List.Forall₂ R l l') (hiff : ∀ a b, R a b → (P a ↔ Q b)) :
    (∀ a ∈ l, P a) ↔ ∀ b ∈ l', Q b := by
  induction h with
  | nil => simp
  | cons hab _ ih => simp only [List.forall_mem_cons, hiff _ _ hab, ih]

/-- The written alternatives hold exactly when the ones that were read do. -/
theorem watchHolds_iff {sample : Text → Nat} {body : Text} {groups : List (List Clause)}
    (h : clausesOf body = groups.map (·.map some)) :
    WatchHolds sample body ↔
      ∃ cs ∈ groups, ∀ c ∈ cs, c.op.holds (sample c.label) c.value = true := by
  have hwritten : WatchHolds sample body ↔ ∃ l ∈ clausesOf body, ∀ o ∈ l,
      ∃ c, o = some c ∧ c.op.holds (sample c.label) c.value = true := by
    simp only [WatchHolds, ComparisonHolds, clausesOf, List.mem_map, exists_exists_and_eq_and,
      forall_exists_index, and_imp, forall_apply_eq_imp_iff₂]
  rw [hwritten, h]
  simp only [List.mem_map, exists_exists_and_eq_and, forall_exists_index, and_imp,
    forall_apply_eq_imp_iff₂, Option.some_inj, exists_eq_left']

/-- The parser goes through an accepted text as it is written, from an empty instance. -/
theorem ilParse_parsed {text : Text} {inst : Inst} (hparse : ilParse text = .ok inst) :
    ∃ name d, SectionsParsed rp2040 { inst := { name } } (sectionsOf text) d ∧
      finishDraft d = .ok inst := by
  obtain ⟨name, p, d, q, hname, -, hsecs, hend, hfinish⟩ := ilParseImpl_eq_ok hparse
  obtain ⟨w, hw, hword, rfl⟩ := expectIdent_eq_ok hname
  have hsame : sectionsOf (w ++ (name ++ p)) = sectionsOf p := by
    have hfield : Field name (w ++ name) := ⟨hword, w, [], hw, blank_nil, by simp⟩
    rw [← List.append_assoc, sectionsOf_append (hfield.not_mem (by decide))]
  rw [hsame]
  exact ⟨name, d, parseSections_parsed hsecs hend, hfinish⟩

/-- The parser reads an accepted text as it is written, into an empty instance. -/
theorem ilParse_reads {text : Text} {inst : Inst} (hparse : ilParse text = .ok inst) :
    ∃ start inst', start.inputs = [] ∧ start.watches = [] ∧
      SectionsRead rp2040 start (sectionsOf text) inst' ∧
      inst = { inst' with tfState := .unevaluated } := by
  obtain ⟨name, d, hparsed, hfinish⟩ := ilParse_parsed hparse
  exact ⟨{ name }, d.inst, rfl, rfl, hparsed.reads, finishDraft_eq_ok hfinish⟩

theorem numbered_ne_nil {body : Text} {groups : List (List Clause)}
    (hinhab : ∀ cs ∈ groups, cs ≠ []) (h : clausesOf body = groups.map (·.map some)) :
    numbered 0 groups ≠ [] := by
  have hgroups : groups ≠ [] := by
    rintro rfl
    exact clausesOf_ne_nil body h
  obtain ⟨cs, hcs⟩ := List.exists_mem_of_ne_nil groups hgroups
  obtain ⟨i, hi⟩ := List.mem_iff_getElem?.mp hcs
  obtain ⟨c, hc⟩ := List.exists_mem_of_ne_nil cs (hinhab cs hcs)
  exact List.ne_nil_of_mem (mem_numbered.mpr ⟨i, cs, hi, rfl, hc⟩)

/-- The meaning of an interlock text, computed by the parser and `eval_slot`. -/
theorem evalSlot_means :
    (∀ (text : Text) (inst : Inst), ilParse text = .ok inst →
      ∀ wpass, ilDnfResult inst.watches wpass ≠ none) ∧
    ∀ (text : Text) (inst : Inst) (hal : Hal) (s : Samples) (rt : SlotRuntime),
      ilParse text = .ok inst → text.length < dslMax →
      (watchBodies (sectionsOf text)).length ≤ 1 →
      (∀ sec ∈ sectionsOf text, ¬sec.Modified) →
      ∃ e, evalSlot hal s inst rt = some e ∧
        (e.inst.tfState = .isTrue ↔
          ∀ body ∈ watchBodies (sectionsOf text), WatchHolds (sampleOf hal s inst) body) := by
  refine ⟨fun text inst hparse => (ilParse_wellFormed hparse).ilDnfResult_ne_none, ?_⟩
  intro text inst hal s rt hparse _ hone hmods
  obtain ⟨start, inst', hinputs, hwatches, hread, hinst⟩ := ilParse_reads hparse
  have hplain : ∀ i ∈ inst.inputs, i.Plain := by
    rw [hinst]
    exact hread.grows.allPlain hmods (by simp [hinputs])
  have hgroups : ∀ w ∈ inst.watches, w.group < 255 :=
    fun w hw => ((ilParse_wellFormed hparse).groups w hw).trans (by decide)
  obtain ⟨e, he, htrue⟩ := evalSlot_plain hal s hplain hgroups rt
  refine ⟨e, he, htrue.trans ?_⟩
  -- with no watch body the slot holds, and with two the premise fails
  match hbodies : watchBodies (sectionsOf text) with
  | [] =>
      have hnone : inst.watches = [] := by
        rw [hinst]
        exact (hread.no_watch hbodies).trans hwatches
      simp [hnone]
  | [body] =>
      obtain ⟨groups, hden, hinhab, hclauses⟩ := hread.one_watch hbodies hwatches
      have hden : List.Forall₂ (Denotes rp2040 inst) inst.watches (numbered 0 groups) := by
        rw [hinst]
        exact hden
      rw [List.forall_mem_singleton, watchHolds_iff hclauses, ← exists_group_iff hinhab]
      -- a body has a comparison, so the disjunction over the groups decides
      have hsome : inst.watches ≠ [] := by
        intro hnil
        rw [hnil, List.forall₂_nil_left_iff] at hden
        exact numbered_ne_nil hinhab hclauses hden
      rw [or_iff_right hsome]
      refine exists_congr fun g => and_congr ?_ ?_
      · exact exists_mem_iff_of_forall₂ hden fun w x hwx => by rw [hwx.1]
      · refine forall_mem_iff_of_forall₂ hden fun w x hwx => ?_
        rw [hwx.1, hwx.2.1, hwx.2.2.1, hwx.sample hal s]
  | _ :: _ :: _ => simp [hbodies] at hone

/-- An interlock on a pin, a converter and the uptime. -/
def gateText : Text := "t;cfg[gp2:in,adc0:adc];watch[gp2:1, adc0:lt:0x200 | _uptime:gt:10]".toList

theorem evalSlot_means_gate : ∃ inst e, ilParse gateText = .ok inst ∧
    evalSlot (.boot []) ⟨fun _ => false, fun _ => 0, fun _ _ => 0, 60000, 0, 0, 0⟩ inst .clear =
      some e ∧
    (e.inst.tfState = .isTrue ↔ ∀ body ∈ watchBodies (sectionsOf gateText), WatchHolds
      (sampleOf (.boot []) ⟨fun _ => false, fun _ => 0, fun _ _ => 0, 60000, 0, 0, 0⟩ inst)
      body) := by
  obtain ⟨inst, hparse, -⟩ := exists_of_succeedsWith (x := ilParse gateText)
    (p := fun inst => inst.watches.length == 3) (by decide +kernel)
  obtain ⟨e, he, hiff⟩ := evalSlot_means.2 gateText inst (.boot [])
    ⟨fun _ => false, fun _ => 0, fun _ _ => 0, 60000, 0, 0, 0⟩ .clear hparse (by decide +kernel)
    (by decide +kernel) (by decide +kernel)
  exact ⟨inst, e, hparse, he, hiff⟩

end SlowBus.Interlock
