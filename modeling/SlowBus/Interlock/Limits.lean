import SlowBus.Interlock.Meaning

/-!
# The limits of the parser

Every loop of the parser reads a character a turn, so none of them runs out of fuel, and
what the parser accepts stays within the limits that the evaluator relies on.
-/

namespace SlowBus.Interlock

open Fallible Fields

/-! ## Every loop comes to its end -/

/-- The failure is one that the source reports. -/
def ParseFail.Reported (f : ParseFail) : Prop := f.status ≠ .unexpectedEnd

section Ends

variable {board : Board} {adcMode : Bool} {inst : Inst} {p q : Text} {α : Type}

theorem Spans.length_le {t : Text} (h : Spans p t q) : q.length ≤ p.length := by
  rw [h.eq, List.length_append]
  exact Nat.le_add_left _ _

theorem consumeChar_length {want : Char} {b : Bool} (h : consumeChar want p = (b, q)) :
    q.length + b.toNat ≤ p.length := by
  obtain ⟨w, -, rfl⟩ := consumeChar_eq h
  cases b <;> simp

theorem expectChar_length {want : Char} (h : expectChar want p = .ok q) :
    q.length < p.length := by
  obtain ⟨w, -, rfl⟩ := expectChar_eq_ok h
  simp only [List.length_append, List.length_cons]
  omega

theorem atText_reported {x : Except ParseStatus α} (h : FailsWith (· ≠ .unexpectedEnd) x) :
    FailsWith ParseFail.Reported (atText p x) := by
  cases x with
  | ok a => exact failsWith_ok a
  | error status => exact failsWith_error.mpr (h status rfl)

theorem expectIdent_reported : FailsWith ParseFail.Reported (expectIdent p) := by
  unfold expectIdent
  split
  next => exact failsWith_ok _
  next => exact failsWith_error.mpr nofun

theorem expectChar_reported {want : Char} : FailsWith ParseFail.Reported (expectChar want p) := by
  unfold expectChar
  split
  next => exact failsWith_ok _
  next => exact failsWith_error.mpr nofun

theorem expectNumber_reported : FailsWith ParseFail.Reported (expectNumber p) := by
  unfold expectNumber
  split
  next => exact failsWith_ok _
  next => exact failsWith_error.mpr nofun

theorem readPinLabels_reported (room : Nat) (labels : List Text) (p : Text) :
    FailsWith ParseFail.Reported (readPinLabels room labels p) := by
  induction room generalizing labels p with
  | zero => exact failsWith_error.mpr nofun
  | succ room ih =>
      rw [readPinLabels]
      refine expectIdent_reported.bind fun x _ => ?_
      dsimp only
      split
      next => exact ih _ _
      next => exact expectChar_reported.bind fun _ _ => failsWith_ok _

theorem readPins_reported (p : Text) : FailsWith ParseFail.Reported (readPins p) := by
  unfold readPins
  split
  next => exact readPinLabels_reported _ _ _
  next => exact expectIdent_reported.bind fun _ _ => failsWith_ok _

theorem readModifiers_reported (room : Nat) (mods : List Text) (p : Text) :
    FailsWith ParseFail.Reported (readModifiers room mods p) := by
  induction room generalizing mods p with
  | zero => exact failsWith_error.mpr nofun
  | succ room ih =>
      rw [readModifiers]
      refine expectIdent_reported.bind fun x _ => ?_
      dsimp only
      split
      next => exact failsWith_ok _
      next =>
        split_ifs
        · exact failsWith_ok _
        · exact failsWith_ok _
        · refine expectIdent_reported.bind fun y _ => ?_
          split_ifs
          · exact ih _ _
          · exact failsWith_ok _

/-! ### Checks -/

theorem modValue_reported {m stem : Text} {status : ParseStatus}
    (hstatus : status ≠ .unexpectedEnd) :
    FailsWith (· ≠ .unexpectedEnd) (modValue m stem status) := by
  unfold modValue
  split
  next => exact failsWith_ok _
  next => exact failsWith_error.mpr hstatus

theorem applyModifier_reported (g : GroupCfg) (m : Text) :
    FailsWith (· ≠ .unexpectedEnd) (applyModifier g m) := by
  unfold applyModifier
  split
  next =>
    split
    next =>
      refine (modValue_reported (by decide)).bind fun n _ => ?_
      split <;> simp
    next =>
      split
      next =>
        refine (modValue_reported (by decide)).bind fun n _ => ?_
        split <;> simp
      next =>
        split
        next => exact (modValue_reported (by decide)).bind fun n _ => failsWith_ok _
        next => split <;> simp
  next =>
    split
    next =>
      split
      next => simp
      next =>
        split
        next => simp
        next =>
          split
          next =>
            refine (modValue_reported (by decide)).bind fun n _ => ?_
            split <;> simp
          next => split_ifs <;> simp
    next => split_ifs <;> simp

theorem resolveGroup_reported (mods : List Text) :
    FailsWith (· ≠ .unexpectedEnd) (resolveGroup mods) := by
  cases mods with
  | nil => simp [resolveGroup]
  | cons m mods =>
      refine FailsWith.bind ?_ fun g _ => failsWith_foldlM applyModifier_reported mods g
      unfold resolveMode
      split_ifs <;> simp

theorem declarePin_reported (g : GroupCfg) (inst : Inst) (label : Text) :
    FailsWith (· ≠ .unexpectedEnd) (declarePin board g inst label) := by
  unfold declarePin
  split
  next => simp
  next => split_ifs <;> simp

theorem streamTail_reported (tail : Text) :
    FailsWith (· ≠ .unexpectedEnd) (streamTail tail) := by
  unfold streamTail
  split
  next => simp
  next =>
    split
    next => simp
    next => split <;> simp

theorem resolveAdcStream_reported (inst : Inst) (label : Text) :
    FailsWith (· ≠ .unexpectedEnd) (resolveAdcStream board inst label) := by
  unfold resolveAdcStream
  split
  next => simp
  next =>
    refine (streamTail_reported _).bind fun x _ => ?_
    dsimp only
    split
    next => simp
    next => split_ifs <;> simp

theorem resolveOperand_reported (inst : Inst) (label : Text) :
    FailsWith (· ≠ .unexpectedEnd) (resolveOperand board adcMode inst label) := by
  unfold resolveOperand
  split
  next => exact resolveAdcStream_reported inst label
  next =>
    split
    next =>
      split
      next => simp
      next =>
        split
        next => simp
        next => split_ifs <;> simp
    next =>
      split
      next => simp
      next => split <;> simp

theorem addClause_reported (group : Nat) (inst : Inst) (c : Clause) :
    FailsWith (· ≠ .unexpectedEnd) (addClause board adcMode group inst c) := by
  unfold addClause
  refine (resolveOperand_reported inst c.label).bind fun x _ => ?_
  dsimp only
  split_ifs <;> simp

theorem setOutput_reported (isOk : Bool) (inst : Inst) (label : Text) (val : Nat) :
    FailsWith (· ≠ .unexpectedEnd) (setOutput board isOk inst label val) := by
  unfold setOutput
  split
  next => simp
  next =>
    split
    next => simp
    next => split <;> simp

/-! ### Loops -/

/-- A turn of the loop reads at least its colon. -/
theorem parseCfg_reported {fuel : Nat} (hfuel : p.length < fuel) :
    FailsWith ParseFail.Reported (parseCfg board fuel inst p) := by
  induction fuel generalizing inst p with
  | zero => exact absurd hfuel (Nat.not_lt_zero _)
  | succ fuel ih =>
      rw [parseCfg]
      refine (readPins_reported p).bind ?_
      rintro ⟨labels, p₁⟩ hpins
      refine expectChar_reported.bind fun p₂ hcolon => ?_
      refine (readModifiers_reported 4 [] p₂).bind ?_
      rintro ⟨mods, p₃⟩ hmods
      refine (atText_reported (resolveGroup_reported mods)).bind fun g _ => ?_
      refine (atText_reported (failsWith_foldlM (declarePin_reported g) labels inst)).bind
        fun mid _ => ?_
      obtain ⟨t₁, h₁⟩ := readPins_spans hpins
      obtain ⟨t₃, h₃, -⟩ := readModifiers_spans hmods
      have hturn := h₁.length_le
      have hcolon := expectChar_length hcolon
      have hmods := h₃.length_le
      split
      next p₄ hcomma =>
        have hcomma := consumeChar_length hcomma
        exact ih (by simp only [Bool.toNat_true] at hcomma; omega)
      next => exact failsWith_ok _

theorem readOp_reported : FailsWith ParseFail.Reported (readOp p) := by
  unfold readOp
  split_ifs
  · refine expectIdent_reported.bind fun x _ => ?_
    dsimp only
    split
    next => exact failsWith_error.mpr nofun
    next => exact expectChar_reported.bind fun _ _ => failsWith_ok _
  · exact failsWith_ok _

theorem readClause_reported : FailsWith ParseFail.Reported (readClause p) :=
  expectIdent_reported.bind fun _ _ => expectChar_reported.bind fun _ _ =>
    readOp_reported.bind fun _ _ => expectNumber_reported.bind fun _ _ => failsWith_ok _

theorem parseWatch_reported {fuel group : Nat} (hfuel : p.length < fuel) :
    FailsWith ParseFail.Reported (parseWatch board adcMode fuel group inst p) := by
  induction fuel generalizing group inst p with
  | zero => exact absurd hfuel (Nat.not_lt_zero _)
  | succ fuel ih =>
      rw [parseWatch]
      refine readClause_reported.bind ?_
      rintro ⟨c, p₁⟩ hclause
      refine (atText_reported (addClause_reported group inst c)).bind fun mid _ => ?_
      obtain ⟨t, hp, -, -⟩ := readClause_eq_ok hclause
      have hturn : p₁.length ≤ p.length := by
        rw [hp, List.length_append]
        exact Nat.le_add_left _ _
      split
      next p₂ hcomma =>
        have hcomma := consumeChar_length hcomma
        exact ih (by simp only [Bool.toNat_true] at hcomma; omega)
      next p₂ hcomma =>
        have hcomma := consumeChar_length hcomma
        split
        next p₃ hbar =>
          have hbar := consumeChar_length hbar
          exact ih (by simp only [Bool.toNat_true, Bool.toNat_false] at hbar hcomma; omega)
        next => exact failsWith_ok _

theorem parseOutBlock_reported {isOk : Bool} {fuel : Nat} (hfuel : p.length < fuel) :
    FailsWith ParseFail.Reported (parseOutBlock board isOk fuel inst p) := by
  induction fuel generalizing inst p with
  | zero => exact absurd hfuel (Nat.not_lt_zero _)
  | succ fuel ih =>
      rw [parseOutBlock]
      refine expectIdent_reported.bind ?_
      rintro ⟨label, p₁⟩ hlabel
      refine expectChar_reported.bind fun p₂ hcolon => ?_
      refine expectNumber_reported.bind ?_
      rintro ⟨val, p₃⟩ hval
      refine (atText_reported (setOutput_reported isOk inst label val)).bind fun mid _ => ?_
      obtain ⟨t₁, h₁, -⟩ := expectIdent_spans hlabel
      obtain ⟨t₃, h₃⟩ := expectNumber_spans hval
      have hlabel := h₁.length_le
      have hcolon := expectChar_length hcolon
      have hval := h₃.length_le
      split
      next p₄ hcomma =>
        have hcomma := consumeChar_length hcomma
        exact ih (by simp only [Bool.toNat_true] at hcomma; omega)
      next => exact failsWith_ok _

theorem parseSection_reported {kw : Text} {d : Draft} :
    FailsWith ParseFail.Reported (parseSection board adcMode kw d p) := by
  have hfuel : p.length < p.length + 1 := Nat.lt_succ_self _
  unfold parseSection
  dsimp only
  split_ifs
  · exact (parseCfg_reported hfuel).bind fun _ _ => failsWith_ok _
  · exact (parseWatch_reported hfuel).bind fun _ _ => failsWith_ok _
  · exact (parseOutBlock_reported hfuel).bind fun _ _ => failsWith_ok _
  · exact (parseOutBlock_reported hfuel).bind fun _ _ => failsWith_ok _
  · exact failsWith_error.mpr nofun

theorem parseSections_reported {fuel : Nat} {d : Draft} (hfuel : p.length < fuel) :
    FailsWith ParseFail.Reported (parseSections board false fuel d p) := by
  induction fuel generalizing d p with
  | zero => exact absurd hfuel (Nat.not_lt_zero _)
  | succ fuel ih =>
      rw [parseSections]
      split
      next => exact failsWith_ok _
      next p₁ hsemi =>
        refine expectIdent_reported.bind ?_
        rintro ⟨kw, p₂⟩ hkw
        refine expectChar_reported.bind fun p₃ hopen => ?_
        refine parseSection_reported.bind ?_
        rintro ⟨d₁, p₄⟩ hsec
        refine expectChar_reported.bind fun p₅ hclose => ?_
        obtain ⟨t₁, h₁, -⟩ := expectIdent_spans hkw
        obtain ⟨t₂, h₂, -⟩ := parseSection_reads hsec
        have hsemi := consumeChar_length hsemi
        have hkw := h₁.length_le
        have hopen := expectChar_length hopen
        have hbody := h₂.length_le
        have hclose := expectChar_length hclose
        exact ih (by omega)

/-- No parse ends for want of fuel. -/
theorem parseMsg_reported (text : Text) :
    FailsWith ParseFail.Reported (parseMsg board false text) := by
  unfold parseMsg
  refine expectIdent_reported.bind ?_
  rintro ⟨name, p⟩ _
  dsimp only
  split
  next => exact failsWith_error.mpr nofun
  next =>
    refine (parseSections_reported (Nat.lt_succ_self _)).bind ?_
    rintro ⟨d, q⟩ _
    dsimp only
    split
    next => exact failsWith_ok _
    next => exact failsWith_error.mpr nofun

end Ends

/-! ## What is accepted stays within the limits -/

/-- The input reads a pin as a level. -/
def PinMode.IsGpio (mode : PinMode) : Prop :=
  mode = .input ∨ mode = .inputPullUp ∨ mode = .inputPullDown

/-- The limits that every edit of the parser keeps. -/
structure Inst.Limited (board : Board) (inst : Inst) : Prop where
  inputs : inst.inputs.length ≤ maxInputs
  watches : inst.watches.length ≤ maxWatches
  outputs : inst.outputs.length ≤ maxOutputs
  debounce : ∀ i ∈ inst.inputs, i.debounceDepth = 0 ∨
    2 ≤ i.debounceDepth ∧ i.debounceDepth ≤ 15 ∧ i.mode.IsGpio
  hyst : ∀ i ∈ inst.inputs, i.hyst ≠ 0 → i.mode = .adc
  virtuals : ∀ i ∈ inst.inputs, i.mode = .virtual → i.physId ∈ board.virtPins.map Prod.snd
  levels : ∀ o ∈ inst.outputs, o.okValue ≤ 1 ∧ o.errValue ≤ 1
  ordered : ∀ w ∈ inst.watches, ∃ i, inst.inputs[w.inputIdx]? = some i ∧
    (i.hyst ≠ 0 → w.op ≠ .eq ∧ w.op ≠ .ne)

section Limited

variable {board : Board} {inst inst' : Inst} {label : Text}

theorem limited_empty (name : Text) : ({ name } : Inst).Limited board where
  inputs := Nat.zero_le _
  watches := Nat.zero_le _
  outputs := Nat.zero_le _
  debounce := nofun
  hyst := nofun
  virtuals := nofun
  levels := nofun
  ordered := nofun

theorem Inst.Limited.addInput (h : inst.Limited board) {i : Input}
    (hroom : ¬ inst.inputs.length ≥ maxInputs)
    (hdebounce : i.debounceDepth = 0 ∨
      2 ≤ i.debounceDepth ∧ i.debounceDepth ≤ 15 ∧ i.mode.IsGpio)
    (hhyst : i.hyst ≠ 0 → i.mode = .adc)
    (hvirtual : i.mode = .virtual → i.physId ∈ board.virtPins.map Prod.snd) :
    { inst with inputs := inst.inputs ++ [i] }.Limited board where
  inputs := by
    rw [List.length_append]
    exact Nat.lt_of_not_le hroom
  watches := h.watches
  outputs := h.outputs
  debounce := List.forall_mem_append.mpr ⟨h.debounce, by simpa using hdebounce⟩
  hyst := List.forall_mem_append.mpr ⟨h.hyst, by simpa using hhyst⟩
  virtuals := List.forall_mem_append.mpr ⟨h.virtuals, by simpa using hvirtual⟩
  levels := h.levels
  ordered := fun w hw => by
    obtain ⟨j, hj, hordered⟩ := h.ordered w hw
    have hlt : w.inputIdx < inst.inputs.length := (List.getElem?_eq_some_iff.mp hj).1
    exact ⟨j, (List.getElem?_append_left hlt).trans hj, hordered⟩

/-- The settings of a group are those of one kind of pin. -/
structure GroupCfg.Limited (g : GroupCfg) : Prop where
  debounce : g.debounceDepth = 0 ∨ 2 ≤ g.debounceDepth ∧ g.debounceDepth ≤ 15 ∧ g.mode.IsGpio
  kind : g.mode = .adc ∨ g.mode = .output ∨ g.mode.IsGpio

theorem GroupCfg.Limited.pull {g : GroupCfg} (h : g.Limited) {mode : PinMode}
    (hmode : mode.IsGpio) : { g with mode }.Limited where
  debounce := h.debounce.imp_right fun ⟨hlow, hhigh, _⟩ => ⟨hlow, hhigh, hmode⟩
  kind := .inr (.inr hmode)

theorem applyModifier_limited {g g' : GroupCfg} {m : Text} (h : g.Limited)
    (hrun : applyModifier g m = .ok g') : g'.Limited := by
  unfold applyModifier at hrun
  split at hrun
  next =>
    -- the settings of a converter
    split at hrun
    next =>
      obtain ⟨n, -, hrun⟩ := bind_eq_ok.mp hrun
      split at hrun <;> cases hrun
      exact ⟨h.debounce, h.kind⟩
    next =>
      split at hrun
      next =>
        obtain ⟨n, -, hrun⟩ := bind_eq_ok.mp hrun
        split_ifs at hrun
        cases hrun
        exact ⟨h.debounce, h.kind⟩
      next =>
        split at hrun
        next =>
          obtain ⟨n, -, hrun⟩ := bind_eq_ok.mp hrun
          cases hrun
          exact ⟨h.debounce, h.kind⟩
        next => split_ifs at hrun
  next hadc =>
    split at hrun
    next hinput =>
      -- neither a converter nor an output, so the pull and the debounce are a GPIO's
      have hgpio : g.mode.IsGpio := by
        rcases h.kind with hkind | hkind | hkind
        · simp [GroupCfg.isAdc, hkind] at hadc
        · simp [GroupCfg.isInput, hkind] at hinput
        · exact hkind
      split at hrun
      next =>
        cases hrun
        exact h.pull (.inr (.inl rfl))
      next =>
        split at hrun
        next =>
          cases hrun
          exact h.pull (.inr (.inr rfl))
        next =>
          split at hrun
          next =>
            obtain ⟨n, -, hrun⟩ := bind_eq_ok.mp hrun
            split_ifs at hrun with hrange
            cases hrun
            rw [not_or, Nat.not_lt, Nat.not_lt] at hrange
            exact ⟨.inr ⟨hrange.1, hrange.2, hgpio⟩, h.kind⟩
          next => split_ifs at hrun
    next =>
      split_ifs at hrun
      cases hrun
      exact ⟨h.debounce, h.kind⟩

theorem resolveGroup_limited {mods : List Text} {g : GroupCfg} (hg : resolveGroup mods = .ok g) :
    g.Limited := by
  cases mods with
  | nil => cases hg
  | cons m mods =>
      obtain ⟨g₀, hmode, hmods⟩ := bind_eq_ok.mp hg
      refine foldlM_invariant (P := GroupCfg.Limited) (fun _ _ _ => applyModifier_limited) ?_ hmods
      unfold resolveMode at hmode
      split_ifs at hmode <;> cases hmode <;>
        exact ⟨.inl rfl, by simp [PinMode.IsGpio]⟩

theorem declarePin_limited {mods : List Text} {g : GroupCfg} (hg : resolveGroup mods = .ok g)
    (h : inst.Limited board) (hrun : declarePin board g inst label = .ok inst') :
    inst'.Limited board := by
  have hlimited := resolveGroup_limited hg
  unfold declarePin at hrun
  split at hrun
  next => cases hrun
  next bp _ =>
    split at hrun
    next => cases hrun
    split at hrun
    next => cases hrun
    split at hrun
    next =>
      split at hrun
      next => cases hrun
      next hroom =>
        cases hrun
        refine h.addInput hroom ?_ ?_ fun hvirtual => ?_
        · cases g.isAdc
          · exact hlimited.debounce
          · exact .inl rfl
        · cases hadc : g.isAdc
          · exact fun hne => absurd rfl hne
          · exact fun _ => by simpa [GroupCfg.isAdc] using hadc
        · exact absurd hvirtual (resolveGroup_mode hg).1
    next =>
      split at hrun
      next => cases hrun
      next hroom =>
        cases hrun
        refine { h with outputs := ?_, levels := ?_ }
        · rw [List.length_append]
          exact Nat.lt_of_not_le hroom
        · exact List.forall_mem_append.mpr ⟨h.levels, by simp⟩

theorem setOutput_limited {isOk : Bool} {val : Nat} (h : inst.Limited board)
    (hrun : setOutput board isOk inst label val = .ok inst') : inst'.Limited board := by
  unfold setOutput at hrun
  split at hrun
  next => cases hrun
  next hval =>
    split at hrun
    next => cases hrun
    split at hrun
    next => cases hrun
    next idx _ =>
      cases hrun
      refine { h with outputs := ?_, levels := fun o ho => ?_ }
      · rw [List.length_modify]
        exact h.outputs
      · obtain ⟨k, hk, rfl⟩ := List.getElem_of_mem ho
        have hold := h.levels _ (List.getElem_mem (by simpa using hk : k < inst.outputs.length))
        rw [List.getElem_modify]
        split
        next =>
          cases isOk
          · exact ⟨hold.1, Nat.le_of_not_lt hval⟩
          · exact ⟨Nat.le_of_not_lt hval, hold.2⟩
        next => exact hold

theorem resolveOperand_limited {idx : Nat} (h : inst.Limited board)
    (hrun : resolveOperand board false inst label = .ok (inst', idx)) : inst'.Limited board := by
  unfold resolveOperand at hrun
  simp only [Bool.false_eq_true, if_false] at hrun
  split at hrun
  next =>
    split at hrun
    next => cases hrun
    next virtId hvirt =>
      split at hrun
      next =>
        cases hrun
        exact h
      next =>
        split_ifs at hrun with hroom
        cases hrun
        refine h.addInput hroom (.inl rfl) (fun hne => absurd rfl hne) fun _ => ?_
        obtain ⟨entry, hentry, hid⟩ := Option.map_eq_some_iff.mp hvirt
        exact hid ▸ List.mem_map_of_mem (List.mem_of_find?_eq_some hentry)
  next =>
    split at hrun
    next => cases hrun
    split at hrun
    next =>
      cases hrun
      exact h
    next => cases hrun

theorem addClause_limited {group : Nat} {c : Clause} (h : inst.Limited board)
    (hidx : ∀ mid idx, resolveOperand board false inst c.label = .ok (mid, idx) →
      idx < mid.inputs.length)
    (hrun : addClause board false group inst c = .ok inst') : inst'.Limited board := by
  unfold addClause at hrun
  obtain ⟨⟨mid, idx⟩, hres, hrun⟩ := bind_eq_ok.mp hrun
  dsimp only at hrun
  have hmid := resolveOperand_limited h hres
  have hlt := hidx mid idx hres
  split_ifs at hrun with hordered hroom
  cases hrun
  refine { hmid with watches := ?_, ordered := ?_ }
  · rw [List.length_append]
    exact Nat.lt_of_not_le hroom
  · refine List.forall_mem_append.mpr ⟨hmid.ordered, List.forall_mem_singleton.mpr ?_⟩
    rw [List.getD_eq_getElem _ _ hlt, not_and, not_or] at hordered
    exact ⟨mid.inputs[idx], List.getElem?_eq_getElem hlt, hordered⟩

/-- What the parser accepts is within the limits. -/
theorem ilParseImpl_limited {text : Text} (hrun : ilParseImpl board false text = .ok inst) :
    inst.Limited board := by
  have hkeep : EditsKeep board false fun inst => inst.Resolved board false ∧ inst.Limited board :=
    { pin := fun hg h hrun => ⟨declarePin_resolved hg h.1 hrun, declarePin_limited hg h.2 hrun⟩
      output := fun h hrun => ⟨setOutput_resolved h.1 hrun, setOutput_limited h.2 hrun⟩
      clause := fun h _ hrun => ⟨addClause_resolved h.1 hrun, addClause_limited h.2
        (fun mid idx hres => (resolveOperand_resolved h.1 hres).2) hrun⟩ }
  refine (hkeep.ilParseImpl (fun name => ⟨?_, limited_empty name⟩) (fun inst h => ⟨?_, ?_⟩) hrun).2
  · exact ⟨nofun, nofun, fun _ => nofun, nofun, nofun⟩
  · exact ⟨h.1.inputs, h.1.hyst, h.1.stream, h.1.outputs, h.1.watches⟩
  · exact { h.2 with }

end Limited

/-! ## Well-formed instances -/

/-- What the evaluator and the claim of the pins rely on. The groups are numbered from 0
without a gap; without watches there are none. -/
structure Inst.Formed (inst : Inst) : Prop where
  inputs : inst.inputs.length ≤ maxInputs
  watches : inst.watches.length ≤ maxWatches
  outputs : inst.outputs.length ≤ maxOutputs
  indices : ∀ w ∈ inst.watches, w.inputIdx < inst.inputs.length
  distinct : (inst.inputs.map Input.physId ++ inst.outputs.map Output.physId).Nodup
  levels : ∀ o ∈ inst.outputs, o.okValue ≤ 1 ∧ o.errValue ≤ 1 ∧ o.okValue ≠ o.errValue
  debounce : ∀ i ∈ inst.inputs, i.debounceDepth = 0 ∨
    2 ≤ i.debounceDepth ∧ i.debounceDepth ≤ 15 ∧ i.mode.IsGpio
  hyst : ∀ i ∈ inst.inputs, i.hyst ≠ 0 → i.mode = .adc
  ordered : ∀ w ∈ inst.watches, ∀ i, inst.inputs[w.inputIdx]? = some i → i.hyst ≠ 0 →
    w.op ≠ .eq ∧ w.op ≠ .ne
  groups : ∃ n, ∀ g, (∃ w ∈ inst.watches, w.group = g) ↔ g < n

section Formed

variable {board : Board} {inst inst' : Inst} {text : Text}

theorem boardPinLookup_lt {label : Text} {bp : BoardPin} (h : boardPinLookup label = some bp) :
    bp.gpio < pinTableSize := by
  unfold boardPinLookup at h
  split at h
  next =>
    split at h
    next =>
      obtain ⟨k, -, h⟩ := Option.bind_eq_some_iff.mp h
      split at h
      next => cases h
      next hk =>
        cases h
        show 26 + k < 30
        omega
    next =>
      split at h
      next =>
        obtain ⟨n, -, h⟩ := Option.bind_eq_some_iff.mp h
        split at h
        next => cases h
        next hn =>
          cases h
          exact Nat.lt_of_not_le hn
      next => cases h
  next => cases h

/-- The virtual inputs have numbers that no pin has. -/
theorem distinct_of_limited (hformed : inst.WellFormed) (hresolved : inst.Resolved rp2040 false)
    (hlimited : inst.Limited rp2040) :
    (inst.inputs.map Input.physId ++ inst.outputs.map Output.physId).Nodup := by
  refine hformed.inputs.append hformed.outputs ?_
  intro pin hin hout
  obtain ⟨i, hi, rfl⟩ := List.mem_map.mp hin
  obtain ⟨o, ho, heq⟩ := List.mem_map.mp hout
  by_cases hmode : i.mode = .virtual
  · have hhigh : ∀ v ∈ rp2040.virtPins.map Prod.snd, pinTableSize ≤ v := by decide
    obtain ⟨label, bp, hlookup, hpin⟩ := hresolved.outputs o ho
    have hlow := boardPinLookup_lt hlookup
    have hhigh := hhigh _ (hlimited.virtuals i hi hmode)
    omega
  · exact hformed.disjoint i hi hmode o ho heq.symm

/-- A watch section has the groups of its alternatives. -/
theorem WatchRead.groups {groups : List (List Clause)}
    (h : WatchRead board inst inst' (numbered 0 groups)) (hinhab : ∀ cs ∈ groups, cs ≠ []) :
    ∃ new, inst'.watches = inst.watches ++ new ∧
      ∀ g, (∃ w ∈ new, w.group = g) ↔ g < groups.length := by
  obtain ⟨new, hnew, hall⟩ := h.denotes
  refine ⟨new, hnew, fun g => ?_⟩
  rw [exists_mem_iff_of_forall₂ (Q := fun x => x.1 = g) hall fun w x hwx => by rw [hwx.1]]
  constructor
  · rintro ⟨⟨k, c⟩, hmem, rfl⟩
    obtain ⟨i, cs, hcs, rfl, -⟩ := mem_numbered.mp hmem
    have hlt := (List.getElem?_eq_some_iff.mp hcs).1
    omega
  · intro hg
    have hcs := List.getElem?_eq_getElem hg
    obtain ⟨c, hc⟩ := List.exists_mem_of_ne_nil _ (hinhab _ (List.getElem_mem hg))
    exact ⟨(g, c), mem_numbered.mpr ⟨g, _, hcs, (Nat.zero_add g).symm, hc⟩, rfl⟩

theorem SectionsRead.groups {secs : List Section} (h : SectionsRead board inst secs inst') {n : Nat}
    (hgroups : ∀ g, (∃ w ∈ inst.watches, w.group = g) ↔ g < n) :
    ∃ n', ∀ g, (∃ w ∈ inst'.watches, w.group = g) ↔ g < n' := by
  induction h generalizing n with
  | nil inst => exact ⟨n, hgroups⟩
  | @cons sec secs inst mid inst' hsec _ ih =>
      by_cases hkw : sec.keyword = "watch".toList
      · obtain ⟨groups, hread, hinhab, -⟩ := hsec.watch hkw
        obtain ⟨new, hnew, hall⟩ := hread.groups hinhab
        refine ih (n := max n groups.length) fun g => ?_
        rw [hnew, lt_max_iff, ← hgroups g, ← hall g]
        simp only [List.mem_append, or_and_right, exists_or]
      · exact ih (hsec.others hkw ▸ hgroups)

theorem finishDraft_levels {d : Draft} (hrun : finishDraft d = .ok inst) :
    ∀ o ∈ inst.outputs, o.okValue ≠ o.errValue := by
  obtain rfl := finishDraft_eq_ok hrun
  intro o ho heq
  have hany : (d.inst.outputs.any fun o => o.okValue == o.errValue) = true :=
    List.any_eq_true.mpr ⟨o, ho, by simpa using heq⟩
  have hpos : d.inst.outputs.length > 0 := List.length_pos_of_mem ho
  unfold finishDraft at hrun
  rw [if_pos hpos, if_pos hany] at hrun
  split_ifs at hrun

/-- Every instance that `il_parse` returns is well formed. -/
theorem formed_of_ilParse (hrun : ilParse text = .ok inst) : inst.Formed := by
  have hformed := ilParse_wellFormed hrun
  have hresolved := ilParseImpl_resolved hrun
  have hlimited := ilParseImpl_limited hrun
  obtain ⟨name, p, d, q, -, -, -, -, hfinish⟩ := ilParseImpl_eq_ok hrun
  obtain ⟨start, inst', -, hwatches, hread, hinst⟩ := ilParse_reads hrun
  obtain ⟨n, hgroups⟩ := hread.groups (n := 0) fun g => by simp [hwatches]
  exact
    { inputs := hlimited.inputs
      watches := hlimited.watches
      outputs := hlimited.outputs
      indices := hresolved.watches
      distinct := distinct_of_limited hformed hresolved hlimited
      levels := fun o ho => ⟨(hlimited.levels o ho).1, (hlimited.levels o ho).2,
        finishDraft_levels hfinish o ho⟩
      debounce := hlimited.debounce
      hyst := hlimited.hyst
      ordered := fun w hw i hi => by
        obtain ⟨j, hj, hordered⟩ := hlimited.ordered w hw
        cases hj.symm.trans hi
        exact hordered
      groups := ⟨n, by rw [hinst]; exact hgroups⟩ }

end Formed

end SlowBus.Interlock
