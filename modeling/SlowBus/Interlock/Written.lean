import SlowBus.Interlock.Limits

/-!
# Numerals and levels as written

The numerals of an interlock text with the values they denote, of any size, and the levels
that its output sections write. The parser takes them modulo 2^16, and what it keeps of a
pin is what was written last.
-/

namespace SlowBus.Interlock

open Fallible Fields

/-! ## Numerals -/

/-- The value that a decimal or hexadecimal numeral denotes. -/
def numeralValue (t : Text) : Nat :=
  match t with
  | '0' :: 'x' :: ds => digitsValue 16 (fun c => (hexDigit c).getD 0) ds
  | '0' :: 'X' :: ds => digitsValue 16 (fun c => (hexDigit c).getD 0) ds
  | ds => digitsValue 10 (fun c => c.toNat - '0'.toNat) ds

/-- The value that is written in a comparison, its last field. -/
def writtenValue (t : Text) : Nat := numeralValue (((t.splitOn ':').map strip).getLastD [])

/-- The thresholds of the watch sections, in order. -/
def writtenThresholds (secs : List Section) : List Nat :=
  (watchBodies secs).flatMap fun body => (alternatives body).flatten.map writtenValue

/-- A level as written, `pin:value`. -/
def levelOf (t : Text) : Option (Text × Nat) :=
  match (t.splitOn ':').map strip with
  | [pin, value] => some (pin, numeralValue value)
  | _ => none

/-- The keyword of the section with the one or the other level. -/
def outKeyword (isOk : Bool) : Text := if isOk then "out_ok".toList else "out_err".toList

/-- The levels of one section. -/
def Section.levels (isOk : Bool) (sec : Section) : List (Text × Nat) :=
  if sec.keyword = outKeyword isOk then (sec.body.splitOn ',').filterMap levelOf else []

/-- The levels of all sections, in order. -/
def writtenLevels (isOk : Bool) (secs : List Section) : List (Text × Nat) :=
  secs.flatMap (Section.levels isOk)

/-- The label names the pin. -/
def Board.names (board : Board) (pin : Nat) (label : Text) : Bool :=
  (board.pinLookup label).map BoardPin.gpio == some pin

/-- The value that is written last for a pin. -/
def lastLevel (board : Board) (es : List (Text × Nat)) (pin : Nat) : Option Nat :=
  ((es.filter fun e => board.names pin e.1).getLast?).map Prod.snd

section Numerals

variable {board : Board} {inst inst' : Inst} {p q : Text}

theorem numeral_eq (t : Text) : numeral t = numeralValue t % 2 ^ 16 := by
  unfold numeral
  split
  next => rfl
  next => rfl
  next hx hX =>
    unfold numeralValue
    split
    next ds => exact (hx ds rfl).elim
    next ds => exact (hX ds rfl).elim
    next => rfl

theorem comparisonOf_value {t : Text} {c : Clause} (h : comparisonOf t = some c) :
    c.value = writtenValue t % 2 ^ 16 := by
  unfold comparisonOf at h
  unfold writtenValue
  split at h
  next pin value heq =>
    cases h
    rw [heq]
    exact numeral_eq value
  next pin op value heq =>
    obtain ⟨o, -, rfl⟩ := Option.map_eq_some_iff.mp h
    rw [heq]
    exact numeral_eq value
  next => cases h

theorem numbered_snd (group : Nat) (groups : List (List Clause)) :
    (numbered group groups).map Prod.snd = groups.flatten := by
  induction groups generalizing group with
  | nil => rfl
  | cons cs groups ih => simp [numbered, ih]

/-- The thresholds that a watch section adds. -/
theorem WatchRead.thresholds {groups : List (List Clause)} {body : Text}
    (h : WatchRead board inst inst' (numbered 0 groups))
    (hclauses : clausesOf body = groups.map (·.map some)) :
    inst'.watches.map Watch.threshold = inst.watches.map Watch.threshold ++
      ((alternatives body).flatten.map writtenValue).map (· % 2 ^ 16) := by
  obtain ⟨new, hnew, hall⟩ := h.denotes
  have hvalues : new.map Watch.threshold = (numbered 0 groups).map (·.2.value) :=
    List.forall₂_eq_eq_eq ▸ List.forall₂_map_left_iff.mpr
      (List.forall₂_map_right_iff.mpr (hall.imp fun _ _ hwx => hwx.2.2.1))
  have hwritten : ((alternatives body).flatten.map comparisonOf) = groups.flatten.map some := by
    have hflat := congrArg List.flatten hclauses
    simpa only [clausesOf, ← List.map_flatten] using hflat
  have hsame : groups.flatten.map Clause.value =
      ((alternatives body).flatten.map writtenValue).map (· % 2 ^ 16) := by
    have hforall : List.Forall₂ (fun t c => comparisonOf t = some c) (alternatives body).flatten
        groups.flatten := by
      rw [← List.forall₂_map_left_iff (R := fun o c => o = some c), hwritten,
        List.forall₂_map_left_iff]
      exact List.forall₂_same.mpr fun c _ => rfl
    rw [List.map_map, ← List.forall₂_eq_eq_eq, List.forall₂_map_left_iff,
      List.forall₂_map_right_iff]
    exact hforall.flip.imp fun c t ht => comparisonOf_value ht
  rw [hnew, List.map_append, hvalues, ← hsame, ← numbered_snd 0 groups, List.map_map]
  rfl

theorem SectionsRead.thresholds {secs : List Section} (h : SectionsRead board inst secs inst') :
    inst'.watches.map Watch.threshold = inst.watches.map Watch.threshold ++
      (writtenThresholds secs).map (· % 2 ^ 16) := by
  induction h with
  | nil inst => simp [writtenThresholds, watchBodies]
  | @cons sec secs inst mid inst' hsec _ ih =>
      unfold writtenThresholds at ih ⊢
      by_cases hkw : sec.keyword = "watch".toList
      · obtain ⟨groups, hread, -, hclauses⟩ := hsec.watch hkw
        rw [ih, hread.thresholds hclauses, watchBodies_cons_of_watch hkw, List.flatMap_cons,
          List.map_append, List.append_assoc]
      · rw [ih, hsec.others hkw, watchBodies_cons_of_ne hkw]

end Numerals

/-! ## Levels -/

section LastLevel

variable {board : Board} {es : List (Text × Nat)} {pin v : Nat}

theorem lastLevel_concat (e : Text × Nat) : lastLevel board (es ++ [e]) pin =
    if board.names pin e.1 then some e.2 else lastLevel board es pin := by
  unfold lastLevel
  rw [List.filter_append]
  by_cases hnames : board.names pin e.1 = true <;> simp [hnames]

theorem lastLevel_eq_none : lastLevel board es pin = none ↔
    ∀ e ∈ es, board.names pin e.1 = false := by
  simp [lastLevel]

theorem mem_of_lastLevel (h : lastLevel board es pin = some v) :
    ∃ e ∈ es, board.names pin e.1 = true ∧ e.2 = v := by
  obtain ⟨e, hlast, rfl⟩ := Option.map_eq_some_iff.mp h
  obtain ⟨he, hnames⟩ := List.mem_filter.mp (List.mem_of_getLast? hlast)
  exact ⟨e, he, hnames, rfl⟩

end LastLevel

/-- The level of an output. -/
def Output.level (isOk : Bool) (o : Output) : Nat := if isOk then o.okValue else o.errValue

/-- The outputs have the levels that were last written for them, or 0, and all that was
written is for one of them. -/
structure Inst.Leveled (board : Board) (inst : Inst) (written : Bool → List (Text × Nat)) :
    Prop where
  distinct : (inst.outputs.map Output.physId).Nodup
  level : ∀ o ∈ inst.outputs, ∀ isOk,
    o.level isOk = (lastLevel board (written isOk) o.physId).getD 0 % 2 ^ 16
  named : ∀ isOk, ∀ e ∈ written isOk,
    ∃ pin ∈ inst.outputs.map Output.physId, board.names pin e.1 = true
  fits : ∀ isOk, ∀ e ∈ written isOk, e.2 % 2 ^ 16 ≤ 1

section Levels

variable {board : Board} {inst inst' : Inst} {p q label : Text}
  {written : Bool → List (Text × Nat)}

theorem leveled_empty (name : Text) : ({ name } : Inst).Leveled board fun _ => [] where
  distinct := .nil
  level := nofun
  named := nofun
  fits := nofun

/-- Only the outputs matter. -/
theorem Inst.Leveled.congr (h : inst.Leveled board written) (heq : inst'.outputs = inst.outputs) :
    inst'.Leveled board written :=
  ⟨heq ▸ h.distinct, heq ▸ h.level, heq ▸ h.named, h.fits⟩

theorem Board.names_inj {pin pin' : Nat} (h : board.names pin label = true)
    (h' : board.names pin' label = true) : pin = pin' := by
  rw [Board.names, beq_iff_eq] at h h'
  exact Option.some_inj.mp (h.symm.trans h')

/-- Nothing was written for a pin before it is declared. -/
theorem declarePin_leveled {g : GroupCfg} (h : inst.Leveled board written)
    (hrun : declarePin board g inst label = .ok inst') : inst'.Leveled board written := by
  unfold declarePin at hrun
  split at hrun
  next => cases hrun
  next bp hbp =>
    split at hrun
    next => cases hrun
    split at hrun
    next => cases hrun
    next hout =>
      split at hrun
      next =>
        split at hrun
        next => cases hrun
        next =>
          cases hrun
          exact h.congr rfl
      next =>
        split at hrun
        next => cases hrun
        next =>
          cases hrun
          rw [Bool.not_eq_true, Option.isSome_eq_false_iff, Option.isNone_iff_eq_none,
            findOutputIdx_eq_none] at hout
          -- a level written for the pin would name an output declared before
          have hnone : ∀ isOk, lastLevel board (written isOk) bp.gpio = none := by
            intro isOk
            rw [lastLevel_eq_none]
            intro e he
            by_contra hnames
            obtain ⟨pin, hpin, hnames'⟩ := h.named isOk e he
            exact hout (Board.names_inj hnames' (Bool.of_not_eq_false hnames) ▸ hpin)
          refine ⟨?_, ?_, fun isOk e he => ?_, h.fits⟩
          · rw [List.map_append]
            exact h.distinct.append (List.nodup_singleton _) (List.disjoint_singleton.mpr hout)
          · refine List.forall_mem_append.mpr
              ⟨h.level, List.forall_mem_singleton.mpr fun isOk => ?_⟩
            rw [hnone]
            cases isOk <;> rfl
          · obtain ⟨pin, hpin, hnames⟩ := h.named isOk e he
            rw [List.map_append]
            exact ⟨pin, List.mem_append_left _ hpin, hnames⟩

/-- What is written for a pin becomes its level. -/
theorem setOutput_leveled {isOk : Bool} {v : Nat} (h : inst.Leveled board written)
    (hrun : setOutput board isOk inst label (v % 2 ^ 16) = .ok inst') :
    inst'.Leveled board (Function.update written isOk (written isOk ++ [(label, v)])) := by
  have hsame := setOutput_physIds hrun
  unfold setOutput at hrun
  split at hrun
  next => cases hrun
  next hval =>
    split at hrun
    next => cases hrun
    next bp hbp =>
      split at hrun
      next => cases hrun
      next idx hidx =>
        cases hrun
        obtain ⟨hlt, hfound, -⟩ := List.findIdx?_eq_some_iff_getElem.mp hidx
        have hpin : inst.outputs[idx].physId = bp.gpio := by simpa using hfound
        have hnames : board.names bp.gpio label = true := by simp [Board.names, hbp]
        refine ⟨hsame ▸ h.distinct, fun o ho b => ?_, fun b e he => ?_, fun b e he => ?_⟩
        · obtain ⟨k, hk, rfl⟩ := List.getElem_of_mem ho
          have hold : k < inst.outputs.length := by simpa using hk
          have hlevel := h.level _ (List.getElem_mem hold) b
          rw [List.getElem_modify]
          by_cases hb : b = isOk
          · subst hb
            -- the new entry is the last one for the pins it names, which is the output found
            rw [Function.update_self, lastLevel_concat]
            split
            next hk =>
              subst hk
              cases b <;> simp [Output.level, hpin, hnames]
            next hk =>
              rw [if_neg fun hnames' => hk ?_]
              · exact hlevel
              · have hlt' : idx < (inst.outputs.map Output.physId).length := by simpa using hlt
                have hold' : k < (inst.outputs.map Output.physId).length := by simpa using hold
                have hsamePin : (inst.outputs.map Output.physId)[idx] =
                    (inst.outputs.map Output.physId)[k] := by
                  simpa using hpin.trans (Board.names_inj hnames hnames')
                exact h.distinct.getElem_inj_iff.mp hsamePin
          · rw [Function.update_of_ne hb]
            split
            next =>
              cases b <;> cases isOk <;> first | exact absurd rfl hb | exact hlevel
            next => exact hlevel
        · rw [hsame]
          by_cases hb : b = isOk
          · subst hb
            rw [Function.update_self] at he
            rcases List.mem_append.mp he with he | he
            · exact h.named b e he
            · obtain rfl := List.mem_singleton.mp he
              exact ⟨bp.gpio, hpin ▸ List.mem_map_of_mem (List.getElem_mem hlt), hnames⟩
          · rw [Function.update_of_ne hb] at he
            exact h.named b e he
        · by_cases hb : b = isOk
          · subst hb
            rw [Function.update_self] at he
            rcases List.mem_append.mp he with he | he
            · exact h.fits b e he
            · obtain rfl := List.mem_singleton.mp he
              exact Nat.le_of_not_lt hval
          · rw [Function.update_of_ne hb] at he
            exact h.fits b e he

theorem setOutputs_leveled {isOk : Bool} {es : List (Text × Nat)}
    (h : inst.Leveled board written)
    (hrun : es.foldlM (fun inst e => setOutput board isOk inst e.1 (e.2 % 2 ^ 16)) inst =
      .ok inst') :
    inst'.Leveled board (Function.update written isOk (written isOk ++ es)) := by
  induction es generalizing inst written with
  | nil =>
      cases hrun
      simpa using h
  | cons e es ih =>
      rw [List.foldlM_cons] at hrun
      obtain ⟨mid, hmid, hrun⟩ := bind_eq_ok.mp hrun
      have hrest := ih (setOutput_leveled h hmid) hrun
      rw [Function.update_self, Function.update_idem, List.append_assoc] at hrest
      exact hrest

/-- The parser reads a level as it is written. -/
theorem readLevel_eq_ok {p₁ p₂ p₃ : Text} {val : Nat} (hlabel : expectIdent p = .ok (label, p₁))
    (hcolon : expectChar ':' p₁ = .ok p₂) (hval : expectNumber p₂ = .ok (val, p₃)) :
    ∃ t v, p = t ++ p₃ ∧ t.Disjoint clauseEnds ∧ val = v % 2 ^ 16 ∧
      ∀ w, Blank w → levelOf (t ++ w) = some (label, v) := by
  obtain ⟨w₁, hw₁, hword, rfl⟩ := expectIdent_eq_ok hlabel
  obtain ⟨w₂, hw₂, rfl⟩ := expectChar_eq_ok hcolon
  obtain ⟨w₃, ds, hw₃, hds, rfl, hnum⟩ := expectNumber_eq_ok hval
  have hpin : Field label (w₁ ++ (label ++ w₂)) := ⟨hword, w₁, w₂, hw₁, hw₂, rfl⟩
  have hvalue : Field ds (w₃ ++ (ds ++ [])) := ⟨hds, w₃, [], hw₃, blank_nil, rfl⟩
  refine ⟨(w₁ ++ (label ++ w₂)) ++ ':' :: (w₃ ++ (ds ++ [])), numeralValue ds, by simp, ?_, ?_,
    fun w hw => ?_⟩
  · exact disjoint_append_cons (hpin.disjoint clauseEnds_subset) (by decide)
      (hvalue.disjoint clauseEnds_subset)
  · rw [← hnum, numeral_eq]
  · have hfields := hvalue.append hw
    unfold levelOf
    rw [List.append_assoc, List.cons_append,
      List.splitOn_append_cons_self_of_not_mem (hpin.not_mem (by decide)),
      List.splitOn_eq_singleton (hfields.not_mem (by decide))]
    simp only [List.map_cons, List.map_nil, hpin.strip_eq, hfields.strip_eq]

/-- The parser reads an output section as it is written. -/
theorem parseOutBlock_reads {isOk : Bool} {fuel : Nat}
    (hrun : parseOutBlock board isOk fuel inst p = .ok (inst', q)) :
    ∃ t es, Spans p t q ∧
      es.foldlM (fun inst e => setOutput board isOk inst e.1 (e.2 % 2 ^ 16)) inst = .ok inst' ∧
      ∀ w, Blank w → ((t ++ w).splitOn ',').filterMap levelOf = es := by
  induction fuel generalizing inst p with
  | zero => cases hrun
  | succ fuel ih =>
      rw [parseOutBlock] at hrun
      obtain ⟨⟨label, p₁⟩, hlabel, hrun⟩ := bind_eq_ok.mp hrun
      obtain ⟨p₂, hcolon, hrun⟩ := bind_eq_ok.mp hrun
      obtain ⟨⟨val, p₃⟩, hval, hrun⟩ := bind_eq_ok.mp hrun
      obtain ⟨mid, hmid, hrun⟩ := bind_eq_ok.mp hrun
      obtain ⟨t₁, v, hp, hends, hv, hlevel⟩ := readLevel_eq_ok hlabel hcolon hval
      have hset := hv ▸ atText_eq_ok.mp hmid
      have hpad : ∀ {w}, Blank w → (t₁ ++ w).Disjoint clauseEnds := fun hw =>
        List.disjoint_append_left.mpr ⟨hends, hw.disjoint clauseEnds_subset⟩
      have hinside : ∀ {w}, Blank w → (t₁ ++ w).Disjoint bodyEnds := fun hw =>
        List.disjoint_of_subset_right (by decide) (hpad hw)
      -- no comma inside a level, so the block splits at the commas read
      have hcommas : ∀ {w}, Blank w → ',' ∉ t₁ ++ w := fun hw hc => hpad hw hc (by decide)
      split at hrun
      next p₄ hcomma =>
        obtain ⟨w₁, hw₁, hp₃⟩ := consumeChar_eq hcomma
        obtain ⟨t₂, es, hspan, hsets, hlevels⟩ := ih hrun
        refine ⟨t₁ ++ w₁ ++ ',' :: t₂, (label, v) :: es, ⟨?_, ?_⟩, ?_, fun w hw => ?_⟩
        · rw [hp, hp₃, hspan.eq]
          simp
        · exact disjoint_append_cons (hinside hw₁) (by decide) hspan.inside
        · rw [List.foldlM_cons]
          exact bind_eq_ok.mpr ⟨mid, hset, hsets⟩
        · rw [List.append_assoc, List.cons_append,
            List.splitOn_append_cons_self_of_not_mem (hcommas hw₁),
            List.filterMap_cons_some (hlevel w₁ hw₁), hlevels w hw]
      next p₄ hcomma =>
        cases hrun
        obtain ⟨w₁, hw₁, hp₃⟩ := consumeChar_eq hcomma
        refine ⟨t₁ ++ w₁, [(label, v)], ⟨?_, hinside hw₁⟩, ?_, fun w hw => ?_⟩
        · rw [hp, hp₃]
          simp
        · rw [List.foldlM_cons]
          exact bind_eq_ok.mpr ⟨_, hset, rfl⟩
        · rw [List.append_assoc, List.splitOn_eq_singleton (hcommas (hw₁.append hw)),
            List.filterMap_cons_some (hlevel _ (hw₁.append hw)), List.filterMap_nil]

theorem Section.levels_of_ne {isOk : Bool} {sec : Section}
    (h : sec.keyword ≠ outKeyword isOk) : sec.levels isOk = [] := if_neg h

/-- An output section adds its levels to those of its kind. -/
theorem outBlock_leveled (isOk : Bool) {fuel : Nat} {t w : Text}
    (h : inst.Leveled board written) (hspan : Spans p t q) (hw : Blank w)
    (hrun : parseOutBlock board isOk fuel inst p = .ok (inst', q)) :
    inst'.Leveled board fun b => written b ++ Section.levels b ⟨outKeyword isOk, t ++ w⟩ := by
  obtain ⟨t', es, hspan', hsets, hlevels⟩ := parseOutBlock_reads hrun
  obtain rfl := List.append_cancel_right (hspan.eq.symm.trans hspan'.eq)
  have hkeywords : ∀ b, b ≠ isOk → outKeyword isOk ≠ outKeyword b := by
    intro b hb
    cases b <;> cases isOk <;> first | exact absurd rfl hb | decide
  have hsame : (fun b => written b ++ Section.levels b ⟨outKeyword isOk, t ++ w⟩) =
      Function.update written isOk (written isOk ++ es) := by
    funext b
    by_cases hb : b = isOk
    · subst hb
      rw [Function.update_self, Section.levels, if_pos rfl, hlevels w hw]
    · rw [Function.update_of_ne hb, Section.levels_of_ne (hkeywords b hb), List.append_nil]
  rw [hsame]
  exact setOutputs_leveled h hsets

/-- One section. -/
theorem parseSection_leveled {kw t w : Text} {d d' : Draft} (h : d.inst.Leveled board written)
    (hspan : Spans p t q) (hw : Blank w)
    (hrun : parseSection board false kw d p = .ok (d', q)) :
    d'.inst.Leveled board fun b => written b ++ Section.levels b ⟨kw, t ++ w⟩ := by
  have hother : ∀ {inst' : Inst}, (∀ b, kw ≠ outKeyword b) → inst'.Leveled board written →
      inst'.Leveled board fun b => written b ++ Section.levels b ⟨kw, t ++ w⟩ := by
    intro inst' hkw h'
    have hsame : (fun b => written b ++ Section.levels b ⟨kw, t ++ w⟩) = written := by
      funext b
      rw [Section.levels_of_ne (hkw b), List.append_nil]
    rwa [hsame]
  unfold parseSection at hrun
  dsimp only at hrun
  split_ifs at hrun with hcfg hwatch hok herr
  all_goals
    obtain ⟨⟨inst', p₁⟩, hbody, hrun⟩ := bind_eq_ok.mp hrun
    cases hrun
  · refine hother (fun b => ?_) ?_
    · rw [hcfg]
      cases b <;> decide
    · exact parseCfg_keeps (P := fun inst => inst.Leveled board written)
        (fun _ h hpin => declarePin_leveled h hpin) h hbody
  · refine hother (fun b => ?_) ?_
    · rw [hwatch]
      cases b <;> decide
    · exact parseWatch_keeps (P := fun inst => inst.Leveled board written)
        (fun h _ hclause => h.congr (addClause_outputs hclause)) h (Nat.zero_le _) hbody
  · rw [hok]
    exact outBlock_leveled true h hspan hw hbody
  · rw [herr]
    exact outBlock_leveled false h hspan hw hbody

theorem SectionsParsed.leveled {secs : List Section} {d d' : Draft}
    (h : SectionsParsed board d secs d') (hstart : d.inst.Leveled board written) :
    d'.inst.Leveled board fun b => written b ++ writtenLevels b secs := by
  induction h generalizing written with
  | nil d => simpa [writtenLevels] using hstart
  | cons hsec hspan hw _ ih =>
      have hrest := ih (parseSection_leveled hstart hspan hw hsec)
      simpa only [writtenLevels, List.flatMap_cons, List.append_assoc] using hrest

end Levels

/-! ## Accepted texts -/

section Accepted

variable {text : Text} {inst : Inst}

/-- The thresholds of an accepted text. -/
theorem ilParse_thresholds (hparse : ilParse text = .ok inst) :
    inst.watches.map Watch.threshold =
      (writtenThresholds (sectionsOf text)).map (· % 2 ^ 16) := by
  obtain ⟨start, inst', -, hwatches, hread, rfl⟩ := ilParse_reads hparse
  simpa [hwatches] using hread.thresholds

/-- The levels of an accepted text. -/
theorem ilParse_leveled (hparse : ilParse text = .ok inst) :
    inst.Leveled rp2040 fun isOk => writtenLevels isOk (sectionsOf text) := by
  obtain ⟨name, d, hparsed, hfinish⟩ := ilParse_parsed hparse
  obtain rfl := finishDraft_eq_ok hfinish
  exact (hparsed.leveled (leveled_empty name)).congr rfl

end Accepted

end SlowBus.Interlock
