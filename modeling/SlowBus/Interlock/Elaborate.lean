import SlowBus.Interlock.Meaning
import SlowBus.Interlock.Print

/-!
# Scripts that are accepted

When the pins of a script are known to the board and differ, its comparisons are of inputs,
its levels are those of its outputs, and nothing exceeds the room for it, the script is
accepted. The instance has the inputs and the outputs as they are declared, and a watch for
every comparison.
-/

namespace SlowBus.Interlock

open Fallible

variable {board : Board} {inst : Inst}

/-! ## Pins -/

/-- What a pin group with one label adds to an instance. -/
inductive PinDecl where
  | input (i : Input)
  | output (o : Output)
  deriving DecidableEq, Repr

def PinDecl.phys : PinDecl → Nat
  | .input i => i.physId
  | .output o => o.physId

def PinDecl.isInput : PinDecl → Bool
  | .input _ => true
  | .output _ => false

def Inst.declare (inst : Inst) : PinDecl → Inst
  | .input i => { inst with inputs := inst.inputs ++ [i] }
  | .output o => { inst with outputs := inst.outputs ++ [o] }

/-- The input that settings make of a pin. -/
def GroupCfg.inputAt (g : GroupCfg) (phys : Nat) : Input where
  physId := phys
  mode := g.mode
  oversampleExp := if g.isAdc then g.oversampleExp else 0
  shCyc := if g.isAdc then g.shCyc else 0
  debounceDepth := if g.isAdc then 0 else g.debounceDepth
  hyst := if g.isAdc then g.hyst else 0

def GroupCfg.declAt (g : GroupCfg) (phys : Nat) : PinDecl :=
  if g.isInput then .input (g.inputAt phys)
  else .output { physId := phys, openDrain := g.openDrain }

/-- The group is of one pin of the board, and declares it so. -/
def Declares (board : Board) (g : CfgGroup) (d : PinDecl) : Prop :=
  ∃ label settings bp, g.labels = [label] ∧ resolveGroup g.mods = .ok settings ∧
    board.pinLookup label = some bp ∧ d = settings.declAt bp.gpio

/-- The identifiers of the pins of an instance. -/
def Inst.pins (inst : Inst) : List Nat :=
  inst.inputs.map Input.physId ++ inst.outputs.map Output.physId

theorem findInputIdx_of_not_mem {phys : Nat} (h : phys ∉ inst.pins) :
    findInputIdx inst phys = none := by
  apply List.findIdx?_eq_none_iff.mpr
  intro i hi
  apply beq_eq_false_iff_ne.mpr
  rintro rfl
  exact h (List.mem_append_left _ (List.mem_map_of_mem hi))

theorem findOutputIdx_of_not_mem {phys : Nat} (h : phys ∉ inst.pins) :
    findOutputIdx inst phys = none := by
  apply List.findIdx?_eq_none_iff.mpr
  intro o ho
  apply beq_eq_false_iff_ne.mpr
  rintro rfl
  exact h (List.mem_append_right _ (List.mem_map_of_mem ho))

theorem pins_declare (inst : Inst) (d : PinDecl) :
    (inst.declare d).pins.Perm (inst.pins ++ [d.phys]) := by
  cases d with
  | input i =>
      simp only [Inst.declare, Inst.pins, PinDecl.phys, List.map_append, List.map_cons,
        List.map_nil, List.append_assoc]
      exact (List.perm_append_comm).append_left _
  | output o =>
      simp only [Inst.declare, Inst.pins, PinDecl.phys, List.map_append, List.map_cons,
        List.map_nil, List.append_assoc]
      exact List.Perm.refl _

/-- A pin of its own is declared while there is room for it. -/
theorem declareGroup_eq {g : CfgGroup} {d : PinDecl} (h : Declares board g d)
    (hnew : d.phys ∉ inst.pins) (hinputs : (inst.declare d).inputs.length ≤ maxInputs)
    (houtputs : (inst.declare d).outputs.length ≤ maxOutputs) :
    declareGroup board inst g = .ok (inst.declare d) := by
  obtain ⟨label, settings, bp, hlabels, hmods, hlookup, rfl⟩ := h
  have hphys : (settings.declAt bp.gpio).phys = bp.gpio := by
    unfold GroupCfg.declAt
    split <;> rfl
  rw [hphys] at hnew
  rw [declareGroup, hmods, ok_bind, hlabels, List.foldlM_cons]
  have hpin : declarePin board settings inst label =
      .ok (inst.declare (settings.declAt bp.gpio)) := by
    unfold declarePin
    rw [hlookup]
    dsimp only
    rw [findInputIdx_of_not_mem hnew, findOutputIdx_of_not_mem hnew, if_neg (by simp),
      if_neg (by simp)]
    unfold GroupCfg.declAt at hinputs houtputs ⊢
    split
    next hin =>
      rw [if_pos hin, Inst.declare, List.length_append, List.length_singleton] at hinputs
      rw [if_neg (by omega)]
      rfl
    next hout =>
      rw [if_neg hout, Inst.declare, List.length_append, List.length_singleton] at houtputs
      rw [if_neg (by omega)]
      rfl
  rw [hpin]
  rfl

theorem declare_inputs_le (inst : Inst) (d : PinDecl) :
    inst.inputs.length ≤ (inst.declare d).inputs.length ∧
      inst.outputs.length ≤ (inst.declare d).outputs.length := by
  cases d <;> simp [Inst.declare]

theorem foldl_declare_le (inst : Inst) (ds : List PinDecl) :
    inst.inputs.length ≤ (ds.foldl Inst.declare inst).inputs.length ∧
      inst.outputs.length ≤ (ds.foldl Inst.declare inst).outputs.length := by
  induction ds generalizing inst with
  | nil => exact ⟨le_rfl, le_rfl⟩
  | cons d ds ih =>
      obtain ⟨hin, hout⟩ := declare_inputs_le inst d
      exact ⟨hin.trans (ih _).1, hout.trans (ih _).2⟩

/-- Pins that differ are declared one after the other. -/
theorem declareGroups_eq {groups : List CfgGroup} {ds : List PinDecl}
    (h : List.Forall₂ (Declares board) groups ds)
    (hnew : (inst.pins ++ ds.map PinDecl.phys).Nodup)
    (hinputs : (ds.foldl Inst.declare inst).inputs.length ≤ maxInputs)
    (houtputs : (ds.foldl Inst.declare inst).outputs.length ≤ maxOutputs) :
    groups.foldlM (declareGroup board) inst = .ok (ds.foldl Inst.declare inst) := by
  induction h generalizing inst with
  | nil => rfl
  | @cons g d groups ds hg _ ih =>
      obtain ⟨hroom, hroom'⟩ := foldl_declare_le (inst.declare d) ds
      rw [List.map_cons] at hnew
      have hfresh : d.phys ∉ inst.pins := fun hmem =>
        (List.nodup_append.mp hnew).2.2 _ hmem _ List.mem_cons_self rfl
      rw [List.foldlM_cons, declareGroup_eq hg hfresh (hroom.trans hinputs)
        (hroom'.trans houtputs), ok_bind, List.foldl_cons]
      refine ih ?_ hinputs houtputs
      refine (List.Perm.nodup_iff ?_).mp hnew
      rw [List.append_cons]
      exact ((pins_declare inst d).append_right _).symm

/-! ## Comparisons -/

/-- The comparison is of an input that is compared as it is. -/
def Readable (board : Board) (inst : Inst) (c : Clause) : Prop :=
  peek c.label ≠ '_' ∧ ∃ bp idx i, board.pinLookup c.label = some bp ∧
    findInputIdx inst bp.gpio = some idx ∧ inst.inputs[idx]? = some i ∧ i.hyst = 0

theorem exists_input {phys : Nat} (hmem : ∃ i ∈ inst.inputs, i.physId = phys)
    (hplain : ∀ i ∈ inst.inputs, i.hyst = 0) :
    ∃ idx i, findInputIdx inst phys = some idx ∧ inst.inputs[idx]? = some i ∧ i.hyst = 0 := by
  obtain ⟨i, hi, rfl⟩ := hmem
  have hsome : (findInputIdx inst i.physId).isSome := by
    rw [findInputIdx, List.findIdx?_isSome]
    exact List.any_eq_true.mpr ⟨i, hi, beq_self_eq_true _⟩
  obtain ⟨idx, hidx⟩ := Option.isSome_iff_exists.mp hsome
  obtain ⟨hlt, -⟩ := List.findIdx?_eq_some_iff_getElem.mp hidx
  exact ⟨idx, inst.inputs[idx], hidx, List.getElem?_eq_getElem hlt,
    hplain _ (List.getElem_mem hlt)⟩

theorem addClause_eq {group : Nat} {c : Clause} (h : Readable board inst c)
    (hroom : inst.watches.length < maxWatches) :
    ∃ w, addClause board false group inst c = .ok { inst with watches := inst.watches ++ [w] } ∧
      Denotes board inst w (group, c) := by
  obtain ⟨hpin, bp, idx, i, hlookup, hidx, hi, hhyst⟩ := h
  have hoperand : resolveOperand board false inst c.label = .ok (inst, idx) := by
    unfold resolveOperand
    rw [if_neg Bool.false_ne_true, if_neg hpin, hlookup]
    dsimp only
    rw [hidx]
  refine ⟨⟨idx, c.op, c.value, group⟩, ?_, rfl, rfl, rfl, bp.gpio, ?_, hidx⟩
  · rw [addClause, hoperand, ok_bind]
    dsimp only
    rw [List.getD_eq_getElem?_getD, hi, Option.getD_some, if_neg (fun hc => hc.1 hhyst),
      if_neg (by omega)]
  · rw [Board.pinOf, if_neg hpin, hlookup]
    rfl

/-- The comparisons of a group. -/
theorem addClauses_eq {group : Nat} {cs : List Clause} (h : ∀ c ∈ cs, Readable board inst c)
    (hroom : inst.watches.length + cs.length ≤ maxWatches) :
    ∃ ws, cs.foldlM (addClause board false group) inst =
        .ok { inst with watches := inst.watches ++ ws } ∧
      List.Forall₂ (Denotes board inst) ws (cs.map (group, ·)) := by
  induction cs generalizing inst with
  | nil => exact ⟨[], by rw [List.append_nil]; rfl, .nil⟩
  | cons c cs ih =>
      obtain ⟨hc, hcs⟩ := List.forall_mem_cons.mp h
      rw [List.length_cons] at hroom
      obtain ⟨w, hw, hden⟩ := @addClause_eq _ _ group _ hc (by omega)
      obtain ⟨ws, hws, hdens⟩ := @ih { inst with watches := inst.watches ++ [w] } hcs (by
        rw [List.length_append, List.length_singleton]
        omega)
      refine ⟨w :: ws, ?_, .cons hden hdens⟩
      rw [List.foldlM_cons, hw, ok_bind, hws, List.append_assoc, List.singleton_append]

/-- The comparisons of all groups, numbered one after the other. -/
theorem addGroups_eq {group : Nat} {groups : List (List Clause)}
    (h : ∀ cs ∈ groups, ∀ c ∈ cs, Readable board inst c)
    (hroom : inst.watches.length + (groups.map List.length).sum ≤ maxWatches)
    (hgroup : group + groups.length ≤ 256) :
    ∃ ws, addGroups board false group inst groups =
        .ok { inst with watches := inst.watches ++ ws } ∧
      List.Forall₂ (Denotes board inst) ws (numbered group groups) := by
  induction groups generalizing inst group with
  | nil => exact ⟨[], by rw [List.append_nil]; rfl, .nil⟩
  | cons cs groups ih =>
      obtain ⟨hcs, hgroups⟩ := List.forall_mem_cons.mp h
      rw [List.map_cons, List.sum_cons] at hroom
      rw [List.length_cons] at hgroup
      obtain ⟨ws, hws, hden⟩ := @addClauses_eq _ _ group _ hcs (by omega)
      have hlength : ws.length = cs.length := by
        rw [hden.length_eq, List.length_map]
      rw [addGroups, hws, ok_bind]
      -- the number of the last group has no successor in a byte, but there is none to number
      cases groups with
      | nil => exact ⟨ws, rfl, by simpa [numbered] using hden⟩
      | cons next groups =>
          rw [List.length_cons] at hgroup
          rw [Nat.mod_eq_of_lt (by omega)]
          obtain ⟨ws', hws', hdens⟩ := @ih { inst with watches := inst.watches ++ ws } (group + 1)
            hgroups (by
              rw [List.length_append]
              omega) (by
              rw [List.length_cons]
              omega)
          refine ⟨ws ++ ws', ?_, List.rel_append hden hdens⟩
          rw [hws', List.append_assoc]

/-! ## Levels -/

def Output.setLevel (isOk : Bool) (o : Output) (val : Nat) : Output :=
  if isOk then { o with okValue := val } else { o with errValue := val }

theorem setLevel_phys (isOk : Bool) (o : Output) (val : Nat) :
    (o.setLevel isOk val).physId = o.physId := by
  cases isOk <;> rfl

/-- The label is that of the output. -/
def Names (board : Board) (l : Text × Nat) (o : Output) : Prop :=
  l.2 ≤ 1 ∧ ∃ bp, board.pinLookup l.1 = some bp ∧ bp.gpio = o.physId

theorem modify_append_cons (f : Output → Output) (done rest : List Output) (o : Output) :
    (done ++ o :: rest).modify done.length f = done ++ f o :: rest := by
  induction done with
  | nil => rfl
  | cons o' done ih => exact congrArg (o' :: ·) ih

/-- The levels of the outputs, in their order. -/
theorem setLevels_eq {isOk : Bool} {levels : List (Text × Nat)} {done outputs : List Output}
    (h : List.Forall₂ (Names board) levels outputs)
    (hnodup : ((done ++ outputs).map Output.physId).Nodup) :
    levels.foldlM (setLevel board isOk) { inst with outputs := done ++ outputs } =
      .ok { inst with
        outputs := done ++ outputs.zipWith (fun o l => o.setLevel isOk l.2) levels } := by
  induction h generalizing done with
  | nil => rfl
  | @cons l o levels outputs hl _ ih =>
      obtain ⟨hbit, bp, hlookup, hphys⟩ := hl
      have hother : ∀ o' ∈ done, (o'.physId == bp.gpio) = false := by
        intro o' ho'
        apply beq_eq_false_iff_ne.mpr
        intro heq
        rw [List.map_append, List.map_cons] at hnodup
        exact (List.nodup_append.mp hnodup).2.2 _ (List.mem_map_of_mem ho') _ List.mem_cons_self
          (heq.trans hphys)
      have hfind : findOutputIdx { inst with outputs := done ++ o :: outputs } bp.gpio =
          some done.length := by
        unfold findOutputIdx
        dsimp only
        rw [List.findIdx?_append, List.findIdx?_eq_none_iff.mpr hother, Option.none_or,
          List.findIdx?_cons, if_pos (beq_iff_eq.mpr hphys.symm)]
        simp
      have hset : setLevel board isOk { inst with outputs := done ++ o :: outputs } l =
          .ok { inst with outputs := (done ++ [o.setLevel isOk l.2]) ++ outputs } := by
        unfold setLevel setOutput
        rw [if_neg (Nat.not_lt.mpr hbit), hlookup]
        dsimp only
        rw [hfind]
        dsimp only
        rw [modify_append_cons, List.append_assoc]
        rfl
      rw [List.foldlM_cons, hset, ok_bind, ih (by
        rw [List.append_assoc, List.singleton_append, List.map_append, List.map_cons,
          setLevel_phys, ← List.map_cons, ← List.map_append]
        exact hnodup), List.append_assoc]
      rfl

/-! ## A script with a section of each kind -/

/-- The outputs with the levels of both sections. -/
def leveled (outputs : List Output) (ok err : List (Text × Nat)) : List Output :=
  (outputs.zipWith (fun o l => o.setLevel true l.2) ok).zipWith
    (fun o l => o.setLevel false l.2) err

theorem foldl_declare_inputs (inst : Inst) (is : List Input) :
    (is.map PinDecl.input).foldl Inst.declare inst =
      { inst with inputs := inst.inputs ++ is } := by
  induction is generalizing inst with
  | nil => rw [List.append_nil]; rfl
  | cons i is ih =>
      rw [List.map_cons, List.foldl_cons, ih]
      simp only [Inst.declare, List.append_assoc, List.singleton_append]

theorem foldl_declare_outputs (inst : Inst) (os : List Output) :
    (os.map PinDecl.output).foldl Inst.declare inst =
      { inst with outputs := inst.outputs ++ os } := by
  induction os generalizing inst with
  | nil => rw [List.append_nil]; rfl
  | cons o os ih =>
      rw [List.map_cons, List.foldl_cons, ih]
      simp only [Inst.declare, List.append_assoc, List.singleton_append]

/-- Setting levels changes no names. -/
theorem names_setLevel {isOk : Bool} {levels levels' : List (Text × Nat)} {outputs : List Output}
    (h : List.Forall₂ (Names board) levels outputs)
    (h' : List.Forall₂ (Names board) levels' outputs) :
    List.Forall₂ (Names board) levels' (outputs.zipWith (fun o l => o.setLevel isOk l.2) levels) ∧
      (outputs.zipWith (fun o l => o.setLevel isOk l.2) levels).map Output.physId =
        outputs.map Output.physId := by
  induction h generalizing levels' with
  | nil =>
      cases h'
      exact ⟨.nil, rfl⟩
  | @cons l o levels outputs _ _ ih =>
      obtain _ | ⟨hl', hrest⟩ := h'
      obtain ⟨hnames, hphys⟩ := ih hrest
      rw [List.zipWith_cons_cons, List.map_cons, List.map_cons, setLevel_phys, hphys]
      refine ⟨.cons ?_ hnames, rfl⟩
      rwa [Names, setLevel_phys]

/-- The script of an interlock, with its output sections when it has outputs. -/
def Script.of (name : Text) (cfg : List CfgGroup) (groups : List (List Clause))
    (ok err : List (Text × Nat)) : Script where
  name := name
  parts := .cfg cfg :: .watch groups :: if ok = [] then [] else [.outOk ok, .outErr err]

/-- A script whose pieces fit together is accepted. -/
theorem elaborate_of {name : Text} {cfg : List CfgGroup} {groups : List (List Clause)}
    {ok err : List (Text × Nat)} {is : List Input} {os : List Output}
    (hname : name.length < nameMax)
    (hcfg : List.Forall₂ (Declares board) cfg (is.map .input ++ os.map .output))
    (hpins : (is.map Input.physId ++ os.map Output.physId).Nodup)
    (hinputs : is.length ≤ maxInputs) (houtputs : os.length ≤ maxOutputs)
    (hread : ∀ cs ∈ groups, ∀ c ∈ cs, Readable board { name, inputs := is, outputs := os } c)
    (hroom : (groups.map List.length).sum ≤ maxWatches) (hgroups : groups.length ≤ 256)
    (hok : List.Forall₂ (Names board) ok os) (herr : List.Forall₂ (Names board) err os)
    (hdiff : ∀ o ∈ leveled os ok err, o.okValue ≠ o.errValue) :
    ∃ ws, (Script.of name cfg groups ok err).elaborate board false =
        .ok { name, inputs := is, watches := ws, outputs := leveled os ok err } ∧
      List.Forall₂ (Denotes board { name, inputs := is, outputs := os }) ws
        (numbered 0 groups) := by
  -- the pins of the sections are declared in order
  have hdeclared : cfg.foldlM (declareGroup board) { name } =
      .ok { name, inputs := is, outputs := os } := by
    have hfold : (is.map PinDecl.input ++ os.map PinDecl.output).foldl Inst.declare { name } =
        { name, inputs := is, outputs := os } := by
      rw [List.foldl_append, foldl_declare_inputs, foldl_declare_outputs]
      rfl
    rw [← hfold]
    refine declareGroups_eq hcfg ?_ (by rwa [hfold]) (by rwa [hfold])
    simpa [Inst.pins, Function.comp_def, PinDecl.phys] using hpins
  obtain ⟨ws, hws, hden⟩ := @addGroups_eq board { name, inputs := is, outputs := os } 0 groups hread
    (by simpa using hroom) (by simpa using hgroups)
  refine ⟨ws, ?_, hden⟩
  rw [List.nil_append] at hws
  unfold Script.elaborate Script.of
  dsimp only
  rw [if_neg (by omega), List.foldlM_cons, Part.elaborate]
  dsimp only
  rw [hdeclared, ok_bind, ok_bind, List.foldlM_cons, Part.elaborate]
  dsimp only
  rw [hws, ok_bind, ok_bind]
  -- with no level section there are no outputs to set
  by_cases hnone : ok = []
  · subst hnone
    cases hok
    cases herr
    rfl
  · rw [if_neg hnone]
    obtain ⟨herr', hphys⟩ := @names_setLevel board true ok err os hok herr
    have hnodup : (os.map Output.physId).Nodup := (List.nodup_append.mp hpins).2.1
    have hfirst :=
      @setLevels_eq board { name, inputs := is, watches := ws } true ok [] os hok hnodup
    have hsecond := @setLevels_eq board { name, inputs := is, watches := ws } false err [] _ herr'
      (by rwa [List.nil_append, hphys])
    rw [List.nil_append] at hfirst hsecond
    rw [List.foldlM_cons, Part.elaborate]
    dsimp only
    rw [hfirst, ok_bind, ok_bind, List.foldlM_cons, Part.elaborate]
    dsimp only
    rw [List.nil_append, hsecond, ok_bind, ok_bind, List.foldlM_nil]
    show finishDraft _ = _
    unfold finishDraft
    dsimp only
    rw [List.nil_append]
    -- the two levels of each output differ, so the last check passes
    have hany : (leveled os ok err).any (fun o => o.okValue == o.errValue) = false := by
      apply List.any_eq_false.mpr
      intro o ho
      simpa using hdiff o ho
    split
    next =>
      rw [leveled] at hany
      rw [if_neg (by simp), if_neg (by simp), if_neg (by simp [hany])]
      rfl
    next => rfl

end SlowBus.Interlock
