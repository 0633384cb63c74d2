import Mathlib.Data.Char
import Mathlib.Data.List.Lex
import Mathlib.Data.List.Sort
import SlowBus.Interlock.Print
import SlowBus.Dsl.Compile
import SlowBus.Dsl.Unit

/-!
# The interlock file of a unit

The compiler prints the interlock of a unit in the grammar of the firmware: the pins it
reads and drives, the groups of comparisons its expression is compiled to, and the levels of
its outputs while the condition holds and while it does not.
-/

namespace SlowBus.Dsl

open Interlock (joined decimal)

/-- What the emitter relies on of its language, and the counts of voltages. -/
structure IlcfLang where
  py : Python
  text : PyText
  voltsToCount : Text → Option Nat

/-- The errors of the interlock file. -/
inductive IlcfError where
  | nameTooLong (name : Text)
  | needsPins (mode : UnitMode)
  | compile (e : DslError)
  | notInput (pin : Text)
  | tooManyInputs (n : Nat)
  | tooManyWatches (n : Nat)
  | tooManyOutputs (n : Nat)
  | driveNotOutput (label : Text)
  | needsDrive
  /-- The errors of a debounce interval. -/
  | debounce (e : UnitError)
  | inputModifier (pin mod : Text)
  | onlyUp (pin : Text) (mods : List Text)
  | notOutput (pin : Text) (base : RoleBase)
  | badRole (pin : Text) (base : RoleBase)
  | driveValue (label : Text)
  | tooLong (n : Nat)
  /-- Not a `DSLError`: a pin without a role, or a pad number that `int` refuses. -/
  | keyError (pin : Text)
  | valueError (label : Text)
  deriving DecidableEq, Repr

/-! ## The unit -/

/-- `interlock`: the labels of the outputs are stored in upper case. -/
def SlaveUnit.interlock (u : SlaveUnit) (py : PyText) (name : Text) (cond : Option Text)
    (drive : List (Text × Nat)) : Except IlcfError SlaveUnit :=
  if name.length ≥ 16 then .error (.nameTooLong name)
  else
    let drive := drive.foldl (fun (table : List (Text × Nat)) d =>
      Table.upsert Prod.fst (py.upper d.1, d.2) (fun _ => (py.upper d.1, d.2)) table) []
    .ok { u with il := some { name, cond, drive } }

/-- `MODES_WITH_ILCF` -/
def UnitMode.carriesIlcf : UnitMode → Bool
  | .gpio | .adc | .mixed => true
  | .idle | .servo | .counter => false

/-- `ILCF_OFF` -/
def ilcfOff : Text := "off".toList

/-! ## Pins in print -/

def pinToken (pin spec : Text) : Text := '(' :: (pin ++ ')' :: ':' :: spec)

/-- `_debounce_depth` -/
def SlaveUnit.debounceOf (u : SlaveUnit) (py : PyText) (pin mod : Text) : Except IlcfError Nat :=
  if u.mode ≠ .mixed then .error (.debounce (.debounceMixedOnly pin))
  else (debounceDepth py pin mod).mapError .debounce

/-- The pull and the debounce depth of an input: the last of each among its modifiers. -/
def SlaveUnit.inputMods (u : SlaveUnit) (py : PyText) (pin : Text) (mods : List Text) :
    Except IlcfError (Pull × Option Nat) :=
  mods.foldlM (fun (pull, deb) m =>
    match Pull.ofText m with
    | some pull => .ok (pull, deb)
    | none =>
        if debouncePrefix <+: m then do
          let depth ← u.debounceOf py pin m
          .ok (pull, some depth)
        else .error (.inputModifier pin m)) (Pull.none, none)

/-- The suffix of a pull. -/
def Pull.suffix : Pull → Text
  | .none => []
  | .up => ",up".toList
  | .down => ",down".toList

/-- `_out_cfg_token` -/
def SlaveUnit.outCfgToken (u : SlaveUnit) (pin : Text) : Except IlcfError Text :=
  let role := (u.roles.lookup pin).getD ⟨.out, []⟩
  if role.base = .oc then
    if role.mods = ["up".toList] then .ok (pinToken pin "oc,up".toList)
    else if role.mods ≠ [] then .error (.onlyUp pin role.mods)
    else .ok (pinToken pin "oc".toList)
  else if role.base ≠ .out then .error (.notOutput pin role.base)
  else .ok (pinToken pin "out".toList)

/-- `_cfg_token` -/
def SlaveUnit.cfgToken (u : SlaveUnit) (py : PyText) (pin : Text) : Except IlcfError Text :=
  match u.roles.lookup pin with
  | none => .error (.keyError pin)
  | some role =>
      match role.base with
      | .adc => .ok (pinToken pin ("adc".toList ++ role.mods.flatMap (',' :: ·)))
      | .input => do
          let (pull, deb) ← u.inputMods py pin role.mods
          let suffix := pull.suffix ++ deb.elim [] fun d => ",debounce_".toList ++ decimal d
          .ok (pinToken pin ("in".toList ++ suffix))
      | .out => .ok (pinToken pin "out".toList)
      | .oc => u.outCfgToken pin
      | base => .error (.badRole pin base)

/-- `_pad_rank`, none where `int` refuses the number. The pattern ends at a line feed too. -/
def padRank (py : Python) (label : Text) : Option Nat :=
  match (if label.getLast? = some '\n' then label.dropLast else label) with
  | c :: ds =>
      if c ∈ ['A', 'D', 'a', 'd'] ∧ ds ≠ [] ∧ ds.all py.isDigit then py.int ds else some 999
  | [] => some 999

/-- `sorted(self.roles, key=_pad_rank)` -/
def sortedPins (py : Python) (roles : Roles) : Except IlcfError (List Text) := do
  let ranked ← roles.mapM fun r =>
    match padRank py r.1 with
    | some rank => .ok (rank, r.1)
    | none => .error (.valueError r.1)
  let le (a b : Nat × Text) : Prop := a.1 < b.1 ∨ a.1 = b.1 ∧ a.2 ≤ b.2
  .ok ((ranked.mergeSort fun a b => decide (le a b)).map Prod.snd)

/-! ## Comparisons in print -/

def Op.word : Op → Text
  | .gt => "gt".toList
  | .lt => "lt".toList
  | .ge => "ge".toList
  | .le => "le".toList
  | .eq => "eq".toList
  | .ne => "ne".toList

/-- `_clause` -/
def clauseText (c : Clause) : Text :=
  c.operand ++ ':' :: (if c.op = .eq then decimal c.thr else c.op.word ++ ':' :: decimal c.thr)

def watchText (groups : List (List Clause)) : Text :=
  joined '|' (groups.map fun g => joined ',' (g.map clauseText))

/-- The operands of the groups in the order they are first seen. -/
def operandsOf (groups : List (List Clause)) : List Text :=
  groups.flatten.foldl
    (fun seen c => if seen.contains c.operand then seen else seen ++ [c.operand]) []

def clauseCount (groups : List (List Clause)) : Nat := (groups.map List.length).sum

/-! ## The text -/

/-- The levels of the outputs, all with values of one bit. -/
def driveTexts (drive : List (Text × Nat)) : Except IlcfError (Text × Text) := do
  let levels ← drive.mapM fun (label, v) =>
    if v ≠ 0 ∧ v ≠ 1 then .error (.driveValue label)
    else .ok (label ++ ':' :: decimal v, label ++ ':' :: decimal (1 - v))
  .ok (joined ',' (levels.map Prod.fst), joined ',' (levels.map Prod.snd))

def sectionText (keyword body : Text) : Text := ';' :: (keyword ++ '[' :: (body ++ [']']))

/-- The sections in print, and the check of their length. -/
def sealText (name : Text) (sections : List (Text × Text)) : Except IlcfError Text :=
  let text := name ++ sections.flatMap fun s => sectionText s.1 s.2
  if text.length > 128 then .error (.tooLong text.length) else .ok text

/-- `_ilcf_adc` -/
def SlaveUnit.ilcfAdc (u : SlaveUnit) (l : IlcfLang) (il : IlDef) (cond : Text) :
    Except IlcfError Text :=
  if il.drive = [] then .error .needsDrive
  else if il.drive.length > 2 then .error (.tooManyOutputs il.drive.length)
  else do
    let groups ← (compileExpr ⟨l.py, true, [], l.voltsToCount⟩ cond).mapError .compile
    let streams := operandsOf groups
    if streams.length > 4 then .error (.tooManyInputs streams.length)
    else if clauseCount groups > 8 then .error (.tooManyWatches (clauseCount groups))
    else do
      let cfg ← il.drive.mapM fun d => u.outCfgToken (l.text.upper d.1)
      let (ok, err) ← driveTexts (il.drive.map fun d => (l.text.upper d.1, d.2))
      sealText il.name [("cfg".toList, joined ',' cfg), ("watch".toList, watchText groups),
        ("out_ok".toList, ok), ("out_err".toList, err)]

/-- The checks of `ilcf` on the compiled groups. -/
def SlaveUnit.checkGroups (u : SlaveUnit) (il : IlDef) (groups : List (List Clause)) :
    Except IlcfError PUnit :=
  let inputs := operandsOf groups
  let isOut (pin : Text) : Bool :=
    (u.roles.lookup pin).any fun role => role.base = .out ∨ role.base = .oc
  match inputs.find? fun p => (u.roles.lookup p).isNone || isOut p with
  | some p => .error (.notInput p)
  | none =>
      if inputs.length > 4 then .error (.tooManyInputs inputs.length)
      else if clauseCount groups > 8 then .error (.tooManyWatches (clauseCount groups))
      else if il.drive.length > 2 then .error (.tooManyOutputs il.drive.length)
      else
        match il.drive.find? fun d => !isOut d.1 with
        | some (label, _) => .error (.driveNotOutput label)
        | none => .ok ⟨⟩

/-- The pins of the `cfg` section: those of a MIXED unit in the order of the pads, else the
watched ones and the driven ones. -/
def SlaveUnit.cfgPins (u : SlaveUnit) (l : IlcfLang) (il : IlDef) (inputs : List Text) :
    Except IlcfError (List Text) :=
  if u.mode = .mixed then do
    let pins ← sortedPins l.py u.roles
    .ok (pins.filter fun p =>
      (u.roles.lookup p).all fun role => role.base ≠ .safe ∧ role.base ≠ .dac)
  else .ok (inputs ++ (il.drive.map Prod.fst).filter fun p => !inputs.contains p)

/-- `ilcf`, none for a mode without an interlock file. -/
def SlaveUnit.ilcf (u : SlaveUnit) (l : IlcfLang) : Except IlcfError (Option Text) :=
  if !u.mode.carriesIlcf then .ok none
  else
    match u.il with
    | none | some { cond := none, .. } | some { cond := some [], .. } => .ok (some ilcfOff)
    | some il =>
        let cond := il.cond.getD []
        if u.mode = .adc then (u.ilcfAdc l il cond).map some
        else if u.roles = [] then .error (.needsPins u.mode)
        else do
          let groups ← (compileExpr ⟨l.py, false, u.roles, l.voltsToCount⟩ cond).mapError .compile
          u.checkGroups il groups
          let pins ← u.cfgPins l il (operandsOf groups)
          let cfg ← pins.mapM (u.cfgToken l.text)
          let watch := [("cfg".toList, joined ',' cfg), ("watch".toList, watchText groups)]
          if il.drive = [] then (sealText il.name watch).map some
          else do
            let (ok, err) ← driveTexts il.drive
            (sealText il.name (watch ++ [("out_ok".toList, ok), ("out_err".toList, err)])).map some

end SlowBus.Dsl
