import SlowBus.Dsl.Parser
import SlowBus.Lib.Table

/-!
# Units and their pin files

The unit builder of the Python compiler: `pins` records the role of each pad, `files` checks
that every pad has one and encodes them. A role is stored under the label in upper case; the
A-labels are folded to the pads they stand for where the roles are read.
-/

namespace SlowBus.Dsl

local instance text_lawfulBEq : LawfulBEq Text := inferInstance

/-- What the builder uses of its language: `str.upper`, and `int` of a string, none where it
raises. -/
structure PyText where
  upper : Text → Text
  int : Text → Option Int

/-- `MODES` -/
inductive UnitMode where
  | idle | gpio | adc | mixed | servo | counter
  deriving DecidableEq, Repr

def UnitMode.code : UnitMode → Nat
  | .idle => 0
  | .gpio => 1
  | .adc => 2
  | .mixed => 3
  | .servo => 4
  | .counter => 5

/-- The errors of the unit builder. -/
inductive UnitError where
  | badRoleBase (label base : Text)
  | safeModifiers (label : Text)
  | takesNoPins (mode : UnitMode)
  | i2cBus (mode : UnitMode) (label : Text)
  | reserved (mode : UnitMode) (label why : Text)
  | notConfigurable (mode : UnitMode) (label : Text)
  | declaredTwice (mode : UnitMode) (pad : Text)
  | unassigned (mode : UnitMode) (pad : Text)
  | badModifier (mode : UnitMode) (label mod : Text)
  | takesNoModifiers (mode : UnitMode) (label : Text) (base : RoleBase) (mods : List Text)
  | onlyUp (label : Text) (mods : List Text)
  | debounceMixedOnly (pin : Text)
  | debounceUnit (pin mod : Text)
  | debounceValue (pin mod : Text)
  | debounceRange (pin : Text) (ms depth : Int)
  | outLevel (pin kind : Text)
  | dacOnlyD0 (mode : UnitMode) (label : Text)
  | roleNotAllowed (mode : UnitMode) (label : Text) (base : RoleBase)
  | notChannel (pin : Text)
  | notUsablePad (mode : UnitMode) (label : Text)
  | undefinedPin (pin : Text)
  | eStopPin (label : Text)
  /-- Not a `DSLError`, and not met behind the safety gate. -/
  | keyError (pin : Text)
  /-- An error of the interlock file. -/
  | interlock (text : Text)
  deriving DecidableEq, Repr

/-! ## Pads -/

def pad (s : String) : Text := s.toList

/-- `MIXED_PINS`, `GPIO_PINS` and `SERVO_PINS`. -/
def bankPins : List Text := ["D0", "D1", "D2", "D3", "D7", "D8", "D9", "D10"].map pad

/-- `COUNTER_PINS` -/
def counterPins : List Text := bankPins ++ [pad "D6"]

/-- `CONFIG_PADS`, none for IDLE mode. -/
def configPads : UnitMode → Option (List Text)
  | .idle => none
  | .gpio | .mixed | .servo => some bankPins
  | .adc => some (["D2", "D3", "D7", "D8", "D9", "D10"].map pad)
  | .counter => some counterPins

/-- `RESERVED_WHY` -/
def reservedWhy : UnitMode → List (Text × Text)
  | .gpio | .mixed => [(pad "D6", "the interlock/INT output".toList)]
  | .adc =>
      [(pad "D0", "the A0 DAC output".toList), (pad "D1", "the A1 ADC sample channel".toList),
        (pad "D6", "the interlock/INT output".toList)]
  | .servo => [(pad "D6", "the e-stop input".toList)]
  | .idle | .counter => []

/-- `PIN_ALIAS`, also `COUNTER_PIN_ALIAS` -/
def pinAlias : List (Text × Text) :=
  [("A0", "D0"), ("A1", "D1"), ("A2", "D2"), ("A3", "D3"), ("A6", "D6"), ("A7", "D7"),
    ("A8", "D8"), ("A9", "D9"), ("A10", "D10")].map fun (a, d) => (pad a, pad d)

/-- `SERVO_PIN_ALIAS`: D6 has none. -/
def servoPinAlias : List (Text × Text) := pinAlias.filter fun (a, _) => a ≠ pad "A6"

/-- The pad of a label in upper case. -/
def padOf (label : Text) : Text := (pinAlias.lookup label).getD label

/-! ## Units -/

/-- The interlock of a unit: its name, its condition and its outputs. -/
structure IlDef where
  name : Text
  cond : Option Text
  drive : List (Text × Nat)

structure SlaveUnit where
  addr : Nat
  mode : UnitMode
  il : Option IlDef := none
  /-- Hz -/
  cntrRate : Nat := 1000
  /-- By label, in the order of declaration. -/
  roles : Roles := []

/-- The role bases by name. -/
def roleBases : List (Text × RoleBase) :=
  [("in", .input), ("out", .out), ("adc", .adc), ("dac", .dac), ("count", .count),
    ("servo", .servo), ("oc", .oc), ("safe", .safe)].map fun (s, base) => (s.toList, base)

/-- The role that a specification such as `in:up` stands for. -/
def parseSpec (label spec : Text) : Except UnitError Role :=
  let parts := spec.splitOn ':'
  let base := parts.headD []
  match roleBases.lookup base with
  | none => .error (.badRoleBase label base)
  | some base =>
      if base = .safe ∧ parts.tail ≠ [] then .error (.safeModifiers label)
      else .ok { base, mods := parts.tail }

/-- `self.roles[label] = role` -/
def Roles.set (roles : Roles) (label : Text) (role : Role) : Roles :=
  Table.upsert Prod.fst (label, role) (fun _ => (label, role)) roles

/-- `pins`: the unit after the call, and the error it has raised. -/
def SlaveUnit.pins (u : SlaveUnit) (py : PyText) :
    List (Text × Text) → SlaveUnit × Option UnitError
  | [] => (u, none)
  | (label, spec) :: rest =>
      match parseSpec label spec with
      | .error e => (u, some e)
      | .ok role => SlaveUnit.pins { u with roles := u.roles.set (py.upper label) role } py rest

/-! ## The safety gate -/

/-- The labels one after the other, with the pads that they have named before. -/
def checkLabels (mode : UnitMode) (want : List Text) (seen : List Text) :
    List Text → Except UnitError (List Text)
  | [] => .ok seen
  | label :: labels =>
      let p := padOf label
      if p = pad "D4" ∨ p = pad "D5" then .error (.i2cBus mode label)
      else
        match (reservedWhy mode).lookup p with
        | some why => .error (.reserved mode label why)
        | none =>
            if p ∉ want then .error (.notConfigurable mode label)
            else if p ∈ seen then .error (.declaredTwice mode p)
            else checkLabels mode want (p :: seen) labels

/-- `_check_coverage` -/
def SlaveUnit.checkCoverage (u : SlaveUnit) : Except UnitError PUnit :=
  match configPads u.mode with
  | none => if u.roles ≠ [] then .error (.takesNoPins u.mode) else .ok ⟨⟩
  | some pads => do
      let seen ← checkLabels u.mode pads [] (u.roles.map Prod.fst)
      match pads.find? fun p => p ∉ seen with
      | some p => .error (.unassigned u.mode p)
      | none => .ok ⟨⟩

/-! ## Pulls and debounce -/

inductive Pull where
  | none | up | down
  deriving DecidableEq, Repr

/-- `COUNTER_PULLS`, and the pulls of an input. -/
def Pull.ofText (m : Text) : Option Pull :=
  if m = "none".toList then some .none
  else if m = "up".toList then some .up
  else if m = "down".toList then some .down
  else Option.none

/-- The value of a pull in a `cntr` file. -/
def Pull.code : Pull → Nat
  | .none => 0
  | .up => 1
  | .down => 2

def debouncePrefix : Text := "debounce_".toList

/-- `_debounce_depth` of a MIXED unit: the interval in ticks of 10 ms. -/
def debounceDepth (py : PyText) (pin mod : Text) : Except UnitError Nat :=
  let body := mod.drop debouncePrefix.length
  if ¬ ("ms".toList <:+ body) then .error (.debounceUnit pin mod)
  else
    match py.int (body.take (body.length - 2)) with
    | none => .error (.debounceValue pin mod)
    | some ms =>
        let depth := (ms + 5) / 10
        if 2 ≤ depth ∧ depth ≤ 15 then .ok depth.toNat else .error (.debounceRange pin ms depth)

/-- `_bench_role_value` -/
def benchRoleValue (mode : UnitMode) (label : Text) (role : Role) (code : Nat) :
    Except UnitError Nat :=
  if role.base = .oc then
    if role.mods = [] then .ok 6
    else if role.mods = ["up".toList] then .ok 7
    else .error (.onlyUp label role.mods)
  else if role.mods ≠ [] then .error (.takesNoModifiers mode label role.base role.mods)
  else .ok code

/-! ## GPIO -/

/-- The bits of a pad in the bitmaps of a `gpmp` file. -/
structure GpmpBits where
  dir : Bool := false
  pullen : Bool := false
  out : Bool := false
  od : Bool := false
  deriving DecidableEq, Repr

/-- The pull of a GPIO input: the last one of its modifiers. -/
def gpioPull (pin : Text) (mods : List Text) : Except UnitError Pull :=
  mods.foldlM (fun _ m =>
    match Pull.ofText m with
    | some pull => .ok pull
    | none =>
        if debouncePrefix <+: m then .error (.debounceMixedOnly pin)
        else .error (.badModifier .gpio pin m)) Pull.none

/-- The bits of a pad: an output has its level, a pulled input its direction. -/
def gpmpPin (pin : Text) (role : Role) : Except UnitError GpmpBits :=
  match role.base with
  | .out =>
      let kind := role.mods.headD "0".toList
      if kind = "0".toList then .ok { dir := true }
      else if kind = "1".toList then .ok { dir := true, out := true }
      else .error (.outLevel pin kind)
  | .oc =>
      if role.mods = ["up".toList] then .ok { dir := true, od := true, out := true, pullen := true }
      else if role.mods ≠ [] then .error (.onlyUp pin role.mods)
      else .ok { dir := true, od := true, out := true }
  | .input => do
      let pull ← gpioPull pin role.mods
      .ok { pullen := pull ≠ .none, out := pull = .up }
  | .safe => .ok {}
  | base => .error (.roleNotAllowed .gpio pin base)

structure GpmpMap where
  dir : Nat := 0
  pullen : Nat := 0
  out : Nat := 0
  od : Nat := 0

/-- The bitmaps with the bits of pad `i`. -/
def GpmpMap.or (m : GpmpMap) (i : Nat) (b : GpmpBits) : GpmpMap where
  dir := m.dir ||| b.dir.toNat <<< i
  pullen := m.pullen ||| b.pullen.toNat <<< i
  out := m.out ||| b.out.toNat <<< i
  od := m.od ||| b.od.toNat <<< i

/-- A turn of the loop of `gpmp` over the pads. -/
def gpmpTurn (roles : Roles) (m : GpmpMap) (p : Text × Nat) : Except UnitError GpmpMap :=
  match roles.lookup p.1 with
  | none => .error (.undefinedPin p.1)
  | some role => do
      let bits ← gpmpPin p.1 role
      .ok (m.or p.2 bits)

/-- `gpmp` -/
def SlaveUnit.gpmp (u : SlaveUnit) : Except UnitError (Option (List Nat)) :=
  if u.mode ≠ .gpio then .ok none
  else
    match u.roles.find? fun (label, _) => label ∉ bankPins with
    | some (label, _) => .error (.notChannel label)
    | none => do
        let m ← bankPins.zipIdx.foldlM (gpmpTurn u.roles) {}
        .ok (some [2, m.dir, m.pullen, m.out, m.od, if u.il.isSome then 1 else 0])

/-! ## The files with a byte for each pad -/

/-- A turn of the loop of `cntr`, `srvo` or `mxmp`: the byte of a declared pad. -/
def padTurn (pins : List Text) (aliases : List (Text × Text)) (unusable : Text → UnitError)
    (encode : Text → Text → Role → Except UnitError Nat) (bytes : List Nat) (r : Text × Role) :
    Except UnitError (List Nat) :=
  let pin := (aliases.lookup r.1).getD r.1
  match pins.idxOf? pin with
  | none => .error (unusable r.1)
  | some idx => do
      let code ← encode r.1 pin r.2
      .ok (bytes.set idx code)

/-- The loop of `cntr`, `srvo` and `mxmp`. -/
def padBytes (pins : List Text) (aliases : List (Text × Text)) (unusable : Text → UnitError)
    (encode : Text → Text → Role → Except UnitError Nat) (roles : Roles) :
    Except UnitError (List Nat) :=
  roles.foldlM (padTurn pins aliases unusable encode) (List.replicate pins.length 0)

/-- `COUNTER_EDGES` -/
def counterEdge (m : Text) : Option Nat :=
  if m = "rising".toList then some 0
  else if m = "falling".toList then some 1
  else if m = "both".toList then some 2
  else none

/-- `COUNTER_BENCH_ROLES` -/
def counterBenchRole : RoleBase → Option Nat
  | .input => some 1
  | .out => some 2
  | .adc => some 3
  | .dac => some 4
  | .oc => some 6
  | .count | .servo | .safe => none

/-- The pull and the edge of a counter: the last of each among its modifiers. -/
def counterMods (label : Text) (mods : List Text) : Except UnitError (Pull × Nat) :=
  mods.foldlM (fun (pull, edge) m =>
    match Pull.ofText m with
    | some pull => .ok (pull, edge)
    | none =>
        match counterEdge m with
        | some edge => .ok (pull, edge)
        | none => .error (.badModifier .counter label m)) (Pull.none, 0)

/-- A turn of the loop of `cntr`. -/
def cntrPad (label pin : Text) (role : Role) : Except UnitError Nat :=
  match role.base with
  | .count => do
      let (pull, edge) ← counterMods label role.mods
      .ok (1 ||| pull.code <<< 1 ||| edge <<< 3)
  | .safe => .ok 0
  | base =>
      match counterBenchRole base with
      | none => .error (.roleNotAllowed .counter label base)
      | some code => do
          let value ← benchRoleValue .counter label role code
          if base = .dac ∧ pin ≠ pad "D0" then .error (.dacOnlyD0 .counter label)
          else .ok (value <<< 1)

/-- `cntr` -/
def SlaveUnit.cntr (u : SlaveUnit) : Except UnitError (Option (List Nat)) :=
  if u.mode ≠ .counter then .ok none
  else do
    let bytes ← padBytes counterPins pinAlias (.notUsablePad .counter) cntrPad u.roles
    .ok (some (1 :: u.cntrRate % 256 :: u.cntrRate / 256 % 256 :: bytes))

/-- `SERVO_ROLES` -/
def servoRole : RoleBase → Option Nat
  | .input => some 1
  | .out => some 2
  | .adc => some 3
  | .dac => some 4
  | .servo => some 5
  | .oc => some 6
  | .count | .safe => none

/-- A turn of the loop of `srvo`. -/
def srvoPad (label pin : Text) (role : Role) : Except UnitError Nat :=
  if role.base = .safe then .ok 0
  else
    match servoRole role.base with
    | none => .error (.roleNotAllowed .servo label role.base)
    | some code =>
        if role.base = .dac ∧ pin ≠ pad "D0" then .error (.dacOnlyD0 .servo label)
        else if role.base = .oc then benchRoleValue .servo label role code
        else if role.mods ≠ [] then
          .error (.takesNoModifiers .servo label role.base role.mods)
        else .ok code

/-- D6 has an error of its own. -/
def servoUnusable (label : Text) : UnitError :=
  if label = pad "D6" ∨ label = pad "A6" then .eStopPin label else .notUsablePad .servo label

/-- `srvo` -/
def SlaveUnit.srvo (u : SlaveUnit) : Except UnitError (Option (List Nat)) :=
  if u.mode ≠ .servo then .ok none
  else do
    let bytes ← padBytes bankPins servoPinAlias servoUnusable srvoPad u.roles
    .ok (some (1 :: bytes))

/-- The pull and the debounce depth of a MIXED input. -/
def mixedMods (py : PyText) (label pin : Text) (mods : List Text) :
    Except UnitError (Pull × Nat) :=
  mods.foldlM (fun (pull, depth) m =>
    match Pull.ofText m with
    | some pull => .ok (pull, depth)
    | none =>
        if debouncePrefix <+: m then do
          let depth ← debounceDepth py pin m
          .ok (pull, depth)
        else .error (.badModifier .mixed label m)) (Pull.none, 0)

/-- A turn of the loop of `mxmp`. -/
def mxmpPad (py : PyText) (label pin : Text) (role : Role) : Except UnitError Nat :=
  let plain (code : Nat) : Except UnitError Nat :=
    if role.mods ≠ [] then .error (.takesNoModifiers .mixed label role.base role.mods)
    else .ok code
  match role.base with
  | .safe => .ok 0
  | .input => do
      let (pull, depth) ← mixedMods py label pin role.mods
      .ok (depth <<< 4 ||| if pull = .up then 2 else if pull = .down then 3 else 1)
  | .out => plain 4
  | .oc =>
      if role.mods = ["up".toList] then .ok 6
      else if role.mods ≠ [] then .error (.onlyUp label role.mods)
      else .ok 5
  | .adc => plain 7
  | .dac => if pin ≠ pad "D0" then .error (.dacOnlyD0 .mixed label) else plain 8
  | base => .error (.roleNotAllowed .mixed label base)

/-- `mxmp` -/
def SlaveUnit.mxmp (u : SlaveUnit) (py : PyText) : Except UnitError (Option (List Nat)) :=
  if u.mode ≠ .mixed then .ok none
  else do
    let bytes ← padBytes bankPins pinAlias .keyError (mxmpPad py) u.roles
    .ok (some (1 :: bytes))

/-! ## The files of a unit -/

structure Files where
  idnt : List Nat
  gpmp : Option (List Nat)
  mxmp : Option (List Nat)
  cntr : Option (List Nat)
  srvo : Option (List Nat)
  ilcf : Option Text

/-- `files`; of the interlock file only that it may fail counts here, and `ilcf` is
whatever makes it. -/
def SlaveUnit.files (u : SlaveUnit) (py : PyText)
    (ilcf : SlaveUnit → Except UnitError (Option Text)) : Except UnitError Files := do
  u.checkCoverage
  let gpmp ← u.gpmp
  let mxmp ← u.mxmp py
  let cntr ← u.cntr
  let srvo ← u.srvo
  let il ← ilcf u
  .ok { idnt := [u.addr, u.mode.code], gpmp, mxmp, cntr, srvo, ilcf := il }

end SlowBus.Dsl
