import SlowBus.Interlock.Lexer

/-!
# The interlock DSL parser

`msg := name (";" section)*` with sections `cfg[..]`, `watch[..]`, `out_ok[..]`
and `out_err[..]`. Each function returns the text left to read; a failure also
carries the text left at the moment of failure, from which `il_parse` computes
the error offset. The unbounded `while` loops carry fuel: every turn of them
reads at least one character, so the length of the text is enough.
-/

namespace SlowBus.Interlock

/-- A rejected text: the category and what was still unread. -/
structure ParseFail where
  status : ParseStatus
  unread : Text
  deriving DecidableEq, Repr

/-- An identifier the grammar requires at this point. -/
def expectIdent (p : Text) : Except ParseFail (Text × Text) :=
  match readIdent p with
  | (some s, q) => .ok (s, q)
  | (none, q) => .error ⟨.unexpectedChar, q⟩

/-- A punctuation character the grammar requires at this point. -/
def expectChar (want : Char) (p : Text) : Except ParseFail Text :=
  match consumeChar want p with
  | (true, q) => .ok q
  | (false, q) => .error ⟨.unexpectedChar, q⟩

def expectNumber (p : Text) : Except ParseFail (Nat × Text) :=
  match readNumber p with
  | (some n, q) => .ok (n, q)
  | (none, q) => .error ⟨.badNumber, q⟩

/-- A semantic check made after the text `p` has been reached. -/
def atText {α : Type} (p : Text) : Except ParseStatus α → Except ParseFail α
  | .ok a => .ok a
  | .error status => .error ⟨status, p⟩

def findInputIdx (inst : Inst) (physId : Nat) : Option Nat :=
  inst.inputs.findIdx? (fun i => i.physId == physId)

def findOutputIdx (inst : Inst) (physId : Nat) : Option Nat :=
  inst.outputs.findIdx? (fun o => o.physId == physId)

/-! ## `cfg[...]` -/

/-- The loop over `"(" ident ("," ident)* ")"`, after the parenthesis. The first
argument is the room left in `pin_labels`. -/
def readPinLabels : Nat → List Text → Text → Except ParseFail (List Text × Text)
  | 0, _, p => .error ⟨.tooManyInputs, p⟩
  | room + 1, labels, p => do
      let (label, p) ← expectIdent p
      match consumeChar ',' p with
      | (true, p) => readPinLabels room (labels ++ [label]) p
      | (false, p) => do
          let p ← expectChar ')' p
          .ok (labels ++ [label], p)

/-- A parenthesised pin list or a single label. -/
def readPins (p : Text) : Except ParseFail (List Text × Text) :=
  match consumeChar '(' (skipWs p) with
  | (true, p) => readPinLabels (maxInputs + maxOutputs) [] p
  | (false, p) => do
      let (label, p) ← expectIdent p
      .ok ([label], p)

/-- The mode word and its qualifiers. A comma belongs to this list only when a
known modifier follows it; otherwise it is given back, for it separates groups.
The first argument is the room left in `mod_strs`. -/
def readModifiers : Nat → List Text → Text → Except ParseFail (List Text × Text)
  | 0, _, p => .error ⟨.unknownMode, p⟩
  | room + 1, mods, p => do
      let (m, p) ← expectIdent p
      match consumeChar ',' p with
      | (false, p) => .ok (mods ++ [m], p)
      | (true, q) =>
          let q := skipWs q
          if peek q = '(' then .ok (mods ++ [m], p)
          else if !isIdentStart (peek q) then .ok (mods ++ [m], p)
          else do
            let (next, _) ← expectIdent q
            if isKnownModifier next then readModifiers room (mods ++ [m]) q
            else .ok (mods ++ [m], p)

/-- The settings one `cfg` group gives each of its pins. -/
structure GroupCfg where
  mode : PinMode
  oversampleExp : Nat := 0
  shCyc : Nat := 4
  hyst : Nat := 0
  debounceDepth : Nat := 0
  openDrain : Nat := 0
  deriving DecidableEq, Repr

def GroupCfg.isAdc (g : GroupCfg) : Bool := g.mode == .adc
def GroupCfg.isInput (g : GroupCfg) : Bool := g.mode != .output

/-- The mode word. -/
def resolveMode (m : Text) : Except ParseStatus GroupCfg :=
  if m = "in".toList then .ok { mode := .input }
  else if m = "out".toList then .ok { mode := .output }
  else if m = "oc".toList then .ok { mode := .output, openDrain := 1 }
  else if m = "adc".toList then .ok { mode := .adc }
  else .error .unknownMode

/-- A number that a modifier carries, or the category to report past 65535. -/
def modValue (m stem : Text) (status : ParseStatus) : Except ParseStatus Nat :=
  match parseParamModValue m stem with
  | some n => .ok n
  | none => .error status

/-- One qualifier after the mode word. -/
def applyModifier (g : GroupCfg) (m : Text) : Except ParseStatus GroupCfg :=
  if g.isAdc then
    if isParamMod m oversampleStem then do
      let n ← modValue m oversampleStem .oversampleOutOfRange
      match samplenumToExp n with
      | some e => .ok { g with oversampleExp := e }
      | none => .error .oversampleOutOfRange
    else if isParamMod m shStem then do
      let n ← modValue m shStem .shOutOfRange
      if n > 63 then .error .shOutOfRange else .ok { g with shCyc := n }
    else if isParamMod m hystStem then do
      let n ← modValue m hystStem .thresholdOutOfRange
      .ok { g with hyst := n }
    else if isParamMod m debounceStem then .error .debounceNotOnGpio
    else .error .unknownMode
  else if g.isInput then
    if m = "up".toList then .ok { g with mode := .inputPullUp }
    else if m = "down".toList then .ok { g with mode := .inputPullDown }
    else if isParamMod m debounceStem then do
      let n ← modValue m debounceStem .debounceOutOfRange
      if n < 2 ∨ n > 15 then .error .debounceOutOfRange else .ok { g with debounceDepth := n }
    else if isParamMod m hystStem then .error .hystNotOnAdc
    else if isParamMod m oversampleStem || isParamMod m shStem then .error .modifierOnGpio
    else .error .unknownMode
  else
    if g.openDrain ≠ 0 ∧ m = "up".toList then .ok { g with openDrain := 2 }
    else if isParamMod m hystStem then .error .hystNotOnAdc
    else if isParamMod m debounceStem then .error .debounceNotOnGpio
    else if isParamMod m oversampleStem || isParamMod m shStem then .error .modifierOnGpio
    else .error .unknownMode

/-- The mode word and then the qualifiers, left to right. -/
def resolveGroup : List Text → Except ParseStatus GroupCfg
  | [] => .error .unknownMode
  | m :: mods => do
      let g ← resolveMode m
      mods.foldlM applyModifier g

/-- Record one pin of a group in the instance. -/
def declarePin (board : Board) (g : GroupCfg) (inst : Inst) (label : Text) :
    Except ParseStatus Inst :=
  match board.pinLookup label with
  | none => .error .unknownPin
  | some bp =>
      if (findInputIdx inst bp.gpio).isSome then .error .duplicatePin
      else if (findOutputIdx inst bp.gpio).isSome then .error .duplicatePin
      else if g.isInput then
        if inst.inputs.length ≥ maxInputs then .error .tooManyInputs
        else .ok { inst with inputs := inst.inputs ++ [{
          physId := bp.gpio
          mode := g.mode
          oversampleExp := if g.isAdc then g.oversampleExp else 0
          shCyc := if g.isAdc then g.shCyc else 0
          debounceDepth := if g.isAdc then 0 else g.debounceDepth
          hyst := if g.isAdc then g.hyst else 0 }] }
      else if inst.outputs.length ≥ maxOutputs then .error .tooManyOutputs
      else .ok { inst with outputs := inst.outputs ++ [{
        physId := bp.gpio, openDrain := g.openDrain }] }

/-- `parse_cfg`: groups separated by commas. -/
def parseCfg (board : Board) : Nat → Inst → Text → Except ParseFail (Inst × Text)
  | 0, _, p => .error ⟨.unexpectedEnd, p⟩
  | fuel + 1, inst, p => do
      let (labels, p) ← readPins p
      let p ← expectChar ':' p
      let (mods, p) ← readModifiers 4 [] p
      let g ← atText p (resolveGroup mods)
      let inst ← atText p (labels.foldlM (declarePin board g) inst)
      match consumeChar ',' p with
      | (true, p) => parseCfg board fuel inst p
      | (false, p) => .ok (inst, p)

/-! ## `watch[...]` -/

/-- A comparison as written: `pin:value` or `pin:op:value`. -/
structure Clause where
  label : Text
  op : CompareOp
  value : Nat
  deriving DecidableEq, Repr

def compareOpOf (s : Text) : Option CompareOp :=
  if s = "eq".toList then some .eq
  else if s = "ne".toList then some .ne
  else if s = "lt".toList then some .lt
  else if s = "gt".toList then some .gt
  else if s = "le".toList then some .le
  else if s = "ge".toList then some .ge
  else none

/-- The optional operator: a letter after the colon announces it. -/
def readOp (p : Text) : Except ParseFail (CompareOp × Text) :=
  if isIdentStart (peek p) then do
    let (s, p) ← expectIdent p
    match compareOpOf s with
    | none => .error ⟨.unknownOp, p⟩
    | some op => do
        let p ← expectChar ':' p
        .ok (op, p)
  else .ok (.eq, p)

def readClause (p : Text) : Except ParseFail (Clause × Text) := do
  let (label, p) ← expectIdent p
  let p ← expectChar ':' p
  let (op, p) ← readOp (skipWs p)
  let (value, p) ← expectNumber p
  .ok (⟨label, op, value⟩, p)

/-- The statistic word of an ADC stream operand. -/
def streamStat (s : Text) : Option Nat :=
  if s = "avg".toList then some 1
  else if s = "min".toList then some 2
  else if s = "max".toList then some 3
  else if s = "rms".toList then some 4
  else none

/-- The window word of an ADC stream operand. -/
def streamWindow (s : Text) : Option Nat :=
  if s = "khz1".toList then some 0
  else if s = "hz100".toList then some 1
  else if s = "hz10".toList then some 2
  else none

/-- The statistic and window of an ADC operand's tail, `_stat_win`. -/
def streamTail (tail : Text) : Except ParseStatus (Nat × Nat) :=
  match tail with
  | [] => .ok (0, 0)
  | _ :: rest =>
      match rest.dropWhile (· != '_') with
      | [] => .error .unexpectedChar
      | _ :: win =>
          match streamStat (rest.takeWhile (· != '_')), streamWindow win with
          | some stat, some w => .ok (stat, w)
          | _, _ => .error .unknownMode

/-- `resolve_adc_stream`: a pin, or a pin with a statistic and a window. -/
def resolveAdcStream (board : Board) (inst : Inst) (s : Text) : Except ParseStatus (Inst × Nat) :=
  match board.pinLookup (s.takeWhile (· != '_')) with
  | none => .error .unknownPin
  | some bp => do
      let (stat, win) ← streamTail (s.dropWhile (· != '_'))
      match inst.inputs.findIdx? (fun i => i.mode == .adcStream && i.physId == bp.adcChannel &&
          i.oversampleExp == stat && i.shCyc == win) with
      | some idx => .ok (inst, idx)
      | none =>
          if inst.inputs.length ≥ maxInputs then .error .tooManyInputs
          else .ok ({ inst with inputs := inst.inputs ++ [{
            physId := bp.adcChannel, mode := .adcStream, oversampleExp := stat, shCyc := win }] },
            inst.inputs.length)

/-- The input a watch label names. Virtual inputs are declared on first use,
pins must have been declared by `cfg`. -/
def resolveOperand (board : Board) (adcMode : Bool) (inst : Inst) (label : Text) :
    Except ParseStatus (Inst × Nat) :=
  if adcMode then resolveAdcStream board inst label
  else if peek label = '_' then
    match board.virtLookup label with
    | none => .error .unknownVirtual
    | some virtId =>
        match findInputIdx inst virtId with
        | some idx => .ok (inst, idx)
        | none =>
            if inst.inputs.length ≥ maxInputs then .error .tooManyInputs
            else .ok ({ inst with inputs := inst.inputs ++ [{
              physId := virtId, mode := .virtual }] }, inst.inputs.length)
  else
    match board.pinLookup label with
    | none => .error .unknownPin
    | some bp =>
        match findInputIdx inst bp.gpio with
        | some idx => .ok (inst, idx)
        | none => .error .watchInputUndecl

/-- Append one clause to the instance, in the current group. -/
def addClause (board : Board) (adcMode : Bool) (group : Nat) (inst : Inst) (c : Clause) :
    Except ParseStatus Inst := do
  let (inst, idx) ← resolveOperand board adcMode inst c.label
  if (inst.inputs.getD idx ⟨0, .input, 0, 0, 0, 0⟩).hyst ≠ 0 ∧ (c.op = .eq ∨ c.op = .ne) then
    .error .hystOnEqNe
  else if inst.watches.length ≥ maxWatches then .error .tooManyWatches
  else .ok { inst with watches := inst.watches ++ [⟨idx, c.op, c.value, group⟩] }

/-- `parse_watch`: `,` continues the group, `|` starts the next. -/
def parseWatch (board : Board) (adcMode : Bool) :
    Nat → Nat → Inst → Text → Except ParseFail (Inst × Text)
  | 0, _, _, p => .error ⟨.unexpectedEnd, p⟩
  | fuel + 1, group, inst, p => do
      let (c, p) ← readClause p
      let inst ← atText p (addClause board adcMode group inst c)
      match consumeChar ',' p with
      | (true, p) => parseWatch board adcMode fuel group inst p
      | (false, p) =>
          match consumeChar '|' p with
          | (true, p) => parseWatch board adcMode fuel ((group + 1) % 256) inst p
          | (false, p) => .ok (inst, p)

/-! ## `out_ok[...]` and `out_err[...]` -/

/-- Record the level of one output pin. -/
def setOutput (board : Board) (isOk : Bool) (inst : Inst) (label : Text) (val : Nat) :
    Except ParseStatus Inst :=
  if val > 1 then .error .badNumber
  else
    match board.pinLookup label with
    | none => .error .unknownPin
    | some bp =>
        match findOutputIdx inst bp.gpio with
        | none => .error .outputUndecl
        | some idx => .ok { inst with outputs := inst.outputs.modify idx fun o =>
            if isOk then { o with okValue := val } else { o with errValue := val } }

/-- `parse_out_block` -/
def parseOutBlock (board : Board) (isOk : Bool) :
    Nat → Inst → Text → Except ParseFail (Inst × Text)
  | 0, _, p => .error ⟨.unexpectedEnd, p⟩
  | fuel + 1, inst, p => do
      let (label, p) ← expectIdent p
      let p ← expectChar ':' p
      let (val, p) ← expectNumber p
      let inst ← atText p (setOutput board isOk inst label val)
      match consumeChar ',' p with
      | (true, p) => parseOutBlock board isOk fuel inst p
      | (false, p) => .ok (inst, p)

/-! ## Top level -/

/-- The instance under construction and which output blocks were seen. -/
structure Draft where
  inst : Inst
  seenOutOk : Bool := false
  seenOutErr : Bool := false
  deriving DecidableEq, Repr

/-- The body of one section, between the brackets. -/
def parseSection (board : Board) (adcMode : Bool) (kw : Text) (d : Draft) (p : Text) :
    Except ParseFail (Draft × Text) :=
  let fuel := p.length + 1
  if kw = "cfg".toList then do
    let (inst, p) ← parseCfg board fuel d.inst p
    .ok ({ d with inst }, p)
  else if kw = "watch".toList then do
    let (inst, p) ← parseWatch board adcMode fuel 0 d.inst p
    .ok ({ d with inst }, p)
  else if kw = "out_ok".toList then do
    let (inst, p) ← parseOutBlock board true fuel d.inst p
    .ok ({ d with inst, seenOutOk := true }, p)
  else if kw = "out_err".toList then do
    let (inst, p) ← parseOutBlock board false fuel d.inst p
    .ok ({ d with inst, seenOutErr := true }, p)
  else .error ⟨.unknownKeyword, p⟩

/-- The loop over `";" keyword "[" body "]"`. -/
def parseSections (board : Board) (adcMode : Bool) :
    Nat → Draft → Text → Except ParseFail (Draft × Text)
  | 0, _, p => .error ⟨.unexpectedEnd, p⟩
  | fuel + 1, d, p =>
      match consumeChar ';' p with
      | (false, p) => .ok (d, p)
      | (true, p) => do
          let (kw, p) ← expectIdent p
          let p ← expectChar '[' p
          let (d, p) ← parseSection board adcMode kw d p
          let p ← expectChar ']' p
          parseSections board adcMode fuel d p

/-- The checks made once the whole text has been read. -/
def finishDraft (d : Draft) : Except ParseStatus Inst :=
  if d.inst.outputs.length > 0 then
    if !d.seenOutOk then .error .missingOutOk
    else if !d.seenOutErr then .error .missingOutErr
    else if d.inst.outputs.any (fun o => o.okValue == o.errValue) then
      .error .outputValueMismatch
    else .ok { d.inst with tfState := .unevaluated }
  else .ok { d.inst with tfState := .unevaluated }

/-- `il_parse_impl` up to the end-of-text test. -/
def parseMsg (board : Board) (adcMode : Bool) (text : Text) : Except ParseFail (Draft × Text) := do
  let (name, p) ← expectIdent text
  if name.length ≥ nameMax then .error ⟨.nameTooLong, p⟩
  else do
    let (d, p) ← parseSections board adcMode (p.length + 1) { inst := { name } } p
    let p := skipWs p
    if p.isEmpty then .ok (d, p) else .error ⟨.unexpectedChar, p⟩

/-- `il_parse_impl`: the instance, or the category with the error offset. The
final checks on the outputs leave the caller's offset at its initial zero. -/
def ilParseImpl (board : Board) (adcMode : Bool) (text : Text) : Except (ParseStatus × Nat) Inst :=
  if text.isEmpty then .error (.empty, 0)
  else
    match parseMsg board adcMode text with
    | .error fail => .error (fail.status, text.length - fail.unread.length)
    | .ok (d, _) =>
        match finishDraft d with
        | .error status => .error (status, 0)
        | .ok inst => .ok inst

/-- `il_parse` on the RP2040 board. -/
def ilParse (text : Text) : Except (ParseStatus × Nat) Inst := ilParseImpl rp2040 false text

/-- `il_parse_adc` on the RP2040 board. -/
def ilParseAdc (text : Text) : Except (ParseStatus × Nat) Inst := ilParseImpl rp2040 true text

end SlowBus.Interlock
