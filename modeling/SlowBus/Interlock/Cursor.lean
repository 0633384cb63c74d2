import SlowBus.Interlock.Limits

/-!
# The parser at byte positions

`parser_t` as it is: the text, its length and a position. Every read of a byte is checked
against the length. The functions follow those on what is left of the text, and agree with
them, so no read falls outside of the text.
-/

namespace SlowBus.Interlock.Cursor

open Fallible

/-- Why the parser stops before its end. -/
inductive Stop where
  /-- A byte at or past `text_len` is read. -/
  | outside (pos : Nat)
  | fail (status : ParseStatus) (pos : Nat)
  deriving DecidableEq, Repr

/-- `p->text[pos]` -/
def byteAt (text : Text) (pos : Nat) : Except Stop Char :=
  match text[pos]? with
  | some c => .ok c
  | none => .error (.outside pos)

/-! ## Character-level readers -/

/-- `while (!at_end(p) && f(p->text[p->pos])) p->pos++;` -/
def scan (f : Char → Bool) (text : Text) (pos : Nat) : Except Stop Nat :=
  if _ : pos < text.length then do
    let c ← byteAt text pos
    if f c then scan f text (pos + 1) else .ok pos
  else .ok pos
termination_by text.length - pos

/-- `peek` -/
def peek (text : Text) (pos : Nat) : Except Stop Char :=
  if pos < text.length then byteAt text pos else .ok '\x00'

/-- `skip_ws` -/
def skipWs (text : Text) (pos : Nat) : Except Stop Nat := scan isWs text pos

/-- `read_ident`; the bytes of the identifier are those that its loop has read. -/
def readIdent (text : Text) (pos : Nat) : Except Stop (Option Text × Nat) := do
  let pos ← skipWs text pos
  if pos < text.length then do
    let c ← byteAt text pos
    if isIdentStart c then do
      let stop ← scan isIdentCont text pos
      .ok (some ((text.drop pos).take (stop - pos)), stop)
    else .ok (none, pos)
  else .ok (none, pos)

/-- The digit loops of `read_number` and what follows them. -/
def readDigits (isd : Char → Bool) (step : Nat → Char → Nat) (text : Text) (pos val : Nat)
    (any : Bool) : Except Stop (Option Nat × Nat) :=
  if _ : pos < text.length then do
    let c ← byteAt text pos
    if isd c then readDigits isd step text (pos + 1) (step val c) true
    else .ok (if any then some (val % 2 ^ 16) else none, pos)
  else .ok (if any then some (val % 2 ^ 16) else none, pos)
termination_by text.length - pos

/-- The two bytes that start a hexadecimal numeral. -/
def hexMark (text : Text) (pos : Nat) : Except Stop Bool :=
  if pos + 1 < text.length then do
    let a ← byteAt text pos
    if a = '0' then do
      let b ← byteAt text (pos + 1)
      .ok (b == 'x' || b == 'X')
    else .ok false
  else .ok false

/-- `read_number` -/
def readNumber (text : Text) (pos : Nat) : Except Stop (Option Nat × Nat) := do
  let pos ← skipWs text pos
  let hex ← hexMark text pos
  if hex then readDigits isHexDigit hexStep text (pos + 2) 0 false
  else readDigits isDigit decStep text pos 0 false

/-- `consume_char` -/
def consumeChar (want : Char) (text : Text) (pos : Nat) : Except Stop (Bool × Nat) := do
  let pos ← skipWs text pos
  if pos < text.length then do
    let c ← byteAt text pos
    if c = want then .ok (true, pos + 1) else .ok (false, pos)
  else .ok (false, pos)

def expectIdent (text : Text) (pos : Nat) : Except Stop (Text × Nat) := do
  match ← readIdent text pos with
  | (some s, pos) => .ok (s, pos)
  | (none, pos) => .error (.fail .unexpectedChar pos)

def expectChar (want : Char) (text : Text) (pos : Nat) : Except Stop Nat := do
  match ← consumeChar want text pos with
  | (true, pos) => .ok pos
  | (false, pos) => .error (.fail .unexpectedChar pos)

def expectNumber (text : Text) (pos : Nat) : Except Stop (Nat × Nat) := do
  match ← readNumber text pos with
  | (some n, pos) => .ok (n, pos)
  | (none, pos) => .error (.fail .badNumber pos)

/-- A check that is made at a position. -/
def check {α : Type} (pos : Nat) : Except ParseStatus α → Except Stop α
  | .ok a => .ok a
  | .error status => .error (.fail status pos)

/-! ## Sections -/

def readPinLabels (text : Text) : Nat → List Text → Nat → Except Stop (List Text × Nat)
  | 0, _, pos => .error (.fail .tooManyInputs pos)
  | room + 1, labels, pos => do
      let (label, pos) ← expectIdent text pos
      match ← consumeChar ',' text pos with
      | (true, pos) => readPinLabels text room (labels ++ [label]) pos
      | (false, pos) => do
          let pos ← expectChar ')' text pos
          .ok (labels ++ [label], pos)

def readPins (text : Text) (pos : Nat) : Except Stop (List Text × Nat) := do
  let pos ← skipWs text pos
  match ← consumeChar '(' text pos with
  | (true, pos) => readPinLabels text (maxInputs + maxOutputs) [] pos
  | (false, pos) => do
      let (label, pos) ← expectIdent text pos
      .ok ([label], pos)

/-- The comma is given back, by the position before it, where no known modifier follows. -/
def readModifiers (text : Text) : Nat → List Text → Nat → Except Stop (List Text × Nat)
  | 0, _, pos => .error (.fail .unknownMode pos)
  | room + 1, mods, pos => do
      let (m, preComma) ← expectIdent text pos
      match ← consumeChar ',' text preComma with
      | (false, pos) => .ok (mods ++ [m], pos)
      | (true, pos) => do
          let atIdent ← skipWs text pos
          let c ← peek text atIdent
          if c = '(' then .ok (mods ++ [m], preComma)
          else if !isIdentStart c then .ok (mods ++ [m], preComma)
          else do
            let (next, _) ← expectIdent text atIdent
            if isKnownModifier next then readModifiers text room (mods ++ [m]) atIdent
            else .ok (mods ++ [m], preComma)

/-- `parse_cfg` -/
def parseCfg (board : Board) (text : Text) : Nat → Inst → Nat → Except Stop (Inst × Nat)
  | 0, _, pos => .error (.fail .unexpectedEnd pos)
  | fuel + 1, inst, pos => do
      let (labels, pos) ← readPins text pos
      let pos ← expectChar ':' text pos
      let (mods, pos) ← readModifiers text 4 [] pos
      let g ← check pos (resolveGroup mods)
      let inst ← check pos (labels.foldlM (declarePin board g) inst)
      match ← consumeChar ',' text pos with
      | (true, pos) => parseCfg board text fuel inst pos
      | (false, pos) => .ok (inst, pos)

def readOp (text : Text) (pos : Nat) : Except Stop (CompareOp × Nat) := do
  let c ← peek text pos
  if isIdentStart c then do
    let (s, pos) ← expectIdent text pos
    match compareOpOf s with
    | none => .error (.fail .unknownOp pos)
    | some op => do
        let pos ← expectChar ':' text pos
        .ok (op, pos)
  else .ok (.eq, pos)

def readClause (text : Text) (pos : Nat) : Except Stop (Clause × Nat) := do
  let (label, pos) ← expectIdent text pos
  let pos ← expectChar ':' text pos
  let pos ← skipWs text pos
  let (op, pos) ← readOp text pos
  let (value, pos) ← expectNumber text pos
  .ok (⟨label, op, value⟩, pos)

/-- `parse_watch` -/
def parseWatch (board : Board) (adcMode : Bool) (text : Text) :
    Nat → Nat → Inst → Nat → Except Stop (Inst × Nat)
  | 0, _, _, pos => .error (.fail .unexpectedEnd pos)
  | fuel + 1, group, inst, pos => do
      let (c, pos) ← readClause text pos
      let inst ← check pos (addClause board adcMode group inst c)
      match ← consumeChar ',' text pos with
      | (true, pos) => parseWatch board adcMode text fuel group inst pos
      | (false, pos) => do
          match ← consumeChar '|' text pos with
          | (true, pos) => parseWatch board adcMode text fuel ((group + 1) % 256) inst pos
          | (false, pos) => .ok (inst, pos)

/-- `parse_out_block` -/
def parseOutBlock (board : Board) (isOk : Bool) (text : Text) :
    Nat → Inst → Nat → Except Stop (Inst × Nat)
  | 0, _, pos => .error (.fail .unexpectedEnd pos)
  | fuel + 1, inst, pos => do
      let (label, pos) ← expectIdent text pos
      let pos ← expectChar ':' text pos
      let (val, pos) ← expectNumber text pos
      let inst ← check pos (setOutput board isOk inst label val)
      match ← consumeChar ',' text pos with
      | (true, pos) => parseOutBlock board isOk text fuel inst pos
      | (false, pos) => .ok (inst, pos)

def parseSection (board : Board) (adcMode : Bool) (text kw : Text) (d : Draft) (pos : Nat) :
    Except Stop (Draft × Nat) :=
  let fuel := text.length - pos + 1
  if kw = "cfg".toList then do
    let (inst, pos) ← parseCfg board text fuel d.inst pos
    .ok ({ d with inst }, pos)
  else if kw = "watch".toList then do
    let (inst, pos) ← parseWatch board adcMode text fuel 0 d.inst pos
    .ok ({ d with inst }, pos)
  else if kw = "out_ok".toList then do
    let (inst, pos) ← parseOutBlock board true text fuel d.inst pos
    .ok ({ d with inst, seenOutOk := true }, pos)
  else if kw = "out_err".toList then do
    let (inst, pos) ← parseOutBlock board false text fuel d.inst pos
    .ok ({ d with inst, seenOutErr := true }, pos)
  else .error (.fail .unknownKeyword pos)

def parseSections (board : Board) (adcMode : Bool) (text : Text) :
    Nat → Draft → Nat → Except Stop (Draft × Nat)
  | 0, _, pos => .error (.fail .unexpectedEnd pos)
  | fuel + 1, d, pos => do
      match ← consumeChar ';' text pos with
      | (false, pos) => .ok (d, pos)
      | (true, pos) => do
          let (kw, pos) ← expectIdent text pos
          let pos ← expectChar '[' text pos
          let (d, pos) ← parseSection board adcMode text kw d pos
          let pos ← expectChar ']' text pos
          parseSections board adcMode text fuel d pos

def parseMsg (board : Board) (adcMode : Bool) (text : Text) : Except Stop (Draft × Nat) := do
  let (name, pos) ← expectIdent text 0
  if name.length ≥ nameMax then .error (.fail .nameTooLong pos)
  else do
    let (d, pos) ← parseSections board adcMode text (text.length - pos + 1) { inst := { name } } pos
    let pos ← skipWs text pos
    if pos < text.length then .error (.fail .unexpectedChar pos) else .ok (d, pos)

/-- `il_parse_impl` -/
def ilParseImpl (board : Board) (adcMode : Bool) (text : Text) : Except Stop Inst :=
  if text.isEmpty then .error (.fail .empty 0)
  else do
    let (d, _) ← parseMsg board adcMode text
    check 0 (finishDraft d)

/-- `il_parse` -/
def ilParse (text : Text) : Except Stop Inst := ilParseImpl rp2040 false text

end SlowBus.Interlock.Cursor
