import SlowBus.Lib.Formula
import SlowBus.Dsl.Tokens

/-!
# The expression parser

The recursive descent of the Python compiler over the tokens of an expression. The
recursion carries fuel; four calls go with every token, so the fuel `parse` starts
with never runs out.
-/

namespace SlowBus.Dsl

/-- `_ROLE_BASES` -/
inductive RoleBase where
  | input
  | out
  | adc
  | dac
  | count
  | servo
  | oc
  | safe
  deriving DecidableEq, Repr

structure Role where
  base : RoleBase
  mods : List Text
  deriving DecidableEq, Repr

/-- The pins of a unit, in the order of declaration. -/
abbrev Roles := List (Text × Role)

/-- A comparison: an operand of the interlock file, an operator and a threshold. -/
structure Clause where
  operand : Text
  op : Op
  thr : Nat
  deriving DecidableEq, Repr

abbrev Ast := Formula Clause

/-- What the parser reads besides the tokens. -/
structure Ctx where
  py : Python
  /-- ADC mode: the atoms are streams. -/
  adc : Bool
  roles : Roles
  /-- `_volts_to_count` of a numeral, none where `float` or the division raises. -/
  voltsToCount : Text → Option Nat

def adcFullscale : Nat := 4095

def adcWatchPins : List Text := ["A1".toList, "D1".toList]
def adcStats : List Text := ["avg".toList, "min".toList, "max".toList, "rms".toList]
def adcWindows : List Text := ["khz1".toList, "hz100".toList, "hz10".toList]

def upper (s : Text) : Text := s.map Char.toUpper
def lower (s : Text) : Text := s.map Char.toLower

/-- Pin names are case-insensitive; virtual ones keep their case. -/
def pinName (id : Text) : Text := if id.head? = some '_' then id else upper id

/-- `<channel>_<stat>_<window>` -/
def streamName (chan stat win : Text) : Text := chan ++ '_' :: lower stat ++ '_' :: lower win

/-- The numeral ends in a volt sign. -/
def inVolts (numeral : Text) : Bool :=
  numeral.getLast? == some 'V' || numeral.getLast? == some 'v'

def Ctx.volts (c : Ctx) (numeral : Text) : Except DslError Nat :=
  match c.voltsToCount numeral.dropLast with
  | some n => .ok n
  | none => .error (.valueError numeral)

def Ctx.int (c : Ctx) (numeral : Text) : Except DslError Nat :=
  match c.py.int numeral with
  | some n => .ok n
  | none => .error (.valueError numeral)

/-- The threshold of a stream. -/
def Ctx.streamThreshold (c : Ctx) (numeral : Text) : Except DslError Nat :=
  if inVolts numeral then c.volts numeral
  else do
    let n ← c.int numeral
    if n ≤ adcFullscale then .ok n else .error (.countOutOfRange n)

/-- `_value` -/
def Ctx.value (c : Ctx) (pin : Text) (base : RoleBase) (numeral : Text) : Except DslError Nat :=
  if inVolts numeral then
    if base ≠ .adc then .error (.voltsOnGpio pin) else c.volts numeral
  else do
    let n ← c.int numeral
    if base = .adc then
      if n ≤ adcFullscale then .ok n else .error (.countOutOfRange n)
    else if n = 0 ∨ n = 1 then .ok n
    else .error (.gpioThreshold pin n)

/-- The number after a comparison sign. -/
def expectNum (op : Op) : List Tok → Except DslError (Text × List Tok)
  | .num numeral :: toks => .ok (numeral, toks)
  | _ => .error (.expectedNumber op)

/-- The stat and the window of a stream, after its channel. -/
def streamOperand (chan : Text) : List Tok → Except DslError (Text × List Tok)
  | .dot :: toks =>
      match toks with
      | .ident stat :: toks =>
          if lower stat ∈ adcStats then
            match toks with
            | .dot :: toks =>
                match toks with
                | .ident win :: toks =>
                    if lower win ∈ adcWindows then .ok (streamName chan stat win, toks)
                    else .error (.expectedWindow (some (.ident win)))
                | toks => .error (.expectedWindow toks.head?)
            | _ => .error (.expectedDotWindow stat)
          else .error (.expectedStat (some (.ident stat)))
      | toks => .error (.expectedStat toks.head?)
  | toks => .ok (chan, toks)

/-- `_adc_comparison` -/
def adcComparison (c : Ctx) (chan : Text) (toks : List Tok) : Except DslError (Ast × List Tok) :=
  if chan ∉ adcWatchPins then .error (.notWatchable chan)
  else do
    let (operand, toks) ← streamOperand chan toks
    match toks with
    | .cmp op :: toks => do
        let (numeral, toks) ← expectNum op toks
        let thr ← c.streamThreshold numeral
        .ok (.lit ⟨operand, op, thr⟩, toks)
    | _ => .error (.needsComparison operand)

/-- `_comparison` -/
def comparison (c : Ctx) (pin : Text) (toks : List Tok) : Except DslError (Ast × List Tok) :=
  match c.roles.lookup pin with
  | none => .error (.notDeclared pin)
  | some role =>
      if role.base = .out then .error (.outputWatched pin)
      else
        match toks with
        | .cmp op :: toks => do
            let (numeral, toks) ← expectNum op toks
            let thr ← c.value pin role.base numeral
            .ok (.lit ⟨pin, op, thr⟩, toks)
        | toks =>
            if role.base = .adc then .error (.needsComparison pin)
            else .ok (.lit ⟨pin, .eq, 1⟩, toks)

/-- The first operand alone, or the whole chain. -/
def chain (join : List Ast → Ast) (first : Ast) (rest : List Ast) : Ast :=
  if rest.isEmpty then first else join (first :: rest)

mutual

/-- `_or` -/
def parseOr (c : Ctx) (fuel : Nat) (toks : List Tok) : Except DslError (Ast × List Tok) :=
  match fuel with
  | 0 => .error .tooDeep
  | fuel + 1 => do
      let (first, toks) ← parseAnd c fuel toks
      let (rest, toks) ← parseOrs c fuel toks
      .ok (chain .or first rest, toks)

/-- The loop of `_or`. -/
def parseOrs (c : Ctx) (fuel : Nat) (toks : List Tok) :
    Except DslError (List Ast × List Tok) :=
  match fuel with
  | 0 => .error .tooDeep
  | fuel + 1 =>
      match toks with
      | .orOp :: toks => do
          let (first, toks) ← parseAnd c fuel toks
          let (rest, toks) ← parseOrs c fuel toks
          .ok (first :: rest, toks)
      | toks => .ok ([], toks)

/-- `_and` -/
def parseAnd (c : Ctx) (fuel : Nat) (toks : List Tok) : Except DslError (Ast × List Tok) :=
  match fuel with
  | 0 => .error .tooDeep
  | fuel + 1 => do
      let (first, toks) ← parseNot c fuel toks
      let (rest, toks) ← parseAnds c fuel toks
      .ok (chain .and first rest, toks)

/-- The loop of `_and`. -/
def parseAnds (c : Ctx) (fuel : Nat) (toks : List Tok) :
    Except DslError (List Ast × List Tok) :=
  match fuel with
  | 0 => .error .tooDeep
  | fuel + 1 =>
      match toks with
      | .andOp :: toks => do
          let (first, toks) ← parseNot c fuel toks
          let (rest, toks) ← parseAnds c fuel toks
          .ok (first :: rest, toks)
      | toks => .ok ([], toks)

/-- `_not` -/
def parseNot (c : Ctx) (fuel : Nat) (toks : List Tok) : Except DslError (Ast × List Tok) :=
  match fuel with
  | 0 => .error .tooDeep
  | fuel + 1 =>
      match toks with
      | .notOp :: toks => do
          let (node, toks) ← parseNot c fuel toks
          .ok (.not node, toks)
      | toks => parseAtom c fuel toks

/-- `_atom` -/
def parseAtom (c : Ctx) (fuel : Nat) (toks : List Tok) : Except DslError (Ast × List Tok) :=
  match fuel with
  | 0 => .error .tooDeep
  | fuel + 1 =>
      match toks with
      | .lp :: toks => do
          let (node, toks) ← parseOr c fuel toks
          match toks with
          | .rp :: toks => .ok (node, toks)
          | _ => .error .missingParen
      | .ident id :: toks =>
          if c.adc then adcComparison c (upper id) toks else comparison c (pinName id) toks
      | toks => .error (.expectedPin toks.head?)

end

/-- `parse` -/
def parse (c : Ctx) (toks : List Tok) : Except DslError Ast := do
  let (node, rest) ← parseOr c (4 * toks.length + 4) toks
  if rest = [] then .ok node else .error (.trailingTokens rest)

end SlowBus.Dsl
