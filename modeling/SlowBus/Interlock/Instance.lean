import Mathlib.Algebra.Ring.Nat
import Mathlib.Data.List.Basic

/-!
# Interlock instances

The parsed form of one interlock: its inputs, its watch clauses in disjunctive
normal form, and the outputs it votes on. Counted C arrays are lists, so an
array and its count cannot disagree; bytes and half-words are naturals, reduced
where the source narrows them.
-/

namespace SlowBus.Interlock

/-- Raw DSL text. A byte of the config region is a character below 256. -/
abbrev Text := List Char

abbrev maxSlots : Nat := 10

instance : NeZero maxSlots := ⟨Nat.succ_ne_zero 9⟩

def maxBootAttempts : Nat := 3
def nameMax : Nat := 16
def dslMax : Nat := 128
def maxInputs : Nat := 7
def maxWatches : Nat := 8
def maxOutputs : Nat := 2

/-- `il_pin_mode_t` -/
inductive PinMode where
  | input | inputPullUp | inputPullDown | output | adc | virtual | adcStream
  deriving DecidableEq, Repr

/-- `il_compare_op_t` -/
inductive CompareOp where
  | eq | ne | lt | gt | le | ge
  deriving DecidableEq, Repr

/-- `il_tf_state_t` -/
inductive TfState where
  | unevaluated | isTrue | isFalse
  deriving DecidableEq, Repr

/-- `il_input_t`; `physId` is a GPIO number, or a virtual identifier when the
mode is `virtual`. -/
structure Input where
  physId : Nat
  mode : PinMode
  oversampleExp : Nat := 0
  shCyc : Nat := 0
  debounceDepth : Nat := 0
  hyst : Nat := 0
  deriving DecidableEq, Repr

/-- `il_watch_t`: one comparison. Clauses of one `group` are conjoined, groups
are disjoined. -/
structure Watch where
  inputIdx : Nat
  op : CompareOp
  threshold : Nat
  group : Nat
  deriving DecidableEq, Repr

/-- `il_output_t`; `openDrain` is 0 for push-pull, 1 for `oc`, 2 for `oc:up`. -/
structure Output where
  physId : Nat
  okValue : Nat := 0
  errValue : Nat := 0
  openDrain : Nat
  deriving DecidableEq, Repr

/-- `il_inst_t` -/
structure Inst where
  name : Text := []
  inputs : List Input := []
  watches : List Watch := []
  outputs : List Output := []
  tfState : TfState := .unevaluated
  deriving DecidableEq, Repr

/-- The comparison a watch makes, as the final `switch` of `eval_slot` does. -/
def CompareOp.holds : CompareOp → Nat → Nat → Bool
  | .eq, v, t => v == t
  | .ne, v, t => v != t
  | .lt, v, t => decide (v < t)
  | .gt, v, t => decide (t < v)
  | .le, v, t => decide (v ≤ t)
  | .ge, v, t => decide (t ≤ v)

/-! ## Virtual inputs -/

def virtTSinceM2s : Nat := 0xF0
def virtUptime : Nat := 0xF1
def virtStackHwm : Nat := 0xF2
def virtNodesDead : Nat := 0xF3
def virtAdcBase : Nat := 0xE0
def virtAdcCount : Nat := 12

/-! ## Parser verdicts -/

/-- `il_parse_status_t`, the failing categories. -/
inductive ParseStatus where
  | unexpectedChar | unexpectedEnd | badNumber | unknownKeyword | unknownPin
  | unknownMode | tooManyInputs | tooManyWatches | tooManyOutputs | nameTooLong
  | duplicatePin | watchInputUndecl | outputUndecl | outputValueMismatch
  | missingOutOk | missingOutErr | empty | unknownOp | oversampleOutOfRange
  | shOutOfRange | modifierOnGpio | thresholdOutOfRange | hystNotOnAdc
  | debounceNotOnGpio | debounceOutOfRange | unknownVirtual | hystOnEqNe
  deriving DecidableEq, Repr

/-- The numeric code the source gives each category. -/
def ParseStatus.code : ParseStatus → Nat
  | .unexpectedChar => 1 | .unexpectedEnd => 2 | .badNumber => 3 | .unknownKeyword => 4
  | .unknownPin => 5 | .unknownMode => 6 | .tooManyInputs => 7 | .tooManyWatches => 8
  | .tooManyOutputs => 9 | .nameTooLong => 10 | .duplicatePin => 11
  | .watchInputUndecl => 12 | .outputUndecl => 13 | .outputValueMismatch => 14
  | .missingOutOk => 15 | .missingOutErr => 16 | .empty => 17 | .unknownOp => 18
  | .oversampleOutOfRange => 19 | .shOutOfRange => 20 | .modifierOnGpio => 21
  | .thresholdOutOfRange => 22 | .hystNotOnAdc => 23 | .debounceNotOnGpio => 24
  | .debounceOutOfRange => 25 | .unknownVirtual => 26 | .hystOnEqNe => 27

end SlowBus.Interlock
