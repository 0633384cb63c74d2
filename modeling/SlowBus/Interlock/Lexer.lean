import SlowBus.Interlock.Instance

/-!
# Character-level readers of the interlock DSL

`parser_t` is the text, its length and a position; here it is the text still to
be read. The position reported on an error is recovered from the length of that
suffix. Both callers of the parser bound the text by `dslMax`, so the narrowing
of an identifier's length to a byte never truncates.
-/

namespace SlowBus.Interlock

def isWs (c : Char) : Bool := c == ' ' || c == '\t' || c == '\r' || c == '\n'

def isDigit (c : Char) : Bool := '0' ≤ c && c ≤ '9'

def isIdentStart (c : Char) : Bool :=
  ('a' ≤ c && c ≤ 'z') || ('A' ≤ c && c ≤ 'Z') || c == '_'

def isIdentCont (c : Char) : Bool := isIdentStart c || isDigit c

/-- The digit value `read_number` gives a character in a hexadecimal numeral. -/
def hexDigit (c : Char) : Option Nat :=
  if '0' ≤ c ∧ c ≤ '9' then some (c.toNat - '0'.toNat)
  else if 'a' ≤ c ∧ c ≤ 'f' then some (c.toNat - 'a'.toNat + 10)
  else if 'A' ≤ c ∧ c ≤ 'F' then some (c.toNat - 'A'.toNat + 10)
  else none

def isHexDigit (c : Char) : Bool := (hexDigit c).isSome

def skipWs (p : Text) : Text := p.dropWhile isWs

/-- The next character, or NUL at the end of the text. -/
def peek : Text → Char
  | [] => '\x00'
  | c :: _ => c

/-- `read_ident`: the identifier if there is one, and the text left. -/
def readIdent (p : Text) : Option Text × Text :=
  match skipWs p with
  | [] => (none, [])
  | c :: rest =>
      if isIdentStart c then
        (some ((c :: rest).takeWhile isIdentCont), (c :: rest).dropWhile isIdentCont)
      else (none, c :: rest)

/-- The `uint32_t` accumulator of the decimal loop. -/
def decStep (val : Nat) (c : Char) : Nat := (val * 10 + (c.toNat - '0'.toNat)) % 2 ^ 32

/-- The `uint32_t` accumulator of the hexadecimal loop. -/
def hexStep (val : Nat) (c : Char) : Nat := ((val <<< 4) ||| (hexDigit c).getD 0) % 2 ^ 32

def readDigits (isd : Char → Bool) (step : Nat → Char → Nat) (p : Text) : Option Nat × Text :=
  match p.takeWhile isd with
  | [] => (none, p)
  | ds => (some (ds.foldl step 0 % 2 ^ 16), p.dropWhile isd)

/-- `read_number`: a decimal or hexadecimal numeral, truncated to 16 bits. A
bare `0x` is consumed although no number is found. -/
def readNumber (p : Text) : Option Nat × Text :=
  match skipWs p with
  | '0' :: 'x' :: rest => readDigits isHexDigit hexStep rest
  | '0' :: 'X' :: rest => readDigits isHexDigit hexStep rest
  | q => readDigits isDigit decStep q

/-- `consume_char`: white space is skipped even when the character is not there. -/
def consumeChar (want : Char) (p : Text) : Bool × Text :=
  match skipWs p with
  | [] => (false, [])
  | c :: rest => if c = want then (true, rest) else (false, c :: rest)

/-! ## Modifiers with a number -/

/-- `is_param_mod`: a known stem followed by one or more digits. -/
def isParamMod (s stem : Text) : Bool :=
  decide (stem.length < s.length) && stem.isPrefixOf s && (s.drop stem.length).all isDigit

/-- `parse_param_mod_value`; `none` past 65535. -/
def parseParamModValue (s stem : Text) : Option Nat :=
  (s.drop stem.length).foldlM (fun v c =>
    let v := v * 10 + (c.toNat - '0'.toNat)
    if v > 65535 then none else some v) 0

def oversampleStem : Text := "oversample_".toList
def shStem : Text := "sh_".toList
def hystStem : Text := "hyst_".toList
def debounceStem : Text := "debounce_".toList

/-- `is_known_modifier` -/
def isKnownModifier (s : Text) : Bool :=
  s == "in".toList || s == "out".toList || s == "adc".toList || s == "up".toList ||
    s == "down".toList || isParamMod s oversampleStem || isParamMod s shStem ||
    isParamMod s hystStem || isParamMod s debounceStem

/-- `samplenum_to_exp` -/
def samplenumToExp : Nat → Option Nat
  | 1 => some 0
  | 2 => some 1
  | 4 => some 2
  | 8 => some 3
  | 16 => some 4
  | _ => none

/-! ## Boards -/

/-- `board_pin_t`; `adcChannel` is `0xFF` when the pin has no converter. -/
structure BoardPin where
  gpio : Nat
  adcChannel : Nat
  deriving DecidableEq, Repr

/-- What the parser asks of a board: the pin table and the virtual inputs. -/
structure Board where
  pinLookup : Text → Option BoardPin
  virtPins : List (Text × Nat)

/-- `virt_lookup` -/
def Board.virtLookup (board : Board) (s : Text) : Option Nat :=
  (board.virtPins.find? (fun entry => s == entry.1)).map Prod.snd

def adcNone : Nat := 0xFF

/-- `ci_eq`, one character without regard to case. -/
def ciEq (a b : Char) : Bool :=
  let lower (c : Char) := if 'A' ≤ c ∧ c ≤ 'Z' then Char.ofNat (c.toNat - 'A'.toNat + 'a'.toNat)
    else c
  lower a == lower b

/-- `parse_uint`: one to three decimal digits. -/
def parseUint (s : Text) : Option Nat :=
  if s.length = 0 ∨ 3 < s.length then none
  else if s.all isDigit then some (s.foldl (fun v c => v * 10 + (c.toNat - '0'.toNat)) 0)
  else none

/-- Number of GPIOs, and the size of the pin-claim table. -/
abbrev pinTableSize : Nat := 30

instance : NeZero pinTableSize := ⟨Nat.succ_ne_zero 29⟩

def adcChannelForGpio (gpio : Nat) : Nat :=
  if 26 ≤ gpio ∧ gpio ≤ 28 then gpio - 26 else adcNone

/-- `board_pin_lookup`: `adcK` or `ainK` for a converter channel, `gpN` for a pin. -/
def boardPinLookup : Text → Option BoardPin
  | a :: b :: c :: rest =>
      if ciEq a 'a' && ((ciEq b 'd' && ciEq c 'c') || (ciEq b 'i' && ciEq c 'n')) then
        (parseUint rest).bind fun k => if k > 2 then none else some ⟨26 + k, k⟩
      else if ciEq a 'g' && ciEq b 'p' then
        (parseUint (c :: rest)).bind fun n =>
          if n ≥ pinTableSize then none else some ⟨n, adcChannelForGpio n⟩
      else none
  | _ => none

/-- `k_virt_pins` -/
def virtPins : List (Text × Nat) :=
  [("_t_since_m2s".toList, virtTSinceM2s), ("_uptime".toList, virtUptime),
    ("_stack_hwm".toList, virtStackHwm), ("_nodesdead".toList, virtNodesDead),
    ("_adc0min".toList, virtAdcBase + 0), ("_adc0max".toList, virtAdcBase + 1),
    ("_adc0avg".toList, virtAdcBase + 2), ("_adc0rms".toList, virtAdcBase + 3),
    ("_adc1min".toList, virtAdcBase + 4), ("_adc1max".toList, virtAdcBase + 5),
    ("_adc1avg".toList, virtAdcBase + 6), ("_adc1rms".toList, virtAdcBase + 7),
    ("_adc2min".toList, virtAdcBase + 8), ("_adc2max".toList, virtAdcBase + 9),
    ("_adc2avg".toList, virtAdcBase + 10), ("_adc2rms".toList, virtAdcBase + 11)]

/-- The RP2040 board of the bus controller. -/
def rp2040 : Board where
  pinLookup := boardPinLookup
  virtPins := virtPins

end SlowBus.Interlock
