import Mathlib.Data.List.TakeWhile
import SlowBus.Lib.Fallible

/-!
# Tokens of the slave DSL

The tokenizer of the Python compiler. What counts as white space or as a digit is the
business of the language's character tables; of these only the ASCII part is fixed here.
-/

namespace SlowBus.Dsl

abbrev Text := List Char

/-- White space among the ASCII characters, to Python. -/
def asciiSpace (c : Char) : Bool :=
  (9 ≤ c.toNat && c.toNat ≤ 13) || (28 ≤ c.toNat && c.toNat ≤ 32)

def asciiDigit (c : Char) : Option Nat :=
  if '0' ≤ c ∧ c ≤ '9' then some (c.toNat - '0'.toNat) else none

/-- What the compiler relies on of its language: white space and decimal digits of
Unicode, and the longest numeral that `int` reads (none for no limit). -/
structure Python where
  isSpace : Char → Bool
  digit : Char → Option Nat
  maxStrDigits : Option Nat
  space_ascii : ∀ c, c.toNat < 128 → isSpace c = asciiSpace c
  digit_ascii : ∀ c, c.toNat < 128 → digit c = asciiDigit c
  space_digit : ∀ c, isSpace c = true → digit c = none

def Python.isDigit (py : Python) (c : Char) : Bool := (py.digit c).isSome

/-- `int` of a numeral without a sign. -/
def Python.int (py : Python) (s : Text) : Option Nat :=
  if s ≠ [] ∧ s.all py.isDigit ∧ py.maxStrDigits.all (s.length ≤ ·) then
    some (s.foldl (fun n c => n * 10 + (py.digit c).getD 0) 0)
  else none

/-- The six comparisons, by the words of the firmware. -/
inductive Op where
  | gt
  | lt
  | ge
  | le
  | eq
  | ne
  deriving DecidableEq, Repr

/-- `_OP_INVERT` -/
def Op.invert : Op → Op
  | .gt => .le
  | .le => .gt
  | .lt => .ge
  | .ge => .lt
  | .eq => .ne
  | .ne => .eq

/-- `_OP_FROM_SYM` the other way. -/
def Op.symbol : Op → Text
  | .gt => ['>']
  | .lt => ['<']
  | .ge => ['>', '=']
  | .le => ['<', '=']
  | .eq => ['=', '=']
  | .ne => ['!', '=']

inductive Tok where
  | andOp
  | orOp
  | notOp
  | cmp (op : Op)
  | lp
  | rp
  | num (text : Text)
  | dot
  | ident (text : Text)
  deriving DecidableEq, Repr

/-- The characters a token was matched from. -/
def Tok.spelling : Tok → Text
  | .andOp => ['&', '&']
  | .orOp => ['|', '|']
  | .notOp => ['~']
  | .cmp op => op.symbol
  | .lp => ['(']
  | .rp => [')']
  | .num text => text
  | .dot => ['.']
  | .ident text => text

/-- The errors of the expression compiler. -/
inductive DslError where
  | cannotTokenize (near : Text)
  | trailingTokens (toks : List Tok)
  | missingParen
  | expectedPin (found : Option Tok)
  | notWatchable (chan : Text)
  | expectedStat (found : Option Tok)
  | expectedDotWindow (stat : Text)
  | expectedWindow (found : Option Tok)
  | needsComparison (operand : Text)
  | expectedNumber (op : Op)
  | countOutOfRange (n : Nat)
  | notDeclared (pin : Text)
  | outputWatched (pin : Text)
  | voltsOnGpio (pin : Text)
  | gpioThreshold (pin : Text) (n : Nat)
  /-- Not a `DSLError`: `int` or `float` refused the numeral. -/
  | valueError (numeral : Text)
  /-- Out of fuel; see `parse_ne_tooDeep`. -/
  | tooDeep
  deriving DecidableEq, Repr

def isIdentStart (c : Char) : Bool :=
  ('A' ≤ c && c ≤ 'Z') || ('a' ≤ c && c ≤ 'z') || c == '_'

def isIdentCont (c : Char) : Bool := isIdentStart c || ('0' ≤ c && c ≤ '9')

/-- The decimals of a numeral, with their point. -/
def fraction (isDigit : Char → Bool) : Text → Text
  | '.' :: rest => if rest.takeWhile isDigit = [] then [] else '.' :: rest.takeWhile isDigit
  | _ => []

def voltSuffix : Text → Text
  | 'V' :: _ => ['V']
  | 'v' :: _ => ['v']
  | _ => []

/-- `\d+(?:\.\d+)?[Vv]?` -/
def matchNum (py : Python) (s : Text) : Text :=
  let ds := s.takeWhile py.isDigit
  let frac := fraction py.isDigit (s.drop ds.length)
  ds ++ (frac ++ voltSuffix (s.drop (ds.length + frac.length)))

/-- `_TOKEN.match` at a character that is not white space. -/
def matchToken (py : Python) (s : Text) : Option Tok :=
  match s with
  | '&' :: '&' :: _ => some .andOp
  | '|' :: '|' :: _ => some .orOp
  | '~' :: _ => some .notOp
  | '>' :: '=' :: _ => some (.cmp .ge)
  | '<' :: '=' :: _ => some (.cmp .le)
  | '=' :: '=' :: _ => some (.cmp .eq)
  | '!' :: '=' :: _ => some (.cmp .ne)
  | '>' :: _ => some (.cmp .gt)
  | '<' :: _ => some (.cmp .lt)
  | '(' :: _ => some .lp
  | ')' :: _ => some .rp
  | c :: _ =>
      if py.isDigit c then some (.num (matchNum py s))
      else if c = '.' then some .dot
      else if isIdentStart c then some (.ident (s.takeWhile isIdentCont))
      else none
  | [] => none

/-- `_tokenize` from a position; the first `skip` characters belong to the token before. -/
def tokenizeFrom (py : Python) (skip : Nat) : Text → Except DslError (List Tok)
  | [] => .ok []
  | c :: rest =>
      match skip with
      | skip + 1 => tokenizeFrom py skip rest
      | 0 =>
          if py.isSpace c then tokenizeFrom py 0 rest
          else
            match matchToken py (c :: rest) with
            | none => .error (.cannotTokenize ((c :: rest).take 12))
            | some tok => do
                let toks ← tokenizeFrom py (tok.spelling.length - 1) rest
                .ok (tok :: toks)

/-- `_tokenize` -/
def tokenize (py : Python) (text : Text) : Except DslError (List Tok) := tokenizeFrom py 0 text

/-! ## Tokens and the text -/

section Spelling

variable {py : Python} {s : Text} {tok : Tok} {toks : List Tok} {c : Char}

theorem fraction_isPrefix (isDigit : Char → Bool) (s : Text) : fraction isDigit s <+: s := by
  unfold fraction
  split
  next rest =>
    split
    next => exact List.nil_prefix
    next =>
      rw [List.prefix_cons_inj]
      exact List.takeWhile_prefix _
  next => exact List.nil_prefix

theorem voltSuffix_isPrefix (s : Text) : voltSuffix s <+: s := by
  unfold voltSuffix
  split
  next rest => exact ⟨rest, rfl⟩
  next rest => exact ⟨rest, rfl⟩
  next => exact List.nil_prefix

/-- A prefix, and a prefix of what follows it. -/
theorem prefix_append_drop {a b : Text} (ha : a <+: s) (hb : b <+: s.drop a.length) :
    a ++ b <+: s := by
  obtain ⟨t, rfl⟩ := ha
  rw [List.drop_left] at hb
  exact (List.prefix_append_right_inj a).mpr hb

theorem matchNum_isPrefix (py : Python) (s : Text) : matchNum py s <+: s := by
  have hds : s.takeWhile py.isDigit <+: s := List.takeWhile_prefix _
  refine prefix_append_drop hds (prefix_append_drop (fraction_isPrefix _ _) ?_)
  rw [List.drop_drop]
  exact voltSuffix_isPrefix _

theorem matchToken_isPrefix (h : matchToken py s = some tok) : tok.spelling <+: s := by
  unfold matchToken at h
  split at h
  case h_12 =>
    split at h
    next =>
      cases h
      exact matchNum_isPrefix py _
    next =>
      split at h
      next hdot =>
        cases h
        rw [hdot]
        exact ⟨_, rfl⟩
      next =>
        split at h
        next =>
          cases h
          exact List.takeWhile_prefix _
        next => cases h
  case h_13 => cases h
  all_goals
    cases h
    exact ⟨_, rfl⟩

theorem isSpace_false (hlt : c.toNat < 128) (h : asciiSpace c = false) : py.isSpace c = false := by
  rw [py.space_ascii c hlt, h]

theorem digit_notSpace (h : py.isDigit c = true) : py.isSpace c = false := by
  cases hspace : py.isSpace c with
  | false => rfl
  | true =>
      rw [Python.isDigit, py.space_digit c hspace] at h
      cases h

theorem identCont_notSpace (h : isIdentCont c = true) : py.isSpace c = false := by
  have hrange : 48 ≤ c.toNat ∧ c.toNat ≤ 57 ∨ 65 ≤ c.toNat ∧ c.toNat ≤ 122 := by
    have hle : ∀ a b : Char, a ≤ b ↔ a.toNat ≤ b.toNat := fun a b => Iff.rfl
    have hunderscore : c = '_' → c.toNat = 95 := fun heq => by rw [heq]; rfl
    simp only [isIdentCont, isIdentStart, Bool.or_eq_true, Bool.and_eq_true, decide_eq_true_eq,
      beq_iff_eq, hle] at h
    have hA : 'A'.toNat = 65 := rfl
    have hZ : 'Z'.toNat = 90 := rfl
    have ha : 'a'.toNat = 97 := rfl
    have hz : 'z'.toNat = 122 := rfl
    have h0 : '0'.toNat = 48 := rfl
    have h9 : '9'.toNat = 57 := rfl
    rcases h with ((h | h) | h) | h
    · omega
    · omega
    · have := hunderscore h
      omega
    · omega
  refine isSpace_false (by omega) ?_
  simp only [asciiSpace, Bool.or_eq_false_iff, Bool.and_eq_false_iff, decide_eq_false_iff_not]
  omega

theorem matchNum_notSpace {x : Char} (hx : x ∈ matchNum py s) : py.isSpace x = false := by
  unfold matchNum at hx
  rcases List.mem_append.mp hx with hx | hx
  · exact digit_notSpace (List.mem_takeWhile_imp hx)
  rcases List.mem_append.mp hx with hx | hx
  · unfold fraction at hx
    split at hx
    next =>
      split at hx
      next => cases hx
      next =>
        rcases List.mem_cons.mp hx with rfl | hx
        · exact isSpace_false (by decide) (by decide)
        · exact digit_notSpace (List.mem_takeWhile_imp hx)
    next => cases hx
  · unfold voltSuffix at hx
    split at hx
    next =>
      rw [List.mem_singleton.mp hx]
      exact isSpace_false (by decide) (by decide)
    next =>
      rw [List.mem_singleton.mp hx]
      exact isSpace_false (by decide) (by decide)
    next => cases hx

/-- The characters of the tokens that are neither words nor numbers. -/
def signs : Text := ['&', '|', '~', '<', '>', '=', '!', '(', ')', '.']

theorem signs_notSpace (hx : x ∈ signs) : py.isSpace x = false := by
  simp only [signs, List.mem_cons, List.not_mem_nil, or_false] at hx
  rcases hx with rfl | rfl | rfl | rfl | rfl | rfl | rfl | rfl | rfl | rfl
  all_goals exact isSpace_false (by decide) (by decide)

/-- No token holds white space. -/
theorem matchToken_notSpace (h : matchToken py s = some tok) :
    tok.spelling ≠ [] ∧ ∀ x ∈ tok.spelling, py.isSpace x = false := by
  have hsign : ∀ w : Text, w ≠ [] → w ⊆ signs → w ≠ [] ∧ ∀ x ∈ w, py.isSpace x = false :=
    fun w hw hsub => ⟨hw, fun x hx => signs_notSpace (hsub hx)⟩
  unfold matchToken at h
  split at h
  case h_12 c rest _ _ _ _ _ _ _ _ _ _ _ =>
    split at h
    next hdigit =>
      cases h
      refine ⟨?_, fun x hx => matchNum_notSpace hx⟩
      simp [Tok.spelling, matchNum, hdigit]
    next =>
      split at h
      next =>
        cases h
        exact hsign _ (by decide) (by decide)
      next =>
        split at h
        next hident =>
          cases h
          refine ⟨?_, fun x hx => identCont_notSpace (List.mem_takeWhile_imp hx)⟩
          have hcont : isIdentCont c = true := by rw [isIdentCont, hident, Bool.true_or]
          simp [Tok.spelling, hcont]
        next => cases h
  case h_13 => cases h
  all_goals
    cases h
    exact hsign _ (by decide) (by decide)

theorem tokenizeFrom_spelled {skip : Nat} (h : tokenizeFrom py skip s = .ok toks) :
    (toks.map Tok.spelling).flatten = (s.drop skip).filter (!py.isSpace ·) := by
  induction s generalizing skip toks with
  | nil =>
      cases h
      simp
  | cons c rest ih =>
      unfold tokenizeFrom at h
      split at h
      next => exact ih h
      next =>
        split at h
        next hspace =>
          rw [ih h]
          simp [hspace]
        next hspace =>
          split at h
          next => cases h
          next tok hmatch =>
            obtain ⟨toks', htoks, hcons⟩ := Fallible.bind_eq_ok.mp h
            cases hcons
            obtain ⟨hne, hnotSpace⟩ := matchToken_notSpace hmatch
            obtain ⟨tail, htail⟩ := matchToken_isPrefix hmatch
            have hdrop : rest.drop (tok.spelling.length - 1) = tail := by
              have hlength : 0 < tok.spelling.length := List.length_pos_iff.mpr hne
              have hcons : (c :: rest).drop (tok.spelling.length - 1 + 1) = tail := by
                rw [Nat.sub_add_cancel hlength, ← htail, List.drop_left]
              exact hcons
            have hfilter : tok.spelling.filter (!py.isSpace ·) = tok.spelling :=
              List.filter_eq_self.mpr fun x hx => by rw [hnotSpace x hx]; rfl
            rw [List.map_cons, List.flatten_cons, ih htoks, hdrop, List.drop_zero, ← htail,
              List.filter_append, hfilter]

/-- The tokens spell the text without its white space. -/
theorem tokenize_spelled (h : tokenize py s = .ok toks) :
    (toks.map Tok.spelling).flatten = s.filter (!py.isSpace ·) :=
  tokenizeFrom_spelled h

end Spelling

end SlowBus.Dsl
