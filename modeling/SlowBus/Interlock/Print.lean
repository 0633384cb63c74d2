import SlowBus.Interlock.Grammar

/-!
# Interlock scripts in print

A script is an interlock in pieces: a name, and sections of pin groups, comparisons and
levels. Printed without white space it is read back piece by piece. Whether the parser
accepts the text, and the instance or the error that it ends in, are those of the checks on
the pieces, in the order of the text.
-/

namespace SlowBus.Interlock

open Fallible

/-! ## Scripts -/

/-- A group of pins and what they are: `(p,q):in,up`. -/
structure CfgGroup where
  labels : List Text
  mods : List Text
  deriving DecidableEq, Repr

/-- A section of a script. -/
inductive Part where
  | cfg (groups : List CfgGroup)
  | watch (groups : List (List Clause))
  | outOk (levels : List (Text × Nat))
  | outErr (levels : List (Text × Nat))
  deriving DecidableEq, Repr

structure Script where
  name : Text
  parts : List Part
  deriving DecidableEq, Repr

/-! ### In print -/

/-- The texts with a separator between them. -/
def joined (sep : Char) (ts : List Text) : Text := [sep].intercalate ts

def decimal (n : Nat) : Text := Nat.toDigits 10 n

def CompareOp.word : CompareOp → Text
  | .eq => "eq".toList
  | .ne => "ne".toList
  | .lt => "lt".toList
  | .gt => "gt".toList
  | .le => "le".toList
  | .ge => "ge".toList

def CfgGroup.text (g : CfgGroup) : Text :=
  '(' :: (joined ',' g.labels ++ ')' :: ':' :: joined ',' g.mods)

/-- A comparison for equality has no operator in print. -/
def Clause.text (c : Clause) : Text :=
  c.label ++ ':' :: (if c.op = .eq then decimal c.value
    else c.op.word ++ ':' :: decimal c.value)

def levelText (l : Text × Nat) : Text := l.1 ++ ':' :: decimal l.2

def Part.keyword : Part → Text
  | .cfg _ => "cfg".toList
  | .watch _ => "watch".toList
  | .outOk _ => "out_ok".toList
  | .outErr _ => "out_err".toList

def alternativeText (cs : List Clause) : Text := joined ',' (cs.map Clause.text)

def Part.body : Part → Text
  | .cfg groups => joined ',' (groups.map CfgGroup.text)
  | .watch groups => joined '|' (groups.map alternativeText)
  | .outOk levels | .outErr levels => joined ',' (levels.map levelText)

def Part.text (p : Part) : Text := ';' :: (p.keyword ++ '[' :: (p.body ++ [']']))

def Script.text (s : Script) : Text := s.name ++ s.parts.flatMap Part.text

/-! ### In pieces -/

def declareGroup (board : Board) (inst : Inst) (g : CfgGroup) : Except ParseStatus Inst := do
  let settings ← resolveGroup g.mods
  g.labels.foldlM (declarePin board settings) inst

/-- The comparisons of the alternatives, the first of them in this group. -/
def addGroups (board : Board) (adcMode : Bool) :
    Nat → Inst → List (List Clause) → Except ParseStatus Inst
  | _, inst, [] => .ok inst
  | group, inst, cs :: rest => do
      let inst ← cs.foldlM (addClause board adcMode group) inst
      addGroups board adcMode ((group + 1) % 256) inst rest

def setLevel (board : Board) (isOk : Bool) (inst : Inst) (l : Text × Nat) :
    Except ParseStatus Inst :=
  setOutput board isOk inst l.1 l.2

/-- The checks on the pieces of a section. -/
def Part.elaborate (board : Board) (adcMode : Bool) (d : Draft) : Part → Except ParseStatus Draft
  | .cfg groups => do
      let inst ← groups.foldlM (declareGroup board) d.inst
      .ok { d with inst }
  | .watch groups => do
      let inst ← addGroups board adcMode 0 d.inst groups
      .ok { d with inst }
  | .outOk levels => do
      let inst ← levels.foldlM (setLevel board true) d.inst
      .ok { d with inst, seenOutOk := true }
  | .outErr levels => do
      let inst ← levels.foldlM (setLevel board false) d.inst
      .ok { d with inst, seenOutErr := true }

/-- The checks on a script: its name, its sections in their order, and the final ones. -/
def Script.elaborate (board : Board) (adcMode : Bool) (s : Script) : Except ParseStatus Inst :=
  if s.name.length ≥ nameMax then .error .nameTooLong
  else do
    let d ← s.parts.foldlM (Part.elaborate board adcMode) { inst := { name := s.name } }
    finishDraft d

/-! ### Words that can be printed -/

def isIdent : Text → Bool
  | [] => false
  | c :: rest => isIdentStart c && rest.all isIdentCont

/-- Labels and modifiers are identifiers, and all modifiers but the first are known ones. -/
structure CfgGroup.Lexical (g : CfgGroup) : Prop where
  labels_ne : g.labels ≠ []
  labels_le : g.labels.length ≤ maxInputs + maxOutputs
  labels : ∀ l ∈ g.labels, isIdent l = true
  mods_ne : g.mods ≠ []
  mods_le : g.mods.length ≤ 4
  mods : ∀ m ∈ g.mods, isIdent m = true
  known : ∀ m ∈ g.mods.tail, isKnownModifier m = true

/-- A label, and a number that the reader does not cut. -/
def Lexical (label : Text) (value : Nat) : Prop := isIdent label = true ∧ value < 2 ^ 16

def Part.Lexical : Part → Prop
  | .cfg groups => groups ≠ [] ∧ ∀ g ∈ groups, g.Lexical
  | .watch groups => groups ≠ [] ∧
      ∀ cs ∈ groups, cs ≠ [] ∧ ∀ c ∈ cs, Interlock.Lexical c.label c.value
  | .outOk levels | .outErr levels => levels ≠ [] ∧ ∀ l ∈ levels, Interlock.Lexical l.1 l.2

structure Script.Lexical (s : Script) : Prop where
  name : isIdent s.name = true
  parts : ∀ p ∈ s.parts, p.Lexical

/-! ## Reading what is printed -/

section Words

variable {s rest : Text} {c : Char}

theorem joined_cons (sep : Char) (t : Text) (ts : List Text) :
    joined sep (t :: ts) = t ++ ts.flatMap (sep :: ·) := by
  induction ts generalizing t with
  | nil => rw [joined, List.intercalate_singleton, List.flatMap_nil, List.append_nil]
  | cons u ts ih =>
      have hrest : joined sep (u :: ts) = u ++ ts.flatMap (sep :: ·) := ih u
      rw [List.flatMap_cons, List.cons_append, ← hrest]
      simp only [joined, List.intercalate_cons_cons, List.append_assoc, List.singleton_append]

/-- The text does not go on with a letter, a digit or an underscore. -/
def Breaks (rest : Text) : Prop := rest.takeWhile isIdentCont = []

theorem breaks_cons (h : isIdentCont c = false) : Breaks (c :: rest) :=
  List.takeWhile_cons_of_neg (by simp [h])

theorem isIdent_cons (h : isIdent s = true) :
    ∃ c t, s = c :: t ∧ isIdentStart c = true ∧ isIdentCont c = true ∧
      ∀ d ∈ s, isIdentCont d = true := by
  cases s with
  | nil => cases h
  | cons c t =>
      obtain ⟨hc, ht⟩ := (Bool.and_eq_true _ _).mp h
      have hcont : isIdentCont c = true := by simp [isIdentCont, hc]
      refine ⟨c, t, rfl, hc, hcont, ?_⟩
      exact List.forall_mem_cons.mpr ⟨hcont, List.all_eq_true.mp ht⟩

theorem isWs_eq_false (h : isIdentCont c = true) : isWs c = false := by
  by_contra hws
  have hnot := isIdentCont_eq_false_of_isWs (Bool.not_eq_false _ ▸ hws)
  rw [h] at hnot
  cases hnot

theorem skipWs_cons (h : isWs c = false) : skipWs (c :: rest) = c :: rest :=
  List.dropWhile_cons_of_neg (by simp [h])

theorem takeWhile_word {f : Char → Bool} (hs : ∀ d ∈ s, f d = true)
    (hrest : rest.takeWhile f = []) :
    (s ++ rest).takeWhile f = s ∧ (s ++ rest).dropWhile f = rest := by
  have htake : (s ++ rest).takeWhile f = s := by
    rw [List.takeWhile_append_of_pos hs, hrest, List.append_nil]
  refine ⟨htake, ?_⟩
  have hsplit := List.takeWhile_append_dropWhile (p := f) (l := s ++ rest)
  rw [htake] at hsplit
  exact List.append_cancel_left hsplit

theorem readIdent_append (hs : isIdent s = true) (hrest : Breaks rest) :
    readIdent (s ++ rest) = (some s, rest) := by
  obtain ⟨c, t, rfl, hstart, hcont, hall⟩ := isIdent_cons hs
  obtain ⟨htake, hdrop⟩ := takeWhile_word hall hrest
  rw [List.cons_append] at htake hdrop ⊢
  unfold readIdent
  rw [skipWs_cons (isWs_eq_false hcont)]
  dsimp only
  rw [if_pos hstart, htake, hdrop]

theorem expectIdent_append (hs : isIdent s = true) (hrest : Breaks rest) :
    expectIdent (s ++ rest) = .ok (s, rest) := by
  rw [expectIdent, readIdent_append hs hrest]

theorem isIdentStart_eq_false_of_isDigit (h : isDigit c = true) : isIdentStart c = false := by
  obtain ⟨hlow, hhigh⟩ := (Bool.and_eq_true _ _).mp h
  have h9 : c.toNat ≤ 57 := char_le_iff.mp (of_decide_eq_true hhigh)
  have hletter : ∀ d : Char, 57 < d.toNat → decide (d ≤ c) = false := fun d hd =>
    decide_eq_false fun hle => by
      have := char_le_iff.mp hle
      omega
  have hunderscore : (c == '_') = false := by
    apply beq_eq_false_iff_ne.mpr
    rintro rfl
    exact absurd h9 (by decide)
  rw [isIdentStart, hletter 'a' (by decide), hletter 'A' (by decide), hunderscore]
  rfl

theorem decimal_ne_nil (n : Nat) : decimal n ≠ [] := Nat.toDigits_ne_nil

theorem decimal_digits {n : Nat} : ∀ d ∈ decimal n, isDigit d = true := by
  intro d hd
  obtain ⟨hlow, hhigh⟩ := (Bool.and_eq_true _ _).mp
    (Nat.isDigit_of_mem_toDigits (by decide) (by decide) hd)
  exact (Bool.and_eq_true _ _).mpr
    ⟨decide_eq_true (of_decide_eq_true hlow), decide_eq_true (of_decide_eq_true hhigh)⟩

/-- A number is read to the end of its digits. -/
theorem readNumber_decimal {n : Nat} (hn : n < 2 ^ 16) (hrest : Breaks rest) :
    readNumber (decimal n ++ rest) = (some n, rest) := by
  have hdigits := @decimal_digits n
  have hcont : ∀ d ∈ decimal n, isIdentCont d = true :=
    fun d hd => isIdentCont_of_isDigit (hdigits d hd)
  -- a digit would go on the word
  have hstop : rest.takeWhile isDigit = [] := by
    cases rest with
    | nil => rfl
    | cons d rest =>
        by_contra hne
        rw [List.takeWhile_cons] at hne
        split at hne
        next hd =>
          rw [Breaks, List.takeWhile_cons_of_pos (isIdentCont_of_isDigit hd)] at hrest
          cases hrest
        next => exact hne rfl
  obtain ⟨htake, hdrop⟩ := takeWhile_word hdigits hstop
  obtain ⟨d, ds, hds⟩ := List.exists_cons_of_ne_nil (decimal_ne_nil n)
  have hskip : skipWs (decimal n ++ rest) = decimal n ++ rest := by
    rw [hds] at hcont ⊢
    exact skipWs_cons (isWs_eq_false (hcont d List.mem_cons_self))
  -- no hexadecimal mark: what follows a digit is a digit or no letter
  have hmark : ∀ x : Char, isDigit x = false → isIdentCont x = true → ∀ q,
      decimal n ++ rest ≠ '0' :: x :: q := by
    intro x hx hxcont q heq
    have hone : decimal n = ['0'] := by
      rw [← htake, heq, List.takeWhile_cons_of_pos (by decide),
        List.takeWhile_cons_of_neg (by simp [hx])]
    rw [hone, List.singleton_append, List.cons.injEq] at heq
    rw [Breaks, heq.2, List.takeWhile_cons_of_pos hxcont] at hrest
    cases hrest
  -- cutting at every digit is cutting at the end
  have hfold : (decimal n).foldl decStep 0 % 2 ^ 16 = n := by
    rw [@foldl_step_mod decStep 10 (fun c => c.toNat - '0'.toNat) _ fun v c _ => rfl]
    have hvalue : digitsValue 10 (fun c => c.toNat - '0'.toNat) (decimal n) = n := by
      refine Eq.trans ?_ (@Nat.ofDigitChars_ten_toDigits n)
      rw [Nat.ofDigitChars_eq_foldl, digitsValue, decimal]
      simp only [Nat.mul_comm]
    rw [hvalue, Nat.mod_eq_of_lt hn]
  unfold readNumber
  rw [hskip]
  split
  next q heq => exact absurd heq (hmark 'x' (by decide) (by decide) q)
  next q heq => exact absurd heq (hmark 'X' (by decide) (by decide) q)
  next =>
    unfold readDigits
    rw [htake, hdrop, hds]
    dsimp only
    rw [← hds, hfold]

theorem expectNumber_decimal {n : Nat} (hn : n < 2 ^ 16) (hrest : Breaks rest) :
    expectNumber (decimal n ++ rest) = .ok (n, rest) := by
  rw [expectNumber, readNumber_decimal hn hrest]

/-- A character that is there is consumed, for no white space stands before it. -/
theorem expectChar_cons (h : isWs c = false) : expectChar c (c :: rest) = .ok rest := by
  unfold expectChar consumeChar
  rw [skipWs_cons h]
  dsimp only
  rw [if_pos rfl]

theorem readPinLabels_joined {room : Nat} {read labels : List Text} {label : Text}
    (hroom : labels.length < room) (hall : ∀ l ∈ label :: labels, isIdent l = true) :
    readPinLabels room read (label ++ (labels.flatMap (',' :: ·) ++ ')' :: rest)) =
      .ok (read ++ label :: labels, rest) := by
  induction labels generalizing room read label with
  | nil =>
      obtain ⟨room, rfl⟩ := Nat.exists_eq_add_one.mpr hroom
      rw [readPinLabels, List.flatMap_nil, List.nil_append,
        expectIdent_append (hall label List.mem_cons_self) (breaks_cons (by decide)), ok_bind]
      rfl
  | cons next labels ih =>
      obtain ⟨room, rfl⟩ := Nat.exists_eq_add_one.mpr (Nat.zero_lt_of_lt hroom)
      obtain ⟨hlabel, hall⟩ := List.forall_mem_cons.mp hall
      rw [readPinLabels, List.flatMap_cons, List.append_assoc, List.cons_append,
        expectIdent_append hlabel (breaks_cons (by decide)), ok_bind]
      have hrest := @ih room (read ++ [label]) next (Nat.lt_of_succ_lt_succ hroom) hall
      rw [List.append_assoc] at hrest
      exact hrest

/-- What may follow a pin group: the end of the section, or the next group. -/
def GroupEnd (rest : Text) : Prop := ∃ r, rest = ']' :: r ∨ rest = ',' :: '(' :: r

theorem GroupEnd.breaks (h : GroupEnd rest) : Breaks rest := by
  obtain ⟨r, rfl | rfl⟩ := h <;> exact breaks_cons (by decide)

/-- The comma before the next group is given back. -/
theorem readModifiers_joined {room : Nat} {read mods : List Text} {m : Text}
    (hroom : mods.length < room) (hall : ∀ m' ∈ m :: mods, isIdent m' = true)
    (hknown : ∀ m' ∈ mods, isKnownModifier m' = true) (hrest : GroupEnd rest) :
    readModifiers room read (m ++ (mods.flatMap (',' :: ·) ++ rest)) =
      .ok (read ++ m :: mods, rest) := by
  induction mods generalizing room read m with
  | nil =>
      obtain ⟨room, rfl⟩ := Nat.exists_eq_add_one.mpr hroom
      -- the last modifier: what follows is a comma before a group, or the end
      rw [readModifiers, List.flatMap_nil, List.nil_append,
        expectIdent_append (hall m List.mem_cons_self) hrest.breaks, ok_bind]
      obtain ⟨r, rfl | rfl⟩ := hrest <;> rfl
  | cons next mods ih =>
      obtain ⟨room, rfl⟩ := Nat.exists_eq_add_one.mpr (Nat.zero_lt_of_lt hroom)
      obtain ⟨hm, hall⟩ := List.forall_mem_cons.mp hall
      obtain ⟨hnext, hknown⟩ := List.forall_mem_cons.mp hknown
      have hrec := @ih room (read ++ [m]) next (Nat.lt_of_succ_lt_succ hroom) hall hknown
      rw [List.append_assoc, List.singleton_append] at hrec
      rw [readModifiers, List.flatMap_cons, List.append_assoc, List.cons_append,
        expectIdent_append hm (breaks_cons (by decide)), ok_bind]
      have hident := hall next List.mem_cons_self
      have htail : Breaks (mods.flatMap (',' :: ·) ++ rest) := by
        cases mods with
        | nil => exact hrest.breaks
        | cons => exact breaks_cons (by decide)
      -- the word after the comma is neither a group nor anything but a known modifier
      obtain ⟨c, t, hc, hstart, hcont, -⟩ := isIdent_cons hident
      have hskip : skipWs (next ++ (mods.flatMap (',' :: ·) ++ rest)) =
          next ++ (mods.flatMap (',' :: ·) ++ rest) := by
        rw [hc, List.cons_append, skipWs_cons (isWs_eq_false hcont)]
      have hpeek : peek (next ++ (mods.flatMap (',' :: ·) ++ rest)) = c := by
        rw [hc]
        rfl
      have hparen : c ≠ '(' := by
        rintro rfl
        cases hstart
      show (if peek (skipWs _) = '(' then _ else _) = _
      rw [hskip, hpeek, if_neg hparen, hstart, Bool.not_true, if_neg Bool.false_ne_true,
        expectIdent_append hident htail, ok_bind]
      dsimp only
      rw [if_pos hnext]
      exact hrec

end Words

/-! ## The parser on a printed script -/

section Reads

variable {α β σ ι : Type}

/-- What a reader ends in, wherever it stops on an error. -/
def outcome (x : Except ParseFail α) : Except ParseStatus α := x.mapError ParseFail.status

theorem outcome_bind (x : Except ParseFail α) (f : α → Except ParseFail β) :
    outcome (x >>= f) = outcome x >>= fun a => outcome (f a) := by
  cases x <;> rfl

theorem outcome_atText (p : Text) (x : Except ParseStatus α) : outcome (atText p x) = x := by
  cases x <;> rfl

/-- The reader takes the text off what is left, and does what the check does. -/
def Takes (item : σ → Text → Except ParseFail (σ × Text)) (text : Text)
    (act : σ → Except ParseStatus σ) (rest : Text) : Prop :=
  ∀ s, outcome (item s (text ++ rest)) = act s >>= fun s => .ok (s, rest)

theorem Takes.bind {item : σ → Text → Except ParseFail (σ × Text)} {text rest : Text}
    {act : σ → Except ParseStatus σ} (h : Takes item text act rest) (s : σ)
    (f : σ × Text → Except ParseFail β) :
    outcome (item s (text ++ rest) >>= f) = act s >>= fun s => outcome (f (s, rest)) := by
  rw [outcome_bind, h s]
  cases act s <;> rfl

/-- A loop over items with commas between them. -/
theorem commaLoop_takes {loop : Nat → σ → Text → Except ParseFail (σ × Text)}
    {item : σ → Text → Except ParseFail (σ × Text)} {text : ι → Text}
    {act : σ → ι → Except ParseStatus σ} {Stop : Text → Prop} {x : ι} {xs : List ι} {rest : Text}
    {fuel : Nat} {s : σ}
    (hloop : ∀ fuel s p, loop (fuel + 1) s p = item s p >>= fun r =>
      match consumeChar ',' r.2 with
      | (true, p) => loop fuel r.1 p
      | (false, p) => .ok (r.1, p))
    (hitem : ∀ y ∈ x :: xs, ∀ rest, Stop rest → Takes item (text y) (fun s => act s y) rest)
    (hcomma : ∀ y ∈ xs, ∀ rest, Stop (',' :: (text y ++ rest)))
    (hrest : Stop (']' :: rest))
    (hfuel : (text x ++ (xs.flatMap (fun y => ',' :: text y) ++ ']' :: rest)).length < fuel) :
    outcome (loop fuel s (text x ++ (xs.flatMap (fun y => ',' :: text y) ++ ']' :: rest))) =
      (x :: xs).foldlM act s >>= fun s => .ok (s, ']' :: rest) := by
  induction xs generalizing x fuel s with
  | nil =>
      obtain ⟨fuel, rfl⟩ := Nat.exists_eq_add_one.mpr (Nat.zero_lt_of_lt hfuel)
      rw [hloop, List.flatMap_nil, List.nil_append,
        (hitem x List.mem_cons_self _ hrest).bind, List.foldlM_cons]
      cases act s x <;> rfl
  | cons y ys ih =>
      obtain ⟨fuel, rfl⟩ := Nat.exists_eq_add_one.mpr (Nat.zero_lt_of_lt hfuel)
      obtain ⟨hx, hitem⟩ := List.forall_mem_cons.mp hitem
      obtain ⟨hy, hcomma⟩ := List.forall_mem_cons.mp hcomma
      rw [hloop, List.flatMap_cons, List.append_assoc, List.cons_append,
        (hx _ (hy _)).bind, List.foldlM_cons]
      cases hact : act s x with
      | error e => rfl
      | ok s' =>
          have hshort : (text y ++ (ys.flatMap (fun y => ',' :: text y) ++ ']' :: rest)).length <
              fuel := by
            simp only [List.length_append, List.flatMap_cons, List.length_cons] at hfuel ⊢
            omega
          rw [ok_bind, ok_bind, ← @ih y fuel s' hitem hcomma hshort]
          rfl

variable {board : Board} {adcMode : Bool} {rest : Text} {fuel : Nat}

/-! ### Pin groups -/

/-- A turn of `parse_cfg`, before it looks for a comma. -/
def readGroup (board : Board) (inst : Inst) (p : Text) : Except ParseFail (Inst × Text) := do
  let (labels, p) ← readPins p
  let p ← expectChar ':' p
  let (mods, p) ← readModifiers 4 [] p
  let g ← atText p (resolveGroup mods)
  let inst ← atText p (labels.foldlM (declarePin board g) inst)
  .ok (inst, p)

theorem parseCfg_succ (fuel : Nat) (inst : Inst) (p : Text) :
    parseCfg board (fuel + 1) inst p = readGroup board inst p >>= fun r =>
      match consumeChar ',' r.2 with
      | (true, p) => parseCfg board fuel r.1 p
      | (false, p) => .ok (r.1, p) := by
  rw [parseCfg, readGroup]
  simp only [bind_assoc]
  rfl

theorem readGroup_takes {g : CfgGroup} (hg : g.Lexical) (hrest : GroupEnd rest) :
    Takes (readGroup board) g.text (fun inst => declareGroup board inst g) rest := by
  intro inst
  obtain ⟨labels, mods⟩ := g
  obtain ⟨label, labels, rfl⟩ := List.exists_cons_of_ne_nil hg.labels_ne
  obtain ⟨m, mods, rfl⟩ := List.exists_cons_of_ne_nil hg.mods_ne
  have hlabels : readPins (CfgGroup.text ⟨label :: labels, m :: mods⟩ ++ rest) =
      .ok (label :: labels, ':' :: (m ++ (mods.flatMap (',' :: ·) ++ rest))) := by
    have hread := @readPinLabels_joined (':' :: (m ++ (mods.flatMap (',' :: ·) ++ rest))) _ []
      labels label hg.labels_le hg.labels
    simp only [CfgGroup.text, joined_cons, List.cons_append, List.append_assoc]
    exact hread
  have hmods := @readModifiers_joined rest _ [] mods m hg.mods_le hg.mods hg.known hrest
  rw [readGroup, hlabels, ok_bind]
  dsimp only
  rw [expectChar_cons (by decide), ok_bind, hmods, ok_bind]
  dsimp only
  rw [outcome_bind, outcome_atText, List.nil_append]
  unfold declareGroup
  cases resolveGroup (m :: mods) with
  | error e => rfl
  | ok settings =>
      rw [ok_bind, outcome_bind, outcome_atText]
      rfl

/-! ### Levels -/

/-- A turn of `parse_out_block`, before it looks for a comma. -/
def readLevel (board : Board) (isOk : Bool) (inst : Inst) (p : Text) :
    Except ParseFail (Inst × Text) := do
  let (label, p) ← expectIdent p
  let p ← expectChar ':' p
  let (val, p) ← expectNumber p
  let inst ← atText p (setOutput board isOk inst label val)
  .ok (inst, p)

theorem parseOutBlock_succ {isOk : Bool} (fuel : Nat) (inst : Inst) (p : Text) :
    parseOutBlock board isOk (fuel + 1) inst p = readLevel board isOk inst p >>= fun r =>
      match consumeChar ',' r.2 with
      | (true, p) => parseOutBlock board isOk fuel r.1 p
      | (false, p) => .ok (r.1, p) := by
  rw [parseOutBlock, readLevel]
  simp only [bind_assoc]
  rfl

theorem readLevel_takes {isOk : Bool} {l : Text × Nat} (hl : Lexical l.1 l.2)
    (hrest : Breaks rest) :
    Takes (readLevel board isOk) (levelText l) (fun inst => setLevel board isOk inst l) rest := by
  intro inst
  rw [readLevel, levelText, List.append_assoc, List.cons_append,
    expectIdent_append hl.1 (breaks_cons (by decide)), ok_bind]
  dsimp only
  rw [expectChar_cons (by decide), ok_bind, expectNumber_decimal hl.2 hrest, ok_bind]
  dsimp only
  rw [outcome_bind, outcome_atText]
  rfl

/-! ### Comparisons -/

theorem compareOpOf_word (op : CompareOp) : compareOpOf op.word = some op := by
  cases op <;> decide

theorem isIdent_word (op : CompareOp) : isIdent op.word = true := by
  cases op <;> decide

/-- A turn of `parse_watch`, before it looks for a comma or a bar. -/
def readComparison (board : Board) (adcMode : Bool) (group : Nat) (inst : Inst) (p : Text) :
    Except ParseFail (Inst × Text) := do
  let (c, p) ← readClause p
  let inst ← atText p (addClause board adcMode group inst c)
  .ok (inst, p)

/-- What `parse_watch` does after a comparison. -/
def afterComparison (board : Board) (adcMode : Bool) (fuel group : Nat) (inst : Inst) (p : Text) :
    Except ParseFail (Inst × Text) :=
  match consumeChar ',' p with
  | (true, p) => parseWatch board adcMode fuel group inst p
  | (false, p) =>
      match consumeChar '|' p with
      | (true, p) => parseWatch board adcMode fuel ((group + 1) % 256) inst p
      | (false, p) => .ok (inst, p)

theorem parseWatch_succ (fuel group : Nat) (inst : Inst) (p : Text) :
    parseWatch board adcMode (fuel + 1) group inst p =
      readComparison board adcMode group inst p >>= fun r =>
        afterComparison board adcMode fuel group r.1 r.2 := by
  rw [parseWatch, readComparison]
  simp only [bind_assoc]
  rfl

/-- The digit after the colon tells that there is no operator. -/
theorem readOp_decimal (n : Nat) :
    readOp (skipWs (decimal n ++ rest)) = .ok (.eq, decimal n ++ rest) := by
  have hdigits := @decimal_digits n
  obtain ⟨d, ds, hds⟩ := List.exists_cons_of_ne_nil (decimal_ne_nil n)
  rw [hds] at hdigits ⊢
  have hd := hdigits d List.mem_cons_self
  rw [List.cons_append, skipWs_cons (isWs_eq_false (isIdentCont_of_isDigit hd)), readOp,
    if_neg (by simp [peek, isIdentStart_eq_false_of_isDigit hd])]

theorem readOp_word (op : CompareOp) :
    readOp (skipWs (op.word ++ ':' :: rest)) = .ok (op, rest) := by
  have hword := isIdent_word op
  have hread := @expectIdent_append _ (':' :: rest) hword (breaks_cons (by decide))
  obtain ⟨c, t, hc, hstart, hcont, -⟩ := isIdent_cons hword
  have hpeek : peek (op.word ++ ':' :: rest) = c := by
    rw [hc]
    rfl
  have hskip : skipWs (op.word ++ ':' :: rest) = op.word ++ ':' :: rest := by
    rw [hc, List.cons_append, skipWs_cons (isWs_eq_false hcont)]
  rw [hskip, readOp, hpeek, if_pos hstart, hread, ok_bind]
  dsimp only
  rw [compareOpOf_word]
  dsimp only
  rw [expectChar_cons (by decide)]
  rfl

theorem readClause_text {c : Clause} (hc : Lexical c.label c.value) (hrest : Breaks rest) :
    readClause (c.text ++ rest) = .ok (c, rest) := by
  obtain ⟨label, op, value⟩ := c
  obtain ⟨hlabel, hvalue⟩ := hc
  have hnumber := expectNumber_decimal hvalue hrest
  unfold readClause Clause.text
  dsimp only at hlabel hnumber ⊢
  rw [List.append_assoc, List.cons_append, expectIdent_append hlabel (breaks_cons (by decide)),
    ok_bind]
  dsimp only
  rw [expectChar_cons (by decide), ok_bind]
  by_cases hop : op = .eq
  · rw [if_pos hop, readOp_decimal, ok_bind]
    dsimp only
    rw [hnumber, hop]
    rfl
  · rw [if_neg hop, List.append_assoc, List.cons_append, readOp_word, ok_bind]
    dsimp only
    rw [hnumber]
    rfl

theorem readComparison_takes {group : Nat} {c : Clause} (hc : Lexical c.label c.value)
    (hrest : Breaks rest) :
    Takes (readComparison board adcMode group) c.text
      (fun inst => addClause board adcMode group inst c) rest := by
  intro inst
  rw [readComparison, readClause_text hc hrest, ok_bind]
  dsimp only
  rw [outcome_bind, outcome_atText]
  rfl

/-- The comparisons of an alternative; `k` is what comes of the text behind them. -/
theorem parseWatch_alternative {group : Nat} {inst : Inst} {c : Clause} {cs : List Clause}
    {k : Inst → Except ParseStatus (Inst × Text)}
    (hcs : ∀ c' ∈ c :: cs, Lexical c'.label c'.value) (hbreaks : Breaks rest)
    (hk : ∀ fuel inst, rest.length < fuel →
      outcome (afterComparison board adcMode fuel group inst rest) = k inst)
    (hfuel : (c.text ++ (cs.flatMap (fun c => ',' :: c.text) ++ rest)).length < fuel) :
    outcome (parseWatch board adcMode fuel group inst
        (c.text ++ (cs.flatMap (fun c => ',' :: c.text) ++ rest))) =
      (c :: cs).foldlM (addClause board adcMode group) inst >>= k := by
  have hfuel' : 0 < fuel := Nat.zero_lt_of_lt hfuel
  induction cs generalizing fuel inst c with
  | nil =>
      obtain ⟨fuel, rfl⟩ := Nat.exists_eq_add_one.mpr hfuel'
      have hroom : rest.length < fuel := by
        simp only [Clause.text, List.flatMap_nil, List.nil_append, List.length_append,
          List.length_cons] at hfuel
        omega
      rw [parseWatch_succ, List.flatMap_nil, List.nil_append,
        (readComparison_takes (hcs c List.mem_cons_self) hbreaks).bind, List.foldlM_cons]
      cases addClause board adcMode group inst c with
      | error e => rfl
      | ok inst' => exact hk fuel inst' hroom
  | cons next cs ih =>
      obtain ⟨fuel, rfl⟩ := Nat.exists_eq_add_one.mpr hfuel'
      obtain ⟨hc, hcs⟩ := List.forall_mem_cons.mp hcs
      have hroom : (next.text ++ (cs.flatMap (fun c => ',' :: c.text) ++ rest)).length < fuel := by
        simp only [List.flatMap_cons, List.length_append, List.length_cons] at hfuel ⊢
        omega
      rw [parseWatch_succ, List.flatMap_cons, List.append_assoc, List.cons_append,
        (readComparison_takes hc (breaks_cons (by decide))).bind, List.foldlM_cons]
      cases addClause board adcMode group inst c with
      | error e => rfl
      | ok inst' =>
          rw [ok_bind, ok_bind, ← @ih fuel inst' next hcs hroom (Nat.zero_lt_of_lt hroom)]
          rfl

/-- The alternatives one after the other, each in the next group. -/
theorem parseWatch_takes {group : Nat} {inst : Inst} {cs : List Clause}
    {groups : List (List Clause)}
    (hgroups : ∀ cs' ∈ cs :: groups, cs' ≠ [] ∧ ∀ c ∈ cs', Lexical c.label c.value)
    (hfuel : (alternativeText cs ++ (groups.flatMap (fun cs => '|' :: alternativeText cs) ++
      ']' :: rest)).length < fuel) :
    outcome (parseWatch board adcMode fuel group inst
        (alternativeText cs ++ (groups.flatMap (fun cs => '|' :: alternativeText cs) ++
          ']' :: rest))) =
      addGroups board adcMode group inst (cs :: groups) >>=
        fun inst => .ok (inst, ']' :: rest) := by
  have htext : ∀ (c : Clause) (cs : List Clause), alternativeText (c :: cs) =
      c.text ++ cs.flatMap (fun c => ',' :: c.text) := fun c cs => by
    rw [alternativeText, List.map_cons, joined_cons, List.flatMap_map]
  induction groups generalizing fuel group inst cs with
  | nil =>
      obtain ⟨hne, hlexical⟩ := hgroups cs List.mem_cons_self
      obtain ⟨c, cs, rfl⟩ := List.exists_cons_of_ne_nil hne
      rw [htext, List.append_assoc, List.flatMap_nil, List.nil_append] at hfuel ⊢
      rw [parseWatch_alternative hlexical (breaks_cons (by decide))
        (k := fun inst => .ok (inst, ']' :: rest)) (fun _ _ _ => rfl) hfuel, addGroups, bind_assoc]
      rfl
  | cons next groups ih =>
      obtain ⟨⟨hne, hlexical⟩, hnext⟩ := List.forall_mem_cons.mp hgroups
      obtain ⟨c, cs, rfl⟩ := List.exists_cons_of_ne_nil hne
      rw [htext, List.append_assoc, List.flatMap_cons, List.append_assoc, List.cons_append]
        at hfuel ⊢
      rw [addGroups, bind_assoc]
      refine parseWatch_alternative hlexical (breaks_cons (by decide)) ?_ hfuel
      intro fuel' inst' hroom
      exact ih hnext (Nat.lt_of_succ_lt hroom)

/-! ### Sections -/

theorem parseCfg_takes {groups : List CfgGroup} {inst : Inst} (hne : groups ≠ [])
    (hall : ∀ g ∈ groups, g.Lexical)
    (hfuel : (joined ',' (groups.map CfgGroup.text) ++ ']' :: rest).length < fuel) :
    outcome (parseCfg board fuel inst (joined ',' (groups.map CfgGroup.text) ++ ']' :: rest)) =
      groups.foldlM (declareGroup board) inst >>= fun inst => .ok (inst, ']' :: rest) := by
  obtain ⟨g, groups, rfl⟩ := List.exists_cons_of_ne_nil hne
  rw [List.map_cons, joined_cons, List.flatMap_map, List.append_assoc] at hfuel ⊢
  refine commaLoop_takes parseCfg_succ (fun g hg _ hrest => readGroup_takes (hall g hg) hrest)
    (fun g _ rest => ?_) ⟨rest, .inl rfl⟩ hfuel
  exact ⟨_, .inr rfl⟩

theorem parseOutBlock_takes {isOk : Bool} {levels : List (Text × Nat)} {inst : Inst}
    (hne : levels ≠ []) (hall : ∀ l ∈ levels, Lexical l.1 l.2)
    (hfuel : (joined ',' (levels.map levelText) ++ ']' :: rest).length < fuel) :
    outcome (parseOutBlock board isOk fuel inst
        (joined ',' (levels.map levelText) ++ ']' :: rest)) =
      levels.foldlM (setLevel board isOk) inst >>= fun inst => .ok (inst, ']' :: rest) := by
  obtain ⟨l, levels, rfl⟩ := List.exists_cons_of_ne_nil hne
  rw [List.map_cons, joined_cons, List.flatMap_map, List.append_assoc] at hfuel ⊢
  exact commaLoop_takes parseOutBlock_succ (fun l hl _ hrest => readLevel_takes (hall l hl) hrest)
    (fun _ _ _ => breaks_cons (by decide)) (breaks_cons (by decide)) hfuel

theorem parseSection_takes {p : Part} (hp : p.Lexical) (d : Draft) :
    outcome (parseSection board adcMode p.keyword d (p.body ++ ']' :: rest)) =
      p.elaborate board adcMode d >>= fun d => .ok (d, ']' :: rest) := by
  have hfuel := Nat.lt_succ_self (p.body ++ ']' :: rest).length
  cases p with
  | cfg groups =>
      obtain ⟨hne, hall⟩ := hp
      have hkeyword : (Part.cfg groups).keyword = "cfg".toList := by
        unfold Part.keyword
        rfl
      rw [Part.body] at hfuel ⊢
      rw [hkeyword, parseSection, if_pos rfl, outcome_bind, Part.elaborate,
        parseCfg_takes hne hall hfuel]
      cases groups.foldlM (declareGroup board) d.inst <;> rfl
  | watch groups =>
      obtain ⟨hne, hall⟩ := hp
      have hkeyword : (Part.watch groups).keyword = "watch".toList := by
        unfold Part.keyword
        rfl
      rw [Part.body] at hfuel ⊢
      rw [hkeyword, parseSection, if_neg (by decide), if_pos rfl, outcome_bind, Part.elaborate]
      -- the first group stands without a bar before it
      obtain ⟨cs, groups, rfl⟩ := List.exists_cons_of_ne_nil hne
      rw [List.map_cons, joined_cons, List.flatMap_map, List.append_assoc] at hfuel ⊢
      rw [parseWatch_takes hall hfuel]
      cases addGroups board adcMode 0 d.inst (cs :: groups) <;> rfl
  | outOk levels =>
      obtain ⟨hne, hall⟩ := hp
      have hkeyword : (Part.outOk levels).keyword = "out_ok".toList := by
        unfold Part.keyword
        rfl
      rw [Part.body] at hfuel ⊢
      rw [hkeyword, parseSection, if_neg (by decide), if_neg (by decide), if_pos rfl,
        outcome_bind, Part.elaborate, parseOutBlock_takes hne hall hfuel]
      cases levels.foldlM (setLevel board true) d.inst <;> rfl
  | outErr levels =>
      obtain ⟨hne, hall⟩ := hp
      have hkeyword : (Part.outErr levels).keyword = "out_err".toList := by
        unfold Part.keyword
        rfl
      rw [Part.body] at hfuel ⊢
      rw [hkeyword, parseSection, if_neg (by decide), if_neg (by decide),
        if_neg (by decide), if_pos rfl, outcome_bind, Part.elaborate,
        parseOutBlock_takes hne hall hfuel]
      cases levels.foldlM (setLevel board false) d.inst <;> rfl

theorem isIdent_keyword (p : Part) : isIdent p.keyword = true := by
  cases p <;> rfl

/-- The loop over the sections reads them to the end of the text. -/
theorem parseSections_takes {parts : List Part} {d : Draft} (hall : ∀ p ∈ parts, p.Lexical)
    (hfuel : (parts.flatMap Part.text).length < fuel) :
    outcome (parseSections board adcMode fuel d (parts.flatMap Part.text)) =
      parts.foldlM (Part.elaborate board adcMode) d >>= fun d => .ok (d, []) := by
  induction parts generalizing fuel d with
  | nil =>
      obtain ⟨fuel, rfl⟩ := Nat.exists_eq_add_one.mpr (Nat.zero_lt_of_lt hfuel)
      rfl
  | cons p parts ih =>
      obtain ⟨fuel, rfl⟩ := Nat.exists_eq_add_one.mpr (Nat.zero_lt_of_lt hfuel)
      obtain ⟨hp, hall⟩ := List.forall_mem_cons.mp hall
      have hroom : (parts.flatMap Part.text).length < fuel := by
        simp only [List.flatMap_cons, Part.text, List.length_append, List.length_cons] at hfuel
        omega
      have htext : (p :: parts).flatMap Part.text =
          ';' :: (p.keyword ++ '[' :: (p.body ++ ']' :: parts.flatMap Part.text)) := by
        simp [Part.text]
      have hsemi : ∀ q, consumeChar ';' (';' :: q) = (true, q) := fun _ => rfl
      rw [parseSections, htext, hsemi]
      dsimp only
      rw [expectIdent_append (isIdent_keyword p) (breaks_cons (by decide)), ok_bind]
      dsimp only
      rw [expectChar_cons (by decide), ok_bind, outcome_bind, parseSection_takes hp,
        List.foldlM_cons]
      cases p.elaborate board adcMode d with
      | error e => rfl
      | ok d' =>
          rw [ok_bind, ok_bind, ok_bind, ← @ih fuel d' hall hroom]
          dsimp only
          rw [expectChar_cons (by decide), ok_bind]

end Reads

/-- A printed script is parsed as its pieces are checked: the parser ends in the same instance
or in the same error. -/
theorem ilParseImpl_text (board : Board) (adcMode : Bool) {s : Script} (hs : s.Lexical) :
    (ilParseImpl board adcMode s.text).mapError Prod.fst = s.elaborate board adcMode := by
  have hbreaks : Breaks (s.parts.flatMap Part.text) := by
    cases s.parts with
    | nil => rfl
    | cons => exact breaks_cons (by decide)
  have hmsg : outcome (parseMsg board adcMode s.text) =
      if s.name.length ≥ nameMax then .error .nameTooLong
      else s.parts.foldlM (Part.elaborate board adcMode) { inst := { name := s.name } } >>=
        fun d => .ok (d, []) := by
    unfold parseMsg Script.text
    rw [expectIdent_append hs.name hbreaks, ok_bind]
    dsimp only
    split
    next => rfl
    next =>
      rw [outcome_bind, parseSections_takes hs.parts (Nat.lt_succ_self _), bind_assoc]
      rfl
  -- a name is not empty, so neither is the text
  have hne : s.text.isEmpty = false := by
    obtain ⟨c, t, hname, -⟩ := isIdent_cons hs.name
    rw [Script.text, hname]
    rfl
  unfold ilParseImpl Script.elaborate
  rw [if_neg (by simp [hne])]
  split at hmsg
  next hlong =>
    rw [if_pos hlong]
    cases hparse : parseMsg board adcMode s.text with
    | error fail =>
        rw [hparse] at hmsg
        have hstatus : fail.status = .nameTooLong := Except.error.inj hmsg
        exact congrArg Except.error hstatus
    | ok =>
        rw [hparse] at hmsg
        cases hmsg
  next hshort =>
    rw [if_neg hshort]
    generalize s.parts.foldlM (Part.elaborate board adcMode) { inst := { name := s.name } } = run
      at hmsg ⊢
    cases hparse : parseMsg board adcMode s.text with
    | error fail =>
        rw [hparse] at hmsg
        cases run with
        | ok d => cases hmsg
        | error status =>
            have hstatus : fail.status = status := Except.error.inj hmsg
            exact congrArg Except.error hstatus
    | ok read =>
        rw [hparse] at hmsg
        cases run with
        | error status => cases hmsg
        | ok d =>
            obtain rfl : read = (d, []) := Except.ok.inj hmsg
            rw [ok_bind]
            dsimp only
            cases finishDraft d <;> rfl

def lampPins : List CfgGroup :=
  [⟨["GP2".toList], ["in".toList, "up".toList]⟩, ⟨["GP3".toList], ["out".toList]⟩]

/-- A lamp that is lit while a door is closed. -/
def lampScript : Script where
  name := "lamp".toList
  parts := [.cfg lampPins, .watch [[⟨"GP2".toList, .eq, 0⟩]], .outOk [("GP3".toList, 1)],
    .outErr [("GP3".toList, 0)]]

theorem lampPins_lexical : ∀ g ∈ lampPins, g.Lexical := by
  intro g hg
  have hall : ∀ g ∈ lampPins, (g.labels ≠ [] ∧ g.labels.length ≤ maxInputs + maxOutputs) ∧
      (∀ l ∈ g.labels, isIdent l = true) ∧ (g.mods ≠ [] ∧ g.mods.length ≤ 4) ∧
      (∀ m ∈ g.mods, isIdent m = true) ∧ ∀ m ∈ g.mods.tail, isKnownModifier m = true := by
    decide +kernel
  obtain ⟨⟨hlabels, hlabels_le⟩, hident, ⟨hmods, hmods_le⟩, hmod, hknown⟩ := hall g hg
  exact ⟨hlabels, hlabels_le, hident, hmods, hmods_le, hmod, hknown⟩

theorem ilParseImpl_text_lamp :
    (ilParseImpl rp2040 false lampScript.text).mapError Prod.fst =
      lampScript.elaborate rp2040 false := by
  have hclause : Lexical "GP2".toList 0 := by
    unfold Lexical
    decide +kernel
  have hlevel : ∀ v < 2, Lexical "GP3".toList v := by
    unfold Lexical
    decide +kernel
  refine ilParseImpl_text rp2040 false ⟨by decide +kernel, ?_⟩
  rintro p hp
  rcases List.mem_cons.mp hp with rfl | hp
  · exact ⟨List.cons_ne_nil _ _, lampPins_lexical⟩
  · rcases List.mem_cons.mp hp with rfl | hp
    · exact ⟨List.cons_ne_nil _ _, List.forall_mem_singleton.mpr ⟨List.cons_ne_nil _ _,
        List.forall_mem_singleton.mpr hclause⟩⟩
    · rcases List.mem_cons.mp hp with rfl | hp
      · exact ⟨List.cons_ne_nil _ _, List.forall_mem_singleton.mpr (hlevel 1 (by decide))⟩
      · rw [List.mem_singleton.mp hp]
        exact ⟨List.cons_ne_nil _ _, List.forall_mem_singleton.mpr (hlevel 0 (by decide))⟩

/-! ## In ASCII -/

def Ascii (t : Text) : Prop := ∀ c ∈ t, c.toNat < 128

section Ascii

variable {s t : Text} {c : Char}

theorem ascii_of_all (h : (t.all fun c => decide (c.toNat < 128)) = true) : Ascii t := fun c hc =>
  of_decide_eq_true (List.all_eq_true.mp h c hc)

theorem ascii_append : Ascii (s ++ t) ↔ Ascii s ∧ Ascii t := List.forall_mem_append

theorem ascii_cons : Ascii (c :: t) ↔ c.toNat < 128 ∧ Ascii t := List.forall_mem_cons

theorem ascii_joined {sep : Char} (hsep : sep.toNat < 128) {ts : List Text}
    (h : ∀ t ∈ ts, Ascii t) : Ascii (joined sep ts) := by
  cases ts with
  | nil => exact nofun
  | cons t ts =>
      obtain ⟨ht, hts⟩ := List.forall_mem_cons.mp h
      rw [joined_cons]
      refine ascii_append.mpr ⟨ht, fun c hc => ?_⟩
      obtain ⟨u, hu, hc⟩ := List.mem_flatMap.mp hc
      exact ascii_cons.mpr ⟨hsep, hts u hu⟩ c hc

theorem ascii_of_cont (h : isIdentCont c = true) : c.toNat < 128 := by
  have hle : ∀ {a b : Char}, (a ≤ c && c ≤ b) = true → c.toNat ≤ b.toNat := fun h =>
    (of_decide_eq_true ((Bool.and_eq_true _ _).mp h).2 : c ≤ _)
  simp only [isIdentCont, isIdentStart, isDigit, Bool.or_eq_true] at h
  rcases h with ((h | h) | h) | h
  · exact (hle h).trans_lt (by decide)
  · exact (hle h).trans_lt (by decide)
  · rw [eq_of_beq h]
    decide
  · exact (hle h).trans_lt (by decide)

theorem ascii_of_isIdent (h : isIdent t = true) : Ascii t := by
  obtain ⟨c, r, -, -, -, hall⟩ := isIdent_cons h
  exact fun d hd => ascii_of_cont (hall d hd)

theorem ascii_decimal (n : Nat) : Ascii (decimal n) := by
  intro d hd
  have hdigit := decimal_digits d hd
  exact ascii_of_cont (by rw [isIdentCont, hdigit, Bool.or_true])

theorem CfgGroup.Lexical.ascii {g : CfgGroup} (h : g.Lexical) : Ascii g.text := by
  refine ascii_cons.mpr ⟨by decide, ascii_append.mpr ⟨?_, ?_⟩⟩
  · exact ascii_joined (by decide) fun l hl => ascii_of_isIdent (h.labels l hl)
  · refine ascii_cons.mpr ⟨by decide, ascii_cons.mpr ⟨by decide, ?_⟩⟩
    exact ascii_joined (by decide) fun m hm => ascii_of_isIdent (h.mods m hm)

theorem ascii_level {l : Text × Nat} (h : Lexical l.1 l.2) : Ascii (levelText l) :=
  ascii_append.mpr ⟨ascii_of_isIdent h.1, ascii_cons.mpr ⟨by decide, ascii_decimal _⟩⟩

theorem ascii_clause {c : Clause} (h : Lexical c.label c.value) : Ascii c.text := by
  have hword : ∀ op : CompareOp, Ascii op.word := by
    intro op
    apply ascii_of_all
    cases op <;> decide +kernel
  refine ascii_append.mpr ⟨ascii_of_isIdent h.1, ascii_cons.mpr ⟨by decide, ?_⟩⟩
  split
  next => exact ascii_decimal _
  next =>
    exact ascii_append.mpr ⟨hword _, ascii_cons.mpr ⟨by decide, ascii_decimal _⟩⟩

theorem Part.Lexical.ascii {p : Part} (h : p.Lexical) : Ascii p.text := by
  have hkeyword : Ascii p.keyword := by
    cases p with
    | cfg => exact @ascii_of_all "cfg".toList (by decide +kernel)
    | watch => exact @ascii_of_all "watch".toList (by decide +kernel)
    | outOk => exact @ascii_of_all "out_ok".toList (by decide +kernel)
    | outErr => exact @ascii_of_all "out_err".toList (by decide +kernel)
  have hbody : Ascii p.body := by
    cases p with
    | cfg groups =>
        exact ascii_joined (by decide) (List.forall_mem_map.mpr fun g hg => (h.2 g hg).ascii)
    | watch groups =>
        refine ascii_joined (by decide) (List.forall_mem_map.mpr fun cs hcs => ?_)
        refine ascii_joined (by decide) (List.forall_mem_map.mpr fun c hc => ?_)
        exact ascii_clause ((h.2 cs hcs).2 c hc)
    | outOk levels | outErr levels =>
        exact ascii_joined (by decide) (List.forall_mem_map.mpr fun l hl => ascii_level (h.2 l hl))
  refine ascii_cons.mpr ⟨by decide, ascii_append.mpr ⟨hkeyword, ascii_cons.mpr ⟨by decide, ?_⟩⟩⟩
  exact ascii_append.mpr ⟨hbody, ascii_cons.mpr ⟨by decide, nofun⟩⟩

/-- A script is printed in ASCII. -/
theorem Script.Lexical.ascii {s : Script} (h : s.Lexical) : Ascii s.text := by
  refine ascii_append.mpr ⟨ascii_of_isIdent h.name, fun c hc => ?_⟩
  obtain ⟨p, hp, hc⟩ := List.mem_flatMap.mp hc
  exact (h.parts p hp).ascii c hc

end Ascii

end SlowBus.Interlock
