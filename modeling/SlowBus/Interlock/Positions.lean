import SlowBus.Interlock.Cursor

/-!
# The positions of the parser

A position stands for what is left of the text from there. The parser at positions and the
parser on what is left stop at the same place, with the same verdict.
-/

namespace SlowBus.Interlock.Cursor

open Fallible

variable {text p q : Text} {pos : Nat}

/-- `p` is what is left of the text at the position. -/
structure At (text p : Text) (pos : Nat) : Prop where
  le : pos ≤ text.length
  drop : text.drop pos = p

theorem at_zero (text : Text) : At text text 0 := ⟨Nat.zero_le _, rfl⟩

theorem At.length (h : At text p pos) : p.length = text.length - pos := by
  rw [← h.drop, List.length_drop]

theorem At.nil (h : At text [] pos) : ¬ pos < text.length := by
  have hlength := h.length
  simp only [List.length_nil] at hlength
  omega

theorem At.lt {c : Char} (h : At text (c :: p) pos) : pos < text.length := by
  have hlength := h.length
  simp only [List.length_cons] at hlength
  omega

theorem At.next {c : Char} (h : At text (c :: p) pos) : At text p (pos + 1) :=
  ⟨h.lt, by rw [← List.tail_drop, h.drop, List.tail_cons]⟩

/-- A byte before the end can be read. -/
theorem At.byteAt {c : Char} (h : At text (c :: p) pos) : byteAt text pos = .ok c := by
  have hget : text[pos]? = some c := by
    have hhead := congrArg (·[0]?) h.drop
    simpa using hhead
  simp [Cursor.byteAt, hget]

/-! ## Readers -/

theorem At.scan (h : At text p pos) (f : Char → Bool) :
    ∃ stop, scan f text pos = .ok stop ∧ At text (p.dropWhile f) stop ∧
      stop = pos + (p.takeWhile f).length := by
  induction p generalizing pos with
  | nil =>
      unfold Cursor.scan
      rw [dif_neg h.nil]
      exact ⟨pos, rfl, h, rfl⟩
  | cons c p ih =>
      unfold Cursor.scan
      rw [dif_pos h.lt, h.byteAt, ok_bind]
      by_cases hc : f c = true
      · obtain ⟨stop, hscan, hat, hstop⟩ := ih h.next
        refine ⟨stop, ?_, ?_, ?_⟩
        · simpa [hc] using hscan
        · simpa [hc] using hat
        · simp only [List.takeWhile_cons, hc, if_true, List.length_cons]
          omega
      · refine ⟨pos, ?_, ?_, ?_⟩
        · simp [hc]
        · simpa [hc] using h
        · simp [hc]

/-- What a reader at positions returns is what the reader of what is left returns. -/
def Reads {α : Type} (text : Text) (x : Except Stop (α × Nat)) (y : α × Text) : Prop :=
  ∃ pos, x = .ok (y.1, pos) ∧ At text y.2 pos

theorem At.skipWs (h : At text p pos) :
    ∃ stop, skipWs text pos = .ok stop ∧ At text (Interlock.skipWs p) stop := by
  obtain ⟨stop, hscan, hat, -⟩ := h.scan isWs
  exact ⟨stop, hscan, hat⟩

theorem At.peek (h : At text p pos) : peek text pos = .ok (Interlock.peek p) := by
  cases p with
  | nil => exact if_neg h.nil
  | cons c p => exact (if_pos h.lt).trans h.byteAt

theorem At.readIdent (h : At text p pos) :
    Reads text (readIdent text pos) (Interlock.readIdent p) := by
  obtain ⟨start, hskip, hat⟩ := h.skipWs
  unfold Cursor.readIdent Interlock.readIdent
  rw [hskip, ok_bind]
  generalize Interlock.skipWs p = rest at hat
  cases rest with
  | nil =>
      rw [if_neg hat.nil]
      exact ⟨start, rfl, hat⟩
  | cons c rest =>
      rw [if_pos hat.lt, hat.byteAt, ok_bind]
      by_cases hc : isIdentStart c = true
      · obtain ⟨stop, hscan, hstop, heq⟩ := hat.scan isIdentCont
        have htake : (text.drop start).take (stop - start) =
            (c :: rest).takeWhile isIdentCont := by
          rw [hat.drop, heq, Nat.add_sub_cancel_left]
          exact (List.prefix_iff_eq_take.mp (List.takeWhile_prefix _)).symm
        refine ⟨stop, ?_, ?_⟩
        · simp only [if_pos hc, hscan, ok_bind, htake]
        · simpa only [if_pos hc] using hstop
      · refine ⟨start, ?_, ?_⟩
        · simp [hc]
        · simpa [hc] using hat

theorem At.readDigits (h : At text p pos) (isd : Char → Bool) (step : Nat → Char → Nat)
    (val : Nat) (any : Bool) :
    ∃ stop, readDigits isd step text pos val any =
        .ok (if any || (p.takeWhile isd).length != 0 then
          some ((p.takeWhile isd).foldl step val % 2 ^ 16) else none, stop) ∧
      At text (p.dropWhile isd) stop := by
  induction p generalizing pos val any with
  | nil =>
      unfold Cursor.readDigits
      rw [dif_neg h.nil]
      exact ⟨pos, by simp, h⟩
  | cons c p ih =>
      unfold Cursor.readDigits
      rw [dif_pos h.lt, h.byteAt, ok_bind]
      by_cases hc : isd c = true
      · obtain ⟨stop, hread, hat⟩ := ih h.next (step val c) true
        refine ⟨stop, ?_, ?_⟩
        · rw [if_pos hc, hread]
          simp [hc]
        · simpa [hc] using hat
      · refine ⟨pos, ?_, ?_⟩
        · simp [hc]
        · simpa [hc] using h

theorem At.numeral (h : At text p pos) (isd : Char → Bool) (step : Nat → Char → Nat) :
    Reads text (Cursor.readDigits isd step text pos 0 false) (Interlock.readDigits isd step p) := by
  obtain ⟨stop, hread, hat⟩ := h.readDigits isd step 0 false
  refine ⟨stop, ?_⟩
  unfold Interlock.readDigits
  split
  next hnone =>
    have hsame : p.dropWhile isd = p := by
      conv_rhs => rw [← List.takeWhile_append_dropWhile (p := isd) (l := p), hnone]
      rfl
    rw [hsame] at hat
    exact ⟨by simpa [hnone] using hread, hat⟩
  next ds hne =>
    refine ⟨?_, hat⟩
    simpa [List.length_eq_zero_iff.not.mpr hne] using hread

theorem At.hexMark (h : At text p pos) : ∃ b, hexMark text pos = .ok b ∧
    (b = true ↔ ∃ rest, p = '0' :: 'x' :: rest ∨ p = '0' :: 'X' :: rest) := by
  unfold Cursor.hexMark
  match p, h with
  | [], h =>
      rw [if_neg fun hlt => h.nil (Nat.lt_of_succ_lt hlt)]
      exact ⟨false, rfl, by simp⟩
  | [c], h =>
      rw [if_neg h.next.nil]
      exact ⟨false, rfl, by simp⟩
  | c :: d :: rest, h =>
      rw [if_pos h.next.lt, h.byteAt, ok_bind]
      by_cases hc : c = '0'
      · rw [if_pos hc, h.next.byteAt, ok_bind]
        exact ⟨_, rfl, by simp [hc, exists_or]⟩
      · rw [if_neg hc]
        exact ⟨false, rfl, by simp [hc]⟩

theorem At.readNumber (h : At text p pos) :
    Reads text (readNumber text pos) (Interlock.readNumber p) := by
  obtain ⟨start, hskip, hat⟩ := h.skipWs
  obtain ⟨b, hmark, hb⟩ := hat.hexMark
  unfold Cursor.readNumber Interlock.readNumber
  rw [hskip, ok_bind, hmark, ok_bind]
  cases b with
  | true =>
      obtain ⟨rest, heq | heq⟩ := hb.mp rfl
      · rw [heq] at hat ⊢
        exact hat.next.next.numeral isHexDigit hexStep
      · rw [heq] at hat ⊢
        exact hat.next.next.numeral isHexDigit hexStep
  | false =>
      rw [if_neg Bool.false_ne_true]
      split
      next rest heq => cases hb.mpr ⟨rest, .inl heq⟩
      next rest heq => cases hb.mpr ⟨rest, .inr heq⟩
      next => exact hat.numeral isDigit decStep

theorem At.consumeChar (h : At text p pos) (want : Char) :
    Reads text (consumeChar want text pos) (Interlock.consumeChar want p) := by
  obtain ⟨start, hskip, hat⟩ := h.skipWs
  unfold Cursor.consumeChar Interlock.consumeChar
  rw [hskip, ok_bind]
  generalize Interlock.skipWs p = rest at hat
  cases rest with
  | nil =>
      rw [if_neg hat.nil]
      exact ⟨start, rfl, hat⟩
  | cons c rest =>
      rw [if_pos hat.lt, hat.byteAt, ok_bind]
      by_cases hc : c = want
      · rw [if_pos hc]
        exact ⟨start + 1, by simp [hc], by simpa [hc] using hat.next⟩
      · rw [if_neg hc]
        exact ⟨start, by simp [hc], by simpa [hc] using hat⟩

/-! ## Agreement -/

/-- The two parsers succeed with related results, or fail alike at the same place. -/
inductive Agrees {α β : Type} (text : Text) (R : α → β → Prop) :
    Except Stop α → Except ParseFail β → Prop
  | ok {a : α} {b : β} (h : R a b) : Agrees text R (.ok a) (.ok b)
  | error {status : ParseStatus} {pos : Nat} {q : Text} (h : At text q pos) :
      Agrees text R (.error (.fail status pos)) (.error ⟨status, q⟩)

/-- The same value, and the position of what is left. -/
def Same {α : Type} (text : Text) (x : α × Nat) (y : α × Text) : Prop :=
  x.1 = y.1 ∧ At text y.2 x.2

section Agreement

variable {α β γ δ : Type} {R : α → β → Prop} {S : γ → δ → Prop}

theorem Agrees.bind {x : Except Stop α} {y : Except ParseFail β} {f : α → Except Stop γ}
    {g : β → Except ParseFail δ} (h : Agrees text R x y)
    (hf : ∀ a b, R a b → Agrees text S (f a) (g b)) : Agrees text S (x >>= f) (y >>= g) := by
  cases h with
  | ok h => exact hf _ _ h
  | error h => exact .error h

/-- A sequence whose first part reads a value. -/
theorem Agrees.then {x : Except Stop (α × Nat)} {y : Except ParseFail (α × Text)}
    {f : α × Nat → Except Stop γ} {g : α × Text → Except ParseFail δ}
    (h : Agrees text (Same text) x y)
    (hf : ∀ a pos q, At text q pos → Agrees text S (f (a, pos)) (g (a, q))) :
    Agrees text S (x >>= f) (y >>= g) := by
  refine h.bind ?_
  rintro ⟨a, pos⟩ ⟨b, q⟩ ⟨heq, hat⟩
  cases heq
  exact hf a pos q hat

theorem agrees_ok {a : α} (h : At text q pos) :
    Agrees text (Same text) (.ok (a, pos)) (.ok (a, q)) :=
  .ok ⟨rfl, h⟩

theorem At.expectIdent (h : At text p pos) :
    Agrees text (Same text) (expectIdent text pos) (Interlock.expectIdent p) := by
  obtain ⟨stop, hread, hat⟩ := h.readIdent
  unfold Cursor.expectIdent Interlock.expectIdent
  rw [hread, ok_bind]
  generalize Interlock.readIdent p = r at hat
  obtain ⟨_ | s, q⟩ := r
  · exact .error hat
  · exact agrees_ok hat

theorem At.expectChar (h : At text p pos) (want : Char) :
    Agrees text (fun pos q => At text q pos) (expectChar want text pos)
      (Interlock.expectChar want p) := by
  obtain ⟨stop, hread, hat⟩ := h.consumeChar want
  unfold Cursor.expectChar Interlock.expectChar
  rw [hread, ok_bind]
  generalize Interlock.consumeChar want p = r at hat
  obtain ⟨_ | _, q⟩ := r
  · exact .error hat
  · exact .ok hat

theorem At.expectNumber (h : At text p pos) :
    Agrees text (Same text) (expectNumber text pos) (Interlock.expectNumber p) := by
  obtain ⟨stop, hread, hat⟩ := h.readNumber
  unfold Cursor.expectNumber Interlock.expectNumber
  rw [hread, ok_bind]
  generalize Interlock.readNumber p = r at hat
  obtain ⟨_ | n, q⟩ := r
  · exact .error hat
  · exact agrees_ok hat

/-- A check before the rest. -/
theorem At.check (h : At text p pos) (x : Except ParseStatus α) {f : α → Except Stop γ}
    {g : α → Except ParseFail δ} (hf : ∀ a, Agrees text S (f a) (g a)) :
    Agrees text S (check pos x >>= f) (atText p x >>= g) := by
  cases x with
  | ok a => exact hf a
  | error status => exact .error h

end Agreement

/-! ## The parsers -/

variable {board : Board} {adcMode : Bool} {inst : Inst}

theorem At.readPinLabels (h : At text p pos) (room : Nat) (labels : List Text) :
    Agrees text (Same text) (readPinLabels text room labels pos)
      (Interlock.readPinLabels room labels p) := by
  induction room generalizing labels p pos with
  | zero => exact .error h
  | succ room ih =>
      unfold Cursor.readPinLabels Interlock.readPinLabels
      refine h.expectIdent.then fun label pos₁ p₁ h₁ => ?_
      obtain ⟨pos₂, hcomma, h₂⟩ := h₁.consumeChar ','
      dsimp only
      rw [hcomma, ok_bind]
      generalize Interlock.consumeChar ',' p₁ = r at h₂
      obtain ⟨_ | _, p₂⟩ := r
      · exact (h₂.expectChar ')').bind fun pos₃ p₃ h₃ => agrees_ok h₃
      · exact ih h₂ _

theorem At.readPins (h : At text p pos) :
    Agrees text (Same text) (readPins text pos) (Interlock.readPins p) := by
  unfold Cursor.readPins Interlock.readPins
  obtain ⟨pos₁, hskip, h₁⟩ := h.skipWs
  obtain ⟨pos₂, hopen, h₂⟩ := h₁.consumeChar '('
  rw [hskip, ok_bind, hopen, ok_bind]
  generalize Interlock.consumeChar '(' (Interlock.skipWs p) = r at h₂
  obtain ⟨_ | _, p₂⟩ := r
  · exact h₂.expectIdent.then fun label pos₃ p₃ h₃ => agrees_ok h₃
  · exact h₂.readPinLabels _ _

theorem At.readModifiers (h : At text p pos) (room : Nat) (mods : List Text) :
    Agrees text (Same text) (readModifiers text room mods pos)
      (Interlock.readModifiers room mods p) := by
  induction room generalizing mods p pos with
  | zero => exact .error h
  | succ room ih =>
      unfold Cursor.readModifiers Interlock.readModifiers
      refine h.expectIdent.then fun m pos₁ p₁ h₁ => ?_
      obtain ⟨pos₂, hcomma, h₂⟩ := h₁.consumeChar ','
      dsimp only
      rw [hcomma, ok_bind]
      generalize Interlock.consumeChar ',' p₁ = r at h₂
      obtain ⟨_ | _, p₂⟩ := r
      · exact agrees_ok h₂
      · obtain ⟨pos₃, hskip, h₃⟩ := At.skipWs h₂
        dsimp only
        rw [hskip, ok_bind, h₃.peek, ok_bind]
        split
        next => exact agrees_ok h₁
        next =>
          split
          next => exact agrees_ok h₁
          next =>
            refine h₃.expectIdent.then fun next pos₄ p₄ h₄ => ?_
            dsimp only
            split
            next => exact ih h₃ _
            next => exact agrees_ok h₁

theorem At.parseCfg (h : At text p pos) (fuel : Nat) :
    Agrees text (Same text) (parseCfg board text fuel inst pos)
      (Interlock.parseCfg board fuel inst p) := by
  induction fuel generalizing inst p pos with
  | zero => exact .error h
  | succ fuel ih =>
      unfold Cursor.parseCfg Interlock.parseCfg
      refine h.readPins.then fun labels pos₁ p₁ h₁ => ?_
      refine (h₁.expectChar ':').bind fun pos₂ p₂ h₂ => ?_
      refine (h₂.readModifiers 4 []).then fun mods pos₃ p₃ h₃ => ?_
      refine h₃.check (resolveGroup mods) fun g => ?_
      refine h₃.check (labels.foldlM (declarePin board g) inst) fun mid => ?_
      obtain ⟨pos₄, hcomma, h₄⟩ := h₃.consumeChar ','
      rw [hcomma, ok_bind]
      generalize Interlock.consumeChar ',' p₃ = r at h₄
      obtain ⟨_ | _, p₄⟩ := r
      · exact agrees_ok h₄
      · exact ih h₄

theorem At.readOp (h : At text p pos) :
    Agrees text (Same text) (readOp text pos) (Interlock.readOp p) := by
  unfold Cursor.readOp Interlock.readOp
  rw [h.peek, ok_bind]
  split
  next =>
    refine h.expectIdent.then fun s pos₁ p₁ h₁ => ?_
    dsimp only
    generalize compareOpOf s = op
    cases op with
    | none => exact .error h₁
    | some op => exact (h₁.expectChar ':').bind fun pos₂ p₂ h₂ => agrees_ok h₂
  next => exact agrees_ok h

theorem At.readClause (h : At text p pos) :
    Agrees text (Same text) (readClause text pos) (Interlock.readClause p) := by
  unfold Cursor.readClause Interlock.readClause
  refine h.expectIdent.then fun label pos₁ p₁ h₁ => ?_
  refine (h₁.expectChar ':').bind fun pos₂ p₂ h₂ => ?_
  obtain ⟨pos₃, hskip, h₃⟩ := At.skipWs h₂
  rw [hskip, ok_bind]
  refine h₃.readOp.then fun op pos₄ p₄ h₄ => ?_
  exact h₄.expectNumber.then fun value pos₅ p₅ h₅ => agrees_ok h₅

theorem At.parseWatch (h : At text p pos) (fuel group : Nat) :
    Agrees text (Same text) (parseWatch board adcMode text fuel group inst pos)
      (Interlock.parseWatch board adcMode fuel group inst p) := by
  induction fuel generalizing group inst p pos with
  | zero => exact .error h
  | succ fuel ih =>
      unfold Cursor.parseWatch Interlock.parseWatch
      refine h.readClause.then fun c pos₁ p₁ h₁ => ?_
      refine h₁.check (addClause board adcMode group inst c) fun mid => ?_
      obtain ⟨pos₂, hcomma, h₂⟩ := h₁.consumeChar ','
      rw [hcomma, ok_bind]
      generalize Interlock.consumeChar ',' p₁ = r at h₂
      obtain ⟨_ | _, p₂⟩ := r
      · obtain ⟨pos₃, hbar, h₃⟩ := At.consumeChar h₂ '|'
        dsimp only
        rw [hbar, ok_bind]
        generalize Interlock.consumeChar '|' p₂ = r at h₃
        obtain ⟨_ | _, p₃⟩ := r
        · exact agrees_ok h₃
        · exact ih h₃ _
      · exact ih h₂ _

theorem At.parseOutBlock (h : At text p pos) (isOk : Bool) (fuel : Nat) :
    Agrees text (Same text) (parseOutBlock board isOk text fuel inst pos)
      (Interlock.parseOutBlock board isOk fuel inst p) := by
  induction fuel generalizing inst p pos with
  | zero => exact .error h
  | succ fuel ih =>
      unfold Cursor.parseOutBlock Interlock.parseOutBlock
      refine h.expectIdent.then fun label pos₁ p₁ h₁ => ?_
      refine (h₁.expectChar ':').bind fun pos₂ p₂ h₂ => ?_
      refine (At.expectNumber h₂).then fun val pos₃ p₃ h₃ => ?_
      refine h₃.check (setOutput board isOk inst label val) fun mid => ?_
      obtain ⟨pos₄, hcomma, h₄⟩ := h₃.consumeChar ','
      rw [hcomma, ok_bind]
      generalize Interlock.consumeChar ',' p₃ = r at h₄
      obtain ⟨_ | _, p₄⟩ := r
      · exact agrees_ok h₄
      · exact ih h₄

theorem At.parseSection (h : At text p pos) (kw : Text) (d : Draft) :
    Agrees text (Same text) (parseSection board adcMode text kw d pos)
      (Interlock.parseSection board adcMode kw d p) := by
  unfold Cursor.parseSection Interlock.parseSection
  rw [h.length]
  dsimp only
  split
  next => exact (h.parseCfg _).then fun inst pos₁ p₁ h₁ => agrees_ok h₁
  next =>
    split
    next => exact (h.parseWatch _ _).then fun inst pos₁ p₁ h₁ => agrees_ok h₁
    next =>
      split
      next => exact (h.parseOutBlock true _).then fun inst pos₁ p₁ h₁ => agrees_ok h₁
      next =>
        split
        next => exact (h.parseOutBlock false _).then fun inst pos₁ p₁ h₁ => agrees_ok h₁
        next => exact .error h

theorem At.parseSections (h : At text p pos) (fuel : Nat) (d : Draft) :
    Agrees text (Same text) (parseSections board adcMode text fuel d pos)
      (Interlock.parseSections board adcMode fuel d p) := by
  induction fuel generalizing d p pos with
  | zero => exact .error h
  | succ fuel ih =>
      unfold Cursor.parseSections Interlock.parseSections
      obtain ⟨pos₁, hsemi, h₁⟩ := h.consumeChar ';'
      rw [hsemi, ok_bind]
      generalize Interlock.consumeChar ';' p = r at h₁
      obtain ⟨_ | _, p₁⟩ := r
      · exact agrees_ok h₁
      · refine (At.expectIdent h₁).then fun kw pos₂ p₂ h₂ => ?_
        refine (h₂.expectChar '[').bind fun pos₃ p₃ h₃ => ?_
        refine (At.parseSection h₃ kw d).then fun d' pos₄ p₄ h₄ => ?_
        exact (h₄.expectChar ']').bind fun pos₅ p₅ h₅ => ih h₅ d'

theorem parseMsg_agrees (board : Board) (adcMode : Bool) (text : Text) :
    Agrees text (Same text) (parseMsg board adcMode text)
      (Interlock.parseMsg board adcMode text) := by
  unfold Cursor.parseMsg Interlock.parseMsg
  refine (at_zero text).expectIdent.then fun name pos₁ p₁ h₁ => ?_
  dsimp only
  split
  next => exact .error h₁
  next =>
    rw [← h₁.length]
    refine (h₁.parseSections _ _).then fun d pos₂ p₂ h₂ => ?_
    obtain ⟨pos₃, hskip, h₃⟩ := h₂.skipWs
    dsimp only
    rw [hskip, ok_bind]
    generalize Interlock.skipWs p₂ = rest at h₃
    cases rest with
    | nil =>
        rw [if_neg h₃.nil]
        exact agrees_ok h₃
    | cons c rest =>
        rw [if_pos h₃.lt]
        exact .error h₃

/-- The verdict of the parser on what is left of the text, at a position. -/
def ofVerdict : Except (ParseStatus × Nat) Inst → Except Stop Inst
  | .ok inst => .ok inst
  | .error (status, offset) => .error (.fail status offset)

/-- The two parsers have the same verdict on every text, with the same offset. -/
theorem ilParseImpl_eq (board : Board) (adcMode : Bool) (text : Text) :
    ilParseImpl board adcMode text = ofVerdict (Interlock.ilParseImpl board adcMode text) := by
  unfold Cursor.ilParseImpl Interlock.ilParseImpl
  split
  next => rfl
  next =>
    have hagrees := parseMsg_agrees board adcMode text
    generalize parseMsg board adcMode text = x at hagrees
    generalize Interlock.parseMsg board adcMode text = y at hagrees
    cases hagrees with
    | @ok a b h =>
        obtain ⟨d, pos⟩ := a
        obtain ⟨d', q⟩ := b
        obtain rfl : d = d' := h.1
        rw [ok_bind]
        dsimp only
        cases finishDraft d <;> rfl
    | @error status pos q h =>
        have hpos : text.length - q.length = pos := by
          have hle := h.le
          have hlength := h.length
          omega
        dsimp only
        rw [hpos]
        rfl

theorem ilParse_eq (text : Text) : ilParse text = ofVerdict (Interlock.ilParse text) :=
  ilParseImpl_eq rp2040 false text

theorem ilParseImpl_reported {text : Text} {status : ParseStatus} {offset : Nat}
    (h : Interlock.ilParseImpl board false text = .error (status, offset)) :
    status ≠ .unexpectedEnd := by
  unfold Interlock.ilParseImpl at h
  split at h
  next =>
    cases h
    nofun
  next =>
    split at h
    next fail hfail =>
      cases h
      exact parseMsg_reported text fail hfail
    next d q _ =>
      split at h
      next status hfinish =>
        cases h
        unfold finishDraft at hfinish
        split_ifs at hfinish <;> cases hfinish <;> nofun
      next => cases h

/-- On every text `il_parse` comes to its end and reads no byte outside of the text, and an
instance that it returns is well formed. -/
theorem ilParse_formed (text : Text) :
    (∀ pos, ilParse text ≠ .error (.outside pos)) ∧
      (∀ pos, ilParse text ≠ .error (.fail .unexpectedEnd pos)) ∧
      ∀ inst, ilParse text = .ok inst → inst.Formed := by
  rw [ilParse_eq]
  match hparse : Interlock.ilParse text with
  | .ok inst =>
      refine ⟨nofun, nofun, fun inst' heq => ?_⟩
      cases heq
      exact formed_of_ilParse hparse
  | .error (status, offset) =>
      refine ⟨nofun, fun pos heq => ?_, nofun⟩
      cases heq
      exact ilParseImpl_reported hparse rfl

end SlowBus.Interlock.Cursor
