import Mathlib.Data.Nat.ModEq
import SlowBus.Interlock.Aggregate
import SlowBus.Lib.Fields

/-!
# The written form of an interlock

An interlock text is read here without a parser: it is cut at `;` into a name and
sections, a section at its brackets, a watch body at `|` into alternatives, an
alternative at `,` into comparisons, and a comparison at `:` into its fields. For
every text the parser accepts, its readers see the same pieces.
-/

namespace SlowBus.Interlock

open Fallible Fields

/-! ## Cutting a text -/

/-- A field without the white space around it. -/
def strip (t : Text) : Text := trim isWs t

/-- One section of a text. -/
structure Section where
  keyword : Text
  body : Text
  deriving DecidableEq, Repr

/-- A section from the text between two semicolons. -/
def sectionOf (t : Text) : Section where
  keyword := strip (t.takeWhile (· != '['))
  body := ((t.dropWhile (· != '[')).drop 1).takeWhile (· != ']')

/-- The sections of a text, after its name. -/
def sectionsOf (text : Text) : List Section := (text.splitOn ';').tail.map sectionOf

/-- The alternatives of a watch body, each with its comparisons. -/
def alternatives (body : Text) : List (List Text) := (body.splitOn '|').map (·.splitOn ',')

/-- The number a list of digits denotes. -/
def digitsValue (base : Nat) (digit : Char → Nat) (ds : Text) : Nat :=
  ds.foldl (fun v c => v * base + digit c) 0

/-- The 16-bit value of a numeral. -/
def numeral (t : Text) : Nat :=
  match t with
  | '0' :: 'x' :: ds => digitsValue 16 (fun c => (hexDigit c).getD 0) ds % 2 ^ 16
  | '0' :: 'X' :: ds => digitsValue 16 (fun c => (hexDigit c).getD 0) ds % 2 ^ 16
  | ds => digitsValue 10 (fun c => c.toNat - '0'.toNat) ds % 2 ^ 16

/-- A comparison as written: `pin:value` or `pin:op:value`. -/
def comparisonOf (t : Text) : Option Clause :=
  match (t.splitOn ':').map strip with
  | [pin, value] => some ⟨pin, .eq, numeral value⟩
  | [pin, op, value] => (compareOpOf op).map fun op => ⟨pin, op, numeral value⟩
  | _ => none

/-! ## Characters -/

/-- The text is white space. -/
def Blank (t : Text) : Prop := ∀ c ∈ t, isWs c = true

/-- The text is made of letters, digits and underscores. -/
def Word (t : Text) : Prop := ∀ c ∈ t, isIdentCont c = true

/-- The characters that structure a text. -/
def delimiters : List Char := [';', '[', ']', '|', ',', ':', '(', ')']

theorem isIdentCont_eq_false_of_isWs {c : Char} (h : isWs c = true) : isIdentCont c = false := by
  simp only [isWs, Bool.or_eq_true, beq_iff_eq] at h
  rcases h with ((rfl | rfl) | rfl) | rfl <;> decide

theorem Word.not_ws {t : Text} (h : Word t) : ∀ c ∈ t, isWs c = false := by
  intro c hc
  by_contra hws
  rw [Bool.not_eq_false] at hws
  cases (h c hc).symm.trans (isIdentCont_eq_false_of_isWs hws)

theorem not_delimiter_of_isWs {c : Char} (h : isWs c = true) : c ∉ delimiters := by
  simp only [isWs, Bool.or_eq_true, beq_iff_eq] at h
  rcases h with ((rfl | rfl) | rfl) | rfl <;> decide

theorem not_delimiter_of_isIdentCont {c : Char} (h : isIdentCont c = true) : c ∉ delimiters := by
  intro hc
  have hnone : delimiters.all (fun d => !isIdentCont d) = true := by decide
  have hnot := List.all_eq_true.mp hnone c hc
  rw [h] at hnot
  cases hnot

theorem Blank.disjoint {t : Text} (h : Blank t) {seps : List Char} (hseps : seps ⊆ delimiters) :
    t.Disjoint seps :=
  fun _ hc hsep => not_delimiter_of_isWs (h _ hc) (hseps hsep)

theorem Word.disjoint {t : Text} (h : Word t) {seps : List Char} (hseps : seps ⊆ delimiters) :
    t.Disjoint seps :=
  fun _ hc hsep => not_delimiter_of_isIdentCont (h _ hc) (hseps hsep)

theorem Blank.append {s t : Text} (hs : Blank s) (ht : Blank t) : Blank (s ++ t) :=
  List.forall_mem_append.mpr ⟨hs, ht⟩

theorem blank_nil : Blank [] := nofun

/-- The text is the word, with white space around it. -/
def Field (w t : Text) : Prop := Word w ∧ ∃ a b, Blank a ∧ Blank b ∧ t = a ++ (w ++ b)

theorem Field.strip_eq {w t : Text} (h : Field w t) : strip t = w := by
  obtain ⟨hw, a, b, ha, hb, rfl⟩ := h
  exact trim_padded ha hw.not_ws hb

theorem Field.disjoint {w t : Text} (h : Field w t) {seps : List Char}
    (hseps : seps ⊆ delimiters) : t.Disjoint seps := by
  obtain ⟨hw, a, b, ha, hb, rfl⟩ := h
  simp only [List.disjoint_append_left]
  exact ⟨ha.disjoint hseps, hw.disjoint hseps, hb.disjoint hseps⟩

theorem Field.not_mem {w t : Text} (h : Field w t) {sep : Char} (hsep : sep ∈ delimiters) :
    sep ∉ t :=
  fun hc => h.disjoint (List.cons_subset.mpr ⟨hsep, List.nil_subset _⟩) hc (List.mem_singleton_self _)

theorem Field.append {w t b : Text} (h : Field w t) (hb : Blank b) : Field w (t ++ b) := by
  obtain ⟨hw, a, b', ha, hb', rfl⟩ := h
  exact ⟨hw, a, b' ++ b, ha, hb'.append hb, by simp⟩

/-! ## The readers -/

section Readers

variable {p q : Text}

theorem skipWs_eq (p : Text) : ∃ w, Blank w ∧ p = w ++ skipWs p :=
  ⟨p.takeWhile isWs, fun _ hc => List.mem_takeWhile_imp hc, List.takeWhile_append_dropWhile.symm⟩

theorem readIdent_eq_some {s : Text} (h : readIdent p = (some s, q)) :
    ∃ w, Blank w ∧ Word s ∧ p = w ++ (s ++ q) := by
  obtain ⟨w, hw, hp⟩ := skipWs_eq p
  refine ⟨w, hw, ?_⟩
  unfold readIdent at h
  split at h
  · cases h
  next c rest hskip =>
    split at h
    · cases h
      refine ⟨fun _ hc => List.mem_takeWhile_imp hc, ?_⟩
      rw [List.takeWhile_append_dropWhile, ← hskip]
      exact hp
    · cases h

theorem consumeChar_eq {want : Char} {b : Bool} (h : consumeChar want p = (b, q)) :
    ∃ w, Blank w ∧ p = w ++ if b then want :: q else q := by
  obtain ⟨w, hw, hp⟩ := skipWs_eq p
  refine ⟨w, hw, ?_⟩
  unfold consumeChar at h
  split at h
  next hskip =>
    cases h
    rwa [hskip] at hp
  next c rest hskip =>
    rw [hskip] at hp
    split at h
    next heq =>
      cases h
      simpa [heq] using hp
    · cases h
      exact hp

theorem expectIdent_eq_ok {s : Text} (h : expectIdent p = .ok (s, q)) :
    ∃ w, Blank w ∧ Word s ∧ p = w ++ (s ++ q) := by
  unfold expectIdent at h
  split at h
  next s' q' hread =>
    cases h
    exact readIdent_eq_some hread
  · cases h

theorem expectChar_eq_ok {want : Char} (h : expectChar want p = .ok q) :
    ∃ w, Blank w ∧ p = w ++ want :: q := by
  unfold expectChar at h
  split at h
  next q' hread =>
    cases h
    exact consumeChar_eq hread
  · cases h

/-! ### Numerals -/

/-- The 32-bit accumulators agree with the numeral modulo 2^16. -/
theorem foldl_step_mod {step : Nat → Char → Nat} {base : Nat} {digit : Char → Nat} {ds : Text}
    (hstep : ∀ v, ∀ c ∈ ds, step v c = (v * base + digit c) % 2 ^ 32) :
    ds.foldl step 0 % 2 ^ 16 = digitsValue base digit ds % 2 ^ 16 := by
  have hgen : ∀ (es : Text), es ⊆ ds → ∀ v v' : Nat, v ≡ v' [MOD 2 ^ 16] →
      es.foldl step v ≡ es.foldl (fun v c => v * base + digit c) v' [MOD 2 ^ 16] := by
    intro es
    induction es with
    | nil => exact fun _ _ _ hv => hv
    | cons c es ih =>
        intro hsub v v' hv
        rw [List.cons_subset] at hsub
        refine ih hsub.2 _ _ ?_
        rw [hstep v c hsub.1]
        have hlow : (v * base + digit c) % 2 ^ 32 ≡ v * base + digit c [MOD 2 ^ 16] :=
          (Nat.mod_modEq _ _).of_dvd (by decide)
        exact hlow.trans ((hv.mul_right base).add_right _)
  exact hgen ds (List.Subset.refl _) 0 0 rfl

theorem char_le_iff {a b : Char} : a ≤ b ↔ a.toNat ≤ b.toNat := by
  rw [Char.le_def, UInt32.le_iff_toNat_le]
  rfl

theorem hexDigit_lt {c : Char} {d : Nat} (h : hexDigit c = some d) : d < 16 := by
  unfold hexDigit at h
  split_ifs at h with h₁ h₂ h₃
  all_goals
    cases h
    simp only [char_le_iff] at *
  · have : '9'.toNat = '0'.toNat + 9 := rfl
    omega
  · have : 'f'.toNat = 'a'.toNat + 5 := rfl
    omega
  · have : 'F'.toNat = 'A'.toNat + 5 := rfl
    omega

theorem hexStep_eq (v : Nat) (c : Char) :
    hexStep v c = (v * 16 + (hexDigit c).getD 0) % 2 ^ 32 := by
  have hlt : (hexDigit c).getD 0 < 2 ^ 4 := by
    cases h : hexDigit c with
    | none => decide
    | some d => exact hexDigit_lt h
  rw [hexStep, ← Nat.shiftLeft_add_eq_or_of_lt hlt, Nat.shiftLeft_eq]

theorem readDigits_eq_some {isd : Char → Bool} {step : Nat → Char → Nat} {n : Nat}
    (h : readDigits isd step p = (some n, q)) :
    ∃ ds, (∀ c ∈ ds, isd c = true) ∧ p = ds ++ q ∧ n = ds.foldl step 0 % 2 ^ 16 := by
  unfold readDigits at h
  split at h
  · cases h
  · cases h
    exact ⟨_, fun _ hc => List.mem_takeWhile_imp hc, List.takeWhile_append_dropWhile.symm, rfl⟩

theorem isIdentCont_of_isDigit {c : Char} (h : isDigit c = true) : isIdentCont c = true := by
  simp [isIdentCont, h]

theorem isIdentCont_of_isHexDigit {c : Char} (h : isHexDigit c = true) : isIdentCont c = true := by
  unfold isHexDigit hexDigit at h
  split_ifs at h with h₁ h₂ h₃
  · exact isIdentCont_of_isDigit (by simp [isDigit, h₁])
  · have hle : c ≤ 'z' := Char.le_trans h₂.2 (by decide : 'f' ≤ 'z')
    simp [isIdentCont, isIdentStart, h₂, hle]
  · have hle : c ≤ 'Z' := Char.le_trans h₃.2 (by decide : 'F' ≤ 'Z')
    simp [isIdentCont, isIdentStart, h₃, hle]
  · cases h

/-- A numeral of decimal digits has no hexadecimal mark. -/
theorem numeral_of_digits {ds : Text} (h : ∀ c ∈ ds, isDigit c = true) :
    numeral ds = digitsValue 10 (fun c => c.toNat - '0'.toNat) ds % 2 ^ 16 := by
  unfold numeral
  split
  · exact absurd (h 'x' (by simp)) (by decide)
  · exact absurd (h 'X' (by simp)) (by decide)
  · rfl

theorem readNumber_eq_some {n : Nat} (h : readNumber p = (some n, q)) :
    ∃ w ds, Blank w ∧ Word ds ∧ p = w ++ (ds ++ q) ∧ numeral ds = n := by
  obtain ⟨w, hw, hp⟩ := skipWs_eq p
  have hword : ∀ {mark ds : Text}, Word mark → (∀ c ∈ ds, isHexDigit c = true) →
      Word (mark ++ ds) := fun hmark hds =>
    List.forall_mem_append.mpr ⟨hmark, fun c hc => isIdentCont_of_isHexDigit (hds c hc)⟩
  unfold readNumber at h
  split at h
  next rest hskip =>
    obtain ⟨ds, hds, hrest, hn⟩ := readDigits_eq_some h
    refine ⟨w, ['0', 'x'] ++ ds, hw, hword (by simp [Word]; decide) hds,
      by rw [hp, hskip, hrest]; rfl, ?_⟩
    rw [hn, foldl_step_mod fun v c _ => hexStep_eq v c]
    rfl
  next rest hskip =>
    obtain ⟨ds, hds, hrest, hn⟩ := readDigits_eq_some h
    refine ⟨w, ['0', 'X'] ++ ds, hw, hword (by simp [Word]; decide) hds,
      by rw [hp, hskip, hrest]; rfl, ?_⟩
    rw [hn, foldl_step_mod fun v c _ => hexStep_eq v c]
    rfl
  · obtain ⟨ds, hds, hrest, hn⟩ := readDigits_eq_some h
    refine ⟨w, ds, hw, fun c hc => isIdentCont_of_isDigit (hds c hc), by rwa [← hrest], ?_⟩
    rw [hn, numeral_of_digits hds]
    exact (foldl_step_mod fun v c _ => rfl).symm

theorem expectNumber_eq_ok {n : Nat} (h : expectNumber p = .ok (n, q)) :
    ∃ w ds, Blank w ∧ Word ds ∧ p = w ++ (ds ++ q) ∧ numeral ds = n := by
  unfold expectNumber at h
  split at h
  next n' q' hread =>
    cases h
    exact readNumber_eq_some hread
  · cases h

/-! ### Comparisons -/

/-- The characters a comparison does not contain. -/
def clauseEnds : List Char := [';', '[', ']', '|', ',']

theorem clauseEnds_subset : clauseEnds ⊆ delimiters := by decide

theorem comparisonOf_two {pin value f₁ f₂ : Text} (h₁ : Field pin f₁) (h₂ : Field value f₂) :
    comparisonOf (f₁ ++ ':' :: f₂) = some ⟨pin, .eq, numeral value⟩ := by
  unfold comparisonOf
  rw [List.splitOn_append_cons_self_of_not_mem (h₁.not_mem (by decide)),
    List.splitOn_eq_singleton (h₂.not_mem (by decide))]
  simp [h₁.strip_eq, h₂.strip_eq]

theorem comparisonOf_three {pin word value f₁ f₂ f₃ : Text} {op : CompareOp} (h₁ : Field pin f₁)
    (h₂ : Field word f₂) (h₃ : Field value f₃) (hop : compareOpOf word = some op) :
    comparisonOf (f₁ ++ ':' :: (f₂ ++ ':' :: f₃)) = some ⟨pin, op, numeral value⟩ := by
  unfold comparisonOf
  rw [List.splitOn_append_cons_self_of_not_mem (h₁.not_mem (by decide)),
    List.splitOn_append_cons_self_of_not_mem (h₂.not_mem (by decide)),
    List.splitOn_eq_singleton (h₃.not_mem (by decide))]
  simp [h₁.strip_eq, h₂.strip_eq, h₃.strip_eq, hop]

/-- The parser reads a comparison as it is written. -/
theorem readClause_eq_ok {c : Clause} (h : readClause p = .ok (c, q)) :
    ∃ t, p = t ++ q ∧ t.Disjoint clauseEnds ∧
      ∀ w, Blank w → comparisonOf (t ++ w) = some c := by
  obtain ⟨⟨label, p₁⟩, hlabel, h⟩ := bind_eq_ok.mp h
  obtain ⟨p₂, hcolon, h⟩ := bind_eq_ok.mp h
  obtain ⟨⟨op, p₄⟩, hop, h⟩ := bind_eq_ok.mp h
  obtain ⟨⟨value, p₅⟩, hvalue, h⟩ := bind_eq_ok.mp h
  cases h
  obtain ⟨w₁, hw₁, hword, rfl⟩ := expectIdent_eq_ok hlabel
  obtain ⟨w₂, hw₂, rfl⟩ := expectChar_eq_ok hcolon
  obtain ⟨w₃, hw₃, hp₃⟩ := skipWs_eq p₂
  obtain ⟨w₆, ds, hw₆, hds, hp₄, rfl⟩ := expectNumber_eq_ok hvalue
  -- the first field stands between the start and its colon
  have hpin : Field label (w₁ ++ (label ++ w₂)) := ⟨hword, w₁, w₂, hw₁, hw₂, rfl⟩
  have hcolonEnd : ':' ∉ clauseEnds := by decide
  unfold readOp at hop
  split at hop
  -- an operator is written: three fields
  next hstart =>
    obtain ⟨⟨s, p₆⟩, hs, hop⟩ := bind_eq_ok.mp hop
    dsimp only at hop
    split at hop
    · cases hop
    next op' hknown =>
      obtain ⟨p₇, hcolon₂, hop⟩ := bind_eq_ok.mp hop
      cases hop
      obtain ⟨w₄, hw₄, hsword, hskip⟩ := expectIdent_eq_ok hs
      obtain ⟨w₅, hw₅, rfl⟩ := expectChar_eq_ok hcolon₂
      have hopField : Field s (w₃ ++ w₄ ++ (s ++ w₅)) :=
        ⟨hsword, w₃ ++ w₄, w₅, hw₃.append hw₄, hw₅, rfl⟩
      have hval : Field ds (w₆ ++ ds) := ⟨hds, w₆, [], hw₆, blank_nil, by simp⟩
      refine ⟨(w₁ ++ (label ++ w₂)) ++ ':' :: ((w₃ ++ w₄ ++ (s ++ w₅)) ++ ':' :: (w₆ ++ ds)), ?_,
        ?_, fun w hw => ?_⟩
      · rw [hp₃, hskip, hp₄]
        simp
      · exact disjoint_append_cons (hpin.disjoint clauseEnds_subset) hcolonEnd
          (disjoint_append_cons (hopField.disjoint clauseEnds_subset) hcolonEnd
            (hval.disjoint clauseEnds_subset))
      · have hthree := comparisonOf_three hpin hopField (hval.append hw) hknown
        simpa using hthree
  next hstart =>
    cases hop
    have hval : Field ds (w₃ ++ w₆ ++ (ds ++ [])) :=
      ⟨hds, w₃ ++ w₆, [], hw₃.append hw₆, blank_nil, rfl⟩
    refine ⟨(w₁ ++ (label ++ w₂)) ++ ':' :: (w₃ ++ w₆ ++ (ds ++ [])), ?_, ?_, fun w hw => ?_⟩
    · rw [hp₃, hp₄]
      simp
    · exact disjoint_append_cons (hpin.disjoint clauseEnds_subset) hcolonEnd
        (hval.disjoint clauseEnds_subset)
    · have htwo := comparisonOf_two hpin (hval.append hw)
      simpa using htwo

/-! ### Alternatives -/

/-- The comparisons of a watch body, alternative by alternative. -/
def clausesOf (body : Text) : List (List (Option Clause)) :=
  (alternatives body).map (·.map comparisonOf)

theorem clausesOf_ne_nil (body : Text) : clausesOf body ≠ [] := by
  simp [clausesOf, alternatives]

theorem clausesOf_single {t : Text} (ht : t.Disjoint clauseEnds) :
    clausesOf t = [[comparisonOf t]] := by
  unfold clausesOf alternatives
  rw [List.splitOn_eq_singleton fun hc => ht hc (by decide)]
  simp [List.splitOn_eq_singleton fun hc : ',' ∈ t => ht hc (by decide)]

/-- A bar starts a new alternative. -/
theorem clausesOf_bar {t : Text} (ht : t.Disjoint clauseEnds) (rest : Text) :
    clausesOf (t ++ '|' :: rest) = [comparisonOf t] :: clausesOf rest := by
  unfold clausesOf alternatives
  rw [List.splitOn_append_cons_self_of_not_mem fun hc => ht hc (by decide)]
  simp [List.splitOn_eq_singleton fun hc : ',' ∈ t => ht hc (by decide)]

/-- A comma continues the alternative. -/
theorem clausesOf_comma {t : Text} (ht : t.Disjoint clauseEnds) (rest : Text) :
    clausesOf (t ++ ',' :: rest) = (clausesOf rest).modifyHead (comparisonOf t :: ·) := by
  unfold clausesOf alternatives
  have hnot : '|' ∉ t ++ [','] := by
    rw [List.mem_append, not_or]
    exact ⟨fun hc => ht hc (by decide), by decide⟩
  have hassoc : t ++ ',' :: rest = (t ++ [',']) ++ rest := by simp
  rw [hassoc, splitOn_append_of_not_mem hnot]
  obtain ⟨a, as, hsplit⟩ := List.exists_cons_of_ne_nil (List.splitOn_ne_nil '|' rest)
  rw [hsplit]
  simp [List.splitOn_append_cons_self_of_not_mem fun hc : ',' ∈ t => ht hc (by decide)]

/-! ### Section bodies -/

/-- The characters a section body does not contain. -/
def bodyEnds : List Char := [';', '[', ']']

theorem bodyEnds_subset : bodyEnds ⊆ delimiters := by decide

/-- From `p` the readers got to `q` over `t`, inside a section body. -/
structure Spans (p t q : Text) : Prop where
  eq : p = t ++ q
  inside : t.Disjoint bodyEnds

theorem Spans.refl (p : Text) : Spans p [] p := ⟨rfl, List.disjoint_nil_left _⟩

theorem Spans.trans {p q r t u : Text} (h : Spans p t q) (h' : Spans q u r) :
    Spans p (t ++ u) r :=
  ⟨by rw [h.eq, h'.eq, List.append_assoc], List.disjoint_append_left.mpr ⟨h.inside, h'.inside⟩⟩

theorem expectIdent_spans {s : Text} (h : expectIdent p = .ok (s, q)) :
    ∃ t, Spans p t q ∧ s <:+: t := by
  obtain ⟨w, hw, hs, rfl⟩ := expectIdent_eq_ok h
  refine ⟨w ++ s, ⟨by simp, ?_⟩, (List.suffix_append w s).isInfix⟩
  exact List.disjoint_append_left.mpr ⟨hw.disjoint bodyEnds_subset, hs.disjoint bodyEnds_subset⟩

theorem consumeChar_spans {want : Char} {b : Bool} (hwant : want ∉ bodyEnds)
    (h : consumeChar want p = (b, q)) : ∃ t, Spans p t q := by
  obtain ⟨w, hw, rfl⟩ := consumeChar_eq h
  cases b with
  | true =>
      refine ⟨w ++ [want], by simp, ?_⟩
      exact disjoint_append_cons (hw.disjoint bodyEnds_subset) hwant (List.disjoint_nil_left _)
  | false => exact ⟨w, rfl, hw.disjoint bodyEnds_subset⟩

theorem expectChar_spans {want : Char} (hwant : want ∉ bodyEnds) (h : expectChar want p = .ok q) :
    ∃ t, Spans p t q := by
  unfold expectChar at h
  split at h
  next q' hread =>
    cases h
    exact consumeChar_spans hwant hread
  · cases h

theorem expectNumber_spans {n : Nat} (h : expectNumber p = .ok (n, q)) : ∃ t, Spans p t q := by
  obtain ⟨w, ds, hw, hds, rfl, -⟩ := expectNumber_eq_ok h
  refine ⟨w ++ ds, by simp, ?_⟩
  exact List.disjoint_append_left.mpr ⟨hw.disjoint bodyEnds_subset, hds.disjoint bodyEnds_subset⟩

theorem readPinLabels_spans {room : Nat} {labels labels' : List Text}
    (h : readPinLabels room labels p = .ok (labels', q)) : ∃ t, Spans p t q := by
  induction room generalizing labels p with
  | zero => cases h
  | succ room ih =>
      rw [readPinLabels] at h
      obtain ⟨⟨label, p₁⟩, hlabel, h⟩ := bind_eq_ok.mp h
      obtain ⟨t₁, h₁, -⟩ := expectIdent_spans hlabel
      dsimp only at h
      split at h
      next p₂ hcomma =>
        obtain ⟨t₂, h₂⟩ := consumeChar_spans (by decide) hcomma
        obtain ⟨t₃, h₃⟩ := ih h
        exact ⟨_, (h₁.trans h₂).trans h₃⟩
      next p₂ hcomma =>
        obtain ⟨t₂, h₂⟩ := consumeChar_spans (by decide) hcomma
        obtain ⟨p₃, hclose, h⟩ := bind_eq_ok.mp h
        cases h
        obtain ⟨t₃, h₃⟩ := expectChar_spans (by decide) hclose
        exact ⟨_, (h₁.trans h₂).trans h₃⟩

theorem readPins_spans {labels : List Text} (h : readPins p = .ok (labels, q)) :
    ∃ t, Spans p t q := by
  unfold readPins at h
  obtain ⟨w, hw, hp⟩ := skipWs_eq p
  have h₀ : Spans p w (skipWs p) := ⟨hp, hw.disjoint bodyEnds_subset⟩
  split at h
  next p₁ hopen =>
    obtain ⟨t₁, h₁⟩ := consumeChar_spans (by decide) hopen
    obtain ⟨t₂, h₂⟩ := readPinLabels_spans h
    exact ⟨_, (h₀.trans h₁).trans h₂⟩
  next p₁ hopen =>
    obtain ⟨t₁, h₁⟩ := consumeChar_spans (by decide) hopen
    obtain ⟨⟨label, p₂⟩, hlabel, h⟩ := bind_eq_ok.mp h
    cases h
    obtain ⟨t₂, h₂, -⟩ := expectIdent_spans hlabel
    exact ⟨_, (h₀.trans h₁).trans h₂⟩

/-- Every modifier that is read stands in the text. -/
theorem readModifiers_spans {room : Nat} {mods mods' : List Text}
    (h : readModifiers room mods p = .ok (mods', q)) :
    ∃ t, Spans p t q ∧ ∀ m ∈ mods', m ∈ mods ∨ m <:+: t := by
  induction room generalizing mods p with
  | zero => cases h
  | succ room ih =>
      rw [readModifiers] at h
      obtain ⟨⟨m, p₁⟩, hm, h⟩ := bind_eq_ok.mp h
      obtain ⟨t₁, h₁, hin⟩ := expectIdent_spans hm
      have hlast : ∀ u, ∀ m' ∈ mods ++ [m], m' ∈ mods ∨ m' <:+: t₁ ++ u := by
        intro u m' hm'
        rcases List.mem_append.mp hm' with hm' | hm'
        · exact .inl hm'
        · obtain rfl := List.mem_singleton.mp hm'
          exact .inr (hin.trans (List.prefix_append t₁ u).isInfix)
      dsimp only at h
      split at h
      next p₂ hcomma =>
        cases h
        obtain ⟨t₂, h₂⟩ := consumeChar_spans (by decide) hcomma
        exact ⟨_, h₁.trans h₂, hlast t₂⟩
      next p₂ hcomma =>
        split_ifs at h
        · cases h
          exact ⟨t₁, h₁, by simpa using hlast []⟩
        · cases h
          exact ⟨t₁, h₁, by simpa using hlast []⟩
        -- a word after the comma is a modifier or the first label of the next group
        · obtain ⟨⟨next, p₃⟩, -, h⟩ := bind_eq_ok.mp h
          dsimp only at h
          split at h
          · obtain ⟨t₂, h₂⟩ := consumeChar_spans (by decide) hcomma
            obtain ⟨w, hw, hp₂⟩ := skipWs_eq p₂
            have h₃ : Spans p₂ w (skipWs p₂) := ⟨hp₂, hw.disjoint bodyEnds_subset⟩
            obtain ⟨t₄, h₄, hmods⟩ := ih h
            refine ⟨_, h₁.trans (h₂.trans (h₃.trans h₄)), fun m' hm' => ?_⟩
            rcases hmods m' hm' with hold | hinText
            · exact hlast _ m' hold
            · refine .inr (hinText.trans ⟨t₁ ++ t₂ ++ w, [], by simp⟩)
          · cases h
            exact ⟨t₁, h₁, by simpa using hlast []⟩

theorem parseOutBlock_spans {board : Board} {isOk : Bool} {fuel : Nat} {inst inst' : Inst}
    (h : parseOutBlock board isOk fuel inst p = .ok (inst', q)) : ∃ t, Spans p t q := by
  induction fuel generalizing inst p with
  | zero => cases h
  | succ fuel ih =>
      rw [parseOutBlock] at h
      obtain ⟨⟨label, p₁⟩, hlabel, h⟩ := bind_eq_ok.mp h
      obtain ⟨p₂, hcolon, h⟩ := bind_eq_ok.mp h
      obtain ⟨⟨val, p₃⟩, hval, h⟩ := bind_eq_ok.mp h
      obtain ⟨mid, -, h⟩ := bind_eq_ok.mp h
      obtain ⟨t₁, h₁, -⟩ := expectIdent_spans hlabel
      obtain ⟨t₂, h₂⟩ := expectChar_spans (by decide) hcolon
      obtain ⟨t₃, h₃⟩ := expectNumber_spans hval
      have hclause := (h₁.trans h₂).trans h₃
      split at h
      next p₄ hcomma =>
        obtain ⟨t₄, h₄⟩ := consumeChar_spans (by decide) hcomma
        obtain ⟨t₅, h₅⟩ := ih h
        exact ⟨_, (hclause.trans h₄).trans h₅⟩
      next p₄ hcomma =>
        cases h
        obtain ⟨t₄, h₄⟩ := consumeChar_spans (by decide) hcomma
        exact ⟨_, hclause.trans h₄⟩

/-! ### Sections -/

/-- The name and what else stands before the first semicolon is no section. -/
theorem sectionsOf_append {a : Text} (ha : ';' ∉ a) (p : Text) :
    sectionsOf (a ++ p) = sectionsOf p := by
  unfold sectionsOf
  rw [splitOn_append_of_not_mem ha, List.tail_modifyHead]

theorem sectionsOf_of_not_mem {a : Text} (ha : ';' ∉ a) : sectionsOf a = [] := by
  simp [sectionsOf, List.splitOn_eq_singleton ha]

/-- A semicolon, a keyword and a bracketed body are a section. -/
theorem sectionsOf_cons {kw f body rest : Text} (hkw : Field kw f) (hbody : body.Disjoint bodyEnds) :
    sectionsOf (';' :: (f ++ '[' :: (body ++ ']' :: rest))) = ⟨kw, body⟩ :: sectionsOf rest := by
  have hhead : ';' ∉ f ++ '[' :: (body ++ [']']) := by
    simp only [List.mem_append, List.mem_cons, not_or]
    exact ⟨hkw.not_mem (by decide), by decide, fun hc => hbody hc (by decide), by decide⟩
  have hopen : '[' ∉ f := hkw.not_mem (by decide)
  have hclose : ']' ∉ body := fun hc => hbody hc (by decide)
  have hassoc : f ++ '[' :: (body ++ ']' :: rest) = (f ++ '[' :: (body ++ [']'])) ++ rest := by simp
  obtain ⟨u, us, hsplit⟩ := List.exists_cons_of_ne_nil (List.splitOn_ne_nil ';' rest)
  have hsec : sectionOf (f ++ '[' :: (body ++ ']' :: u)) = ⟨kw, body⟩ := by
    unfold sectionOf
    rw [takeWhile_append_cons hopen, dropWhile_append_cons hopen, hkw.strip_eq, List.drop_one,
      List.tail_cons, takeWhile_append_cons hclose]
  unfold sectionsOf
  rw [hassoc, List.splitOn_cons_eq_if_modifyHead, if_pos (by simp), List.tail_cons,
    splitOn_append_of_not_mem hhead, hsplit]
  simp [hsec]

end Readers

end SlowBus.Interlock
