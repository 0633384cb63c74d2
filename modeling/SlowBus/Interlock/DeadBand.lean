import SlowBus.Interlock.Debounce

/-!
# Hysteresis

A watch that passed is compared with its threshold relaxed by the hysteresis of its input. The
relaxed threshold saturates at the 16-bit bounds, not at those of the converter, and the parser
bounds the hysteresis by 16 bits only. Where the relaxed comparison is true of every sample, a
watch that passed once passes for good.
-/

namespace SlowBus.Interlock

open Fallible

/-- The largest sample of the 12-bit converter. -/
def adcMax : Nat := 4095

/-- Watch `k` passed when the slot was last evaluated, on these samples since its arrays were
clear. -/
def passedAfter (inst : Inst) (k : Nat) (past : List (Input → Nat)) : Bool :=
  (past.foldl (nextRuntime inst) .clear).lastPass k

/-- The comparison relaxed by `h`: over the integers, or with a lower threshold that is floored
at zero. -/
def CompareOp.Relaxed (floored : Bool) (op : CompareOp) (t h v : Nat) : Prop :=
  let lower : Int := if floored then max (t - h) 0 else t - h
  match op with
  | .gt => lower < v
  | .ge => lower ≤ v
  | .lt => v < t + h
  | .le => v ≤ t + h
  | .eq => v = t
  | .ne => v ≠ t

/-- The hysteresis of watch `k` on input `i` is a dead band: the watch passes by its comparison,
or by the relaxed one where it passed before; and if its comparison can fail, it can fail again
after it passed. -/
structure DeadBand (floored : Bool) (inst : Inst) (k : Nat) (w : Watch) (i : Input) : Prop where
  passes : ∀ (past : List (Input → Nat)) (raw : Input → Nat), (∀ r ∈ past, r i ≤ adcMax) →
    raw i ≤ adcMax → (passedAfter inst k (past ++ [raw]) = true ↔
      w.op.holds (raw i) w.threshold = true ∨
        passedAfter inst k past = true ∧ w.op.Relaxed floored w.threshold i.hyst (raw i))
  falls : (∃ v ≤ adcMax, w.op.holds v w.threshold = false) →
    ∀ past : List (Input → Nat), (∀ r ∈ past, r i ≤ adcMax) → passedAfter inst k past = true →
      ∃ raw : Input → Nat, raw i ≤ adcMax ∧ passedAfter inst k (past ++ [raw]) = false

/-- The threshold leaves room for the hysteresis below or above it, or the comparison is the
same for all samples. -/
def CompareOp.Fits (floored : Bool) (op : CompareOp) (t h : Nat) : Prop :=
  match op with
  | .gt => floored = true ∨ h ≤ t ∨ adcMax ≤ t
  | .ge => t = 0 ∨ h < t ∨ adcMax < t
  | .lt => t = 0 ∨ t + h ≤ adcMax ∨ adcMax < t
  | .le => t + h < adcMax ∨ adcMax ≤ t
  | .eq | .ne => True

section Watch

variable {inst : Inst} {rt : SlotRuntime} {raw : Input → Nat} {inputs : List Input}
  {ws : List Watch} {w : Watch} {i : Input} {j k : Nat} {past : List (Input → Nat)}

/-! ## One evaluation -/

theorem sampledInputs_lastPass : (sampledInputs raw k inputs rt).2.lastPass = rt.lastPass := by
  induction inputs generalizing k rt with
  | nil => rfl
  | cons i inputs ih =>
      unfold sampledInputs
      split
      · exact ih
      · exact ih

/-- An input that is not debounced has the value of its sample. -/
theorem sampledInputs_plain (hi : inputs[j]? = some i) (hdeb : i.debounces = false) :
    (sampledInputs raw k inputs rt).1[j]? = some (raw i) := by
  induction inputs generalizing j k rt with
  | nil => cases hi
  | cons i₀ inputs ih =>
      unfold sampledInputs
      cases j with
      | zero =>
          obtain rfl := Option.some.inj hi
          rw [hdeb, if_neg Bool.false_ne_true]
          rfl
      | succ j =>
          split
          · exact ih hi
          · exact ih hi

/-- The watch loop leaves the results before its first index alone. -/
theorem evalWatches_before {vals : List Nat} (hj : j < k) :
    (evalWatches inputs vals k ws rt).2.lastPass j = rt.lastPass j := by
  induction ws generalizing k rt with
  | nil => rfl
  | cons w ws ih =>
      unfold evalWatches
      dsimp only
      rw [ih (Nat.lt_succ_of_lt hj)]
      exact Function.update_of_ne hj.ne ..

theorem evalWatches_lastPass {vals : List Nat} (hw : ws[j]? = some w) :
    (evalWatches inputs vals k ws rt).2.lastPass (k + j) =
      watchPasses inputs vals (rt.lastPass (k + j)) w := by
  induction ws generalizing j k rt with
  | nil => cases hw
  | cons w₀ ws ih =>
      unfold evalWatches
      dsimp only
      cases j with
      | zero =>
          obtain rfl := Option.some.inj hw
          rw [Nat.add_zero k, evalWatches_before (Nat.lt_add_one k)]
          exact Function.update_self ..
      | succ j =>
          have hindex : k + (j + 1) = k + 1 + j := by omega
          have hne : k + 1 + j ≠ k := by omega
          have hsame : ∀ pass, Function.update rt.lastPass k pass (k + 1 + j) =
              rt.lastPass (k + 1 + j) := fun pass => Function.update_of_ne hne ..
          rw [hindex, ← hsame]
          exact ih hw

/-- A watch on an input that is not debounced, at one more evaluation. -/
theorem passedAfter_concat (hw : inst.watches[k]? = some w)
    (hi : inst.inputs[w.inputIdx]? = some i) (hdeb : i.debounces = false) :
    passedAfter inst k (past ++ [raw]) =
      w.op.holds (raw i) (effectiveThreshold w i.hyst (passedAfter inst k past)) := by
  unfold passedAfter
  rw [List.foldl_append, List.foldl_cons, List.foldl_nil]
  generalize past.foldl (nextRuntime inst) .clear = rt
  unfold nextRuntime
  dsimp only
  have hpass : (evalWatches inst.inputs (sampledInputs raw 0 inst.inputs rt).1 0 inst.watches
      (sampledInputs raw 0 inst.inputs rt).2).2.lastPass (0 + k) = _ := evalWatches_lastPass hw
  rw [Nat.zero_add, sampledInputs_lastPass] at hpass
  rw [hpass, watchPasses, hi, List.getD_eq_getElem?_getD, sampledInputs_plain hi hdeb]
  rfl

/-! ## The band -/

/-- The comparison of a watch that passed before is the one with the lower threshold floored. -/
theorem holds_effectiveThreshold {h v : Nat} (hv : v ≤ adcMax) :
    w.op.holds v (effectiveThreshold w h true) = true ↔ w.op.Relaxed true w.threshold h v := by
  unfold adcMax at hv
  unfold effectiveThreshold CompareOp.Relaxed
  cases w.op with
  | gt =>
      simp only [CompareOp.holds, decide_eq_true_eq, and_true, if_true]
      split_ifs <;> omega
  | ge =>
      simp only [CompareOp.holds, decide_eq_true_eq, and_true, if_true]
      split_ifs <;> omega
  | lt =>
      simp only [CompareOp.holds, decide_eq_true_eq, and_true]
      split_ifs <;> omega
  | le =>
      simp only [CompareOp.holds, decide_eq_true_eq, and_true]
      split_ifs <;> omega
  | eq => simp [CompareOp.holds]
  | ne => simp [CompareOp.holds]

theorem effectiveThreshold_false (w : Watch) (h : Nat) :
    effectiveThreshold w h false = w.threshold := if_neg fun hpass => Bool.false_ne_true hpass.2

/-- A watch that passed once saw a sample that satisfies its comparison. -/
theorem exists_of_passedAfter (hw : inst.watches[k]? = some w)
    (hi : inst.inputs[w.inputIdx]? = some i) (hdeb : i.debounces = false)
    (hpast : ∀ r ∈ past, r i ≤ adcMax) (hpass : passedAfter inst k past = true) :
    ∃ v ≤ adcMax, w.op.holds v w.threshold = true := by
  induction past using List.reverseRecOn with
  | nil => cases hpass
  | append_singleton past raw ih =>
      obtain ⟨hold, hnew⟩ := List.forall_mem_append.mp hpast
      cases hbefore : passedAfter inst k past with
      | true => exact ih hold hbefore
      | false =>
          rw [passedAfter_concat hw hi hdeb, hbefore, effectiveThreshold_false] at hpass
          exact ⟨raw i, hnew raw (List.mem_singleton_self raw), hpass⟩

/-- A dead band, in terms of the two comparisons. -/
theorem deadBand_iff (floored : Bool) (hw : inst.watches[k]? = some w)
    (hi : inst.inputs[w.inputIdx]? = some i) (hdeb : i.debounces = false) :
    DeadBand floored inst k w i ↔ ((∃ v ≤ adcMax, w.op.holds v w.threshold = true) →
      (∀ v ≤ adcMax, w.op.Relaxed true w.threshold i.hyst v ↔
        w.op.holds v w.threshold = true ∨ w.op.Relaxed floored w.threshold i.hyst v) ∧
      ((∃ v ≤ adcMax, w.op.holds v w.threshold = false) →
        ∃ v ≤ adcMax, ¬w.op.Relaxed true w.threshold i.hyst v)) := by
  have hconcat : ∀ past raw, passedAfter inst k (past ++ [raw]) =
      w.op.holds (raw i) (effectiveThreshold w i.hyst (passedAfter inst k past)) :=
    fun _ _ => passedAfter_concat hw hi hdeb
  constructor
  · rintro h ⟨v₀, hv₀, hplain⟩
    have hpast : ∀ r ∈ [fun _ : Input => v₀], r i ≤ adcMax := List.forall_mem_singleton.mpr hv₀
    -- one sample that passes puts the comparison on the far side
    have hpassed : passedAfter inst k [fun _ : Input => v₀] = true := by
      rw [← List.nil_append [fun _ : Input => v₀], hconcat]
      exact (congrArg _ (effectiveThreshold_false w i.hyst)).trans hplain
    constructor
    · intro v hv
      have hiff := h.passes [fun _ => v₀] (fun _ => v) hpast hv
      rw [hconcat, hpassed, holds_effectiveThreshold hv] at hiff
      simpa using hiff
    · intro hfalse
      obtain ⟨raw, hraw, hfail⟩ := h.falls hfalse _ hpast hpassed
      rw [hconcat, hpassed] at hfail
      refine ⟨raw i, hraw, fun hrelaxed => ?_⟩
      rw [(holds_effectiveThreshold hraw).mpr hrelaxed] at hfail
      cases hfail
  · intro h
    constructor
    · intro past raw hpast hraw
      rw [hconcat]
      -- only a comparison that has passed is relaxed
      cases hbefore : passedAfter inst k past with
      | false => simp [effectiveThreshold_false]
      | true =>
          have hiff := (h (exists_of_passedAfter hw hi hdeb hpast hbefore)).1 (raw i) hraw
          rw [holds_effectiveThreshold hraw, hiff]
          simp
    · intro hfalse past hpast hpassed
      obtain ⟨v, hv, hnot⟩ := (h (exists_of_passedAfter hw hi hdeb hpast hpassed)).2 hfalse
      refine ⟨fun _ => v, hv, ?_⟩
      rw [hconcat, hpassed]
      exact Bool.eq_false_iff.mpr fun hholds => hnot ((holds_effectiveThreshold hv).mp hholds)

end Watch

/-- When the two comparisons make a dead band. -/
theorem band_iff_fits (floored : Bool) {op : CompareOp} (t h : Nat)
    (hop : op = .gt ∨ op = .ge ∨ op = .lt ∨ op = .le) :
    ((∃ v ≤ adcMax, op.holds v t = true) →
      (∀ v ≤ adcMax, op.Relaxed true t h v ↔ op.holds v t = true ∨ op.Relaxed floored t h v) ∧
      ((∃ v ≤ adcMax, op.holds v t = false) → ∃ v ≤ adcMax, ¬op.Relaxed true t h v)) ↔
    op.Fits floored t h := by
  have hmax : adcMax = 4095 := rfl
  rcases hop with rfl | rfl | rfl | rfl
  all_goals
    simp only [CompareOp.Relaxed, CompareOp.Fits, CompareOp.holds, decide_eq_true_eq,
      decide_eq_false_iff_not, if_true, hmax]
    constructor
  · intro hband
    by_contra hnot
    simp only [not_or, Bool.not_eq_true] at hnot
    obtain ⟨rfl, hnot⟩ := hnot
    -- `>` with a threshold below the hysteresis: floored at 0, the relaxed one fails the value 0
    have hzero := (hband ⟨4095, by omega⟩).1 0 (by omega)
    simp only [Bool.false_eq_true, if_false] at hzero
    omega
  · rintro hfits ⟨v₀, hv₀⟩
    refine ⟨fun v hv => ?_, fun _ => ⟨0, by omega⟩⟩
    cases floored with
    | true =>
        rw [if_pos rfl]
        omega
    | false =>
        simp only [Bool.false_eq_true, if_false, false_or] at hfits ⊢
        omega
  · intro hband
    by_contra hnot
    obtain ⟨v, hv⟩ := (hband ⟨4095, by omega⟩).2 ⟨0, by omega⟩
    omega
  · rintro hfits ⟨v₀, hv₀⟩
    refine ⟨fun v hv => ?_, fun ⟨v₁, hv₁⟩ => ⟨0, by omega⟩⟩
    split_ifs <;> omega
  · intro hband
    by_contra hnot
    obtain ⟨v, hv⟩ := (hband ⟨0, by omega⟩).2 ⟨4095, by omega⟩
    omega
  · rintro hfits ⟨v₀, hv₀⟩
    refine ⟨fun v hv => by omega, ?_⟩
    rintro ⟨v₁, hv₁⟩
    exact ⟨4095, by omega⟩
  · intro hband
    by_contra hnot
    obtain ⟨v, hv⟩ := (hband ⟨0, by omega⟩).2 ⟨4095, by omega⟩
    omega
  · rintro hfits ⟨v₀, hv₀⟩
    refine ⟨fun v hv => by omega, ?_⟩
    rintro ⟨v₁, hv₁⟩
    exact ⟨4095, by omega⟩

/-- The results of the watches are those of the samples since the slot was armed, and the
hysteresis of a watch on the converter is a dead band exactly when it fits. -/
theorem hysteresis_dead_band (plat : Platform) (s : Slot) (floored : Bool) (text : Text) :
    (∀ (past : List (Input → Nat)) (m : Machine), Evaluated plat s past m → m.persist.Runs s →
      ∀ k, (m.runtime s).lastPass k = passedAfter (m.persist.inst s) k past) ∧
    ∀ inst : Inst, ilParse text = .ok inst →
      ∀ (k : Nat) (w : Watch) (i : Input), inst.watches[k]? = some w →
      inst.inputs[w.inputIdx]? = some i → i.mode = .adc →
      (w.op = .gt ∨ w.op = .ge ∨ w.op = .lt ∨ w.op = .le) →
      (DeadBand floored inst k w i ↔ w.op.Fits floored w.threshold i.hyst) := by
  constructor
  · intro past m h hruns k
    rw [h.runtime hruns]
    rfl
  · intro inst _ k w i hw hi hadc hop
    have hdeb : i.debounces = false := by
      rw [Input.debounces, hadc]
    rw [deadBand_iff floored hw hi hdeb]
    exact band_iff_fits floored w.threshold i.hyst hop

/-- A band of 50 below a threshold of 2000. -/
theorem hysteresis_dead_band_fits : ∃ (inst : Inst) (w : Watch) (i : Input),
    ilParse "t;cfg[adc0:adc,hyst_50];watch[adc0:gt:2000]".toList = .ok inst ∧
    w.op.Fits false w.threshold i.hyst ∧ i.hyst = 50 ∧ DeadBand false inst 0 w i := by
  obtain ⟨inst, hparse, htest⟩ := exists_of_succeedsWith
    (x := ilParse "t;cfg[adc0:adc,hyst_50];watch[adc0:gt:2000]".toList)
    (p := fun inst => decide (inst.watches = [⟨0, .gt, 2000, 0⟩] ∧
      inst.inputs = [{ physId := 26, mode := .adc, shCyc := 4, hyst := 50 }])) (by decide +kernel)
  obtain ⟨hwatches, hinputs⟩ := of_decide_eq_true htest
  have hfits : CompareOp.gt.Fits false 2000 50 := .inr (.inl (by decide))
  have hw : inst.watches[0]? = some ⟨0, .gt, 2000, 0⟩ := by rw [hwatches]; rfl
  have hi : inst.inputs[0]? = some { physId := 26, mode := .adc, shCyc := 4, hyst := 50 } := by
    rw [hinputs]
    rfl
  exact ⟨inst, _, _, hparse, hfits, rfl,
    ((hysteresis_dead_band ⟨fun _ => .input⟩ 0 false _).2 inst hparse 0 _ _ hw hi rfl (.inl rfl)).mpr hfits⟩

/-- A band of 100 below a threshold of 100: what passed once is never below it. -/
theorem not_hysteresis_dead_band : ∃ (inst : Inst) (w : Watch) (i : Input),
    ilParse "t;cfg[adc0:adc,hyst_100];watch[adc0:ge:100]".toList = .ok inst ∧
    inst.watches[0]? = some w ∧ inst.inputs[w.inputIdx]? = some i ∧ i.mode = .adc ∧
    w.op = .ge ∧ ¬DeadBand true inst 0 w i ∧ ¬DeadBand false inst 0 w i := by
  obtain ⟨inst, hparse, htest⟩ := exists_of_succeedsWith
    (x := ilParse "t;cfg[adc0:adc,hyst_100];watch[adc0:ge:100]".toList)
    (p := fun inst => decide (inst.watches = [⟨0, .ge, 100, 0⟩] ∧
      inst.inputs = [{ physId := 26, mode := .adc, shCyc := 4, hyst := 100 }])) (by decide +kernel)
  obtain ⟨hwatches, hinputs⟩ := of_decide_eq_true htest
  have hw : inst.watches[0]? = some ⟨0, .ge, 100, 0⟩ := by rw [hwatches]; rfl
  have hi : inst.inputs[0]? = some { physId := 26, mode := .adc, shCyc := 4, hyst := 100 } := by
    rw [hinputs]
    rfl
  have hnot : ∀ floored, ¬DeadBand floored inst 0 ⟨0, .ge, 100, 0⟩
      { physId := 26, mode := .adc, shCyc := 4, hyst := 100 } := by
    intro floored h
    rw [deadBand_iff floored hw hi rfl, band_iff_fits floored 100 100 (.inr (.inl rfl))] at h
    rcases h with h | h | h
    all_goals exact absurd h (by decide)
  exact ⟨inst, _, _, hparse, hw, hi, rfl, rfl, hnot true, hnot false⟩

end SlowBus.Interlock
