import SlowBus.Interlock.Machine
import SlowBus.Lib.BitSet
import Mathlib.Data.Set.Insert

/-!
# What the claim table means

A slot holds a list of pin uses. The table represents a family of holdings when
a pin's mask is the set of slots holding it and its record is the one their
common use prescribes. Claiming an instance's pins succeeds exactly when each of
them is admissible on its own and agrees with what the other slots hold.
-/

namespace SlowBus.Interlock

/-- How a slot uses a physical pin. -/
inductive PinUse where
  | gpioIn (mode : HalMode)
  | adc
  | output (okValue errValue openDrain : Nat)
  deriving DecidableEq, Repr

/-- A use that several slots may have of one pin. -/
def PinUse.Shared : PinUse → Prop
  | .gpioIn _ => False
  | .adc | .output .. => True

instance : (u : PinUse) → Decidable u.Shared
  | .gpioIn _ => inferInstanceAs (Decidable False)
  | .adc | .output .. => inferInstanceAs (Decidable True)

/-- The record a use prescribes, given the owners. -/
def PinUse.record (mask : SlotMask) (physId : Nat) : PinUse → ClaimRecord
  | .gpioIn mode => ⟨mask, mode, 0, 0, adcNone, 0⟩
  | .adc => ⟨mask, .adcScan, 0, 0, ilPlatAdcChannel physId, 0⟩
  | .output okValue errValue openDrain => ⟨mask, .gpioOut, okValue, errValue, adcNone, openDrain⟩

/-- The checks a claim makes of the pin alone. -/
def PinUse.Admissible (plat : Platform) (physId : Nat) : PinUse → Prop
  | .gpioIn mode => physId < pinTableSize ∧ mode.isGpioIn = true ∧
      ilPlatPinReserved physId = false ∧ ilPlatPinCap plat physId mode = true
  | .adc => physId < pinTableSize ∧ ilPlatAdcChannel physId ≠ adcNone ∧
      ilPlatPinReserved physId = false
  | .output okValue errValue openDrain => physId < pinTableSize ∧
      ¬(okValue > 1 ∨ errValue > 1 ∨ openDrain > 2) ∧ okValue ≠ errValue ∧
      ilPlatPinReserved physId = false ∧ ilPlatPinCap plat physId .gpioOut = true

instance (plat : Platform) (physId : Nat) : (u : PinUse) → Decidable (u.Admissible plat physId)
  | .gpioIn _ => inferInstanceAs (Decidable (_ ∧ _))
  | .adc => inferInstanceAs (Decidable (_ ∧ _))
  | .output .. => inferInstanceAs (Decidable (_ ∧ _))

/-- The pins each slot holds, with their uses. -/
abbrev Holdings := Slot → Set (Nat × PinUse)

/-- Slot `s` holds some further uses. -/
def Holdings.add (held : Holdings) (s : Slot) (uses : Set (Nat × PinUse)) : Holdings :=
  Function.update held s (held s ∪ uses)

/-- Slot `s` holds nothing. -/
def Holdings.drop (held : Holdings) (s : Slot) : Holdings := Function.update held s ∅

/-- Whatever the other slots do with the pin, they do the same, and may. -/
def Holdings.Agrees (held : Holdings) (s : Slot) (physId : Nat) (u : PinUse) : Prop :=
  ∀ t, t ≠ s → ∀ u', (physId, u') ∈ held t → u' = u ∧ u.Shared

/-- The claim table represents the holdings. -/
structure Holds (plat : Platform) (hal : Hal) (held : Holdings) : Prop where
  mask : ∀ (pin : Pin) (s : Slot),
    (hal.claims pin).slotMask.getLsbD s = true ↔ ∃ u, (pin.val, u) ∈ held s
  bounded : ∀ (pin : Pin) (j : Nat), (hal.claims pin).slotMask.getLsbD j = true → j < maxSlots
  record : ∀ (pin : Pin) (s : Slot) (u : PinUse), (pin.val, u) ∈ held s →
    hal.claims pin = u.record (hal.claims pin).slotMask pin
  free : ∀ pin, (hal.claims pin).slotMask = 0 → hal.claims pin = .unclaimed
  admissible : ∀ s physId u, (physId, u) ∈ held s → u.Admissible plat physId
  agrees : ∀ s physId u, (physId, u) ∈ held s → held.Agrees s physId u

theorem PinUse.Admissible.lt {plat : Platform} {physId : Nat} {u : PinUse}
    (h : u.Admissible plat physId) : physId < pinTableSize := by
  cases u <;> exact h.1

theorem holds_boot (plat : Platform) (trace : List DriveEvent) :
    Holds plat (.boot trace) fun _ => ∅ where
  mask := by simp [Hal.boot, ClaimRecord.unclaimed]
  bounded := by simp [Hal.boot, ClaimRecord.unclaimed]
  record := by simp
  free := fun _ _ => rfl
  admissible := by simp
  agrees := by simp

/-- Only the claim table matters. -/
theorem Holds.of_claims_eq {plat : Platform} {hal hal' : Hal} {held : Holdings}
    (h : Holds plat hal held) (hclaims : hal'.claims = hal.claims) : Holds plat hal' held := by
  obtain ⟨h1, h2, h3, h4, h5, h6⟩ := h
  constructor
  all_goals first | assumption | (rw [hclaims]; assumption)

theorem slot_lt_width (s : Slot) : s.val < 16 := lt_trans s.isLt (by decide)

/-! ## One claim -/

section Claim

variable {plat : Platform} {hal hal' : Hal} {held : Holdings} {s : Slot} {physId : Nat}
  {u : PinUse}

/-- A claimed pin has a holder. -/
theorem Holds.exists_holder (h : Holds plat hal held) {pin : Pin}
    (hmask : (hal.claims pin).slotMask ≠ 0) : ∃ t u, (pin.val, u) ∈ held t := by
  obtain ⟨j, hj⟩ := BitSet.ne_zero_iff.mp hmask
  have hlt := h.bounded pin j hj
  obtain ⟨u, hu⟩ := (h.mask pin ⟨j, hlt⟩).mp hj
  exact ⟨⟨j, hlt⟩, u, hu⟩

/-- A pin that is only ever held for one use is unclaimed or records that use. -/
theorem Holds.unclaimed_or_record (h : Holds plat hal held) (pin : Pin)
    (hsame : ∀ t v, (pin.val, v) ∈ held t → v = u) :
    hal.claims pin = .unclaimed ∨ hal.claims pin = u.record (hal.claims pin).slotMask pin := by
  rcases Classical.em ((hal.claims pin).slotMask = 0) with hzero | hzero
  · exact .inl (h.free pin hzero)
  · obtain ⟨t, v, hv⟩ := h.exists_holder hzero
    obtain rfl := hsame t v hv
    exact .inr (h.record pin t v hv)

/-- The holdings determine the claim table. -/
theorem Holds.claims_eq (h : Holds plat hal held) (h' : Holds plat hal' held) :
    hal'.claims = hal.claims := by
  funext pin
  have hmask : (hal'.claims pin).slotMask = (hal.claims pin).slotMask := by
    refine BitSet.ext_bits fun j => ?_
    by_cases hj : j < maxSlots
    · rw [Bool.eq_iff_iff]
      exact (h'.mask pin ⟨j, hj⟩).trans (h.mask pin ⟨j, hj⟩).symm
    · rw [Bool.eq_false_iff.mpr fun hbit => hj (h.bounded pin j hbit),
        Bool.eq_false_iff.mpr fun hbit => hj (h'.bounded pin j hbit)]
  by_cases hzero : (hal.claims pin).slotMask = 0
  · rw [h.free pin hzero, h'.free pin (hmask.trans hzero)]
  · obtain ⟨s, u, hu⟩ := h.exists_holder hzero
    rw [h.record pin s u hu, h'.record pin s u hu, hmask]

theorem Holdings.mem_add {t : Slot} {q : Nat} {v : PinUse} :
    (q, v) ∈ held.add s {(physId, u)} t ↔ (t = s ∧ q = physId ∧ v = u) ∨ (q, v) ∈ held t := by
  unfold Holdings.add
  by_cases hts : t = s
  · subst t
    simp
  · simp [hts]

@[simp] theorem PinUse.slotMask_record (u : PinUse) (mask : SlotMask) (physId : Nat) :
    (u.record mask physId).slotMask = mask := by
  cases u <;> rfl

/-- A use every other slot agrees with, and the slot itself already has, is the
only use of the pin. -/
theorem Holdings.Agrees.use_eq (hagree : held.Agrees s physId u)
    (hown : ∀ u', (physId, u') ∈ held s → u' = u) {t : Slot} {v : PinUse}
    (hv : (physId, v) ∈ held t) : v = u := by
  by_cases hts : t = s
  · subst t
    exact hown v hv
  · exact (hagree t hts v hv).1

/-- A use that agrees with the other slots agrees with them when it is added. -/
theorem Holdings.agrees_add (hagree : held.Agrees s physId u)
    (hall : ∀ t q v, (q, v) ∈ held t → held.Agrees t q v) {t : Slot} {q : Nat} {v : PinUse}
    (hv : (q, v) ∈ held.add s {(physId, u)} t) :
    (held.add s {(physId, u)}).Agrees t q v := by
  intro r hrt v' hv'
  rcases mem_add.mp hv with ⟨rfl, rfl, rfl⟩ | hold
  · rcases mem_add.mp hv' with ⟨rfl, -, -⟩ | hold'
    · exact absurd rfl hrt
    · exact hagree r hrt v' hold'
  · rcases mem_add.mp hv' with ⟨rfl, rfl, rfl⟩ | hold'
    · obtain ⟨rfl, hshared⟩ := hagree t (Ne.symm hrt) v hold
      exact ⟨rfl, hshared⟩
    · exact hall t q v hold r hrt v' hold'

/-- Writing the record of a use that agrees with the other slots adds it to the
holdings. -/
theorem Holds.add (h : Holds plat hal held) (pin : Pin) (mask : SlotMask)
    (hadm : u.Admissible plat pin) (hagree : held.Agrees s pin u)
    (hown : ∀ u', (pin.val, u') ∈ held s → u' = u)
    (hmask : ∀ j, mask.getLsbD j = true ↔ (hal.claims pin).slotMask.getLsbD j = true ∨ s.val = j)
    (hclaims : hal'.claims = Function.update hal.claims pin (u.record mask pin)) :
    Holds plat hal' (held.add s {(pin.val, u)}) where
  mask q t := by
    rw [hclaims]
    by_cases hq : q = pin
    · subst q
      rw [Function.update_self, PinUse.slotMask_record, hmask, h.mask]
      constructor
      · rintro (⟨v, hv⟩ | hst)
        · exact ⟨v, Holdings.mem_add.mpr (.inr hv)⟩
        · exact ⟨u, Holdings.mem_add.mpr (.inl ⟨(Fin.ext hst).symm, rfl, rfl⟩)⟩
      · rintro ⟨v, hv⟩
        rcases Holdings.mem_add.mp hv with ⟨rfl, -, -⟩ | hv
        · exact .inr rfl
        · exact .inl ⟨v, hv⟩
    · have hne : q.val ≠ pin.val := fun heq => hq (Fin.ext heq)
      rw [Function.update_of_ne hq, h.mask]
      simp [Holdings.mem_add, hne]
  bounded q j hj := by
    rw [hclaims] at hj
    by_cases hq : q = pin
    · subst q
      rw [Function.update_self, PinUse.slotMask_record, hmask] at hj
      rcases hj with hj | rfl
      · exact h.bounded _ _ hj
      · exact s.isLt
    · rw [Function.update_of_ne hq] at hj
      exact h.bounded _ _ hj
  record q t v hv := by
    rw [hclaims]
    by_cases hq : q = pin
    · subst q
      obtain rfl : v = u := by
        rcases Holdings.mem_add.mp hv with ⟨-, -, rfl⟩ | hv
        · rfl
        · exact hagree.use_eq hown hv
      rw [Function.update_self, PinUse.slotMask_record]
    · rw [Function.update_of_ne hq]
      rcases Holdings.mem_add.mp hv with ⟨-, heq, -⟩ | hv
      · exact absurd (Fin.ext heq) hq
      · exact h.record q t v hv
  free q hq0 := by
    rw [hclaims] at hq0 ⊢
    by_cases hq : q = pin
    · -- the slot's own bit is set
      subst q
      rw [Function.update_self, PinUse.slotMask_record] at hq0
      have hbit := (hmask s).mpr (.inr rfl)
      rw [BitSet.eq_zero_iff.mp hq0 s] at hbit
      cases hbit
    · rw [Function.update_of_ne hq] at hq0 ⊢
      exact h.free q hq0
  admissible t q v hv := by
    rcases Holdings.mem_add.mp hv with ⟨-, rfl, rfl⟩ | hv
    · exact hadm
    · exact h.admissible t q v hv
  agrees t q v hv := Holdings.agrees_add hagree h.agrees hv

/-- What a claim of one use does: it succeeds and the use is added, or it is
refused for a reason and nothing changes. -/
def ClaimOutcome (plat : Platform) (hal : Hal) (held : Holdings) (s : Slot)
    (use : Nat × PinUse) (r : ClaimStatus × Hal) : Prop :=
  (r.1 = .ok ∧ use.2.Admissible plat use.1 ∧ held.Agrees s use.1 use.2 ∧
      Holds plat r.2 (held.add s {use})) ∨
    (r.1 ≠ .ok ∧ ¬(use.2.Admissible plat use.1 ∧ held.Agrees s use.1 use.2) ∧ r.2 = hal)

/-- A pin with a converter channel is never used as a GPIO. -/
theorem PinUse.Admissible.eq_adc (h : u.Admissible plat physId)
    (hch : ilPlatAdcChannel physId ≠ adcNone) : u = .adc := by
  have hblock : inAdcBlock physId = true := by
    unfold ilPlatAdcChannel at hch
    by_contra hnot
    exact hch (by simp [hnot])
  have hpin : ilPlatPinCap plat physId = fun _ => false := by
    funext mode
    simp only [inAdcBlock, adc0Gpio, adcNch, Bool.and_eq_true] at hblock
    have hge : 26 ≤ physId := of_decide_eq_true hblock.1
    have h0 : physId ≠ interlockVetoPin := by unfold interlockVetoPin; omega
    have h1 : physId ≠ interlockInPin := by unfold interlockInPin; omega
    have hpast : ¬physId < hilGpioBase + hilGpioCount := by
      unfold hilGpioBase hilGpioCount
      omega
    have h2 : inHilBlock physId = false := by simp [inHilBlock, hpast]
    simp [ilPlatPinCap, h0, h1, h2]
  cases u with
  | gpioIn mode => exact absurd h.2.2.2 (by simp [hpin])
  | adc => rfl
  | output ok err od => exact absurd h.2.2.2.2 (by simp [hpin])

theorem halPinClaim_outcome (h : Holds plat hal held) {mode : HalMode}
    (hown : ∀ u', (physId, u') ∈ held s → u' = .gpioIn mode) :
    ClaimOutcome plat hal held s (physId, .gpioIn mode) (halPinClaim plat hal physId s mode) := by
  unfold halPinClaim
  dsimp only
  split_ifs with hlt hmode hres hcap htaken
  · exact .inr ⟨nofun, fun hok => by simp [hok.1.2.1] at hmode, rfl⟩
  · exact .inr ⟨nofun, fun hok => by simp [hok.1.2.2.1] at hres, rfl⟩
  · exact .inr ⟨nofun, fun hok => by simp [hok.1.2.2.2] at hcap, rfl⟩
  · refine .inr ⟨nofun, ?_, rfl⟩
    rintro ⟨-, hagree⟩
    -- a bit that is not the slot's own is another holder, who does not share an input
    obtain ⟨j, hsj, hj⟩ := BitSet.exists_other (slot_lt_width s) htaken.1 htaken.2
    have hjlt := h.bounded _ j hj
    obtain ⟨v, hv⟩ := (h.mask _ ⟨j, hjlt⟩).mp hj
    exact (hagree ⟨j, hjlt⟩ (fun heq => hsj (congrArg Fin.val heq).symm) v hv).2
  · -- either nobody holds the pin, or the slot itself does, for this very use
    have hothers : ∀ t v, (physId, v) ∈ held t → t = s := by
      intro t v hv
      have hbit := (h.mask ⟨physId, hlt⟩ t).mpr ⟨v, hv⟩
      by_contra hne
      apply htaken
      refine ⟨BitSet.ne_zero_iff.mpr ⟨t, hbit⟩, ?_⟩
      intro heq
      rw [heq] at hbit
      exact hne (Fin.ext ((BitSet.getLsbD_single (slot_lt_width s)).mp hbit).symm)
    have hagree : held.Agrees s physId (.gpioIn mode) :=
      fun t hts v hv => absurd (hothers t v hv) hts
    have hadm : (PinUse.gpioIn mode).Admissible plat physId :=
      ⟨hlt, by simpa using hmode, by simpa using hres, by simpa using hcap⟩
    refine .inl ⟨rfl, hadm, hagree, ?_⟩
    refine h.add ⟨physId, hlt⟩ (slotBit s) hadm hagree hown ?_ ?_
    · intro j
      rw [slotBit, BitSet.getLsbD_single (slot_lt_width s)]
      constructor
      · exact .inr
      · rintro (hj | hj)
        · obtain ⟨v, hv⟩ := (h.mask _ ⟨j, h.bounded _ j hj⟩).mp hj
          exact (congrArg Fin.val (hothers _ v hv)).symm
        · exact hj
    · show Function.update hal.claims _ _ = _
      congr 1
      have hsame : ∀ t v, (physId, v) ∈ held t → v = .gpioIn mode := by
        intro t v hv
        obtain rfl := hothers t v hv
        exact hown v hv
      rcases h.unclaimed_or_record ⟨physId, hlt⟩ hsame with hrec | hrec
      · rw [hrec]
        rfl
      · rw [hrec]
        rfl
  · exact .inr ⟨nofun, fun hok => hlt hok.1.lt, rfl⟩

theorem halPinClaimAdc_outcome (h : Holds plat hal held) :
    ClaimOutcome plat hal held s (physId, .adc) (halPinClaimAdc hal physId s) := by
  unfold halPinClaimAdc
  dsimp only
  split_ifs with hlt hch hres
  · exact .inr ⟨nofun, fun hok => hok.1.2.1 hch, rfl⟩
  · exact .inr ⟨nofun, fun hok => by simp [hok.1.2.2] at hres, rfl⟩
  · have hadm : PinUse.adc.Admissible plat physId := ⟨hlt, hch, by simpa using hres⟩
    have hsame : ∀ t v, (physId, v) ∈ held t → v = .adc :=
      fun t v hv => (h.admissible t physId v hv).eq_adc hch
    have hagree : held.Agrees s physId .adc := fun t _ v hv => ⟨hsame t v hv, trivial⟩
    refine .inl ⟨rfl, hadm, hagree, ?_⟩
    refine h.add ⟨physId, hlt⟩
      ((hal.claims ⟨physId, hlt⟩).slotMask ||| slotBit s) hadm hagree (hsame s) ?_ ?_
    · exact fun j => BitSet.getLsbD_insert (slot_lt_width s)
    · show Function.update hal.claims _ _ = _
      congr 1
      rcases h.unclaimed_or_record ⟨physId, hlt⟩ hsame with hrec | hrec
      · rw [hrec]
        rfl
      · rw [hrec]
        rfl
  · exact .inr ⟨nofun, fun hok => hlt hok.1.lt, rfl⟩

theorem halPinClaimOutput_outcome (h : Holds plat hal held) {ok err od : Nat}
    (hown : ∀ u', (physId, u') ∈ held s → u' = .output ok err od) :
    ClaimOutcome plat hal held s (physId, .output ok err od)
      (halPinClaimOutput plat hal physId s ok err od) := by
  unfold halPinClaimOutput
  dsimp only
  split_ifs with hlt hrange hvals hres hcap hclaimed hmode hmismatch
  · exact .inr ⟨nofun, fun hok => hok.1.2.1 hrange, rfl⟩
  · exact .inr ⟨nofun, fun hok => hok.1.2.2.1 hvals, rfl⟩
  · exact .inr ⟨nofun, fun hok => by simp [hok.1.2.2.2.1] at hres, rfl⟩
  · exact .inr ⟨nofun, fun hok => by simp [hok.1.2.2.2.2] at hcap, rfl⟩
  · refine .inr ⟨nofun, ?_, rfl⟩
    rintro ⟨-, hagree⟩
    obtain ⟨t, v, hv⟩ := h.exists_holder hclaimed
    obtain rfl := hagree.use_eq hown hv
    exact hmode (by rw [h.record _ _ _ hv]; rfl)
  · refine .inr ⟨nofun, ?_, rfl⟩
    rintro ⟨-, hagree⟩
    obtain ⟨t, v, hv⟩ := h.exists_holder hclaimed
    obtain rfl := hagree.use_eq hown hv
    rw [h.record _ _ _ hv] at hmismatch
    simp [PinUse.record] at hmismatch
  · have hadm : (PinUse.output ok err od).Admissible plat physId :=
      ⟨hlt, hrange, hvals, by simpa using hres, by simpa using hcap⟩
    -- the holders drive the pin as this use does: an input was initialised in another mode
    have hsame : ∀ t v, (physId, v) ∈ held t → v = .output ok err od := by
      intro t v hv
      have hrec := h.record ⟨physId, hlt⟩ t v hv
      rw [hrec] at hmode hmismatch
      cases v with
      | gpioIn m =>
          have hadm' := h.admissible t physId _ hv
          simp only [PinUse.record, ne_eq, Decidable.not_not] at hmode
          subst m
          exact absurd hadm'.2.1 (by decide)
      | adc => simp [PinUse.record] at hmode
      | output a b c =>
          simp only [PinUse.record, not_or, ne_eq, Decidable.not_not] at hmismatch
          obtain ⟨rfl, rfl, rfl⟩ := hmismatch
          rfl
    have hagree : held.Agrees s physId (.output ok err od) :=
      fun t _ v hv => ⟨hsame t v hv, trivial⟩
    refine .inl ⟨rfl, hadm, hagree, ?_⟩
    refine h.add ⟨physId, hlt⟩
      ((hal.claims ⟨physId, hlt⟩).slotMask ||| slotBit s) hadm hagree hown ?_ ?_
    · exact fun j => BitSet.getLsbD_insert (slot_lt_width s)
    · show Function.update hal.claims _ _ = _
      congr 1
      obtain ⟨t, v, hv⟩ := h.exists_holder hclaimed
      obtain rfl := hsame t v hv
      rw [h.record _ _ _ hv]
      rfl
  -- nobody holds the pin
  · have hzero : (hal.claims ⟨physId, hlt⟩).slotMask = 0 := by simpa using hclaimed
    have hnone : ∀ t v, (physId, v) ∉ held t := by
      intro t v hv
      have hbit := (h.mask ⟨physId, hlt⟩ t).mpr ⟨v, hv⟩
      rw [BitSet.eq_zero_iff.mp hzero] at hbit
      cases hbit
    have hadm : (PinUse.output ok err od).Admissible plat physId :=
      ⟨hlt, hrange, hvals, by simpa using hres, by simpa using hcap⟩
    have hagree : held.Agrees s physId (.output ok err od) :=
      fun t _ v hv => absurd hv (hnone t v)
    refine .inl ⟨rfl, hadm, hagree, ?_⟩
    refine h.add ⟨physId, hlt⟩ (slotBit s) hadm hagree hown ?_ ?_
    · intro j
      rw [slotBit, BitSet.getLsbD_single (slot_lt_width s), hzero]
      simp
    · simp [Hal.setClaim, Hal.gpioInit, halPinApplyOutput, PinUse.record, h.free _ hzero,
        ClaimRecord.unclaimed]
  · exact .inr ⟨nofun, fun hok => hlt hok.1.lt, rfl⟩

/-! ## Claiming an instance -/

/-- The pin an input claims; a virtual input has none. -/
def Input.use? (i : Input) : Option (Nat × PinUse) :=
  match i.mode with
  | .virtual => none
  | .adc => some (i.physId, .adc)
  | mode => some (i.physId, .gpioIn (mapInputMode mode))

def Output.use (o : Output) : Nat × PinUse :=
  (o.physId, .output o.okValue o.errValue o.openDrain)

/-- The pins an instance names, with their uses. -/
def Inst.uses (inst : Inst) : List (Nat × PinUse) :=
  inst.inputs.filterMap Input.use? ++ inst.outputs.map Output.use

/-- Slot `s` may claim all of these uses. -/
def Holdings.Admits (plat : Platform) (held : Holdings) (s : Slot)
    (uses : List (Nat × PinUse)) : Prop :=
  ∀ use ∈ uses, use.2.Admissible plat use.1 ∧ held.Agrees s use.1 use.2

/-- No pin is named twice with different uses. -/
def Coherent (uses : Set (Nat × PinUse)) : Prop :=
  ∀ q u v, (q, u) ∈ uses → (q, v) ∈ uses → u = v

theorem Coherent.mono {uses uses' : Set (Nat × PinUse)} (h : Coherent uses)
    (hsub : uses' ⊆ uses) : Coherent uses' :=
  fun q u v hu hv => h q u v (hsub hu) (hsub hv)

@[simp] theorem Holdings.add_self (uses : Set (Nat × PinUse)) :
    held.add s uses s = held s ∪ uses := Function.update_self ..

theorem Holdings.add_of_ne {t : Slot} (hts : t ≠ s) (uses : Set (Nat × PinUse)) :
    held.add s uses t = held t := Function.update_of_ne hts ..

@[simp] theorem Holdings.drop_self : held.drop s s = ∅ := Function.update_self ..

theorem Holdings.drop_of_ne {t : Slot} (hts : t ≠ s) : held.drop s t = held t :=
  Function.update_of_ne hts ..

theorem Holdings.add_add (uses uses' : Set (Nat × PinUse)) :
    (held.add s uses).add s uses' = held.add s (uses ∪ uses') := by
  funext t
  by_cases hts : t = s
  · subst t
    simp [Set.union_assoc]
  · simp [add_of_ne hts]

theorem Holdings.drop_add (uses : Set (Nat × PinUse)) : (held.add s uses).drop s = held.drop s := by
  funext t
  by_cases hts : t = s
  · subst t
    simp
  · simp [add_of_ne hts, drop_of_ne hts]

/-- What a slot may claim depends on the other slots alone. -/
theorem Holdings.admits_add {uses : List (Nat × PinUse)} {extra : Set (Nat × PinUse)} :
    (held.add s extra).Admits plat s uses ↔ held.Admits plat s uses := by
  have hagrees : ∀ q u, (held.add s extra).Agrees s q u ↔ held.Agrees s q u := by
    intro q u
    refine forall₂_congr fun t hts => ?_
    rw [add_of_ne hts]
  simp only [Admits, hagrees]

/-- What a claim loop over some uses does: all of them are claimed, or one of
them is refused after some were claimed. -/
def LoopOutcome (plat : Platform) (held : Holdings) (s : Slot) (uses : List (Nat × PinUse))
    (r : ClaimStatus × Hal) : Prop :=
  (r.1 = .ok ∧ held.Admits plat s uses ∧ Holds plat r.2 (held.add s {x | x ∈ uses})) ∨
    (r.1 ≠ .ok ∧ ¬held.Admits plat s uses ∧ ∃ part, Holds plat r.2 (held.add s part))

theorem claimLoop_cons_ok {α : Type} {claim : Hal → α → ClaimStatus × Hal} {a : α}
    (items : List α) (hok : (claim hal a).1 = .ok) :
    claimLoop claim (a :: items) hal = claimLoop claim items (claim hal a).2 := by
  rw [claimLoop]
  split
  next hal' hr => rw [hr]
  next hne hr =>
    rw [hr] at hok
    exact absurd hok hne

theorem claimLoop_cons_refused {α : Type} {claim : Hal → α → ClaimStatus × Hal} {a : α}
    (items : List α) (hst : (claim hal a).1 ≠ .ok) :
    claimLoop claim (a :: items) hal = claim hal a := by
  rw [claimLoop]
  split
  next hal' hr => exact absurd (congrArg Prod.fst hr) hst
  next hr => exact hr.symm

theorem claimLoop_outcome {α : Type} {claim : Hal → α → ClaimStatus × Hal}
    {use? : α → Option (Nat × PinUse)}
    (hskip : ∀ hal a, use? a = none → claim hal a = (.ok, hal))
    (hclaim : ∀ hal held a use, use? a = some use → Holds plat hal held →
      (∀ u', (use.1, u') ∈ held s → u' = use.2) →
      ClaimOutcome plat hal held s use (claim hal a))
    (items : List α) (h : Holds plat hal held)
    (hcoh : Coherent (held s ∪ {x | x ∈ items.filterMap use?})) :
    LoopOutcome plat held s (items.filterMap use?) (claimLoop claim items hal) := by
  induction items generalizing hal held with
  | nil =>
      refine .inl ⟨rfl, nofun, ?_⟩
      simpa [Holdings.add, claimLoop] using h
  | cons a items ih =>
      cases huse : use? a with
      | none =>
          rw [List.filterMap_cons_none huse] at hcoh ⊢
          rw [claimLoop, hskip hal a huse]
          exact ih h hcoh
      | some use =>
          rw [List.filterMap_cons_some huse] at hcoh ⊢
          have hown : ∀ u', (use.1, u') ∈ held s → u' = use.2 :=
            fun u' hu' => hcoh use.1 u' use.2 (.inl hu') (.inr (by simp))
          rcases hclaim hal held a use huse h hown with
            ⟨hst, hadm, hagree, hheld⟩ | ⟨hst, hnot, hhal⟩
          · rw [claimLoop_cons_ok items hst]
            have hset : {use} ∪ {x | x ∈ items.filterMap use?} =
                {x | x ∈ use :: items.filterMap use?} := by
              ext x
              simp
            -- the pin claimed joins the holdings; with the rest it is what was coherent before
            have hcoh' : Coherent (held.add s {use} s ∪ {x | x ∈ items.filterMap use?}) := by
              rwa [Holdings.add_self, Set.union_assoc, hset]
            rcases ih hheld hcoh' with ⟨hok, hall, hfin⟩ | ⟨hok, hall, part, hfin⟩
            · rw [Holdings.admits_add] at hall
              rw [Holdings.add_add, hset] at hfin
              exact .inl ⟨hok, List.forall_mem_cons.mpr ⟨⟨hadm, hagree⟩, hall⟩, hfin⟩
            · rw [Holdings.admits_add] at hall
              rw [Holdings.add_add] at hfin
              exact .inr ⟨hok, fun h' => hall (List.forall_mem_cons.mp h').2, _, hfin⟩
          -- the loop stops at the first refusal, with the holdings of the claims before it
          · rw [claimLoop_cons_refused items hst]
            refine .inr ⟨hst, fun h' => hnot (List.forall_mem_cons.mp h').1, ∅, ?_⟩
            rw [hhal]
            simpa [Holdings.add] using h

theorem claimInput_outcome (i : Input) {use : Nat × PinUse} (huse : i.use? = some use)
    (h : Holds plat hal held) (hown : ∀ u', (use.1, u') ∈ held s → u' = use.2) :
    ClaimOutcome plat hal held s use (claimInput plat s hal i) := by
  obtain ⟨physId, mode, _, _, _, _⟩ := i
  have hbad : ∀ q, ¬(PinUse.gpioIn .unclaimed).Admissible plat q :=
    fun q hadm => absurd hadm.2.1 (by decide)
  cases mode with
  | virtual => cases huse
  | adc =>
      cases huse
      exact halPinClaimAdc_outcome h
  | output =>
      cases huse
      exact .inr ⟨nofun, fun hok => hbad _ hok.1, rfl⟩
  | adcStream =>
      cases huse
      exact .inr ⟨nofun, fun hok => hbad _ hok.1, rfl⟩
  | input =>
      cases huse
      exact halPinClaim_outcome h hown
  | inputPullUp =>
      cases huse
      exact halPinClaim_outcome h hown
  | inputPullDown =>
      cases huse
      exact halPinClaim_outcome h hown

theorem claimInput_skip (i : Input) (huse : i.use? = none) :
    claimInput plat s hal i = (.ok, hal) := by
  obtain ⟨physId, mode, _, _, _, _⟩ := i
  cases mode with
  | virtual => rfl
  | _ => cases huse

theorem claimOutput_outcome (o : Output) (h : Holds plat hal held)
    (hown : ∀ u', (o.physId, u') ∈ held s → u' = o.use.2) :
    ClaimOutcome plat hal held s o.use (claimOutput plat s hal o) :=
  halPinClaimOutput_outcome h hown

theorem Holdings.mem_drop {t : Slot} {q : Nat} {v : PinUse} :
    (q, v) ∈ held.drop s t ↔ t ≠ s ∧ (q, v) ∈ held t := by
  by_cases hts : t = s
  · subst t
    simp
  · simp [hts, Holdings.drop_of_ne hts]

/-- Releasing takes the slot's bit out of the mask. -/
theorem ClaimRecord.mask_release (r : ClaimRecord) (s : Slot) (j : Nat) :
    (r.release s).slotMask.getLsbD j = true ↔ r.slotMask.getLsbD j = true ∧ s.val ≠ j := by
  rw [← BitSet.getLsbD_erase]
  unfold ClaimRecord.release
  split_ifs with hnone hlast
  · rw [BitSet.getLsbD_erase]
    have hs := (BitSet.and_single_eq_zero_iff (slot_lt_width s)).mp hnone
    constructor
    · intro hj
      refine ⟨hj, ?_⟩
      rintro rfl
      rw [hs] at hj
      cases hj
    · exact And.left
  · rw [show ClaimRecord.unclaimed.slotMask = 0 from rfl]
    exact Eq.congr_left (congrArg (BitVec.getLsbD · j) hlast.symm)
  · rfl

/-- As long as a slot is left the record changes in the mask only. -/
theorem ClaimRecord.release_of_ne_zero {r : ClaimRecord} {s : Slot}
    (h : (r.release s).slotMask ≠ 0) :
    r.release s = { r with slotMask := (r.release s).slotMask } := by
  unfold ClaimRecord.release at h ⊢
  split_ifs at h ⊢ with hnone hlast
  · rfl
  · exact absurd rfl h
  · rfl

/-- A released slot holds nothing; the other slots hold what they held. -/
theorem Holds.release (h : Holds plat hal held) (s : Slot) :
    Holds plat (halPinReleaseSlot hal s) (held.drop s) where
  mask pin t := by
    change ((hal.claims pin).release s).slotMask.getLsbD t = true ↔ _
    rw [ClaimRecord.mask_release, h.mask]
    simp only [Holdings.mem_drop]
    constructor
    · rintro ⟨⟨v, hv⟩, hst⟩
      exact ⟨v, fun heq => hst (congrArg Fin.val heq.symm), hv⟩
    · rintro ⟨v, hts, hv⟩
      exact ⟨⟨v, hv⟩, fun heq => hts (Fin.ext heq.symm)⟩
  bounded pin j hj := h.bounded pin j ((ClaimRecord.mask_release ..).mp hj).1
  record pin t v hv := by
    obtain ⟨hts, hv⟩ := Holdings.mem_drop.mp hv
    have hbit : ((hal.claims pin).release s).slotMask.getLsbD t = true :=
      (ClaimRecord.mask_release ..).mpr
        ⟨(h.mask pin t).mpr ⟨v, hv⟩, fun heq => hts (Fin.ext heq.symm)⟩
    have hne := BitSet.ne_zero_iff.mpr ⟨t.val, hbit⟩
    change (hal.claims pin).release s = v.record ((hal.claims pin).release s).slotMask pin
    generalize hmask : ((hal.claims pin).release s).slotMask = mask at hne
    rw [ClaimRecord.release_of_ne_zero (hmask ▸ hne), hmask, h.record pin t v hv]
    cases v <;> rfl
  free pin hzero := by
    change ((hal.claims pin).release s).slotMask = 0 at hzero
    change (hal.claims pin).release s = .unclaimed
    unfold ClaimRecord.release at hzero ⊢
    split_ifs at hzero ⊢ with hnone hlast
    · exact h.free pin hzero
    · rfl
    · exact absurd hzero hlast
  admissible t q v hv := h.admissible t q v (Holdings.mem_drop.mp hv).2
  agrees t q v hv r hrt v' hv' :=
    h.agrees t q v (Holdings.mem_drop.mp hv).2 r hrt v' (Holdings.mem_drop.mp hv').2

theorem claimInstPins_outcome {inst : Inst} (h : Holds plat hal held)
    (hcoh : Coherent (held s ∪ {x | x ∈ inst.uses})) :
    ((claimInstPins plat hal s inst).1 = .ok ∧ held.Admits plat s inst.uses ∧
        Holds plat (claimInstPins plat hal s inst).2 (held.add s {x | x ∈ inst.uses})) ∨
      ((claimInstPins plat hal s inst).1 ≠ .ok ∧ ¬held.Admits plat s inst.uses ∧
        Holds plat (claimInstPins plat hal s inst).2 (held.drop s)) := by
  have hset : {x | x ∈ inst.uses} =
      {x | x ∈ inst.inputs.filterMap Input.use?} ∪ {x | x ∈ inst.outputs.map Output.use} := by
    ext x
    simp [Inst.uses]
  have hadmits : held.Admits plat s inst.uses ↔
      held.Admits plat s (inst.inputs.filterMap Input.use?) ∧
        held.Admits plat s (inst.outputs.map Output.use) := List.forall_mem_append
  rw [hset, ← Set.union_assoc] at hcoh
  have hins := claimLoop_outcome (fun hal i => claimInput_skip i)
    (fun hal held i use huse hh hown => claimInput_outcome i huse hh hown) inst.inputs h
    (hcoh.mono Set.subset_union_left)
  unfold claimInstPins
  generalize claimLoop (claimInput plat s) inst.inputs hal = r at hins ⊢
  obtain ⟨st, hal₁⟩ := r
  rcases hins with ⟨hst, hadm, hheld⟩ | ⟨hst, hnot, part, hheld⟩
  · obtain rfl : st = .ok := hst
    have hcoh' : Coherent (held.add s {x | x ∈ inst.inputs.filterMap Input.use?} s ∪
        {x | x ∈ inst.outputs.filterMap (some ∘ Output.use)}) := by
      rwa [Holdings.add_self, List.filterMap_eq_map]
    have hnone : ∀ hal o, (some ∘ Output.use) o = none → claimOutput plat s hal o = (.ok, hal) :=
      fun _ _ huse => by cases huse
    have houts := claimLoop_outcome hnone
      (fun hal held o use huse hh hown => by
        cases huse
        exact claimOutput_outcome o hh hown) inst.outputs hheld hcoh'
    rw [List.filterMap_eq_map] at houts
    dsimp only
    generalize claimLoop (claimOutput plat s) inst.outputs hal₁ = r at houts ⊢
    obtain ⟨st, hal₂⟩ := r
    rcases houts with ⟨hst, hadm', hheld'⟩ | ⟨hst, hnot, part, hheld'⟩
    · obtain rfl : st = .ok := hst
      rw [Holdings.admits_add] at hadm'
      rw [Holdings.add_add, ← hset] at hheld'
      exact .inl ⟨rfl, hadmits.mpr ⟨hadm, hadm'⟩, hheld'⟩
    · rw [Holdings.admits_add] at hnot
      have hrel := hheld'.release s
      rw [Holdings.add_add, Holdings.drop_add] at hrel
      refine .inr ?_
      split
      next heq => exact absurd (congrArg Prod.fst heq) hst
      next heq =>
        cases heq
        exact ⟨hst, fun hall => hnot (hadmits.mp hall).2, hrel⟩
  · have hrel := hheld.release s
    rw [Holdings.drop_add] at hrel
    refine .inr ?_
    split
    next heq => exact absurd (congrArg Prod.fst heq) hst
    next heq =>
      cases heq
      exact ⟨hst, fun hall => hnot (hadmits.mp hall).1, hrel⟩

end Claim

end SlowBus.Interlock
