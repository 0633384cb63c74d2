import SlowBus.Interlock.Sound

/-!
# What a tick does

On a settled machine a tick returns. It keeps every slot and every claim, sets
the latches its four phases prescribe, and drives each claimed output from the
latches it leaves behind.
-/

namespace SlowBus.Interlock

open Fallible

/-- The effect of a tick, in terms of the machine before it. -/
structure TickEffect (env : TickEnv) (m m' : Machine) : Prop where
  keeps : ∀ s, KeepsSlot m.persist m'.persist s
  header : verifyPersistOrPanic m'.persist = verifyPersistOrPanic m.persist
  crash : m'.persist.crash = m.persist.crash
  fingerprint : m'.persist.cfgFingerprint = m.persist.cfgFingerprint
  latched : ∀ s, m'.Latched s ↔ (m.Latched s ∧ m.clearRequest = false) ∨
    (ilInGrace (tickClear env m) env.latchMs = false ∧ m'.Armed s ∧
      (m'.persist.inst s).tfState = .isFalse)
  request : m'.clearRequest = false
  grace : m'.graceUntilMs = (tickClear env m).graceUntilMs
  hal : m'.hal = halPinDriveOutputs m.hal (vetoMask m'.persist) managedMask
  veto : ∀ s, (m'.status.slots s).veto = (vetoMask m'.persist).getLsbD s

/-! ## Masks -/

theorem foldl_slotBit_iff (sel : Slot → Bool) (slots : List Slot) (mask : SlotMask) (s : Slot) :
    (slots.foldl (fun mask s => if sel s then mask ||| slotBit s else mask) mask).getLsbD s = true ↔
      mask.getLsbD s = true ∨ (s ∈ slots ∧ sel s = true) := by
  apply BitSet.foldl_select (P := fun mask : SlotMask => mask.getLsbD s = true) sel
  intro mask t
  rw [slotBit, BitSet.getLsbD_insert (slot_lt_width t), Fin.ext_iff]

/-- The veto mask is the set of armed and latched slots. -/
theorem getLsbD_vetoMask {p : Persist} {s : Slot} : (vetoMask p).getLsbD s = true ↔
    (p.slots s).state = .armed ∧ (p.slots s).latched = true := by
  have hfold := foldl_slotBit_iff
    (fun s => decide ((p.slots s).state = .armed ∧ (p.slots s).latched = true))
    (List.finRange maxSlots) 0 s
  simp only [decide_eq_true_eq] at hfold
  unfold vetoMask
  rw [hfold]
  simp

theorem getLsbD_managedMask {j : Nat} (hj : j < maxSlots) : managedMask.getLsbD j = true := by
  have hall : ∀ s : Slot, managedMask.getLsbD s = true := by decide
  exact hall ⟨j, hj⟩

/-! ## The phases -/

section Phases

variable {plat : Platform} {env : TickEnv} {m m' : Machine} {held : Holdings}

theorem tickClear_keeps (s : Slot) : KeepsSlot m.persist (tickClear env m).persist s := by
  unfold tickClear
  split
  · exact ⟨rfl, rfl, rfl, rfl, rfl, rfl⟩
  · exact .refl _ s

theorem tickClear_latched (env : TickEnv) {s : Slot} :
    (tickClear env m).Latched s ↔ m.Latched s ∧ m.clearRequest = false := by
  unfold tickClear
  split
  next h => simp [Machine.Latched, interlockBeginGrace, h]
  next h => simpa using fun _ => h

theorem tickClear_request : (tickClear env m).clearRequest = false := by
  unfold tickClear
  split
  · rfl
  next h => simpa using h

theorem tickClear_settled (env : TickEnv) (h : Settled plat m held) :
    Settled plat (tickClear env m) held := by
  refine h.of_keeps ?_ ?_ (fun s => tickClear_keeps s) ?_
  all_goals
    unfold tickClear
    split <;> rfl

/-- What the evaluation phase leaves untouched. -/
structure EvalKeeps (m m' : Machine) : Prop where
  slots : m'.persist.slots = m.persist.slots
  keeps : ∀ s, KeepsSlot m.persist m'.persist s
  header : verifyPersistOrPanic m'.persist = verifyPersistOrPanic m.persist
  crash : m'.persist.crash = m.persist.crash
  fingerprint : m'.persist.cfgFingerprint = m.persist.cfgFingerprint
  hal : m'.hal = m.hal
  request : m'.clearRequest = m.clearRequest
  grace : m'.graceUntilMs = m.graceUntilMs

theorem EvalKeeps.refl (m : Machine) : EvalKeeps m m :=
  ⟨rfl, fun s => .refl _ s, rfl, rfl, rfl, rfl, rfl, rfl⟩

theorem EvalKeeps.trans {m'' : Machine} (h : EvalKeeps m m') (h' : EvalKeeps m' m'') :
    EvalKeeps m m'' :=
  ⟨h'.slots.trans h.slots, fun s => (h.keeps s).trans (h'.keeps s), h'.header.trans h.header,
    h'.crash.trans h.crash, h'.fingerprint.trans h.fingerprint, h'.hal.trans h.hal,
    h'.request.trans h.request, h'.grace.trans h.grace⟩

theorem Settled.of_evalKeeps (h : Settled plat m held) (hkeep : EvalKeeps m m') :
    Settled plat m' held :=
  h.of_keeps hkeep.header hkeep.crash hkeep.keeps (congrArg Hal.claims hkeep.hal)

/-- Replacing the truth value of one slot keeps the slots. -/
theorem keepsSlot_setTf {p : Persist} {s : Slot} (tf : TfState) (t : Slot) :
    KeepsSlot p
      { p with inst := Function.update p.inst s { p.inst s with tfState := tf } } t := by
  refine ⟨rfl, rfl, rfl, ?_, rfl, rfl⟩
  by_cases hts : t = s
  · subst t
    simp
  · simp [hts]

/-- Evaluating one slot of a settled machine returns. -/
theorem tickEvalSlot_returns (env : TickEnv) (h : Settled plat m held) (s : Slot) :
    ∃ m', tickEvalSlot env m s = .ok m' ∧ EvalKeeps m m' := by
  unfold tickEvalSlot
  dsimp only
  split
  · exact ⟨m, rfl, .refl m⟩
  next hstate =>
    split
    next hid =>
      have hruns : m.persist.Runs s := ⟨not_not.mp hstate, hid⟩
      obtain ⟨e, tf, he, hinst⟩ := (h.complete s hruns).1.wellFormed.evalSlot_returns m.hal
        (env.samples s) (m.runtime s)
      rw [he]
      refine ⟨_, rfl, rfl, fun t => ?_, rfl, rfl, rfl, rfl, rfl, rfl⟩
      dsimp only
      rw [hinst]
      exact keepsSlot_setTf tf t
    · split
      · exact ⟨_, rfl, rfl, fun t => keepsSlot_setTf _ t, rfl, rfl, rfl, rfl, rfl, rfl⟩
      · exact ⟨m, rfl, .refl m⟩

theorem tickEval_returns (env : TickEnv) (h : Settled plat m held) :
    ∃ m', tickEval env m = .ok m' ∧ EvalKeeps m m' := by
  have hstep : ∀ m₁ s, EvalKeeps m m₁ →
      ∃ m₂, tickEvalSlot env m₁ s = .ok m₂ ∧ EvalKeeps m m₂ := by
    intro m₁ s hkeep
    obtain ⟨m₂, hrun, hkeep'⟩ := tickEvalSlot_returns env (h.of_evalKeeps hkeep) s
    exact ⟨m₂, hrun, hkeep.trans hkeep'⟩
  exact foldlM_total hstep (List.finRange maxSlots) (.refl m)

theorem tickLatch_latched {s : Slot} : (tickLatch env m).Latched s ↔ m.Latched s ∨
    (ilInGrace m env.latchMs = false ∧ m.Armed s ∧ (m.persist.inst s).tfState = .isFalse) := by
  unfold tickLatch
  split
  next hgrace => simp [hgrace]
  next hgrace =>
    simp only [Machine.Latched, Machine.Armed, Bool.not_eq_true] at hgrace ⊢
    split
    next hcond => simp [hcond, hgrace]
    next hcond => simp [hcond, hgrace]

theorem tickLatch_armed {s : Slot} : (tickLatch env m).Armed s ↔ m.Armed s := by
  unfold tickLatch
  split
  · rfl
  · simp only [Machine.Armed]
    split <;> rfl

theorem tickLatch_keeps (s : Slot) : KeepsSlot m.persist (tickLatch env m).persist s := by
  unfold tickLatch
  split
  · exact .refl _ s
  · constructor
    any_goals rfl
    all_goals
      dsimp only
      split <;> rfl

theorem tickLatch_inst : (tickLatch env m).persist.inst = m.persist.inst := by
  unfold tickLatch
  split <;> rfl

end Phases

/-! ## The tick -/

theorem ilInGrace_congr {m m' : Machine} (h : m'.graceUntilMs = m.graceUntilMs) (ms : Nat) :
    ilInGrace m' ms = ilInGrace m ms := by
  unfold ilInGrace
  rw [h]

/-- A tick of a settled machine returns, and this is its effect. -/
theorem interlockTickAll_effect {plat : Platform} {m : Machine} {held : Holdings} (env : TickEnv)
    (h : Settled plat m held) :
    ∃ m', interlockTickAll env m = .ok m' ∧ TickEffect env m m' ∧ Settled plat m' held := by
  -- the three stages: clear, evaluate, latch
  have hclear := tickClear_settled env h
  obtain ⟨m₁, hrun, hkeep⟩ := tickEval_returns env hclear
  have heval := hclear.of_evalKeeps hkeep
  have hkeeps : ∀ s, KeepsSlot m.persist (tickLatch env m₁).persist s :=
    fun s => ((tickClear_keeps s).trans (hkeep.keeps s)).trans (tickLatch_keeps s)
  have hsame : verifyPersistOrPanic (tickClear env m).persist = verifyPersistOrPanic m.persist ∧
      (tickClear env m).persist.crash = m.persist.crash ∧
      (tickClear env m).persist.cfgFingerprint = m.persist.cfgFingerprint ∧
      (tickClear env m).hal = m.hal := by
    unfold tickClear
    split <;> exact ⟨rfl, rfl, rfl, rfl⟩
  have hlatch : verifyPersistOrPanic (tickLatch env m₁).persist = verifyPersistOrPanic m₁.persist ∧
      (tickLatch env m₁).persist.crash = m₁.persist.crash ∧
      (tickLatch env m₁).persist.cfgFingerprint = m₁.persist.cfgFingerprint ∧
      (tickLatch env m₁).hal = m₁.hal ∧ (tickLatch env m₁).clearRequest = m₁.clearRequest ∧
      (tickLatch env m₁).graceUntilMs = m₁.graceUntilMs := by
    unfold tickLatch
    split <;> exact ⟨rfl, rfl, rfl, rfl, rfl, rfl⟩
  obtain ⟨hheader, hcrash, hfp, hhal, hreq, hgrace⟩ := hlatch
  refine ⟨tickStatus env (tickDrive (tickLatch env m₁)), ?_, ?_, ?_⟩
  · unfold interlockTickAll
    rw [Persist.headerOk_of_isValid h.valid]
    show (tickEval env (tickClear env m) >>= _) = _
    rw [hrun]
    rfl
  · constructor
    · exact hkeeps
    · exact hheader.trans (hkeep.header.trans hsame.1)
    · exact hcrash.trans (hkeep.crash.trans hsame.2.1)
    · exact hfp.trans (hkeep.fingerprint.trans hsame.2.2.1)
    · intro s
      show (tickLatch env m₁).Latched s ↔ _ ∨ (_ ∧ (tickLatch env m₁).Armed s ∧
        ((tickLatch env m₁).persist.inst s).tfState = .isFalse)
      have hlatched : m₁.Latched s ↔ (tickClear env m).Latched s := by
        rw [Machine.Latched, hkeep.slots]
      rw [tickLatch_latched, tickLatch_armed, tickLatch_inst, ← tickClear_latched env,
        ilInGrace_congr hkeep.grace, hlatched]
    · exact hreq.trans (hkeep.request.trans tickClear_request)
    · exact hgrace.trans hkeep.grace
    · show halPinDriveOutputs (tickLatch env m₁).hal _ _ = _
      rw [hhal, hkeep.hal, hsame.2.2.2]
      rfl
    · exact fun s => rfl
  · refine h.of_keeps (hheader.trans (hkeep.header.trans hsame.1))
      (hcrash.trans (hkeep.crash.trans hsame.2.1)) hkeeps ?_
    show (tickLatch env m₁).hal.claims = _
    rw [hhal, hkeep.hal, hsame.2.2.2]

end SlowBus.Interlock
