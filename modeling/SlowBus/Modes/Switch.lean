import SlowBus.Modes.Leave

/-!
# Switching the mode

A switch leaves the old mode and enters the new one. Entering writes to the pads the new
mode uses; what the old mode left driven on another pad stays driven.
-/

namespace SlowBus.Modes

open Bus (Byte)
open Interlock (Inst)
open Runs (run)

/-! ## What the new mode owns -/

/-- The interlock ADC mode arms. -/
def adcInst (ilcf : Option (List Byte)) : Option Inst :=
  (ilcf.bind (ilParse true)).filter fun inst => !inst.watches.isEmpty

/-- The interlock MIXED mode arms: its claims succeed. -/
def mixedInst (ilcf : Option (List Byte)) : Option Inst :=
  match ilcf with
  | none | some [] => none
  | some bytes =>
      (ilParse false bytes).filter fun inst =>
        !inst.watches.isEmpty && decide ((mixedClaimPins inst fun _ => {}).status = .ok)

/-- No output of the interlock is at the pad. -/
def NoOutput (armed : Option Inst) (q : Pin) : Prop :=
  ∀ inst ∈ armed, ∀ o ∈ inst.outputs, Pin.ofPhys o.physId ≠ q

/-- The mode has no use of the pad, or holds it safe. -/
def Chip.NoRole (c : Chip) (m : Mode) (ch : Fin 9) : Prop :=
  match m with
  | .idle => True
  | .pio => False
  | .adc => ch ≠ 0 ∧ ch ≠ 1 ∧ NoOutput (adcInst (c.file ilcfName)) (channelPad ch)
  | .mixed =>
      ∃ h : ch.val < 8, mxmpRoleOps (mxmpRole (c.file mxmpName) (ch.castLT h)) = mxmpPadSafe ∧
        NoOutput (mixedInst (c.file ilcfName)) (channelPad ch)
  | .servo =>
      ∃ h : ch.val < 8, srvoRole (c.file srvoName) (ch.castLT h) ≠ some srvoRoleServo ∧
        srvoBenchRole (c.file srvoName) (ch.castLT h) = benchRoleNone
  | .counter =>
      counterEnabled (c.file cntrName) ch = false ∧
        benchRoleOps (cntrBenchRole (c.file cntrName) ch) = [] ∧
        cntrBenchRole (c.file cntrName) ch ≠ benchRoleDac

/-- Whether a bench role gives its pad a direction. -/
def benchRoleDirected (role : Byte) : Bool :=
  role == benchRoleGpi || role == benchRoleGpo || role == benchRoleOc || role == benchRoleOcPu

def writesTo (ops : List PortOp) (q : Pin) : Bool := ops.any fun w => w.pin == q

/-- Whether entering the mode gives the pad a direction. -/
def Chip.setsDir (c : Chip) (m : Mode) (ch : Fin 9) : Bool :=
  match m with
  | .idle => false
  | .pio => true
  | .adc => writesTo (adcOuts (c.file ilcfName)) (channelPad ch)
  | .mixed =>
      (if h : ch.val < 8 then
        let role := mxmpRole (c.file mxmpName) (ch.castLT h)
        role != mxmpAdc && role != mxmpDac
      else false) || writesTo (mixedIlOps (c.file ilcfName)) (channelPad ch)
  | .servo =>
      if h : ch.val < 8 then
        srvoRole (c.file srvoName) (ch.castLT h) == some srvoRoleServo ||
          benchRoleDirected (srvoBenchRole (c.file srvoName) (ch.castLT h))
      else true
  | .counter =>
      counterEnabled (c.file cntrName) ch || benchRoleDirected (cntrBenchRole (c.file cntrName) ch)

/-- Whether entering the mode brings the converter output up on D0. -/
def Chip.routesDac (c : Chip) (m : Mode) : Bool :=
  match m with
  | .adc => true
  | .mixed => mxmpDacEn (c.file mxmpName)
  | .counter => cntrBenchRole (c.file cntrName) 0 == benchRoleDac
  | _ => false

/-- The mode entered by a chip with the same files that has visited no mode, its pads
released. -/
def Chip.firstEntry (c : Chip) (m : Mode) : Chip := ({ cfg := c.cfg } : Chip).modeEnter m

/-- The pads after a switch are the new mode's alone: those it has no use of are undriven,
and no pad is driven, or not, for what was visited before. -/
def Chip.SwitchClean (c : Chip) (m : Mode) : Prop :=
  (∀ ch, c.NoRole m ch → (c.setMode m).Undriven ch) ∧
    ∀ ch, (c.setMode m).Undriven ch ↔ (c.firstEntry m).Undriven ch

/-- The old mode leaves nothing driven that the new one does not set, and the file of MIXED
mode puts the converter nowhere but on D0. -/
structure Chip.LeavesClean (c : Chip) (m : Mode) : Prop where
  output : ∀ ch, c.leavesOutput ch = true →
    c.setsDir m ch = true ∨ ch = 0 ∧ c.routesDac m = true
  routed : m = .idle → c.leavesRouted = false
  dac : m = .mixed → c.NoRole .mixed 0 → mxmpDacEn (c.file mxmpName) = true →
    writesTo (mixedIlOps (c.file ilcfName)) dacPad = true

/-- The writes to a pad on entry to a mode. -/
def Chip.entryOps (c : Chip) (m : Mode) (ch : Fin 9) : List PadOp :=
  match m with
  | .idle => []
  | .pio => pioEntry (c.file gpmpName) ch
  | .adc => adcEntry (c.file ilcfName) ch
  | .mixed => mixedEntry (c.file mxmpName) (c.file ilcfName) ch
  | .servo => servoEntry (c.file srvoName) ch
  | .counter => counterEntry (c.file cntrName) ch

/-! ## Writes of the interlocks -/

section Settles

variable {ops ops' : List PortOp} {pops : List PadOp} {p q : Pin}

theorem writesTo_iff : writesTo ops q = true ↔ ∃ w ∈ ops, w.pin = q := by
  simp [writesTo]

theorem settles_nil : Settles [] := by
  refine ⟨?_, ?_, ?_⟩
  all_goals
    intro w hw
    cases hw

theorem Settles.append (h : Settles ops) (h' : Settles ops') : Settles (ops ++ ops') := by
  refine ⟨fun w hw => ?_, fun w hw => ?_, fun w hw => ?_⟩
  · rw [opsAt_append, List.any_append, Bool.or_eq_true]
    exact (List.mem_append.mp hw).imp (h.dir w) (h'.dir w)
  · rw [opsAt_append, List.any_append, Bool.or_eq_true]
    exact (List.mem_append.mp hw).imp (h.mux w) (h'.mux w)
  · exact (List.mem_append.mp hw).elim (h.unmuxed w) (h'.unmuxed w)

/-- Writes to pads that are written to again. -/
theorem Settles.prepend (h : Settles ops') (hpin : ∀ w ∈ ops, writesTo ops' w.pin = true)
    (hop : ∀ w ∈ ops, w.op ≠ .pmuxen true) : Settles (ops ++ ops') := by
  have hlater : ∀ w ∈ ops ++ ops', ∃ w' ∈ ops', w'.pin = w.pin := fun w hw =>
    (List.mem_append.mp hw).elim (fun hw => writesTo_iff.mp (hpin w hw)) fun hw => ⟨w, hw, rfl⟩
  refine ⟨fun w hw => ?_, fun w hw => ?_, fun w hw => ?_⟩
  · obtain ⟨w', hw', heq⟩ := hlater w hw
    rw [opsAt_append, List.any_append, ← heq, h.dir w' hw', Bool.or_true]
  · obtain ⟨w', hw', heq⟩ := hlater w hw
    rw [opsAt_append, List.any_append, ← heq, h.mux w' hw', Bool.or_true]
  · exact (List.mem_append.mp hw).elim (hop w) (h.unmuxed w)

theorem Configures.settles (h : Configures pops) (p : Pin) : Settles (p.on pops) := by
  refine ⟨fun w hw => ?_, fun w hw => ?_, fun w hw heq => ?_⟩
  · rw [pin_of_mem_on hw, opsAt_on]
    exact h.dir
  · rw [pin_of_mem_on hw, opsAt_on]
    exact h.mux
  · obtain ⟨op, hop, rfl⟩ := List.mem_map.mp hw
    exact h.unmuxed (heq ▸ hop)

theorem settles_flatMap {ι : Type} {f : ι → List PortOp} {is : List ι}
    (h : ∀ i ∈ is, Settles (f i)) : Settles (is.flatMap f) := by
  induction is with
  | nil => exact settles_nil
  | cons i is ih =>
      rw [List.flatMap_cons]
      exact (h i List.mem_cons_self).append (ih fun j hj => h j (List.mem_cons_of_mem i hj))

theorem opsAt_of_not (h : writesTo ops q = false) : opsAt ops q = [] := by
  refine opsAt_of_ne fun w hw heq => ?_
  rw [writesTo_iff.mpr ⟨w, hw, heq⟩] at h
  cases h

/-- A pad that is written to is given a direction. -/
theorem Settles.any_dir (h : Settles ops) (q : Pin) :
    (opsAt ops q).any PadOp.setsDir = writesTo ops q := by
  cases hq : writesTo ops q with
  | false => rw [opsAt_of_not hq]; rfl
  | true =>
      obtain ⟨w, hw, rfl⟩ := writesTo_iff.mp hq
      exact h.dir w hw

theorem exec_unmuxed {pad : Pad} (h : .pmuxen true ∉ pops) (hpad : pad.pmuxen = false) :
    (pad.exec pops).pmuxen = false := by
  induction pops generalizing pad with
  | nil => exact hpad
  | cons op pops ih =>
      obtain ⟨hop, hpops⟩ := List.ne_and_not_mem_of_not_mem_cons h
      refine ih hpops ?_
      cases op with
      | pincfg => rfl
      | pmuxen on =>
          cases on with
          | false => rfl
          | true => exact absurd rfl hop
      | dirSet | dirClr | outSet | outClr | inen | pullen => exact hpad

/-- A pad that is written to is taken from the multiplexer. -/
theorem Settles.unrouted (h : Settles ops) (hq : writesTo ops q = true) (pad : Pad) :
    (pad.exec (opsAt ops q)).pmuxen = false := by
  obtain ⟨w, hw, rfl⟩ := writesTo_iff.mp hq
  rw [exec_pmuxen_agree (h.mux w hw) pad .reset]
  exact exec_unmuxed (fun hmem => h.unmuxed _ (mem_opsAt.mp hmem) rfl) rfl

end Settles

section Interlocks

variable {ilcf : Option (List Byte)} {q : Pin}

theorem configures_drive (od : Nat) (value : Bool) :
    Configures (if od ≠ 0 ∧ value then
      .dirClr :: (if od = 2 then [.outSet] else []) ++ [.pincfg true (decide (od = 2))]
    else [.pincfg true false, outLevel value, .dirSet]) := by
  have hlevel : outLevel value ≠ .pmuxen true := by
    cases value <;> decide
  split
  next =>
    split
    next => exact ⟨rfl, rfl, by simp⟩
    next => exact ⟨rfl, rfl, by simp⟩
  next => exact ⟨by simp [PadOp.setsDir], rfl, by simp [hlevel.symm]⟩

theorem settles_drive (phys : Nat) (value : Bool) (od : Nat) :
    Settles (ilDriveOutput phys value od) :=
  (configures_drive od value).settles _

/-- What ADC mode writes for the interlock it arms. -/
theorem adcOuts_eq (ilcf : Option (List Byte)) :
    adcOuts ilcf = ((adcInst ilcf).elim [] fun inst =>
      (inst.outputs.flatMap fun o => (Pin.ofPhys o.physId).on [.pincfg true false]) ++
        ({ il := inst } : Adc).drive true) := by
  unfold adcOuts Adc.arm adcInst
  cases ilcf.bind (ilParse true) with
  | none => rfl
  | some inst =>
      dsimp only
      by_cases hwatches : inst.watches.isEmpty = true
      · rw [if_pos hwatches, Option.filter_some, if_neg (by simp [hwatches])]
        rfl
      · rw [if_neg hwatches, Option.filter_some, if_pos (by simpa using hwatches)]
        rfl

theorem drive_writesTo {outs : List Interlock.Output} {o : Interlock.Output} (ho : o ∈ outs)
    (value : Interlock.Output → Bool) :
    writesTo (outs.flatMap fun o => ilDriveOutput o.physId (value o) o.openDrain)
      (.ofPhys o.physId) = true := by
  obtain ⟨op, hop, _⟩ := List.any_eq_true.mp (configures_drive o.openDrain (value o)).dir
  exact writesTo_iff.mpr ⟨⟨.ofPhys o.physId, op⟩,
    List.mem_flatMap.mpr ⟨o, ho, List.mem_map_of_mem hop⟩, rfl⟩

theorem adcOuts_settles (ilcf : Option (List Byte)) : Settles (adcOuts ilcf) := by
  rw [adcOuts_eq]
  cases adcInst ilcf with
  | none => exact settles_nil
  | some inst =>
      refine Settles.prepend (settles_flatMap fun o _ => settles_drive ..) (fun w hw => ?_) ?_
      · obtain ⟨o, ho, hw⟩ := List.mem_flatMap.mp hw
        rw [pin_of_mem_on hw]
        exact drive_writesTo ho _
      · intro w hw
        obtain ⟨o, _, hw⟩ := List.mem_flatMap.mp hw
        obtain ⟨op, hop, rfl⟩ := List.mem_map.mp hw
        rw [List.mem_singleton.mp hop]
        exact fun heq => by cases heq

/-- The pads ADC mode's interlock writes to are its outputs. -/
theorem adcOuts_noOutput (h : NoOutput (adcInst ilcf) q) : opsAt (adcOuts ilcf) q = [] := by
  rw [adcOuts_eq]
  cases hinst : adcInst ilcf with
  | none => rfl
  | some inst =>
      rw [hinst] at h
      refine opsAt_of_ne fun w hw heq => ?_
      rcases List.mem_append.mp hw with hw | hw
      · obtain ⟨o, ho, hw⟩ := List.mem_flatMap.mp hw
        exact h inst rfl o ho ((pin_of_mem_on hw).symm.trans heq)
      · obtain ⟨o, ho, hw⟩ := List.mem_flatMap.mp hw
        exact h inst rfl o ho ((pin_of_mem_on hw).symm.trans heq)

/-- What MIXED mode writes for its interlock: D6 is released, the pins are claimed. -/
theorem mixedIlOps_cases (ilcf : Option (List Byte)) :
    (mixedInst ilcf = none ∧ mixedIlOps ilcf = intPad.on [.pincfg true false, .dirClr]) ∨
      ∃ inst, mixedIlOps ilcf = intPad.on [.pincfg true false, .dirClr] ++
          (mixedClaimPins inst fun _ => {}).ops ∧
        ((mixedClaimPins inst fun _ => {}).status = .ok → mixedInst ilcf = some inst) := by
  unfold mixedIlOps Mixed.arm mixedInst
  rcases ilcf with _ | _ | ⟨b, bytes⟩
  · exact Or.inl ⟨rfl, rfl⟩
  · exact Or.inl ⟨rfl, rfl⟩
  · dsimp only
    cases ilParse false (b :: bytes) with
    | none => exact Or.inl ⟨rfl, rfl⟩
    | some inst =>
        dsimp only
        by_cases hwatches : inst.watches.isEmpty = true
        · rw [if_pos hwatches, Option.filter_some, if_neg (by simp [hwatches])]
          exact Or.inl ⟨rfl, rfl⟩
        · rw [if_neg hwatches]
          refine Or.inr ⟨inst, rfl, fun hok => ?_⟩
          rw [Option.filter_some, if_pos]
          exact Bool.and_eq_true_iff.mpr ⟨by simpa using hwatches, decide_eq_true hok⟩

theorem settles_int : Settles (intPad.on [.pincfg true false, .dirClr]) :=
  Configures.settles ⟨rfl, rfl, by decide⟩ intPad

theorem mixedIlOps_settles (ilcf : Option (List Byte)) : Settles (mixedIlOps ilcf) := by
  rcases mixedIlOps_cases ilcf with ⟨_, hops⟩ | ⟨inst, hops, _⟩
  · exact hops ▸ settles_int
  · exact hops ▸ settles_int.append (settles_claims (fun _ => rfl) inst)

/-- On entry to MIXED mode its interlock drives its outputs only. -/
theorem mixedIl_dir (h : NoOutput (mixedInst ilcf) q) {pad : Pad} (hpad : pad.dir = false) :
    (pad.exec (opsAt (mixedIlOps ilcf) q)).dir = false := by
  have hint : (pad.exec (opsAt (intPad.on [.pincfg true false, .dirClr]) q)).dir = false := by
    refine exec_dir_false (fun hmem => ?_) hpad
    obtain ⟨op, hop, heq⟩ := List.mem_map.mp (mem_opsAt.mp hmem)
    cases heq
    revert hop
    decide
  rcases mixedIlOps_cases ilcf with ⟨_, hops⟩ | ⟨inst, hops, harmed⟩
  · rw [hops]
    exact hint
  · rw [hops, opsAt_append, pad_exec_append]
    exact claims_dir (fun _ => rfl) inst (fun hok => h inst (harmed hok)) hint

end Interlocks

/-! ## Entering -/

section Enter

variable {c : Chip} {m : Mode} {ch : Fin 9}

theorem modeEnter_pad (hsafe : c.pio.Safe) (hfree : c.claims.Free) (m : Mode) (ch : Fin 9) :
    (c.modeEnter m).port (channelPad ch) = (c.port (channelPad ch)).exec (c.entryOps m ch) := by
  cases m with
  | idle => rfl
  | pio => exact enterPio_pad hsafe ch
  | adc => exact enterAdc_pad c ch
  | mixed => exact enterMixed_pad hfree ch
  | servo => exact enterServo_pad c ch
  | counter => exact enterCounter_pad c ch

theorem mixedPads_eoen (c : Chip) : c.mixedPads.dac.eoen = mxmpDacEn (c.file mxmpName) := by
  unfold Chip.mixedPads
  by_cases hdac : mxmpDacEn (c.file mxmpName) = true
  · exact (congrArg (fun c : Chip => c.dac.eoen) (if_pos hdac)).trans hdac.symm
  · exact (congrArg (fun c : Chip => c.dac.eoen) (if_neg hdac)).trans
      (Bool.eq_false_of_not_eq_true hdac).symm

theorem enterCounter_eoen (c : Chip) :
    c.enterCounter.dac.eoen = (cntrBenchRole (c.file cntrName) 0 == benchRoleDac) := by
  have hrole := (counter_applyCfg_spec c.counter c.bench (c.file cntrName) 0).2
  generalize hcfg : c.counter.applyCfg c.bench.reset (c.file cntrName) = r at hrole
  have hdac : c.enterCounter.dac = if r.2.1.role 0 = benchRoleDac then
      (c.setEoen false).dac.idle.bringUp.1 else (c.setEoen false).dac := by
    rw [← hcfg]
    exact apply_ite Prod.fst ..
  rw [hdac, ← hrole]
  by_cases heq : r.2.1.role 0 = benchRoleDac
  · rw [if_pos heq]
    exact (beq_iff_eq.mpr heq).symm
  · rw [if_neg heq]
    exact (beq_eq_false_iff_ne.mpr heq).symm

theorem modeEnter_eoen (hm : m ≠ .idle) : (c.modeEnter m).dac.eoen = c.routesDac m := by
  cases m with
  | idle => exact absurd rfl hm
  | pio | adc | servo => rfl
  | mixed => exact mixedPads_eoen c
  | counter => exact enterCounter_eoen c

theorem benchRoleOps_directed (role : Byte) :
    (benchRoleOps role).any PadOp.setsDir = benchRoleDirected role := by
  unfold benchRoleOps benchRoleDirected
  split_ifs with h₁ h₂ h₃ h₄ h₅
  · simp [h₁, PadOp.setsDir]
  · simp [h₂, PadOp.setsDir]
  · rw [h₃]
    rfl
  · simp [h₄, PadOp.setsDir]
  · simp [h₅, PadOp.setsDir]
  · simp [h₁, h₂, h₄, h₅]

theorem mxmpRoleOps_directed (role : Byte) :
    (mxmpRoleOps role).any PadOp.setsDir = (role != mxmpAdc && role != mxmpDac) := by
  unfold mxmpRoleOps
  split_ifs with h₁ h₂ h₃ h₄ h₅ h₆ h₇ h₈
  all_goals first
    | (subst_vars; rfl)
    | simp_all [mxmpPadSafe, PadOp.setsDir]

theorem applyCh_directed (r : Pio) (ch : Fin 8) : (r.applyCh ch).any PadOp.setsDir = true := by
  unfold Pio.applyCh Pio.driveChOut driveOps
  split
  next => rfl
  next =>
    split
    next => rfl
    next => simp [PadOp.setsDir]

/-- Which entries give a pad a direction. -/
theorem entryOps_directed (c : Chip) (m : Mode) (ch : Fin 9) :
    (c.entryOps m ch).any PadOp.setsDir = c.setsDir m ch := by
  cases m with
  | idle => rfl
  | pio =>
      show (pioEntry _ ch).any _ = true
      unfold pioEntry
      split
      next => exact applyCh_directed ..
      next => rfl
  | adc =>
      show (adcEntry _ ch).any _ = writesTo _ _
      unfold adcEntry
      -- routing a pad to the converter gives it no direction, so the outputs decide
      rw [List.any_append, (adcOuts_settles _).any_dir, List.any_append]
      have hmux : ∀ p : Prop, [Decidable p] →
          (if p then [PadOp.pmuxen true] else []).any PadOp.setsDir = false := by
        intro p _
        split <;> rfl
      rw [hmux, hmux]
      rfl
  | mixed =>
      show (mixedEntry _ _ ch).any _ = _
      unfold mixedEntry Chip.setsDir
      rw [List.any_append, (mixedIlOps_settles _).any_dir, List.any_append]
      refine congrArg (· || _) ?_
      have hmux : (if mxmpDacEn (c.file mxmpName) = true ∧ ch = 0 then [PadOp.pmuxen true]
          else []).any PadOp.setsDir = false := by
        split <;> rfl
      rw [hmux, Bool.or_false]
      split
      next => exact mxmpRoleOps_directed _
      next => rfl
  | servo =>
      show (servoEntry _ ch).any _ = _
      unfold servoEntry Chip.setsDir
      split
      next h =>
        dsimp only
        unfold srvoPadOps
        by_cases hservo : srvoRole (c.file srvoName) (ch.castLT h) = some srvoRoleServo
        · rw [if_pos hservo, hservo]
          rfl
        · rw [if_neg hservo, benchRoleOps_directed, beq_eq_false_iff_ne.mpr hservo, Bool.false_or]
      next => rfl
  | counter =>
      show (counterEntry _ ch).any _ = _
      unfold counterEntry Chip.setsDir
      have hmux : (if cntrBenchRole (c.file cntrName) 0 = benchRoleDac ∧ ch = 0 then
          [PadOp.pmuxen true] else []).any PadOp.setsDir = false := by
        split <;> rfl
      rw [List.any_append, hmux, Bool.or_false]
      split
      next hcounts =>
        rw [hcounts]
        rfl
      next hcounts => rw [benchRoleOps_directed, Bool.eq_false_of_not_eq_true hcounts, Bool.false_or]

/-- The converter output stays on D0 unless the interlock takes the pad. -/
theorem mixed_routed {mxmp ilcf : Option (List Byte)} (hdac : mxmpDacEn mxmp = true)
    (hno : writesTo (mixedIlOps ilcf) dacPad = false) (pad : Pad) :
    (pad.exec (mixedEntry mxmp ilcf 0)).pmuxen = true := by
  have hnone : opsAt (mixedIlOps ilcf) (channelPad 0) = [] := opsAt_of_not hno
  rw [mixedEntry, hnone, List.append_nil, if_pos ⟨hdac, rfl⟩, pad_exec_append]
  rfl

theorem routes_unset (hroutes : c.routesDac m = true) (hdir : c.setsDir m 0 = false) (pad : Pad) :
    (pad.exec (c.entryOps m 0)).pmuxen = true := by
  cases m with
  | idle | pio | servo => cases hroutes
  | adc =>
      have hnone : opsAt (adcOuts (c.file ilcfName)) (channelPad 0) = [] := opsAt_of_not hdir
      show (pad.exec (adcEntry _ 0)).pmuxen = true
      rw [adcEntry, hnone]
      rfl
  | mixed => exact mixed_routed hroutes (Bool.or_eq_false_iff.mp hdir).2 pad
  | counter =>
      have hend : (if cntrBenchRole (c.file cntrName) 0 = benchRoleDac ∧ (0 : Fin 9) = 0 then
          [PadOp.pmuxen true] else []) = [.pmuxen true] := if_pos ⟨beq_iff_eq.mp hroutes, rfl⟩
      show (pad.exec (counterEntry _ 0)).pmuxen = true
      rw [counterEntry, hend, pad_exec_append]
      rfl

theorem routes_mux (hroutes : c.routesDac m = true) :
    (c.entryOps m 0).any PadOp.setsMux = true := by
  cases m with
  | idle | pio | servo => cases hroutes
  | adc => rfl
  | mixed =>
      show (mixedEntry _ _ 0).any _ = true
      rw [mixedEntry, if_pos ⟨hroutes, rfl⟩]
      simp [PadOp.setsMux]
  | counter =>
      have hend : (if cntrBenchRole (c.file cntrName) 0 = benchRoleDac ∧ (0 : Fin 9) = 0 then
          [PadOp.pmuxen true] else []) = [.pmuxen true] := if_pos ⟨beq_iff_eq.mp hroutes, rfl⟩
      show (counterEntry _ 0).any _ = true
      rw [counterEntry, hend, List.any_append]
      exact Bool.or_true _

theorem undriven_iff : c.Undriven ch ↔ (c.port (channelPad ch)).dir = false ∧
    (ch = 0 → c.dac.eoen = true → (c.port (channelPad 0)).pmuxen = false) := by
  refine and_congr_right fun _ => ?_
  constructor
  · intro h hch heoen
    exact Bool.eq_false_of_not_eq_true fun hmux => h ⟨congrArg channelPad hch, heoen, hmux⟩
  · rintro h ⟨hch, heoen, hmux⟩
    have hfalse := h (channelPad_injective hch) heoen
    rw [show channelPad 0 = dacPad from rfl, hmux] at hfalse
    cases hfalse

theorem modeLeave_cfg (c : Chip) (m : Mode) : (c.modeLeave m).cfg = c.cfg := by
  cases m <;> rfl

theorem entryOps_congr (c' : Chip) (h : c'.cfg = c.cfg) : c'.entryOps m ch = c.entryOps m ch := by
  simp only [Chip.entryOps, Chip.file, h]

theorem routesDac_congr (c' : Chip) (h : c'.cfg = c.cfg) : c'.routesDac m = c.routesDac m := by
  simp only [Chip.routesDac, Chip.file, h]

theorem setMode_ne (hne : m ≠ c.mode) :
    c.setMode m = { c.modeLeave c.mode with mode := m }.modeEnter m := if_neg hne

theorem setMode_pad (h : c.Inv) (hne : m ≠ c.mode) (ch : Fin 9) :
    (c.setMode m).port (channelPad ch) =
      ((c.modeLeave c.mode).port (channelPad ch)).exec (c.entryOps m ch) := by
  have hpad := modeEnter_pad (c := { c.modeLeave c.mode with mode := m }) (modeLeave_safe h)
    (modeLeave_free h) m ch
  rw [entryOps_congr { c.modeLeave c.mode with mode := m } (modeLeave_cfg c c.mode)] at hpad
  exact (congrArg (fun c : Chip => c.port (channelPad ch)) (setMode_ne hne)).trans hpad

theorem setMode_eoen (hne : m ≠ c.mode) (hm : m ≠ .idle) :
    (c.setMode m).dac.eoen = c.routesDac m := by
  rw [setMode_ne hne, modeEnter_eoen hm]
  exact routesDac_congr { c.modeLeave c.mode with mode := m } (modeLeave_cfg c c.mode)

theorem firstEntry_pad (c : Chip) (m : Mode) (ch : Fin 9) :
    (c.firstEntry m).port (channelPad ch) = Pad.reset.exec (c.entryOps m ch) := by
  have hsafe : ({ cfg := c.cfg } : Chip).pio.Safe := ⟨rfl, rfl, rfl, rfl, rfl⟩
  rw [Chip.firstEntry, modeEnter_pad hsafe (fun _ => rfl), entryOps_congr { cfg := c.cfg } rfl]
  rfl

theorem firstEntry_eoen (hm : m ≠ .idle) : (c.firstEntry m).dac.eoen = c.routesDac m := by
  rw [Chip.firstEntry, modeEnter_eoen hm]
  exact routesDac_congr { cfg := c.cfg } rfl

theorem firstEntry_idle (c : Chip) (ch : Fin 9) : (c.firstEntry .idle).Undriven ch :=
  ⟨rfl, fun h => by cases h.2.1⟩

/-! ## Clean switches -/

/-- When a pad is driven, or not, for what was visited before. -/
theorem undriven_agree (h : c.Inv) (hne : m ≠ c.mode) (hm : m ≠ .idle) (ch : Fin 9) :
    ((c.setMode m).Undriven ch ↔ (c.firstEntry m).Undriven ch) ↔
      (c.leavesOutput ch = true → c.setsDir m ch = true ∨ ch = 0 ∧ c.routesDac m = true) := by
  have hmux : c.routesDac m = true →
      ((c.setMode m).port (channelPad 0)).pmuxen = ((c.firstEntry m).port (channelPad 0)).pmuxen := by
    intro hroutes
    rw [setMode_pad h hne, firstEntry_pad]
    exact exec_pmuxen_agree (routes_mux hroutes) ..
  rw [undriven_iff, undriven_iff, setMode_eoen hne hm, firstEntry_eoen hm]
  have hrouted : (ch = 0 → c.routesDac m = true → ((c.setMode m).port (channelPad 0)).pmuxen = false) ↔
      (ch = 0 → c.routesDac m = true → ((c.firstEntry m).port (channelPad 0)).pmuxen = false) :=
    forall_congr' fun _ => forall_congr' fun hroutes => by rw [hmux hroutes]
  rw [hrouted]
  cases hset : c.setsDir m ch with
  | true =>
      -- the entry gives the pad its direction, whatever it was
      have hdir : ((c.setMode m).port (channelPad ch)).dir =
          ((c.firstEntry m).port (channelPad ch)).dir := by
        rw [setMode_pad h hne, firstEntry_pad]
        exact exec_dir_agree ((entryOps_directed c m ch).trans hset) ..
      simp [hdir]
  | false =>
      have hunset := (entryOps_directed c m ch).trans hset
      -- the pad keeps the direction that the old mode left it with
      have hafter : ((c.setMode m).port (channelPad ch)).dir = c.leavesOutput ch := by
        rw [setMode_pad h hne, exec_dir_of_none hunset, modeLeave_dir]
      have hfirst : ((c.firstEntry m).port (channelPad ch)).dir = false := by
        rw [firstEntry_pad, exec_dir_of_none hunset]
        rfl
      rw [hafter, hfirst]
      cases hleft : c.leavesOutput ch with
      | false => simp
      | true =>
          simp only [Bool.true_eq_false, false_and, true_and, false_iff, Bool.false_eq_true,
            false_or, true_implies]
          constructor
          · intro hnot
            obtain ⟨hch, hnot⟩ := Classical.not_imp.mp hnot
            exact ⟨hch, (Classical.not_imp.mp hnot).1⟩
          · rintro ⟨rfl, hroutes⟩ hall
            have hmuxed := hall rfl hroutes
            rw [firstEntry_pad, routes_unset hroutes hset] at hmuxed
            cases hmuxed

/-- A pad without a role is undriven on the first entry, but for a converter output that the
file of MIXED mode names elsewhere. -/
theorem noRole_undriven (hrole : c.NoRole m ch)
    (hdac : m = .mixed → ch = 0 → mxmpDacEn (c.file mxmpName) = true →
      writesTo (mixedIlOps (c.file ilcfName)) dacPad = true) : (c.firstEntry m).Undriven ch := by
  cases m with
  | idle => exact firstEntry_idle c ch
  | pio => exact hrole.elim
  | adc =>
      obtain ⟨h₀, h₁, hout⟩ := hrole
      refine undriven_iff.mpr ⟨?_, fun h => absurd h h₀⟩
      rw [firstEntry_pad, Chip.entryOps, adcEntry, if_neg h₁, if_neg h₀, adcOuts_noOutput hout]
      rfl
  | mixed =>
      -- a channel safe in the file, which no output of the script names
      obtain ⟨hch, hsafe, hout⟩ := hrole
      rw [undriven_iff, firstEntry_eoen (by decide), firstEntry_pad, firstEntry_pad]
      constructor
      · show (Pad.reset.exec (mixedEntry _ _ ch)).dir = false
        rw [mixedEntry, dif_pos hch, hsafe, pad_exec_append]
        refine mixedIl_dir hout ?_
        split <;> rfl
      · rintro rfl hroutes
        show (Pad.reset.exec (mixedEntry _ _ 0)).pmuxen = false
        rw [mixedEntry, pad_exec_append]
        exact (mixedIlOps_settles _).unrouted (hdac rfl rfl hroutes) _
  | servo =>
      obtain ⟨hch, hservo, hbench⟩ := hrole
      refine undriven_iff.mpr ⟨?_, fun _ heoen => by cases heoen⟩
      rw [firstEntry_pad]
      show (Pad.reset.exec (servoEntry _ ch)).dir = false
      rw [servoEntry, dif_pos hch, srvoPadOps, if_neg hservo, hbench]
      rfl
  | counter =>
      obtain ⟨hcounts, hops, hnot⟩ := hrole
      refine undriven_iff.mpr ⟨?_, ?_⟩
      · rw [firstEntry_pad]
        show (Pad.reset.exec (counterEntry _ ch)).dir = false
        rw [counterEntry, if_neg (by simp [hcounts]), hops]
        split <;> rfl
      · rintro rfl heoen
        rw [firstEntry_eoen (by decide)] at heoen
        exact absurd (beq_iff_eq.mp heoen) hnot

end Enter

/-- A switch leaves the pads to the new mode exactly when the old one leaves nothing driven
that the new one does not set. -/
theorem switch_clean (cfg : Config.Client) (es : List ChipEvent) (m : Mode) :
    let c := run Chip.next (.powerOn cfg) es
    m ≠ c.mode → (c.SwitchClean m ↔ c.LeavesClean m) := by
  intro c hne
  have hinv : c.Inv := chip_inv cfg es
  constructor
  · rintro ⟨hnone, hagree⟩
    by_cases hm : m = .idle
    · subst hm
      -- idle has no roles and no entry: the pads are what the old mode leaves
      have hundriven : ∀ ch, (c.setMode .idle).Undriven ch := fun ch => hnone ch trivial
      have hset : c.setMode .idle = { c.modeLeave c.mode with mode := .idle } := setMode_ne hne
      refine ⟨fun ch hleft => ?_, fun _ => ?_, fun h => by cases h⟩
      · have hdir := (hundriven ch).1
        rw [hset] at hdir
        rw [show c.leavesOutput ch = false from (modeLeave_dir c ch).symm.trans hdir] at hleft
        cases hleft
      · rw [← modeLeave_routed]
        have hrouted := (hundriven 0).2
        rw [hset] at hrouted
        refine Bool.eq_false_of_not_eq_true fun h => ?_
        exact hrouted ⟨rfl, (Bool.and_eq_true_iff.mp h).1, (Bool.and_eq_true_iff.mp h).2⟩
    · refine ⟨fun ch => (undriven_agree hinv hne hm ch).mp (hagree ch), fun h => absurd h hm, ?_⟩
      rintro rfl hrole hdac
      by_contra hno
      have hnot := undriven_iff.mp (hnone 0 hrole)
      have hmux := hnot.2 rfl ((setMode_eoen hne hm).trans hdac)
      rw [setMode_pad hinv hne] at hmux
      -- the file enables the converter and names no output on its pad: it is routed
      have hrouted := mixed_routed hdac (Bool.eq_false_of_not_eq_true hno)
        ((c.modeLeave c.mode).port (channelPad 0))
      exact absurd (hmux.symm.trans hrouted) Bool.false_ne_true
  · intro hclean
    by_cases hm : m = .idle
    · subst hm
      have hset : c.setMode .idle = { c.modeLeave c.mode with mode := .idle } := setMode_ne hne
      have hundriven : ∀ ch, (c.setMode .idle).Undriven ch := by
        intro ch
        rw [hset]
        refine ⟨?_, fun ⟨_, heoen, hmux⟩ => ?_⟩
        · refine (modeLeave_dir c ch).trans (Bool.eq_false_of_not_eq_true fun hleft => ?_)
          rcases hclean.output ch hleft with h | ⟨_, h⟩ <;> cases h
        · have hrouted := hclean.routed rfl
          rw [← modeLeave_routed, Bool.and_eq_true_iff.mpr ⟨heoen, hmux⟩] at hrouted
          cases hrouted
      exact ⟨fun ch _ => hundriven ch,
        fun ch => iff_of_true (hundriven ch) (firstEntry_idle c ch)⟩
    · have hagree : ∀ ch, (c.setMode m).Undriven ch ↔ (c.firstEntry m).Undriven ch :=
        fun ch => (undriven_agree hinv hne hm ch).mpr (hclean.output ch)
      refine ⟨fun ch hrole => (hagree ch).mpr (noRole_undriven hrole ?_), hagree⟩
      rintro rfl rfl hdac
      exact hclean.dac rfl hrole hdac

/-- COUNTER with D2 a bench output, and SERVO without a role for it. -/
def benchFiles : List (Config.Name × List Byte) :=
  [(cntrName, [1, 0xE8, 0x03, 0, 0, 4, 0, 0, 0, 0, 0, 0]), (srvoName, [1, 0, 0, 0, 0, 0, 0, 0, 0])]

/-- GPIO mode sets every pad, whatever COUNTER left. -/
theorem switch_clean_gpio :
    (run Chip.next (.powerOn (holding benchFiles)) [.regWrite regMode 5]).SwitchClean .pio :=
  (switch_clean (holding benchFiles) [.regWrite regMode 5] .pio (by decide +kernel)).mpr
    ⟨fun _ _ => Or.inl rfl, fun h => (by cases h), fun h => (by cases h)⟩

/-- D2 stays an output of the bench in SERVO mode. -/
theorem not_switch_clean :
    let c := run Chip.next (.powerOn (holding benchFiles)) [.regWrite regMode 5]
    .servo ≠ c.mode ∧ c.NoRole .servo 2 ∧ ¬ (c.setMode .servo).Undriven 2 ∧
      ¬ c.SwitchClean .servo := by
  intro c
  have hrole : c.NoRole .servo 2 := ⟨by decide, by decide +kernel, by decide +kernel⟩
  have hdriven : ¬ (c.setMode .servo).Undriven 2 := by decide +kernel
  exact ⟨by decide +kernel, hrole, hdriven, fun hclean => hdriven (hclean.1 2 hrole)⟩

end SlowBus.Modes
