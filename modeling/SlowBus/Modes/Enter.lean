import SlowBus.Modes.Chip

/-!
# What entering a mode writes to a pad

Entering a mode is a list of writes to the pads. For each mode and each of the nine pads
of the channels, the writes to this pad depend on the files alone.
-/

namespace SlowBus.Modes

open Bus (Byte)
open Interlock (HalMode ClaimStatus)

section Bank

variable {port : Port} {ch : Fin 9}

theorem channelPad_castLT (h : ch.val < 8) : channelPad ch = bankPad (ch.castLT h) := rfl

theorem channelPad_last (h : ¬ ch.val < 8) : channelPad ch = intPad :=
  congrArg channelPad (Fin.ext (show ch.val = 8 by omega))

/-- Writes to each pad of the bank, then to D6. -/
theorem exec_bank (f : Fin 8 → List PadOp) (pops : List PadOp) (port : Port) (ch : Fin 9) :
    port.exec ((List.finRange 8).flatMap (fun ch => (bankPad ch).on (f ch)) ++ intPad.on pops)
        (channelPad ch) =
      (port (channelPad ch)).exec (if h : ch.val < 8 then f (ch.castLT h) else pops) := by
  rw [exec_append]
  split
  next h =>
    rw [channelPad_castLT h, exec_on_of_ne (bankPad_ne_intPad _).symm]
    exact exec_each bankPad_injective f (List.nodup_finRange 8) (List.mem_finRange _)
  next h =>
    rw [channelPad_last h, exec_on, exec_each_of_ne f fun ch _ => bankPad_ne_intPad ch]

end Bank

/-! ## GPIO -/

/-- The wiring as GPIO mode leaves it. -/
structure Pio.Safe (r : Pio) : Prop where
  iodir : r.iodir = 0xFF
  olat : r.olat = 0
  gppu : r.gppu = 0
  gppd : r.gppd = 0
  od : r.od = 0

def pioEntry (gpmp : Option (List Byte)) (ch : Fin 9) : List PadOp :=
  if h : ch.val < 8 then (({} : Pio).gpmpApply gpmp).applyCh (ch.castLT h)
  else [.dirClr, .outSet, .pincfg true true]

section Gpio

variable {r r' : Pio} {c : Chip}

theorem applyCh_congr (hiodir : r.iodir = r'.iodir) (holat : r.olat = r'.olat)
    (hgppu : r.gppu = r'.gppu) (hgppd : r.gppd = r'.gppd) (hod : r.od = r'.od) (ch : Fin 8) :
    r.applyCh ch = r'.applyCh ch := by
  simp only [Pio.applyCh, Pio.driveChOut, hiodir, holat, hgppu, hgppd, hod]

theorem gpmpApply_applyCh (h : r.Safe) (file : Option (List Byte)) (ch : Fin 8) :
    (r.gpmpApply file).applyCh ch = (({} : Pio).gpmpApply file).applyCh ch := by
  have hsame : r.applyCh ch = ({} : Pio).applyCh ch :=
    applyCh_congr h.iodir h.olat h.gppu h.gppd h.od ch
  unfold Pio.gpmpApply
  split
  next =>
    split
    next => exact applyCh_congr rfl rfl rfl rfl rfl ch
    next =>
      split
      next => exact applyCh_congr rfl rfl rfl rfl rfl ch
      next => exact hsame
  next => exact hsame

theorem enterPio_pad (h : c.pio.Safe) (ch : Fin 9) :
    c.enterPio.port (channelPad ch) =
      (c.port (channelPad ch)).exec (pioEntry (c.file gpmpName) ch) := by
  have hbank := exec_bank (fun ch => (c.pio.gpmpApply (c.file gpmpName)).applyCh ch)
    [.dirClr, .outSet, .pincfg true true] c.port ch
  simp only [gpmpApply_applyCh h] at hbank
  refine Eq.trans ?_ hbank
  simp only [← gpmpApply_applyCh h]
  rfl

end Gpio

/-! ## ADC -/

/-- The writes of the interlock in ADC mode. -/
def adcOuts (ilcf : Option (List Byte)) : List PortOp := (({} : Adc).arm ilcf).2

def adcEntry (ilcf : Option (List Byte)) (ch : Fin 9) : List PadOp :=
  (if ch = 1 then [.pmuxen true] else []) ++ (if ch = 0 then [.pmuxen true] else []) ++
    opsAt (adcOuts ilcf) (channelPad ch)

section Converters

variable {c : Chip}

theorem adc_arm_ops (a : Adc) (file : Option (List Byte)) : (a.arm file).2 = adcOuts file := by
  unfold adcOuts Adc.arm
  dsimp only
  split
  next => rfl
  next => split <;> rfl

/-- Writes to the pad of one channel. -/
theorem exec_channel (port : Port) (ch ch' : Fin 9) (pops : List PadOp) :
    port.exec ((channelPad ch').on pops) (channelPad ch) =
      (port (channelPad ch)).exec (if ch = ch' then pops else []) := by
  split
  next h =>
    subst h
    exact exec_on
  next h => exact exec_on_of_ne fun heq => h (channelPad_injective heq).symm

theorem exec_bringUp (d : Dac) (port : Port) (ch : Fin 9) :
    port.exec d.bringUp.2 (channelPad ch) =
      (port (channelPad ch)).exec (if ch = 0 then [.pmuxen true] else []) := by
  have hroute := exec_channel (port.exec d.init.2) ch 0 [.pmuxen true]
  show port.exec (d.init.2 ++ (channelPad 0).on [.pmuxen true]) _ = _
  rw [exec_append, hroute]
  rcases dac_init_ops d with hinit | hinit
  · rw [hinit, exec_nil]
  · rw [hinit, show dacPad = channelPad 0 from rfl, exec_channel]
    split <;> rfl

theorem enterAdc_pad (c : Chip) (ch : Fin 9) :
    c.enterAdc.port (channelPad ch) =
      (c.port (channelPad ch)).exec (adcEntry (c.file ilcfName) ch) := by
  have hport : c.enterAdc.port = c.port.exec (adcPad.on [.pmuxen true] ++ c.dac.bringUp.2 ++
      ((c.adc.setup c.dac).1.arm (c.file ilcfName)).2) := rfl
  rw [hport, adc_arm_ops, exec_append, exec_opsAt, exec_append, exec_bringUp,
    show adcPad = channelPad 1 from rfl, exec_channel, adcEntry, pad_exec_append, pad_exec_append]

end Converters

/-! ## MIXED -/

/-- No slot claims a pin. -/
def Claims.Free (claims : Claims) : Prop := ∀ phys, (claims phys).slotMask = 0

/-- Records that a claim cannot tell apart. -/
structure ClaimRecord.Alike (r r' : ClaimRecord) : Prop where
  slotMask : r.slotMask = r'.slotMask
  held : r.slotMask ≠ 0 → r.mode = r'.mode ∧ r.okValue = r'.okValue ∧ r.errValue = r'.errValue

def Claims.Alike (claims claims' : Claims) : Prop := ∀ phys, (claims phys).Alike (claims' phys)

/-- The interlock's writes on entry to MIXED mode. -/
def mixedIlOps (ilcf : Option (List Byte)) : List PortOp :=
  (({} : Mixed).arm (fun _ => {}) ilcf {}).2.2

/-- Whether the file names a converter output. -/
def mxmpDacEn (mxmp : Option (List Byte)) : Bool :=
  (List.finRange 8).any fun ch => mxmpRole mxmp ch == mxmpDac

def mixedEntry (mxmp ilcf : Option (List Byte)) (ch : Fin 9) : List PadOp :=
  (if h : ch.val < 8 then mxmpRoleOps (mxmpRole mxmp (ch.castLT h)) else []) ++
    (if mxmpDacEn mxmp = true ∧ ch = 0 then [.pmuxen true] else []) ++
    opsAt (mixedIlOps ilcf) (channelPad ch)

section Claims

variable {claims claims' : Claims} {c c' : ClaimRun}

theorem Claims.Free.alike (h : claims.Free) (h' : claims'.Free) : claims.Alike claims' :=
  fun phys => ⟨(h phys).trans (h' phys).symm, fun hne => absurd (h phys) hne⟩

theorem Claims.Alike.set (h : claims.Alike claims') {r r' : ClaimRecord} (hr : r.Alike r')
    (phys : Nat) : (claims.set phys r).Alike (claims'.set phys r') := by
  intro q
  unfold Claims.set
  by_cases hq : q = phys
  · subst hq
    simpa using hr
  · rw [Function.update_of_ne hq, Function.update_of_ne hq]
    exact h q

/-- Two runs of claims that go the same way. -/
structure ClaimRun.Alike (c c' : ClaimRun) : Prop where
  status : c.status = c'.status
  ops : c.ops = c'.ops
  claims : c.claims.Alike c'.claims

/-- Two claims that end the same way. -/
structure SameClaim (r r' : ClaimStatus × Claims × List PortOp) : Prop where
  status : r.1 = r'.1
  ops : r.2.2 = r'.2.2
  claims : r.2.1.Alike r'.2.1

theorem SameClaim.keep (h : claims.Alike claims') {status : ClaimStatus} {ops : List PortOp} :
    SameClaim (status, claims, ops) (status, claims', ops) :=
  ⟨rfl, rfl, h⟩

theorem SameClaim.set (h : claims.Alike claims') {r r' : ClaimRecord} (hr : r.Alike r')
    {phys : Nat} {status : ClaimStatus} {ops : List PortOp} :
    SameClaim (status, claims.set phys r, ops) (status, claims'.set phys r', ops) :=
  ⟨rfl, rfl, h.set hr phys⟩

theorem halPinClaim_alike (h : claims.Alike claims') (phys slot : Nat) (mode : HalMode) :
    SameClaim (halPinClaim claims phys slot mode) (halPinClaim claims' phys slot mode) := by
  unfold halPinClaim
  dsimp only
  rw [← (h phys).slotMask]
  cases findBoardPin phys with
  | none => split_ifs <;> exact .keep h
  | some idx =>
      dsimp only
      split_ifs
      all_goals first
        | exact .keep h
        | refine .set h ?_; exact ⟨rfl, fun _ => ⟨rfl, rfl, rfl⟩⟩

theorem halPinClaimAdc_alike (h : claims.Alike claims') (phys oversampleExp shCyc : Nat) :
    SameClaim (halPinClaimAdc claims phys mixedIlSlot oversampleExp shCyc)
      (halPinClaimAdc claims' phys mixedIlSlot oversampleExp shCyc) := by
  have hheld : ((claims phys).slotMask = claimBit mixedIlSlot ∧ (claims phys).mode ≠ .adcScan) ↔
      ((claims phys).slotMask = claimBit mixedIlSlot ∧ (claims' phys).mode ≠ .adcScan) := by
    refine and_congr_right fun hslot => ?_
    rw [((h phys).held (by rw [hslot]; decide)).1]
  unfold halPinClaimAdc
  dsimp only
  rw [← (h phys).slotMask]
  simp only [hheld]
  cases findBoardPin phys with
  | none => split_ifs <;> exact .keep h
  | some idx =>
      dsimp only
      split_ifs
      all_goals first
        | exact .keep h
        | refine .set h ?_; exact ⟨rfl, fun _ => ⟨rfl, rfl, rfl⟩⟩

theorem halPinClaimOutput_alike (h : claims.Alike claims') (phys slot okValue errValue : Nat) :
    SameClaim (halPinClaimOutput claims phys slot okValue errValue)
      (halPinClaimOutput claims' phys slot okValue errValue) := by
  unfold halPinClaimOutput
  dsimp only
  rw [← (h phys).slotMask]
  cases findBoardPin phys with
  | none => split_ifs <;> exact .keep h
  | some idx =>
      dsimp only
      by_cases hfree : (claims phys).slotMask = 0
      · simp only [hfree, ne_eq, not_true_eq_false, if_false]
        split_ifs
        all_goals first
          | exact .keep h
          | refine .set h ?_; exact ⟨rfl, fun _ => ⟨rfl, rfl, rfl⟩⟩
      · obtain ⟨hmode, hok, herr⟩ := (h phys).held hfree
        rw [← hmode, ← hok, ← herr]
        split_ifs
        all_goals first
          | exact .keep h
          | refine .set h ?_; exact ⟨rfl, fun _ => ⟨rfl, rfl, rfl⟩⟩

theorem halPinReleaseSlot_ops (h : claims.Alike claims') (slot : Nat) :
    (halPinReleaseSlot claims slot).2 = (halPinReleaseSlot claims' slot).2 := by
  have hfreed : ∀ phys, (claims phys).freedBy slot = (claims' phys).freedBy slot :=
    fun phys => by rw [ClaimRecord.freedBy, ClaimRecord.freedBy, (h phys).slotMask]
  unfold halPinReleaseSlot
  simp only [hfreed]

theorem ClaimRun.Alike.next (h : c.Alike c') {r r' : ClaimStatus × Claims × List PortOp}
    (hr : SameClaim r r') : (c.next r).Alike (c'.next r') :=
  ⟨hr.status, by rw [ClaimRun.next, ClaimRun.next, h.ops, hr.ops], hr.claims⟩

theorem ClaimRun.Alike.input (h : c.Alike c') (i : Interlock.Input) :
    (c.input i).Alike (c'.input i) := by
  unfold ClaimRun.input
  rw [← h.status]
  split
  next => exact h
  next =>
    split
    next => exact h
    next => exact h.next (halPinClaimAdc_alike h.claims ..)
    next => exact h.next (halPinClaim_alike h.claims ..)
    next => exact h.next (halPinClaim_alike h.claims ..)
    next => exact h.next (halPinClaim_alike h.claims ..)
    next => exact ⟨rfl, h.ops, h.claims⟩

theorem ClaimRun.Alike.output (h : c.Alike c') (o : Interlock.Output) :
    (c.output o).Alike (c'.output o) := by
  unfold ClaimRun.output
  rw [← h.status]
  split
  next => exact h
  next => exact h.next (halPinClaimOutput_alike h.claims ..)

theorem foldl_alike {ι : Type} {f : ClaimRun → ι → ClaimRun}
    (hf : ∀ c c' i, ClaimRun.Alike c c' → (f c i).Alike (f c' i)) (is : List ι) (h : c.Alike c') :
    (is.foldl f c).Alike (is.foldl f c') := by
  induction is generalizing c c' with
  | nil => exact h
  | cons i is ih => exact ih (hf c c' i h)

/-- The end of the claims: a run that failed is taken back. -/
theorem takenBack_same (h : c.Alike c') :
    let back (c : ClaimRun) : ClaimRun :=
      if c.status = .ok then c
      else
        let (claims, ops) := halPinReleaseSlot c.claims mixedIlSlot
        { c with claims, ops := c.ops ++ ops }
    (back c).status = (back c').status ∧ (back c).ops = (back c').ops := by
  obtain ⟨hstatus, hops, hclaims⟩ := h
  dsimp only
  rw [← hstatus]
  by_cases hok : c.status = .ok
  · rw [if_pos hok, if_pos hok]
    exact ⟨hstatus, hops⟩
  · rw [if_neg hok, if_neg hok]
    exact ⟨rfl, by rw [hops, halPinReleaseSlot_ops hclaims]⟩

theorem mixedClaimPins_same (h : claims.Alike claims') (inst : Interlock.Inst) :
    (mixedClaimPins inst claims).status = (mixedClaimPins inst claims').status ∧
      (mixedClaimPins inst claims).ops = (mixedClaimPins inst claims').ops := by
  have hinputs := foldl_alike (fun _ _ i h => h.input i) inst.inputs
    (show ClaimRun.Alike { claims } { claims := claims' } from ⟨rfl, rfl, h⟩)
  exact takenBack_same (foldl_alike (fun _ _ o h => h.output o) inst.outputs hinputs)

theorem mixed_arm_ops (h : claims.Free) (m : Mixed) (file : Option (List Byte)) (w : World) :
    (m.arm claims file w).2.2 = mixedIlOps file := by
  have hfree : Claims.Free fun _ => {} := fun _ => rfl
  unfold mixedIlOps Mixed.arm
  dsimp only
  split
  next => rfl
  next => rfl
  next =>
    split
    next => rfl
    next inst _ =>
      split
      next => rfl
      next => exact congrArg (_ ++ ·) (mixedClaimPins_same (h.alike hfree) inst).2

theorem enterMixed_pad {c : Chip} (h : c.claims.Free) (ch : Fin 9) :
    c.enterMixed.port (channelPad ch) =
      (c.port (channelPad ch)).exec (mixedEntry (c.file mxmpName) (c.file ilcfName) ch) := by
  have hclaims : c.mixedPads.claims = c.claims := by
    unfold Chip.mixedPads
    dsimp only
    split <;> rfl
  have hfile : c.mixedPads.file ilcfName = c.file ilcfName := by
    unfold Chip.mixedPads
    dsimp only
    split <;> rfl
  have hport : c.enterMixed.port = c.mixedPads.port.exec
      (c.mixedPads.mixed.arm c.mixedPads.claims (c.mixedPads.file ilcfName)
        c.mixedPads.world).2.2 := rfl
  have hpads : c.mixedPads.port (channelPad ch) = (c.port (channelPad ch)).exec
      ((if h : ch.val < 8 then mxmpRoleOps (mxmpRole (c.file mxmpName) (ch.castLT h)) else []) ++
        (if mxmpDacEn (c.file mxmpName) = true ∧ ch = 0 then [.pmuxen true] else [])) := by
    have hbank := exec_bank (fun ch => mxmpRoleOps (mxmpRole (c.file mxmpName) ch)) [] c.port ch
    rw [Pin.on, List.map_nil, List.append_nil] at hbank
    by_cases hdac : mxmpDacEn (c.file mxmpName) = true
    · have hup : c.mixedPads.port = c.port.exec
          ((c.mixed.apply (c.file mxmpName)).2 ++ c.dac.bringUp.2) := by
        unfold Chip.mixedPads
        exact congrArg Chip.port (if_pos hdac)
      rw [hup, exec_append, exec_bringUp, pad_exec_append, ← hbank]
      simp only [hdac, true_and]
      rfl
    · have hup : c.mixedPads.port = c.port.exec (c.mixed.apply (c.file mxmpName)).2 := by
        unfold Chip.mixedPads
        exact congrArg Chip.port (if_neg hdac)
      rw [hup, pad_exec_append, ← hbank]
      simp only [hdac]
      rfl
  rw [hport, exec_opsAt, hpads, mixed_arm_ops (hclaims ▸ h), hfile, mixedEntry]
  exact pad_exec_append.symm

end Claims

/-! ## SERVO -/

def servoEntry (srvo : Option (List Byte)) (ch : Fin 9) : List PadOp :=
  if h : ch.val < 8 then srvoPadOps srvo (ch.castLT h)
  else [.pmuxen false, .dirClr, .outSet, .pincfg true true]

/-- D6 is the e-stop line whatever the file says. -/
theorem exec_enter_int (s : Servo) (b : Bench) (file : Option (List Byte)) (port : Port) :
    port.exec (s.enter b file).2.2 intPad =
      (port intPad).exec [.pmuxen false, .dirClr, .outSet, .pincfg true true] := by
  have hpad : intPad = benchPad 6 := by decide
  have hreserved : (s.applyCfg b.reset file).2.1.reserved.getLsbD (6 : Fin 11) = true :=
    reserved_reserve.mpr (Or.inr rfl)
  have hcfg : port.exec (s.applyCfg b.reset file).2.2 intPad =
      (port intPad).exec [.pmuxen false, .dirClr, .outSet, .pincfg true true] := by
    unfold Servo.applyCfg
    dsimp only
    rw [exec_append, servoEstopPinInit, exec_on]
    exact congrArg (Pad.exec · _) (exec_each_of_ne _ fun ch _ => bankPad_ne_intPad ch)
  show port.exec ((s.applyCfg b.reset file).2.2 ++ (s.applyCfg b.reset file).2.1.applyRoles) _ = _
  rw [exec_append]
  conv_lhs => rw [hpad, exec_applyRoles, ← hpad, hcfg, if_pos hreserved]
  rfl

theorem enterServo_pad (c : Chip) (ch : Fin 9) :
    c.enterServo.port (channelPad ch) =
      (c.port (channelPad ch)).exec (servoEntry (c.file srvoName) ch) := by
  unfold servoEntry
  split
  next h => exact exec_enter c.servo c.bench (c.file srvoName) c.port (ch.castLT h)
  next h =>
    rw [channelPad_last h]
    exact exec_enter_int c.servo c.bench (c.file srvoName) c.port

/-! ## COUNTER -/

/-- The bench role a `cntr` byte gives its pad. -/
def cntrBenchRole (file : Option (List Byte)) (ch : Fin 9) : Byte :=
  match cntrByte file ch with
  | some v => if cntrCounts v then benchRoleNone else cntrRole v
  | none => benchRoleNone

def counterEntry (cntr : Option (List Byte)) (ch : Fin 9) : List PadOp :=
  (if counterEnabled cntr ch then counterPinInput (counterPull cntr ch)
    else benchRoleOps (cntrBenchRole cntr ch)) ++
    (if cntrBenchRole cntr 0 = benchRoleDac ∧ ch = 0 then [.pmuxen true] else [])

section CounterConfig

variable {file : Option (List Byte)} {b : Bench} {ch ch' : Fin 9}

theorem counterApplyRole_self (h : b.role (benchOf ch) = benchRoleNone) :
    (counterApplyRole file b ch).role (benchOf ch) = cntrBenchRole file ch := by
  unfold counterApplyRole cntrBenchRole
  cases cntrByte file ch with
  | none => exact h
  | some v =>
      dsimp only
      split
      next => exact h
      next => exact Function.update_self ..

theorem counterApplyRole_other (h : ch ≠ ch') :
    (counterApplyRole file b ch').role (benchOf ch) = b.role (benchOf ch) := by
  unfold counterApplyRole
  split
  next =>
    split
    next => rfl
    next => exact Function.update_of_ne (fun heq => h (benchOf_injective heq)) ..
  next => rfl

theorem counterApplyRole_reserved : (counterApplyRole file b ch).reserved = b.reserved := by
  unfold counterApplyRole
  split
  next => split <;> rfl
  next => rfl

theorem foldl_counterRole_other {chs : List (Fin 9)} (h : ch ∉ chs) (b : Bench) :
    (chs.foldl (counterApplyRole file) b).role (benchOf ch) = b.role (benchOf ch) := by
  induction chs generalizing b with
  | nil => rfl
  | cons ch' chs ih =>
      obtain ⟨hne, hnot⟩ := List.ne_and_not_mem_of_not_mem_cons h
      exact (ih hnot _).trans (counterApplyRole_other hne)

theorem foldl_counterRole {chs : List (Fin 9)} (hnodup : chs.Nodup) (hmem : ch ∈ chs)
    (b : Bench) (h : b.role (benchOf ch) = benchRoleNone) :
    (chs.foldl (counterApplyRole file) b).role (benchOf ch) = cntrBenchRole file ch := by
  induction chs generalizing b with
  | nil => cases hmem
  | cons ch' chs ih =>
      obtain ⟨hnot, hnodup⟩ := List.nodup_cons.mp hnodup
      rw [List.foldl_cons]
      by_cases hch : ch = ch'
      · subst hch
        exact (foldl_counterRole_other hnot _).trans (counterApplyRole_self h)
      · exact ih hnodup ((List.mem_cons.mp hmem).resolve_left hch) _
          ((counterApplyRole_other hch).trans h)

theorem foldl_counterRole_reserved (chs : List (Fin 9)) (b : Bench) :
    (chs.foldl (counterApplyRole file) b).reserved = b.reserved := by
  induction chs generalizing b with
  | nil => rfl
  | cons ch chs ih => exact (ih _).trans counterApplyRole_reserved

/-- The pads of counting channels are reserved. -/
theorem foldl_reserve (counts : Fin 9 → Bool) (ch : Fin 9) (chs : List (Fin 9)) (b : Bench) :
    let b' := chs.foldl (fun b ch => if counts ch then b.reserve (benchOf ch) else b) b
    b'.role = b.role ∧ (b'.reserved.getLsbD (benchOf ch) = true ↔
      b.reserved.getLsbD (benchOf ch) = true ∨ ch ∈ chs ∧ counts ch = true) := by
  constructor
  · induction chs generalizing b with
    | nil => rfl
    | cons ch' chs ih =>
        refine (ih _).trans ?_
        dsimp only
        split <;> rfl
  · apply BitSet.foldl_select (P := fun b : Bench => b.reserved.getLsbD (benchOf ch) = true) counts
    intro b ch'
    rw [reserved_reserve]
    exact or_congr_right benchOf_injective.eq_iff

theorem counter_applyCfg_spec (c : Counter) (b : Bench) (file : Option (List Byte)) (ch : Fin 9) :
    let r := c.applyCfg b.reset file
    (r.2.1.reserved.getLsbD (benchOf ch) = true ↔ counterEnabled file ch = true) ∧
      r.2.1.role (benchOf ch) = cntrBenchRole file ch := by
  obtain ⟨hrole, hreserved⟩ := foldl_reserve (counterEnabled file) ch
    (List.finRange 9) ((List.finRange 9).foldl (counterApplyRole file) b.reset)
  have hbus : ∀ ch : Fin 9, benchI2cMask.getLsbD (benchOf ch) = false := by decide
  constructor
  · refine hreserved.trans ?_
    rw [foldl_counterRole_reserved]
    constructor
    · rintro (h | ⟨_, h⟩)
      · exact absurd ((hbus ch).symm.trans h) Bool.false_ne_true
      · exact h
    · exact fun h => Or.inr ⟨List.mem_finRange ch, h⟩
  · exact (congrFun hrole _).trans
      (foldl_counterRole (List.nodup_finRange 9) (List.mem_finRange ch) b.reset rfl)

theorem counter_enter_ops (c : Counter) (b : Bench) (d : Dac) (levels : Pin → Bool)
    (file : Option (List Byte)) :
    let r := c.applyCfg b.reset file
    (c.enter b d levels file).2.2.2 = r.2.2 ++ r.2.1.applyRoles ++
      (if r.2.1.role 0 = benchRoleDac then d.idle.bringUp.2 else []) :=
  congrArg (_ ++ _ ++ ·) (apply_ite Prod.snd ..)

theorem enterCounter_pad (c : Chip) (ch : Fin 9) :
    c.enterCounter.port (channelPad ch) =
      (c.port (channelPad ch)).exec (counterEntry (c.file cntrName) ch) := by
  obtain ⟨hreserved, hrole⟩ := counter_applyCfg_spec c.counter c.bench (c.file cntrName) ch
  have hrole₀ := (counter_applyCfg_spec c.counter c.bench (c.file cntrName) 0).2
  generalize hcfg : c.counter.applyCfg c.bench.reset (c.file cntrName) = r
    at hreserved hrole hrole₀
  have hport : c.enterCounter.port = c.port.exec (r.2.2 ++ r.2.1.applyRoles ++
      (if r.2.1.role 0 = benchRoleDac then (c.setEoen false).dac.idle.bringUp.2 else [])) := by
    rw [← hcfg, ← counter_enter_ops _ _ _ c.world.levels]
    rfl
  -- first the counted channels' inputs
  have hpads : c.port.exec r.2.2 (channelPad ch) = (c.port (channelPad ch)).exec
      (if counterEnabled (c.file cntrName) ch then
        counterPinInput (counterPull (c.file cntrName) ch) else []) := by
    rw [← hcfg]
    exact exec_each channelPad_injective
      (fun ch => if counterEnabled (c.file cntrName) ch then
        counterPinInput (counterPull (c.file cntrName) ch) else [])
      (List.nodup_finRange 9) (List.mem_finRange ch)
  -- then the roles of the channels that do not count
  have hroles : (c.port.exec (r.2.2 ++ r.2.1.applyRoles)) (channelPad ch) =
      (c.port (channelPad ch)).exec (if counterEnabled (c.file cntrName) ch then
        counterPinInput (counterPull (c.file cntrName) ch)
        else benchRoleOps (cntrBenchRole (c.file cntrName) ch)) := by
    have hpad : channelPad ch = benchPad (benchOf ch) := (benchPad_benchOf ch).symm
    rw [exec_append]
    conv_lhs => rw [hpad, exec_applyRoles, ← hpad, hrole, hpads]
    by_cases hcounts : counterEnabled (c.file cntrName) ch = true
    · rw [if_pos hcounts, if_pos (hreserved.mpr hcounts), if_pos hcounts]
      rfl
    · rw [if_neg hcounts, if_neg (fun h => hcounts (hreserved.mp h)), if_neg hcounts]
      rfl
  rw [hport, exec_append, counterEntry, pad_exec_append, ← hroles, ← hrole₀]
  -- last the converter's pad, when the file gives it that role
  by_cases hdac : r.2.1.role 0 = benchRoleDac
  · have hdac₀ : r.2.1.role (benchOf 0) = benchRoleDac := hdac
    rw [if_pos hdac, exec_bringUp]
    simp only [hdac₀, true_and]
  · have hdac₀ : ¬ r.2.1.role (benchOf 0) = benchRoleDac := hdac
    rw [if_neg hdac, exec_nil]
    simp only [hdac₀, false_and, if_false]
    rfl

end CounterConfig

/-! ## The bench tools a mode enters with -/

/-- No pad is selected, nothing is asked of the converter, and the tools are on. -/
structure Bench.Entered (b : Bench) : Prop where
  active : b.active = true
  adcPending : b.adcPending = false
  sel : b.sel = 0xFF

section Entered

variable {file : Option (List Byte)} {b : Bench}

/-- Nothing is selected and nothing asked. -/
def Bench.Quiet (b : Bench) : Prop := b.adcPending = false ∧ b.sel = 0xFF

theorem counterApplyRole_quiet (h : b.Quiet) (ch : Fin 9) : (counterApplyRole file b ch).Quiet := by
  unfold counterApplyRole
  split
  next => split <;> exact h
  next => exact h

theorem servoApplyRole_quiet {cfg : BitVec 16 × Bench} (h : cfg.2.Quiet) (ch : Fin 8) :
    (servoApplyRole file cfg ch).2.Quiet := by
  unfold servoApplyRole
  split
  next => exact h
  next =>
    split
    next => exact h
    next => split <;> exact h

theorem counter_enter_bench (c : Counter) (b : Bench) (d : Dac) (levels : Pin → Bool)
    (file : Option (List Byte)) : (c.enter b d levels file).2.1.Entered := by
  have hroles : ((List.finRange 9).foldl (counterApplyRole file) b.reset).Quiet :=
    List.foldlRecOn _ _ (show b.reset.Quiet from ⟨rfl, rfl⟩)
      fun _ h ch _ => counterApplyRole_quiet h ch
  have hquiet : (c.applyCfg b.reset file).2.1.Quiet :=
    List.foldlRecOn _ _ hroles fun b h ch _ => by
      split <;> exact h
  exact ⟨rfl, hquiet.1, hquiet.2⟩

theorem servo_enter_bench (s : Servo) (b : Bench) (file : Option (List Byte)) :
    (s.enter b file).2.1.Entered := by
  have hroles : ((List.finRange 8).foldl (servoApplyRole file) (0, b.reset)).2.Quiet :=
    List.foldlRecOn (motive := fun cfg : BitVec 16 × Bench => cfg.2.Quiet) _ _
      (show b.reset.Quiet from ⟨rfl, rfl⟩) fun _ h ch _ => servoApplyRole_quiet h ch
  exact ⟨rfl, hroles.1, hroles.2⟩

theorem setMode_bench {c : Chip} {m : Mode} (hm : m = .counter ∨ m = .servo) (hne : m ≠ c.mode) :
    (c.setMode m).bench.Entered := by
  unfold Chip.setMode
  rw [if_neg hne]
  generalize hleft : ({ c.modeLeave c.mode with mode := m } : Chip) = left
  rcases hm with rfl | rfl
  · exact counter_enter_bench left.counter left.bench (left.setEoen false).dac left.world.levels _
  · exact servo_enter_bench left.servo left.bench _

end Entered

end SlowBus.Modes
