import SlowBus.Interlock.WellFormed
import SlowBus.Lib.Runs
import SlowBus.Modes.Enter
import SlowBus.Modes.Steps

/-!
# What a mode leaves behind

Outside GPIO mode the wiring of the expander is released, and outside MIXED mode no pin
is claimed. What leaving a mode makes of each pad follows from the state it leaves.
-/

namespace SlowBus.Modes

open Bus (Byte)
open Interlock (Inst HalMode ClaimStatus)
open Runs (run)

/-- The registers of the expander that drive its pads. -/
def Pio.wiring (r : Pio) : Byte × Byte × Byte × Byte × Byte :=
  (r.iodir, r.olat, r.gppu, r.gppd, r.od)

theorem safe_iff {r : Pio} : r.Safe ↔ r.wiring = (0xFF, 0, 0, 0, 0) := by
  constructor
  · rintro ⟨h₁, h₂, h₃, h₄, h₅⟩
    rw [Pio.wiring, h₁, h₂, h₃, h₄, h₅]
  · intro h
    simp only [Pio.wiring, Prod.mk.injEq] at h
    exact ⟨h.1, h.2.1, h.2.2.1, h.2.2.2.1, h.2.2.2.2⟩

/-- Only MIXED's slot claims pins, and only pins of the table. -/
def Claims.OfMixed (claims : Claims) : Prop :=
  ∀ phys, (claims phys).slotMask = 0 ∨
    (claims phys).slotMask = claimBit mixedIlSlot ∧ phys < claimTableSize

/-! ## Claims of MIXED mode -/

section Claims

variable {claims : Claims} {c : ClaimRun}

theorem Claims.Free.ofMixed (h : claims.Free) : claims.OfMixed := fun phys => Or.inl (h phys)

theorem Claims.OfMixed.set (h : claims.OfMixed) {phys : Nat} (hphys : phys < claimTableSize)
    {r : ClaimRecord} (hr : r.slotMask = claimBit mixedIlSlot) : (claims.set phys r).OfMixed := by
  intro q
  unfold Claims.set
  by_cases hq : q = phys
  · subst hq
    exact Or.inr ⟨by simpa using hr, hphys⟩
  · rw [Function.update_of_ne hq]
    exact h q

/-- Writes that take a pad from the multiplexer and give it a direction. -/
structure Configures (pops : List PadOp) : Prop where
  dir : pops.any PadOp.setsDir = true
  mux : pops.any PadOp.setsMux = true
  unmuxed : .pmuxen true ∉ pops

/-- Everything a claim can do: it is refused, or the pin is MIXED's, configured perhaps. -/
inductive ClaimResult (claims : Claims) (phys : Nat) (pops : List PadOp) :
    ClaimStatus × Claims × List PortOp → Prop
  | refused (status : ClaimStatus) (hne : status ≠ .ok) :
      ClaimResult claims phys pops (status, claims, [])
  | held (r : ClaimRecord) (hphys : phys < claimTableSize)
      (hr : r.slotMask = claimBit mixedIlSlot) {ops : List PortOp}
      (hops : ops = [] ∨ ops = (Pin.ofPhys phys).on pops) :
      ClaimResult claims phys pops (.ok, claims.set phys r, ops)

theorem ofPhys_phys (p : Pin) : Pin.ofPhys p.phys = p := by
  obtain ⟨group, pin⟩ := p
  have hpin := pin.isLt
  have hgroup := group.isLt
  simp only [Pin.ofPhys, Pin.phys, Pin.mk.injEq, Fin.ext_iff, Fin.val_ofNat]
  omega

theorem findBoardPin_pin {phys : Nat} {idx : Fin 11} (h : findBoardPin phys = some idx) :
    benchPad idx = Pin.ofPhys phys := by
  have hphys : (benchPad idx).phys = phys := by simpa using List.find?_some h
  rw [← hphys, ofPhys_phys]

theorem halPinClaim_result (phys : Nat) (mode : HalMode) :
    ClaimResult claims phys (portConfigureInput mode) (halPinClaim claims phys mixedIlSlot mode) := by
  unfold halPinClaim
  split
  next => exact .refused _ (by decide)
  next hphys =>
    split
    next => exact .refused _ (by decide)
    next =>
      split
      next => exact .refused _ (by decide)
      next idx hidx =>
        dsimp only
        split
        next => exact .refused _ (by decide)
        next =>
          split
          next => exact .refused _ (by decide)
          next => exact .held _ (not_not.mp hphys) rfl (Or.inr (findBoardPin_pin hidx ▸ rfl))

theorem halPinClaimAdc_result (phys oversampleExp shCyc : Nat) :
    ClaimResult claims phys [] (halPinClaimAdc claims phys mixedIlSlot oversampleExp shCyc) := by
  unfold halPinClaimAdc
  split
  next => exact .refused _ (by decide)
  next hphys =>
    split
    next => exact .refused _ (by decide)
    next =>
      split
      next => exact .refused _ (by decide)
      next idx hidx =>
        dsimp only
        split
        next => exact .refused _ (by decide)
        next =>
          split
          next => exact .refused _ (by decide)
          next =>
            split
            next => exact .refused _ (by decide)
            next => exact .held _ (not_not.mp hphys) rfl (Or.inl rfl)

theorem halPinClaimOutput_result (h : claims.OfMixed) (phys okValue errValue : Nat) :
    ClaimResult claims phys portConfigureOutput
      (halPinClaimOutput claims phys mixedIlSlot okValue errValue) := by
  unfold halPinClaimOutput
  split
  next => exact .refused _ (by decide)
  next hphys =>
    split
    next => exact .refused _ (by decide)
    next =>
      split
      next => exact .refused _ (by decide)
      next =>
        split
        next => exact .refused _ (by decide)
        next idx hidx =>
          dsimp only
          split
          next => exact .refused _ (by decide)
          next =>
            split
            next hheld =>
              split
              next => exact .refused _ (by decide)
              next =>
                split
                next => exact .refused _ (by decide)
                next =>
                  refine .held _ (not_not.mp hphys) ?_ (Or.inl rfl)
                  show (claims phys).slotMask ||| claimBit mixedIlSlot = _
                  rw [((h phys).resolve_left hheld).1]
                  decide
            next => exact .held _ (not_not.mp hphys) rfl (Or.inr (findBoardPin_pin hidx ▸ rfl))

/-- What holds along the claims of an interlock. -/
structure ClaimRun.Inv (outs : List Nat) (c : ClaimRun) : Prop where
  ofMixed : c.claims.OfMixed
  /-- A pad that is written to is configured. -/
  dir : ∀ w ∈ c.ops, (opsAt c.ops w.pin).any PadOp.setsDir = true
  mux : ∀ w ∈ c.ops, (opsAt c.ops w.pin).any PadOp.setsMux = true
  unmuxed : ∀ w ∈ c.ops, w.op ≠ .pmuxen true
  /-- A pad is made an output by its own claim. -/
  output : ∀ w ∈ c.ops, w.op = .dirSet →
    (c.claims w.pin.phys).slotMask ≠ 0 ∧ ∃ phys ∈ outs, Pin.ofPhys phys = w.pin

variable {outs : List Nat} {phys : Nat} {pops : List PadOp}

theorem phys_ofPhys (h : phys < claimTableSize) : (Pin.ofPhys phys).phys = phys := by
  unfold claimTableSize at h
  simp only [Pin.ofPhys, Pin.phys, Fin.val_ofNat]
  omega

/-- A field that the writes to a pad set, after one more block of writes. -/
theorem any_opsAt_append {sets : PadOp → Bool} {ops : List PortOp} {p : Pin}
    (hops : ∀ w ∈ ops, (opsAt ops w.pin).any sets = true)
    (hpops : pops ≠ [] → pops.any sets = true) :
    ∀ w ∈ ops ++ p.on pops, (opsAt (ops ++ p.on pops) w.pin).any sets = true := by
  intro w hw
  rw [opsAt_append, List.any_append, Bool.or_eq_true]
  rcases List.mem_append.mp hw with hw | hw
  · exact Or.inl (hops w hw)
  · right
    have hne : pops ≠ [] := by
      rintro rfl
      cases hw
    rw [pin_of_mem_on hw, opsAt_on]
    exact hpops hne

theorem ClaimRun.Inv.held (h : c.Inv outs) (hpops : pops = [] ∨ Configures pops)
    (hout : .dirSet ∈ pops → phys ∈ outs) {r : ClaimRecord} (hphys : phys < claimTableSize)
    (hmask : r.slotMask = claimBit mixedIlSlot) :
    (c.next (.ok, c.claims.set phys r, (Pin.ofPhys phys).on pops)).Inv outs := by
  have hconf : pops ≠ [] → Configures pops := fun hne => hpops.resolve_left hne
  refine ⟨h.ofMixed.set hphys hmask, any_opsAt_append h.dir fun hne => (hconf hne).dir,
    any_opsAt_append h.mux fun hne => (hconf hne).mux, fun w hw => ?_, fun w hw hop => ?_⟩
  · rcases List.mem_append.mp hw with hw | hw
    · exact h.unmuxed w hw
    · obtain ⟨op, hop, rfl⟩ := List.mem_map.mp hw
      rintro rfl
      rcases hpops with rfl | hpops
      · cases hop
      · exact hpops.unmuxed hop
  · show (Function.update c.claims phys r w.pin.phys).slotMask ≠ 0 ∧ _
    rcases List.mem_append.mp hw with hw | hw
    · obtain ⟨hheld, hmem⟩ := h.output w hw hop
      refine ⟨?_, hmem⟩
      by_cases heq : w.pin.phys = phys
      · rw [heq, Function.update_self, hmask]
        decide
      · rwa [Function.update_of_ne heq]
    · obtain ⟨op, hmem, rfl⟩ := List.mem_map.mp hw
      obtain rfl : op = .dirSet := hop
      refine ⟨?_, phys, hout hmem, rfl⟩
      rw [phys_ofPhys hphys, Function.update_self, hmask]
      decide

theorem ClaimRun.Inv.next (h : c.Inv outs) (hpops : pops = [] ∨ Configures pops)
    (hout : .dirSet ∈ pops → phys ∈ outs) {r : ClaimStatus × Claims × List PortOp}
    (hr : ClaimResult c.claims phys pops r) : (c.next r).Inv outs := by
  cases hr with
  | refused status =>
      have hsame : (c.next (status, c.claims, [])).ops = c.ops := List.append_nil _
      refine ⟨h.ofMixed, ?_, ?_, ?_, ?_⟩
      all_goals rw [hsame]
      · exact h.dir
      · exact h.mux
      · exact h.unmuxed
      · exact h.output
  | held r hphys hmask hops =>
      rcases hops with rfl | rfl
      · exact h.held (Or.inl rfl) (fun hmem => by cases hmem) hphys hmask
      · exact h.held hpops hout hphys hmask

theorem configures_input (mode : HalMode) :
    Configures (portConfigureInput mode) ∧ .dirSet ∉ portConfigureInput mode := by
  cases mode <;> exact ⟨⟨rfl, rfl, by decide⟩, by decide⟩

theorem ClaimRun.Inv.input (h : c.Inv outs) (i : Interlock.Input) : (c.input i).Inv outs := by
  have hin : ∀ mode, (c.next (halPinClaim c.claims i.physId mixedIlSlot mode)).Inv outs :=
    fun mode => h.next (Or.inr (configures_input mode).1)
      (fun hmem => absurd hmem (configures_input mode).2) (halPinClaim_result i.physId mode)
  unfold ClaimRun.input
  split
  next => exact h
  next =>
    split
    next => exact h
    next => exact h.next (Or.inl rfl) (fun hmem => by cases hmem) (halPinClaimAdc_result ..)
    next => exact hin _
    next => exact hin _
    next => exact hin _
    next => exact ⟨h.ofMixed, h.dir, h.mux, h.unmuxed, h.output⟩

theorem ClaimRun.Inv.claimOutput (h : c.Inv outs) {o : Interlock.Output} (ho : o.physId ∈ outs) :
    (c.output o).Inv outs := by
  unfold ClaimRun.output
  split
  next => exact h
  next =>
    exact h.next (Or.inr ⟨rfl, rfl, by decide⟩) (fun _ => ho)
      (halPinClaimOutput_result h.ofMixed ..)

theorem foldl_inv {ι : Type} {f : ClaimRun → ι → ClaimRun} (is : List ι)
    (hf : ∀ c, c.Inv outs → ∀ i ∈ is, (f c i).Inv outs) (h : c.Inv outs) :
    (is.foldl f c).Inv outs := by
  induction is generalizing c with
  | nil => exact h
  | cons i is ih =>
      exact ih (fun c hc j hj => hf c hc j (List.mem_cons_of_mem i hj))
        (hf c h i List.mem_cons_self)

/-- The claims of an interlock, before a failed run is taken back. -/
theorem claims_inv (h : claims.Free) (inst : Interlock.Inst) :
    (inst.outputs.foldl ClaimRun.output (inst.inputs.foldl ClaimRun.input { claims })).Inv
      (inst.outputs.map (·.physId)) := by
  refine foldl_inv _ (fun c hc o ho => hc.claimOutput (List.mem_map_of_mem ho)) ?_
  refine foldl_inv _ (fun c hc i _ => hc.input i) ?_
  refine ⟨h.ofMixed, ?_, ?_, ?_, ?_⟩
  all_goals
    intro w hw
    cases hw

theorem freedBy_iff (h : claims.OfMixed) (phys : Nat) :
    (claims phys).freedBy mixedIlSlot = true ↔ (claims phys).slotMask ≠ 0 := by
  unfold ClaimRecord.freedBy
  rcases h phys with hmask | ⟨hmask, _⟩
  · rw [hmask]
    decide
  · rw [hmask]
    decide

theorem release_free (h : claims.OfMixed) : (halPinReleaseSlot claims mixedIlSlot).1.Free := by
  intro phys
  show (if phys < claimTableSize then (claims phys).release mixedIlSlot else claims phys).slotMask = 0
  split
  next =>
    have hrest : ((claims phys).release mixedIlSlot).slotMask =
        (claims phys).slotMask &&& ~~~claimBit mixedIlSlot := by
      unfold ClaimRecord.release
      dsimp only
      split <;> rfl
    rw [hrest]
    rcases h phys with hmask | ⟨hmask, _⟩
    · rw [hmask]
      decide
    · rw [hmask]
      decide
  next hphys => exact (h phys).resolve_right fun hheld => hphys hheld.2

theorem phys_lt (p : Pin) : p.phys < claimTableSize := by
  have hgroup := p.group.isLt
  have hpin := p.pin.isLt
  unfold Pin.phys claimTableSize
  omega

/-- A release makes the freed pads safe and touches no other. -/
theorem opsAt_release (claims : Claims) (slot : Nat) (q : Pin) :
    opsAt (halPinReleaseSlot claims slot).2 q =
      if (claims q.phys).freedBy slot then portResetToSafe else [] := by
  have hinj : Function.Injective fun phys : Fin claimTableSize => Pin.ofPhys phys := by
    intro phys phys' heq
    refine Fin.ext ?_
    rw [← phys_ofPhys phys.isLt, ← phys_ofPhys phys'.isLt]
    exact congrArg Pin.phys heq
  have heach := opsAt_each hinj
    (fun phys => if (claims phys).freedBy slot then portResetToSafe else [])
    (List.nodup_finRange _) (List.mem_finRange ⟨q.phys, phys_lt q⟩)
  rw [show Pin.ofPhys q.phys = q from ofPhys_phys q] at heach
  refine Eq.trans ?_ heach
  unfold halPinReleaseSlot
  rw [← List.map_coe_finRange_eq_range, List.flatMap_map]

/-- What the claims of an interlock write to a pad. -/
structure Settles (ops : List PortOp) : Prop where
  dir : ∀ w ∈ ops, (opsAt ops w.pin).any PadOp.setsDir = true
  mux : ∀ w ∈ ops, (opsAt ops w.pin).any PadOp.setsMux = true
  unmuxed : ∀ w ∈ ops, w.op ≠ .pmuxen true

theorem settles_claims (h : claims.Free) (inst : Interlock.Inst) :
    Settles (mixedClaimPins inst claims).ops := by
  have hinv := claims_inv h inst
  unfold mixedClaimPins
  dsimp only
  generalize inst.outputs.foldl ClaimRun.output _ = c at hinv ⊢
  split
  next => exact ⟨hinv.dir, hinv.mux, hinv.unmuxed⟩
  next =>
    have hfreed : ∀ w ∈ (halPinReleaseSlot c.claims mixedIlSlot).2,
        opsAt (halPinReleaseSlot c.claims mixedIlSlot).2 w.pin = portResetToSafe := by
      intro w hw
      have hmem : w.op ∈ opsAt (halPinReleaseSlot c.claims mixedIlSlot).2 w.pin := mem_opsAt.mpr hw
      rw [opsAt_release] at hmem ⊢
      split at hmem
      next hfreed => exact if_pos hfreed
      next => cases hmem
    refine ⟨fun w hw => ?_, fun w hw => ?_, fun w hw => ?_⟩
    · show (opsAt (c.ops ++ _) w.pin).any _ = true
      rw [opsAt_append, List.any_append, Bool.or_eq_true]
      rcases List.mem_append.mp hw with hw | hw
      · exact Or.inl (hinv.dir w hw)
      · exact Or.inr (by rw [hfreed w hw]; rfl)
    · show (opsAt (c.ops ++ _) w.pin).any _ = true
      rw [opsAt_append, List.any_append, Bool.or_eq_true]
      rcases List.mem_append.mp hw with hw | hw
      · exact Or.inl (hinv.mux w hw)
      · exact Or.inr (by rw [hfreed w hw]; rfl)
    · rcases List.mem_append.mp hw with hw | hw
      · exact hinv.unmuxed w hw
      · have hmem : w.op ∈ portResetToSafe := hfreed w hw ▸ mem_opsAt.mpr hw
        rintro heq
        rw [heq] at hmem
        revert hmem
        decide

theorem exec_dir_false {pops : List PadOp} {pad : Pad} (h : .dirSet ∉ pops)
    (hpad : pad.dir = false) : (pad.exec pops).dir = false := by
  induction pops generalizing pad with
  | nil => exact hpad
  | cons op pops ih =>
      obtain ⟨hop, hpops⟩ := List.ne_and_not_mem_of_not_mem_cons h
      refine ih hpops ?_
      cases op <;> first | rfl | exact hpad | exact absurd rfl hop

/-- Only an output of an armed interlock is driven. -/
theorem claims_dir (h : claims.Free) (inst : Interlock.Inst) {q : Pin}
    (hout : (mixedClaimPins inst claims).status = .ok →
      ∀ o ∈ inst.outputs, Pin.ofPhys o.physId ≠ q) {pad : Pad} (hpad : pad.dir = false) :
    (pad.exec (opsAt (mixedClaimPins inst claims).ops q)).dir = false := by
  have hinv := claims_inv h inst
  unfold mixedClaimPins at hout ⊢
  dsimp only at hout ⊢
  generalize inst.outputs.foldl ClaimRun.output _ = c at hinv hout ⊢
  have hset : .dirSet ∈ opsAt c.ops q → (c.claims q.phys).slotMask ≠ 0 ∧
      ∃ o ∈ inst.outputs, Pin.ofPhys o.physId = q := by
    intro hmem
    obtain ⟨hheld, phys, hphys, hpin⟩ := hinv.output _ (mem_opsAt.mp hmem) rfl
    obtain ⟨o, ho, rfl⟩ := List.mem_map.mp hphys
    exact ⟨hheld, o, ho, hpin⟩
  split
  next hok =>
    rw [if_pos hok] at hout
    refine exec_dir_false (fun hmem => ?_) hpad
    obtain ⟨_, o, ho, hpin⟩ := hset hmem
    exact hout hok o ho hpin
  next =>
    show (pad.exec (opsAt (c.ops ++ _) q)).dir = false
    rw [opsAt_append, pad_exec_append, opsAt_release]
    split
    next => rfl
    next hheld =>
      show (pad.exec (opsAt c.ops q)).dir = false
      refine exec_dir_false (fun hmem => ?_) hpad
      exact hheld ((freedBy_iff hinv.ofMixed _).mpr (hset hmem).1)

theorem mixedClaimPins_ofMixed (h : claims.Free) (inst : Interlock.Inst) :
    (mixedClaimPins inst claims).claims.OfMixed := by
  have hinv := claims_inv h inst
  unfold mixedClaimPins
  dsimp only
  split
  next => exact hinv.ofMixed
  next => exact (release_free hinv.ofMixed).ofMixed

end Claims

/-! ## Parsed texts -/

section Parsed

variable {inst : Inst} {file : List Byte} {adcMode : Bool}

theorem ilParse_eq_some (h : ilParse adcMode file = some inst) :
    Interlock.ilParseImpl samd21 adcMode (file.map fun b => Char.ofNat b.toNat) = .ok inst := by
  unfold ilParse at h
  split at h
  next hparse =>
    split at h
    · cases h
      exact hparse
    · cases h
  next => cases h

theorem ilParse_wellFormed (h : ilParse false file = some inst) : inst.WellFormed :=
  Interlock.ilParseImpl_wellFormed (ilParse_eq_some h)

theorem ilParse_resolved (h : ilParse adcMode file = some inst) : inst.Resolved samd21 adcMode :=
  Interlock.ilParseImpl_resolved (ilParse_eq_some h)

/-- The pins of the board are those of the bench. -/
theorem hasPin_bench {phys : Nat} (h : samd21.HasPin phys) :
    ∃ idx, phys = (benchPad idx).phys := by
  obtain ⟨label, bp, hbp, rfl⟩ := h
  obtain ⟨idx, -, rfl⟩ := Option.map_eq_some_iff.mp hbp
  exact ⟨idx, rfl⟩

end Parsed

/-! ## Outside the modes that drive and claim -/

/-- The interlock of the expander is none yet, or that of a text. -/
def Pio.Parsed (r : Pio) : Prop := r.il = {} ∨ ∃ file, ilParse false file = some r.il

structure Chip.Inv (c : Chip) : Prop where
  safe : c.mode ≠ .pio → c.pio.Safe
  parsed : c.pio.Parsed
  free : c.mode ≠ .mixed → c.claims.Free
  ofMixed : c.claims.OfMixed
  timer : c.mode ≠ .servo → c.servo.tc.running = false
  bench : c.mode ≠ .servo → c.mode ≠ .counter → c.bench.active = false

section Steps

variable {c c' : Chip} {e : ChipEvent} {m : Mode}

theorem manualReset_wiring (r : Pio) (snap : Snapshot) (w : World) :
    (r.manualReset snap w).1.wiring = r.wiring := by
  unfold Pio.manualReset
  split <;> rfl

theorem ackFlags_claims (c : Chip) (val : Byte) : (c.ackFlags val).claims = c.claims := by
  unfold Chip.ackFlags
  dsimp only
  split_ifs <;> rfl

theorem mixedPads_claims (c : Chip) : c.mixedPads.claims = c.claims := by
  unfold Chip.mixedPads
  dsimp only
  split <;> rfl

/-- What an event that keeps the mode keeps. -/
structure Chip.Keeps (c c' : Chip) : Prop where
  wiring : c.mode ≠ .pio → c'.pio.wiring = c.pio.wiring
  il : c'.pio.il = c.pio.il
  claims : c'.claims = c.claims
  timer : c'.servo.tc.running = true → c.servo.tc.running = true
  active : c'.bench.active = c.bench.active

theorem manualReset_il (r : Pio) (snap : Snapshot) (w : World) :
    (r.manualReset snap w).1.il = r.il := by
  unfold Pio.manualReset
  split <;> rfl

theorem ackFlags_servo (c : Chip) (val : Byte) : (c.ackFlags val).servo = c.servo := by
  unfold Chip.ackFlags
  dsimp only
  split_ifs <;> rfl

theorem pio_tick_il (r : Pio) (snap : Snapshot) (w : World) : (r.tick snap w).pio.il = r.il := by
  unfold Pio.tick
  split
  next => rfl
  next =>
    dsimp only
    split
    next => rfl
    next =>
      split
      next => rfl
      next => split_ifs <;> rfl

theorem servo_regWrite_tc (s : Servo) (b : Bench) (d : Dac) (levels : Pin → Bool)
    (reg val : Byte) : (s.regWrite b d levels reg val).1.tc = s.tc := by
  have hrun : ∀ start, (s.setRun levels start).1.tc = s.tc := fun start => by
    unfold Servo.setRun
    split_ifs <;> rfl
  unfold Servo.regWrite
  split_ifs <;> first | rfl | exact hrun _

theorem mc0_running (s : Servo) (port : Port) : (s.mc0 port).1.tc.running = s.tc.running := by
  unfold Servo.mc0
  dsimp only
  split_ifs <;> rfl

theorem mc1_running (s : Servo) (port : Port) : (s.mc1 port).1.tc.running = s.tc.running := by
  unfold Servo.mc1
  dsimp only
  split_ifs <;> rfl

/-- An event that leaves the parts of an invariant alone. -/
theorem Chip.Keeps.of_eq (hpio : c'.pio = c.pio) (hclaims : c'.claims = c.claims)
    (htc : c'.servo.tc.running = c.servo.tc.running) (hactive : c'.bench.active = c.bench.active) :
    c.Keeps c' :=
  ⟨fun _ => congrArg Pio.wiring hpio, congrArg Pio.il hpio, hclaims, fun h => htc ▸ h, hactive⟩

theorem servo_regWrite_active (s : Servo) (b : Bench) (d : Dac) (levels : Pin → Bool)
    (reg val : Byte) : (s.regWrite b d levels reg val).2.1.active = b.active := by
  unfold Servo.regWrite
  split_ifs <;> first | rfl | exact bench_regWrite_active ..

theorem counter_regWrite_active (r : Counter) (b : Bench) (d : Dac) (reg val : Byte) :
    (r.regWrite b d reg val).2.1.active = b.active := by
  unfold Counter.regWrite
  split_ifs <;> first | rfl | exact bench_regWrite_active ..

theorem ackFlags_bench (c : Chip) (val : Byte) : (c.ackFlags val).bench = c.bench := by
  unfold Chip.ackFlags
  dsimp only
  split_ifs <;> rfl

theorem bankWrite_keeps (c : Chip) (reg val : Byte) : c.Keeps (c.bankWrite reg val) := by
  unfold Chip.bankWrite
  split
  next => exact .of_eq rfl rfl rfl rfl
  next =>
    split
    case h_2 hmode =>
      refine ⟨fun hne => absurd hmode hne, ?_, rfl, fun h => h, rfl⟩
      show (c.pio.regWrite c.world reg val).1.il = c.pio.il
      unfold Pio.regWrite
      split_ifs <;> rfl
    case h_5 =>
      have htc := servo_regWrite_tc c.servo c.bench c.dac c.world.levels reg val
      exact .of_eq rfl rfl (congrArg Tc4.running htc) (servo_regWrite_active ..)
    case h_6 => exact .of_eq rfl rfl rfl (counter_regWrite_active ..)
    all_goals exact .of_eq rfl rfl rfl rfl

/-- An event that keeps the mode claims no pin, starts no frame, and wires nothing outside
GPIO mode. -/
theorem next_keeps (c : Chip) (e : ChipEvent) (hmode : (c.next e).mode = c.mode) :
    c.Keeps (c.next e) := by
  cases e with
  | world | service => exact .of_eq rfl rfl rfl rfl
  | benchTick => exact .of_eq rfl rfl rfl (bench_tick_active ..)
  | pioTick =>
      show c.Keeps c.pioTick
      by_cases hpio : c.mode = .pio
      · unfold Chip.pioTick Chip.pioTickStart
        rw [if_pos hpio]
        exact ⟨fun hne => absurd hpio hne, pio_tick_il .., rfl, fun h => h, rfl⟩
      · rw [pioTick_of_ne hpio]
        exact .of_eq rfl rfl rfl rfl
  | adcTick =>
      show c.Keeps c.adcTick
      unfold Chip.adcTick
      split <;> exact .of_eq rfl rfl rfl rfl
  | mixedTick =>
      show c.Keeps c.mixedTick
      unfold Chip.mixedTick
      split <;> exact .of_eq rfl rfl rfl rfl
  | servoTick =>
      show c.Keeps c.servoTick
      unfold Chip.servoTick
      split_ifs <;> exact .of_eq rfl rfl rfl rfl
  | mc0 =>
      show c.Keeps c.mc0
      unfold Chip.mc0
      split
      next => exact .of_eq rfl rfl (mc0_running c.servo c.port) rfl
      next => exact .of_eq rfl rfl rfl rfl
  | mc1 =>
      show c.Keeps c.mc1
      unfold Chip.mc1
      split
      next => exact .of_eq rfl rfl (mc1_running c.servo c.port) rfl
      next => exact .of_eq rfl rfl rfl rfl
  | goOffline =>
      -- offline is idle, and leaving idle does nothing
      have hidle : c.mode = .idle := hmode.symm
      have hleave : c.modeLeave c.mode = c := by
        rw [hidle]
        rfl
      refine ⟨fun _ => ?_, ?_, ?_, fun h => Bool.noConfusion h, ?_⟩
      · exact congrArg (·.pio.wiring) hleave
      · exact congrArg (·.pio.il) hleave
      · exact congrArg (·.claims) hleave
      · exact congrArg (·.bench.active) hleave
  | regWrite reg val =>
      have hstep := regStep_cases c reg val
      change (c.regWrite reg val).mode = c.mode at hmode
      change c.Keeps (c.regWrite reg val)
      generalize c.regWrite reg val = c' at hstep hmode ⊢
      cases hstep with
      | bank => exact bankWrite_keeps c reg val
      | keep => exact .of_eq rfl rfl rfl rfl
      | switch m _ _ hne =>
          rw [modeEnter_mode] at hmode
          exact absurd hmode hne
      | ack =>
          have hservo : (c.ackFlags val).servo = c.servo := ackFlags_servo c val
          have hbench : (c.ackFlags val).bench.active = c.bench.active :=
            congrArg Bench.active (ackFlags_bench c val)
          have hpio := ackFlags_pio c val
          split at hpio
          next =>
            exact ⟨fun _ => hpio ▸ manualReset_wiring .., hpio ▸ manualReset_il ..,
              ackFlags_claims c val, fun h => hservo ▸ h, hbench⟩
          next => exact .of_eq hpio (ackFlags_claims c val) (congrArg (·.tc.running) hservo) hbench
      | client => exact .of_eq rfl rfl rfl rfl

/-! ## The parsed interlock -/

theorem arm_parsed {r : Pio} (h : r.Parsed) (file : Option (List Byte)) :
    (r.arm file).1.Parsed := by
  unfold Pio.arm
  dsimp only
  split
  next => exact h
  next => exact h
  next bytes _ =>
    split
    next inst hparse => exact Or.inr ⟨bytes, hparse⟩
    next => exact h

theorem gpmpApply_il (r : Pio) (file : Option (List Byte)) : (r.gpmpApply file).il = r.il := by
  unfold Pio.gpmpApply
  split
  next =>
    dsimp only
    split_ifs <;> rfl
  next => rfl

theorem modeLeave_parsed (h : c.pio.Parsed) (m : Mode) : (c.modeLeave m).pio.Parsed := by
  cases m <;> exact h

theorem modeEnter_parsed (h : c.pio.Parsed) (m : Mode) : (c.modeEnter m).pio.Parsed := by
  cases m
  case pio =>
    have hfile : (c.pio.gpmpApply (c.file gpmpName)).Parsed := by
      unfold Pio.Parsed
      rwa [gpmpApply_il]
    exact arm_parsed (r := (c.pio.gpmpApply (c.file gpmpName)).sampleInputs c.world) hfile _
  case mixed =>
    show c.mixedPads.pio.Parsed
    rwa [mixedPads_pio]
  all_goals exact h

/-! ## The frame timer -/

theorem modeLeave_timer (h : c.mode ≠ .servo → c.servo.tc.running = false) :
    (c.modeLeave c.mode).servo.tc.running = false := by
  cases hmode : c.mode
  case servo => rfl
  all_goals exact h (by simp [hmode])

theorem modeEnter_timer (hm : m ≠ .servo) (h : c.servo.tc.running = false) :
    (c.modeEnter m).servo.tc.running = false := by
  cases m
  case servo => exact absurd rfl hm
  case mixed =>
    have hpads : c.mixedPads.servo = c.servo := by
      unfold Chip.mixedPads
      dsimp only
      split <;> rfl
    exact (congrArg (·.tc.running) hpads).trans h
  all_goals exact h

/-! ## The bench tools -/

theorem modeLeave_active (h : c.mode ≠ .servo → c.mode ≠ .counter → c.bench.active = false) :
    (c.modeLeave c.mode).bench.active = false := by
  cases hmode : c.mode
  case servo => rfl
  case counter => rfl
  all_goals exact h (by simp [hmode]) (by simp [hmode])

theorem modeEnter_active (hservo : m ≠ .servo) (hcounter : m ≠ .counter)
    (h : c.bench.active = false) : (c.modeEnter m).bench.active = false := by
  cases m
  case servo => exact absurd rfl hservo
  case counter => exact absurd rfl hcounter
  case mixed =>
    have hpads : c.mixedPads.bench = c.bench := by
      unfold Chip.mixedPads
      dsimp only
      split <;> rfl
    exact (congrArg Bench.active hpads).trans h
  all_goals exact h

theorem modeLeave_safe (h : c.Inv) : (c.modeLeave c.mode).pio.Safe := by
  cases hmode : c.mode
  case pio => exact ⟨rfl, rfl, rfl, rfl, rfl⟩
  all_goals exact h.safe (by simp [hmode])

theorem modeLeave_free (h : c.Inv) : (c.modeLeave c.mode).claims.Free := by
  cases hmode : c.mode
  case mixed => exact release_free h.ofMixed
  all_goals exact h.free (by simp [hmode])

theorem modeEnter_safe (hm : m ≠ .pio) (h : c.pio.Safe) : (c.modeEnter m).pio.Safe := by
  cases m
  case pio => exact absurd rfl hm
  case mixed =>
    show c.mixedPads.pio.Safe
    rwa [mixedPads_pio]
  all_goals exact h

theorem mixed_arm_ofMixed {claims : Claims} (h : claims.Free) (m : Mixed)
    (file : Option (List Byte)) (w : World) : (m.arm claims file w).2.1.OfMixed := by
  unfold Mixed.arm
  dsimp only
  split
  next => exact h.ofMixed
  next => exact h.ofMixed
  next =>
    split
    next => exact h.ofMixed
    next =>
      split
      next => exact h.ofMixed
      next => exact mixedClaimPins_ofMixed h _

theorem modeEnter_free (hm : m ≠ .mixed) (h : c.claims.Free) : (c.modeEnter m).claims.Free := by
  cases m
  case mixed => exact absurd rfl hm
  all_goals exact h

theorem modeEnter_ofMixed (m : Mode) (h : c.claims.Free) : (c.modeEnter m).claims.OfMixed := by
  cases m
  case mixed =>
    have hfree : c.mixedPads.claims.Free := mixedPads_claims c ▸ h
    exact mixed_arm_ofMixed hfree c.mixedPads.mixed (c.mixedPads.file ilcfName) c.mixedPads.world
  all_goals exact h.ofMixed

theorem Chip.Inv.next (h : c.Inv) (e : ChipEvent) : (c.next e).Inv := by
  have hkeeps := next_keeps c e
  generalize hnext : c.next e = c' at hkeeps
  have hstep : ModeStep c c' := hnext ▸ next_modeStep c e
  cases hstep with
  | same hmode =>
      have hkept := hkeeps hmode
      refine ⟨fun hne => ?_, ?_, fun hne => ?_, ?_, fun hne => ?_, fun hservo hcounter => ?_⟩
      · rw [hmode] at hne
        exact safe_iff.mpr ((hkept.wiring hne).trans (safe_iff.mp (h.safe hne)))
      · unfold Pio.Parsed
        rw [hkept.il]
        exact h.parsed
      · rw [hkept.claims]
        exact h.free (hmode ▸ hne)
      · rw [hkept.claims]
        exact h.ofMixed
      · refine Bool.eq_false_of_not_eq_true fun hrun => ?_
        exact absurd ((h.timer (hmode ▸ hne)).symm.trans (hkept.timer hrun)) Bool.false_ne_true
      · rw [hkept.active]
        exact h.bench (hmode ▸ hservo) (hmode ▸ hcounter)
  | offline =>
      exact ⟨fun _ => modeLeave_safe h, modeLeave_parsed h.parsed _, fun _ => modeLeave_free h,
        (modeLeave_free h).ofMixed, fun _ => rfl, fun _ _ => modeLeave_active h.bench⟩
  | switch m =>
      have hparsed : ({ c.modeLeave c.mode with mode := m } : Chip).pio.Parsed :=
        modeLeave_parsed h.parsed _
      refine ⟨fun hm => ?_, modeEnter_parsed hparsed m, fun hm => ?_,
        modeEnter_ofMixed m (modeLeave_free h), fun hm => ?_, fun hservo hcounter => ?_⟩
      · rw [modeEnter_mode] at hm
        exact modeEnter_safe hm (modeLeave_safe h)
      · rw [modeEnter_mode] at hm
        exact modeEnter_free hm (modeLeave_free h)
      · rw [modeEnter_mode] at hm
        exact modeEnter_timer hm (modeLeave_timer h.timer)
      · rw [modeEnter_mode] at hservo hcounter
        exact modeEnter_active hservo hcounter (modeLeave_active h.bench)

theorem chip_inv (cfg : Config.Client) (es : List ChipEvent) :
    (run Chip.next (.powerOn cfg) es).Inv := by
  refine Runs.run_invariant (fun _ e h => h.next e) ⟨fun _ => ?_, Or.inl rfl, fun _ _ => rfl,
    fun _ => Or.inl rfl, fun _ => rfl, fun _ _ => rfl⟩
  exact ⟨rfl, rfl, rfl, rfl, rfl⟩

end Steps

/-! ## The pads left -/

/-- Whether the mode leaves the pad an output. -/
def Chip.leavesOutput (c : Chip) (ch : Fin 9) : Bool :=
  (c.port (channelPad ch)).dir &&
    match c.mode with
    | .pio => false
    | .mixed => decide (ch ≠ 8) && !(c.claims (channelPad ch).phys).freedBy mixedIlSlot
    | _ => true

/-- Whether the mode leaves D0 the output of the converter. -/
def Chip.leavesRouted (c : Chip) : Bool :=
  (c.port dacPad).pmuxen &&
    match c.mode with
    | .pio => false
    | .mixed => c.dac.eoen && !(c.claims dacPad.phys).freedBy mixedIlSlot
    | .servo | .counter => true
    | _ => c.dac.eoen

section Leave

variable {c : Chip} {ch : Fin 9}

theorem leave_pio_pad (c : Chip) (ch : Fin 9) :
    ((c.modeLeave .pio).port (channelPad ch)).dir = false ∧
      ((c.modeLeave .pio).port (channelPad ch)).pmuxen = false := by
  have hport : (c.modeLeave .pio).port = (c.port.exec (pioIntAssert false)).exec
      ((List.finRange 8).flatMap (fun ch => (bankPad ch).on [.dirClr, .pincfg true false]) ++
        intPad.on []) := by
    rw [Pin.on, List.map_nil, List.append_nil, ← exec_append]
    rfl
  rw [hport, exec_bank]
  split
  next => exact ⟨rfl, rfl⟩
  next h =>
    rw [channelPad_last h, pioIntAssert, exec_on]
    exact ⟨rfl, rfl⟩

theorem leave_mixed_pad (c : Chip) (ch : Fin 9) :
    (c.modeLeave .mixed).port (channelPad ch) = (c.port (channelPad ch)).exec
      ((if ch = 8 then [.dirClr, .outSet, .pincfg true true] else []) ++
        if (c.claims (channelPad ch).phys).freedBy mixedIlSlot then portResetToSafe else []) := by
  have hport : (c.modeLeave .mixed).port = c.port.exec ((channelPad 8).on
      [.dirClr, .outSet, .pincfg true true] ++ (halPinReleaseSlot c.claims mixedIlSlot).2) := rfl
  rw [hport, exec_append, exec_opsAt, opsAt_release, exec_channel, pad_exec_append]

theorem leave_servo_pad (c : Chip) (ch : Fin 9) :
    ((c.modeLeave .servo).port (channelPad ch)).dir = (c.port (channelPad ch)).dir ∧
      ((c.modeLeave .servo).port (channelPad ch)).pmuxen = (c.port (channelPad ch)).pmuxen := by
  have hport : (c.modeLeave .servo).port = c.port.exec servoAllLow := rfl
  rw [hport]
  exact exec_preserves (P := fun pad => pad.dir = _ ∧ pad.pmuxen = _)
    (fun w hw _ pad hpad => by rw [mem_servoAllLow hw]; exact hpad) ⟨rfl, rfl⟩

theorem modeLeave_dir (c : Chip) (ch : Fin 9) :
    ((c.modeLeave c.mode).port (channelPad ch)).dir = c.leavesOutput ch := by
  unfold Chip.leavesOutput
  cases hmode : c.mode with
  | idle | adc | counter => exact (Bool.and_true _).symm
  | pio => exact (leave_pio_pad c ch).1.trans (Bool.and_false _).symm
  | servo => exact (leave_servo_pad c ch).1.trans (Bool.and_true _).symm
  | mixed =>
      rw [leave_mixed_pad]
      by_cases hch : ch = 8
      · rw [if_pos hch]
        split <;> simp [hch, Pad.exec, PadOp.apply, portResetToSafe]
      · rw [if_neg hch]
        split
        next hfreed => simp [hfreed, Pad.exec, PadOp.apply, portResetToSafe]
        next hfreed => simp [hfreed, hch, Pad.exec]

theorem modeLeave_routed (c : Chip) :
    ((c.modeLeave c.mode).dac.eoen && ((c.modeLeave c.mode).port dacPad).pmuxen) =
      c.leavesRouted := by
  have hpio := (leave_pio_pad c 0).2
  have hservo := (leave_servo_pad c 0).2
  have hmixed := leave_mixed_pad c 0
  unfold Chip.leavesRouted
  cases hmode : c.mode with
  | idle | adc => exact Bool.and_comm ..
  | counter => exact (Bool.true_and _).trans (Bool.and_true _).symm
  | pio =>
      refine (congrArg (_ && ·) hpio).trans ?_
      simp
  | servo =>
      refine (congrArg (_ && ·) hservo).trans ?_
      exact (Bool.true_and _).trans (Bool.and_true _).symm
  | mixed =>
      have hpad : ((c.modeLeave .mixed).port dacPad).pmuxen =
          ((c.port dacPad).pmuxen && !(c.claims dacPad.phys).freedBy mixedIlSlot) := by
        refine (congrArg Pad.pmuxen hmixed).trans ?_
        by_cases hfreed : (c.claims dacPad.phys).freedBy mixedIlSlot = true
        · have hfreed₀ : (c.claims (channelPad 0).phys).freedBy mixedIlSlot = true := hfreed
          rw [if_neg (by decide), if_pos hfreed₀, hfreed]
          simp [Pad.exec, PadOp.apply, portResetToSafe]
        · have hfreed₀ : ¬ (c.claims (channelPad 0).phys).freedBy mixedIlSlot = true := hfreed
          rw [if_neg (by decide), if_neg hfreed₀, Bool.eq_false_of_not_eq_true hfreed]
          exact (Bool.and_true _).symm
      rw [hpad]
      show (c.dac.eoen && _) = _
      rw [Bool.and_left_comm]

end Leave

end SlowBus.Modes
