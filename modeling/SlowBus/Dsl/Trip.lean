import SlowBus.Dsl.Firmware
import SlowBus.Modes.Tripped

/-!
# A unit at work

The files of a GPIO unit are stored on a chip, and the chip enters GPIO mode. From then on its
latch is that of a monitor that evaluates the expression of the unit, as it was written, on the
levels of the pads at each tick; and a tick that leaves it latched drives the pads of the
outputs to the opposite of the levels that were asked for.
-/

namespace SlowBus.Dsl

open Bus (Byte)
open Fallible
open Interlock (Inst Output Ascii)
open Modes
open Runs (run Along)

/-! ## The condition of a tick -/

/-- The levels of the pads under their labels. -/
def padLevels (w : World) : Env := fun label => if w.levels (.ofPhys (padPhys label)) then 1 else 0

section Condition

variable {inst : Inst} {groups : List (List Clause)} {drive : List (Text × Nat)}

theorem compare_holds (op : Op) (n t : Nat) : op.compare.holds n t = op.holds n t := by
  rw [Bool.eq_iff_iff]
  cases op <;>
    simp only [Op.compare, Interlock.CompareOp.holds, Op.holds, beq_iff_eq, bne_iff_ne,
      decide_eq_true_eq] <;> omega

/-- The level that the chip reads for a label. -/
def labelLevel (w : World) (label : Text) : Nat :=
  if w.levels (.ofPhys ((samd21.pinOf label).getD 0)) then 1 else 0

/-- A watch compares the level of the pin that the comparison names. -/
theorem pioWatchPass_denotes (w : World) {watch : Interlock.Watch} {x : Nat × Interlock.Clause}
    (h : Interlock.Denotes samd21 inst watch x) :
    pioWatchPass inst w watch = x.2.op.holds (labelLevel w x.2.label) x.2.value := by
  obtain ⟨-, hop, hthr, pin, hpin, hidx⟩ := h
  obtain ⟨hlt, hfound, -⟩ := List.findIdx?_eq_some_iff_getElem.mp hidx
  have hread : (inst.inputs[watch.inputIdx]?).elim 0 (·.physId) = pin := by
    rw [List.getElem?_eq_getElem hlt]
    exact eq_of_beq hfound
  unfold pioWatchPass labelLevel
  dsimp only
  rw [hread, hop, hthr, hpin, Option.getD_some]

theorem read_holds (w : World) {c : Clause} (hbank : c.operand ∈ bankPins) :
    c.read.op.holds (labelLevel w c.read.label) c.read.value = c.holds (padLevels w) := by
  obtain ⟨bp, hlookup, hphys⟩ := bankPins_lookup hbank
  have hpin : (samd21.pinOf c.operand).getD 0 = padPhys c.operand := by
    rw [Interlock.Board.pinOf, if_neg (bankPins_words _ hbank).2, hlookup]
    exact hphys
  have hlevel : (labelLevel w c.operand : Int) = padLevels w c.operand := by
    rw [labelLevel, padLevels, hpin]
    split <;> rfl
  refine (compare_holds c.op _ c.thr).trans ?_
  rw [Clause.holds, ← hlevel]
  rfl

theorem lt_of_numbered {n group : Nat} {c : Interlock.Clause}
    {groups : List (List Interlock.Clause)} (h : (n, c) ∈ Interlock.numbered group groups) :
    n < group + groups.length := by
  obtain ⟨i, cs, hcs, rfl, -⟩ := Interlock.mem_numbered.mp h
  obtain ⟨hlt, -⟩ := List.getElem?_eq_some_iff.mp hcs
  omega

theorem Loaded.watches_ne (h : Loaded groups drive inst) : inst.watches ≠ [] := by
  obtain ⟨g, hg⟩ := List.exists_mem_of_ne_nil groups h.ne
  obtain ⟨c, hc⟩ := List.exists_mem_of_ne_nil g (h.inhab g hg)
  obtain ⟨i, hi⟩ := List.mem_iff_getElem?.mp (List.mem_map_of_mem hg)
  have hmem : (0 + i, c.read) ∈ Interlock.numbered 0 (groups.map fun g => g.map Clause.read) :=
    Interlock.mem_numbered.mpr ⟨i, _, hi, rfl, List.mem_map_of_mem hc⟩
  intro hnil
  have hlen := h.watches.length_eq
  rw [hnil] at hlen
  exact List.ne_nil_of_mem hmem (List.length_eq_zero_iff.mp hlen.symm)

/-- The condition of the chip is that of the groups, on the levels of the pads. -/
theorem pioCondition_loaded (h : Loaded groups drive inst) (w : World) :
    pioCondition inst w = some (groupsHold (padLevels w) groups) := by
  have hread : ∀ cs ∈ groups.map fun g => g.map Clause.read, cs ≠ [] := by
    intro cs hcs
    obtain ⟨g, hg, rfl⟩ := List.mem_map.mp hcs
    simpa using h.inhab g hg
  -- the scan over the groups ends, for their numbers are below 255
  have hsmall : ∀ watch ∈ inst.watches, watch.group < 255 := by
    refine (Interlock.forall_mem_iff_of_forall₂ (P := fun watch => watch.group < 255)
      (Q := fun x => x.1 < 255) h.watches fun watch x hx => by rw [hx.1]).mpr fun x hx => ?_
    have hlt := @lt_of_numbered x.1 0 x.2 _ hx
    have hle := h.length_le
    rw [List.length_map] at hlt
    omega
  obtain ⟨b, hb, hiff⟩ := Interlock.ilDnfResult_watches hsmall (pioWatchPass inst w)
  have hholds : b = true ↔ groupsHold (padLevels w) groups = true :=
    calc b = true
      _ ↔ (if b then Interlock.TfState.isTrue else .isFalse) = .isTrue := by cases b <;> simp
      _ ↔ ∃ g, (∃ watch ∈ inst.watches, watch.group = g) ∧
            ∀ watch ∈ inst.watches, watch.group = g → pioWatchPass inst w watch = true := by
          rw [hiff, or_iff_right h.watches_ne]
      _ ↔ ∃ g, (∃ x ∈ Interlock.numbered 0 (groups.map fun g => g.map Clause.read), x.1 = g) ∧
            ∀ x ∈ Interlock.numbered 0 (groups.map fun g => g.map Clause.read), x.1 = g →
              x.2.op.holds (labelLevel w x.2.label) x.2.value = true := by
          refine exists_congr fun g => and_congr ?_ ?_
          · exact Interlock.exists_mem_iff_of_forall₂ h.watches fun _ _ hx => by rw [hx.1]
          · exact Interlock.forall_mem_iff_of_forall₂ h.watches fun _ _ hx => by
              rw [hx.1, pioWatchPass_denotes w hx]
      _ ↔ ∃ cs ∈ groups.map fun g => g.map Clause.read,
            ∀ c ∈ cs, c.op.holds (labelLevel w c.label) c.value = true :=
          Interlock.exists_group_iff hread fun c =>
            c.op.holds (labelLevel w c.label) c.value = true
      _ ↔ ∃ g ∈ groups, ∀ c ∈ g, c.holds (padLevels w) = true := by
          simp only [List.mem_map, exists_exists_and_eq_and, forall_exists_index, and_imp,
            forall_apply_eq_imp_iff₂]
          refine exists_congr fun g => and_congr_right fun hg => forall₂_congr fun c hc => ?_
          rw [read_holds w (h.bank g hg c hc)]
      _ ↔ groupsHold (padLevels w) groups = true := by
          rw [groupsHold, evalTerms, List.any_eq_true]
          simp only [evalTerm, List.all_eq_true]
  rw [pioCondition, hb, Bool.eq_iff_iff.mpr hholds]

end Condition

/-! ## The monitor -/

/-- What the interlock of a unit is for: it remembers that its condition did not hold. -/
structure Monitor where
  world : World
  nextMs : BitVec 32
  tripped : Bool := false

def Monitor.due (m : Monitor) : Bool := gateOpen m.world.millis m.nextMs

/-- Only an acknowledgement by the master makes it forget. -/
def Monitor.next (safe : Env → Bool) (m : Monitor) : ChipEvent → Monitor
  | .world w => { m with world := w }
  | .pioTick =>
      if m.due then
        { m with
          nextMs := m.world.millis + 1
          tripped := m.tripped || !safe (padLevels m.world) }
      else m
  | .regWrite reg val =>
      if reg = regIntFlags ∧ val.getLsbD 0 then { m with tripped := false } else m
  | _ => m

/-! ## A tick that evaluates -/

section Tick

variable {r : Pio} {snap : Snapshot} {w : World} {ok : Bool}

theorem tick_closed (hgate : gateOpen w.millis r.ilNextMs = false) :
    r.tick snap w = { pio := r, snap } := by
  rw [Pio.tick, hgate]
  rfl

/-- What a tick with an open gate makes of an armed interlock, and its writes. -/
structure Evaluated (r : Pio) (w : World) (ok : Bool) (r' : Pio) (ops : List PortOp) : Prop where
  il : r'.il = r.il
  valid : r'.ilValid = true
  od : r'.od = r.od
  nextMs : r'.ilNextMs = w.millis + 1
  tripped : r'.ilTripped = (r.ilTripped || !ok)
  ops : r'.ilTripped = true → ops = r.driveSafe ∨ ops = r.driveSafe ++ pioIntAssert true

theorem tick_open (hgate : gateOpen w.millis r.ilNextMs = true) (hvalid : r.ilValid = true)
    (hcond : pioCondition r.il w = some ok) :
    Evaluated r w ok (r.tick snap w).pio (r.tick snap w).ops := by
  have hclosed : ¬ (!gateOpen w.millis r.ilNextMs) = true := by rw [hgate]; decide
  have harmed : ¬ (!r.ilValid) = true := by rw [hvalid]; decide
  unfold Pio.tick
  rw [if_neg hclosed]
  dsimp only [Pio.sampleInputs]
  rw [if_neg harmed, hcond]
  dsimp only
  split
  next htrip => exact ⟨rfl, hvalid, rfl, rfl, by rw [htrip]; rfl, fun _ => .inl rfl⟩
  next htrip =>
    have hfree : r.ilTripped = false := Bool.eq_false_of_not_eq_true htrip
    split
    next hok =>
      refine ⟨rfl, hvalid, rfl, rfl, ?_, fun h => absurd h htrip⟩
      rw [hok, hfree]
      rfl
    next hbad =>
      refine ⟨rfl, hvalid, rfl, rfl, ?_, fun _ => .inr rfl⟩
      rw [Bool.eq_false_of_not_eq_true hbad, hfree]
      rfl

end Tick

/-! ## The chip follows the monitor -/

section Follows

variable {inst : Inst} {od : Byte} {safe : Env → Bool} {c : Chip} {m : Monitor}

/-- A chip in GPIO mode with this interlock, and the latch of the monitor. -/
structure Follows (inst : Inst) (od : Byte) (c : Chip) (m : Monitor) : Prop where
  mode : c.mode = .pio
  il : c.pio.il = inst
  valid : c.pio.ilValid = true
  od : c.pio.od = od
  world : c.world = m.world
  nextMs : c.pio.ilNextMs = m.nextMs
  tripped : c.pio.ilTripped = m.tripped

/-- A chip that differs in what the monitor does not see. -/
theorem Follows.congr (h : Follows inst od c m) {c' : Chip} (hmode : c'.mode = c.mode)
    (hpio : c'.pio = c.pio) (hworld : c'.world = c.world) : Follows inst od c' m := by
  constructor
  · rw [hmode, h.mode]
  · rw [hpio, h.il]
  · rw [hpio, h.valid]
  · rw [hpio, h.od]
  · rw [hworld, h.world]
  · rw [hpio, h.nextMs]
  · rw [hpio, h.tripped]

theorem follows_tick (h : Follows inst od c m)
    (hcond : ∀ w, pioCondition inst w = some (safe (padLevels w))) :
    Follows inst od c.pioTick (m.next safe .pioTick) := by
  have hgate : m.due = gateOpen c.world.millis c.pio.ilNextMs := by
    rw [Monitor.due, h.world, h.nextMs]
  have hpio : c.pioTick.pio = (c.pio.tick c.snap c.world).pio := by
    rw [Chip.pioTick, write_pio, Chip.pioTickStart, if_pos h.mode]
  have hworld : c.pioTick.world = c.world := by
    rw [Chip.pioTick, write_world, Chip.pioTickStart, if_pos h.mode]
  unfold Monitor.next
  dsimp only
  rw [hgate]
  cases hopen : gateOpen c.world.millis c.pio.ilNextMs with
  | false =>
      rw [tick_closed hopen] at hpio
      exact h.congr (pioTick_mode c) hpio hworld
  | true =>
      have hcondition : pioCondition c.pio.il c.world = some (safe (padLevels m.world)) := by
        rw [h.il, h.world, hcond]
      have ht := @tick_open c.pio c.snap c.world _ hopen h.valid hcondition
      rw [← hpio] at ht
      refine ⟨(pioTick_mode c).trans h.mode, ht.il.trans h.il, ht.valid, ht.od.trans h.od,
        hworld.trans h.world, ?_, ?_⟩
      · rw [ht.nextMs, h.world]
        rfl
      · rw [ht.tripped, h.tripped]
        rfl

theorem follows_bank (h : Follows inst od c m) (reg val : Byte) :
    Follows inst od (c.bankWrite reg val) m := by
  unfold Chip.bankWrite
  split
  next => exact h.congr rfl rfl rfl
  next =>
    split
    case h_2 =>
      unfold Pio.regWrite
      split_ifs
      · exact ⟨h.mode, h.il, h.valid, h.od, h.world, h.nextMs, h.tripped⟩
      · exact ⟨h.mode, h.il, h.valid, h.od, h.world, h.nextMs, h.tripped⟩
      · exact h.congr rfl rfl rfl
    all_goals
      next hmode => cases hmode.symm.trans h.mode

theorem follows_ack (h : Follows inst od c m) (val : Byte) :
    Follows inst od (c.ackFlags val)
      (if val.getLsbD 0 then { m with tripped := false } else m) := by
  have hworld : (c.ackFlags val).world = c.world := by
    unfold Chip.ackFlags
    dsimp only
    split_ifs <;> rfl
  have hmode := (ackFlags_mode c val).trans h.mode
  have hpio := ackFlags_pio c val
  split
  next hbit =>
    rw [if_pos hbit] at hpio
    unfold Pio.manualReset at hpio
    split at hpio
    next =>
      have hreset : (c.ackFlags val).pio =
          { c.pio with ilTripped := false }.sampleInputs c.world := hpio
      refine ⟨hmode, ?_, ?_, ?_, hworld.trans h.world, ?_, ?_⟩
      all_goals rw [hreset]
      · exact h.il
      · exact h.valid
      · exact h.od
      · exact h.nextMs
      · rfl
    next hfree =>
      have hkept := h.congr (ackFlags_mode c val) hpio hworld
      have hclear : c.pio.ilTripped = false := Bool.eq_false_of_not_eq_true hfree
      exact ⟨hmode, hkept.il, hkept.valid, hkept.od, hkept.world, hkept.nextMs,
        (congrArg Pio.ilTripped hpio).trans hclear⟩
  next hbit =>
    rw [if_neg hbit] at hpio
    exact h.congr (ackFlags_mode c val) hpio hworld

theorem follows_regWrite (h : Follows inst od c m) {reg val : Byte}
    (hstays : (c.regWrite reg val).mode = .pio) :
    Follows inst od (c.regWrite reg val) (m.next safe (.regWrite reg val)) := by
  unfold Monitor.next
  unfold Chip.regWrite at hstays ⊢
  dsimp only
  split
  next hbank =>
    have hreg : reg ≠ regIntFlags := by
      rintro rfl
      exact absurd hbank.1 (by decide)
    rw [if_neg fun hack => hreg hack.1]
    exact follows_bank h reg val
  next hbank =>
    rw [if_neg hbank] at hstays
    split
    next hreg =>
      rw [if_pos hreg] at hstays
      rw [if_neg fun hack => absurd (hreg.symm.trans hack.1) (by decide)]
      cases hmode : Mode.ofByte val with
      | none => exact h
      | some mode =>
          rw [hmode] at hstays
          -- another mode would have been entered
          have hsame : mode = c.mode := by
            by_contra hne
            have hentered : (c.setMode mode).mode = mode := by
              unfold Chip.setMode
              rw [if_neg hne]
              exact modeEnter_mode _ _
            exact hne ((hentered.symm.trans hstays).trans h.mode.symm)
          have hset : c.setMode mode = c := if_pos hsame
          show Follows inst od (c.setMode mode) m
          rwa [hset]
    next =>
      split
      next hreg =>
        subst hreg
        have hack := follows_ack h val
        simpa only [true_and] using hack
      next hreg =>
        rw [if_neg fun hack => hreg hack.1]
        exact h.congr rfl rfl rfl

/-- An event that does not end GPIO mode. -/
theorem follows_next (h : Follows inst od c m)
    (hcond : ∀ w, pioCondition inst w = some (safe (padLevels w))) {e : ChipEvent}
    (hstays : (c.next e).mode = .pio) : Follows inst od (c.next e) (m.next safe e) := by
  cases e with
  | world w => exact ⟨h.mode, h.il, h.valid, h.od, rfl, h.nextMs, h.tripped⟩
  | service | benchTick => exact h.congr rfl rfl rfl
  | pioTick => exact follows_tick h hcond
  | adcTick =>
      show Follows inst od c.adcTick m
      rwa [adcTick_of_ne (by simp [h.mode])]
  | mixedTick =>
      show Follows inst od c.mixedTick m
      rwa [mixedTick_of_ne (by simp [h.mode])]
  | servoTick =>
      show Follows inst od c.servoTick m
      unfold Chip.servoTick
      rwa [if_neg (by simp [h.mode])]
  | mc0 =>
      show Follows inst od c.mc0 m
      unfold Chip.mc0
      split
      next => exact h.congr rfl rfl rfl
      next => exact h
  | mc1 =>
      show Follows inst od c.mc1 m
      unfold Chip.mc1
      split
      next => exact h.congr rfl rfl rfl
      next => exact h
  | goOffline => cases hstays
  | regWrite reg val => exact follows_regWrite h hstays

/-- While GPIO mode is not left. -/
theorem follows_run (h : Follows inst od c m)
    (hcond : ∀ w, pioCondition inst w = some (safe (padLevels w))) {es : List ChipEvent}
    (hstays : Along Chip.next (fun c e => (c.next e).mode = .pio) c es) :
    Follows inst od (run Chip.next c es) (run (Monitor.next safe) m es) := by
  induction es generalizing c m with
  | nil => exact h
  | cons e es ih => exact ih (follows_next h hcond hstays.1) hstays.2

end Follows

/-! ## The files on the chip -/

/-- `str.encode('ascii')`, none where it raises. -/
def encodeAscii (t : Text) : Option (List Byte) :=
  if t.all fun c => decide (c.toNat < 128) then some (t.map fun c => .ofNat 8 c.toNat) else none

/-- `bytes` of numbers below 256. -/
def bytesOf (ns : List Nat) : List Byte := ns.map (.ofNat 8)

section Stored

variable {t label : Text} {bytes : List Byte} {inst : Inst} {role : Role} {bits : GpmpBits}
  {u : SlaveUnit} {py : PyText} {ilcf : SlaveUnit → Except UnitError (Option Text)} {f : Files}

theorem encodeAscii_eq (h : Ascii t) : encodeAscii t = some (t.map fun c => .ofNat 8 c.toNat) :=
  if_pos (List.all_eq_true.mpr fun c hc => decide_eq_true (h c hc))

theorem decode_ascii (h : Ascii t) :
    (t.map fun c => BitVec.ofNat 8 c.toNat).map (fun b => Char.ofNat b.toNat) = t := by
  rw [List.map_map]
  conv_rhs => rw [← List.map_id t]
  refine List.map_congr_left fun c hc => ?_
  have hlt := h c hc
  have hbyte : (BitVec.ofNat 8 c.toNat).toNat = c.toNat := by
    rw [BitVec.toNat_ofNat]
    omega
  exact (congrArg Char.ofNat hbyte).trans c.ofNat_toNat

theorem ilParse_encoded (h : Ascii t) (hparse : Interlock.ilParseImpl samd21 false t = .ok inst)
    (hinputs : inst.inputs.length ≤ 4) :
    ilParse false (t.map fun c => .ofNat 8 c.toNat) = some inst := by
  rw [ilParse, decode_ascii h, hparse]
  exact if_pos hinputs

theorem gpmpPin_od (h : gpmpPin label role = .ok bits) :
    role.base ≠ .adc ∧ bits.od = decide (role.base = .oc) := by
  unfold gpmpPin at h
  split at h
  next heq =>
    rw [heq]
    dsimp only at h
    split_ifs at h
    all_goals exact ⟨by decide, by cases h; rfl⟩
  next heq =>
    rw [heq]
    split_ifs at h
    all_goals exact ⟨by decide, by cases h; rfl⟩
  next heq =>
    rw [heq]
    obtain ⟨pull, -, h⟩ := bind_eq_ok.mp h
    exact ⟨by decide, by cases h; rfl⟩
  next heq =>
    rw [heq]
    exact ⟨by decide, by cases h; rfl⟩
  next => cases h

/-- The file of the pads has a bit for each open-drain pin. -/
theorem gpmp_od (hmode : u.mode = .gpio) (hfiles : u.files py ilcf = .ok f)
    (hrole : u.roles.lookup label = some role) :
    role.base ≠ .adc ∧ ∃ (m : GpmpMap) (int i : Nat),
      f.gpmp = some [2, m.dir, m.pullen, m.out, m.od, int] ∧ bankPins[i]? = some label ∧
      m.od.testBit i = decide (role.base = .oc) := by
  obtain ⟨-, hencodes⟩ := files_encode hfiles
  have hmem : (label, role) ∈ u.roles := by
    obtain ⟨before, after, heq, -⟩ := List.lookup_eq_some_iff.mp hrole
    rw [heq]
    exact List.mem_append_right _ List.mem_cons_self
  have h := hencodes (label, role) hmem
  rw [hmode] at h
  obtain ⟨m, int, i, hfile, hi, hbits⟩ := h
  obtain ⟨hbase, hod⟩ := gpmpPin_od hbits
  exact ⟨hbase, m, int, i, hfile, hi, hod⟩

theorem onBank_of_files (hmode : u.mode = .gpio) (hfiles : u.files py ilcf = .ok f) :
    u.OnBank := by
  intro p role hrole
  obtain ⟨hbase, m, int, i, -, hi, -⟩ := gpmp_od hmode hfiles hrole
  exact ⟨List.mem_of_getElem? hi, hbase⟩

theorem bankAt_padPhys {i : Nat} (h : bankPins[i]? = some label) :
    ∃ hi : i < 8, bankAt (.ofPhys (padPhys label)) = some ⟨i, hi⟩ := by
  have hall : ∀ p ∈ bankPins.zipIdx,
      (bankAt (.ofPhys (padPhys p.1))).map Fin.val = some p.2 := by decide +kernel
  have hmem : (label, i) ∈ bankPins.zipIdx := List.mem_zipIdx_iff_getElem?.mpr h
  obtain ⟨ch, hch, rfl⟩ := Option.map_eq_some_iff.mp (hall _ hmem)
  exact ⟨ch.isLt, hch⟩

theorem bank_ne_int (h : label ∈ bankPins) : Pin.ofPhys (padPhys label) ≠ intPad := by
  revert label
  decide +kernel

end Stored

/-! ## Entering GPIO mode -/

section Enter

variable {c : Chip} {bytes : List Byte} {inst : Inst} {r : Pio}

theorem arm_parsed_eq (hparse : ilParse false bytes = some inst) (hwatches : inst.watches ≠ []) :
    (r.arm (some bytes)).1 =
      { r with il := inst, ilValid := true, ilTripped := false, ilState := 0 } := by
  have hvalid : (!inst.watches.isEmpty) = true := by simpa using hwatches
  unfold Pio.arm
  cases bytes with
  | nil => cases hparse
  | cons b bytes =>
      dsimp only
      rw [hparse]
      dsimp only
      rw [hvalid]

/-- The monitor that is started with the chip. -/
def Monitor.start (c : Chip) : Monitor := { world := c.world, nextMs := c.pio.ilNextMs }

theorem follows_enter {dir pullen out od int : Byte} (hmode : c.mode ≠ .pio)
    (hfile : c.file ilcfName = some bytes) (hparse : ilParse false bytes = some inst)
    (hwatches : inst.watches ≠ [])
    (hmap : c.file gpmpName = some [2, dir, pullen, out, od, int]) :
    Follows inst od (c.setMode .pio) (.start (c.setMode .pio)) := by
  have hcfg : ∀ m, (c.modeLeave m).cfg = c.cfg := fun m => by cases m <;> rfl
  have hset : c.setMode .pio = ({ c.modeLeave c.mode with mode := .pio }).enterPio :=
    if_neg fun h => hmode h.symm
  rw [hset]
  generalize hleft : ({ c.modeLeave c.mode with mode := .pio } : Chip) = left
  have hstore : ∀ name, left.file name = c.file name := fun name => by
    rw [← hleft, Chip.file, Chip.file, hcfg]
  have hpio : left.enterPio.pio =
      { (left.pio.gpmpApply (some [2, dir, pullen, out, od, int])).sampleInputs left.world with
        il := inst, ilValid := true, ilTripped := false, ilState := 0 } := by
    rw [← arm_parsed_eq hparse hwatches, ← hmap, ← hfile, ← hstore, ← hstore]
    rfl
  refine ⟨?_, ?_, ?_, ?_, rfl, rfl, ?_⟩
  · rw [← hleft]
    rfl
  all_goals rw [hpio]
  · rfl
  · rfl

end Enter

/-! ## What the pads do -/

/-- A tick that finds or leaves the interlock tripped drives its outputs. -/
theorem tick_drives {inst : Inst} {od : Byte} {safe : Env → Bool} {c : Chip} {m : Monitor}
    {file : List Byte} {o : Output} (h : Follows inst od c m)
    (hcond : ∀ w, pioCondition inst w = some (safe (padLevels w)))
    (hparse : ilParse false file = some inst) (hline : ∀ o ∈ inst.outputs, outPin o ≠ intPad)
    (hdue : m.due = true) (htrip : c.pioTick.pio.ilTripped = true) (ho : o ∈ inst.outputs) :
    (c.pioTick.port (outPin o)).drive = c.pio.errDrive o := by
  have hparsed : c.pio.Parsed := Or.inr ⟨file, by rw [h.il]; exact hparse⟩
  have hout : o ∈ c.pio.il.outputs := by rwa [h.il]
  have hspared : c.pio.LineSpared := by
    rw [Pio.LineSpared, h.il]
    exact fun o ho hpin => absurd hpin (hline o ho)
  have hgate : gateOpen c.world.millis c.pio.ilNextMs = true := by
    rwa [h.world, h.nextMs]
  have hcondition : pioCondition c.pio.il c.world = some (safe (padLevels c.world)) := by
    rw [h.il, hcond]
  have heval := @tick_open c.pio c.snap c.world _ hgate h.valid hcondition
  have hpio : c.pioTick.pio = (c.pio.tick c.snap c.world).pio := by
    rw [Chip.pioTick, write_pio, Chip.pioTickStart, if_pos h.mode]
  have hport : c.pioTick.port = c.port.exec (c.pio.tick c.snap c.world).ops := by
    rw [Chip.pioTick, write_port, Chip.pioTickStart, if_pos h.mode]
  have hsteady := driveSafe_steady hparsed hout (c.port (outPin o))
  rw [hport, exec_opsAt]
  rcases heval.ops (hpio ▸ htrip) with hops | hops
  · rw [hops]
    exact hsteady.exec
  · rw [hops, opsAt_append]
    exact (hsteady.append (int_holds hspared hout)).exec

/-- The outputs of a unit are those that were asked for, at the opposite levels. -/
theorem Loaded.output {groups : List (List Clause)} {drive : List (Text × Nat)} {inst : Inst}
    (h : Loaded groups drive inst) {d : Text × Nat} (hd : d ∈ drive) :
    ∃ o ∈ inst.outputs, outPin o = .ofPhys (padPhys d.1) ∧ (o.errValue != 0) = (d.2 == 0) := by
  have hmem : (padPhys d.1, d.2, 1 - d.2) ∈
      inst.outputs.map fun o => (o.physId, o.okValue, o.errValue) := by
    rw [h.outputs]
    exact List.mem_map_of_mem hd
  obtain ⟨o, ho, heq⟩ := List.mem_map.mp hmem
  simp only [Prod.mk.injEq] at heq
  refine ⟨o, ho, congrArg Pin.ofPhys heq.1, ?_⟩
  have hbit := h.bits d hd
  rw [heq.2.2, Bool.eq_iff_iff, bne_iff_ne, beq_iff_eq]
  omega

theorem Loaded.line {groups : List (List Clause)} {drive : List (Text × Nat)} {inst : Inst}
    (h : Loaded groups drive inst) : ∀ o ∈ inst.outputs, outPin o ≠ intPad := by
  intro o ho
  have hmem : (o.physId, o.okValue, o.errValue) ∈
      drive.map fun d => (padPhys d.1, d.2, 1 - d.2) := by
    rw [← h.outputs]
    exact List.mem_map_of_mem ho
  obtain ⟨d, hd, heq⟩ := List.mem_map.mp hmem
  have hphys : padPhys d.1 = o.physId := congrArg Prod.fst heq
  rw [outPin, ← hphys]
  exact bank_ne_int (h.roles d hd)

theorem files_ilcf {u : SlaveUnit} {py : PyText} {ilcf : SlaveUnit → Except UnitError (Option Text)}
    {f : Files} (h : u.files py ilcf = .ok f) : ilcf u = .ok f.ilcf := by
  obtain ⟨-, -, h⟩ := bind_eq_ok.mp h
  obtain ⟨gpmp, -, h⟩ := bind_eq_ok.mp h
  obtain ⟨mxmp, -, h⟩ := bind_eq_ok.mp h
  obtain ⟨cntr, -, h⟩ := bind_eq_ok.mp h
  obtain ⟨srvo, -, h⟩ := bind_eq_ok.mp h
  obtain ⟨il, hil, h⟩ := bind_eq_ok.mp h
  obtain rfl := Except.ok.inj h
  exact hil

/-- What an output at a pad of the bank drives at its error value. -/
theorem errDrive_pad {r : Pio} {o : Output} {label : Text} {i od v : Nat} {oc : Prop} [Decidable oc]
    (hlabel : bankPins[i]? = some label) (hpin : outPin o = .ofPhys (padPhys label))
    (herr : (o.errValue != 0) = (v == 0)) (hod : r.od = .ofNat 8 od)
    (hoc : od.testBit i = decide oc) :
    r.errDrive o = if oc ∧ v = 0 then none else some (v == 0) := by
  obtain ⟨hi, hbank⟩ := bankAt_padPhys hlabel
  have hbit : r.odAt (outPin o) = decide oc := by
    rw [Pio.odAt, hpin, hbank]
    show r.od.getLsbD i = decide oc
    rw [hod, BitVec.getLsbD_ofNat, decide_eq_true hi, Bool.true_and, hoc]
  rw [errDrive_eq, hbit, herr]
  by_cases hv : v = 0 <;> by_cases h : oc <;> simp [hv, h]

theorem compileExpr_eval {c : Ctx} {text : Text} {groups : List (List Clause)}
    (h : compileExpr c text = .ok groups) :
    ∃ toks e, tokenize c.py text = .ok toks ∧ Spells .or e toks ∧
      ∀ env, groupsHold env groups = e.eval c env := by
  obtain ⟨toks, htoks, h⟩ := bind_eq_ok.mp h
  obtain ⟨ast, hast, h⟩ := bind_eq_ok.mp h
  obtain ⟨e, hspells, heval⟩ := parse_sound hast
  refine ⟨toks, e, htoks, hspells, fun env => ?_⟩
  rw [← heval env, ← evalTerms_compiled (invert_holds env), ← Except.ok.inj h]
  rfl

theorem interlock_ok {py : PyText} {u u' : SlaveUnit} {name : Text} {cond : Option Text}
    {drive : List (Text × Nat)} (h : u.interlock py name cond drive = .ok u') :
    ∃ il, u' = { u with il := some il } ∧ il.name = name ∧ il.cond = cond ∧ name.length < 16 ∧
      (il.drive.map Prod.fst).Nodup := by
  unfold SlaveUnit.interlock at h
  split at h
  next => cases h
  next hlen =>
    obtain rfl := Except.ok.inj h
    refine ⟨_, rfl, rfl, rfl, by omega, ?_⟩
    exact List.foldlRecOn (motive := Table.Unique Prod.fst) drive _ List.nodup_nil
      fun _ htable d _ => htable.replace (py.upper d.1, d.2)

/-- A GPIO unit is compiled to files that a chip accepts: one that enters GPIO mode with them
arms the interlock. Until the mode is left its latch is that of a monitor of the expression as
it is written; and a tick that evaluates it and leaves it latched drives each output to the
opposite of the level asked for, which an open-drain output does for the high level by
releasing its line. -/
theorem gpio_unit_runs {l : IlcfLang} {wrap : IlcfError → UnitError} {u₀ u : SlaveUnit}
    {name cond : Text} {drive : List (Text × Nat)} {f : Files} (hmode : u₀.mode = .gpio)
    (hil : u₀.interlock l.text name (some cond) drive = .ok u) (hcond : cond ≠ [])
    (hname : Interlock.isIdent name = true)
    (hfiles : u.files l.text (fun u => (u.ilcf l).mapError wrap) = .ok f) :
    ∃ il text bytes gpmp toks e, u.il = some il ∧ f.ilcf = some text ∧
      encodeAscii text = some bytes ∧ f.gpmp = some gpmp ∧
      tokenize l.py cond = .ok toks ∧ Spells .or e toks ∧
      ∀ c : Chip, c.mode ≠ .pio → c.file ilcfName = some bytes →
        c.file gpmpName = some (bytesOf gpmp) →
        (c.setMode .pio).pio.ilValid = true ∧ ∀ es : List ChipEvent,
        Along Chip.next (fun c e => (c.next e).mode = .pio) (c.setMode .pio) es →
        let ctx : Ctx := ⟨l.py, false, u.roles, l.voltsToCount⟩
        let chip := run Chip.next (c.setMode .pio) es
        let m := run (Monitor.next fun env => e.eval ctx env) (.start (c.setMode .pio)) es
        chip.pio.ilTripped = m.tripped ∧
        (m.due = true → (chip.next .pioTick).pio.ilTripped = true → ∀ d ∈ il.drive,
          ∃ role, u.roles.lookup d.1 = some role ∧
            ((chip.next .pioTick).port (.ofPhys (padPhys d.1))).drive =
              if role.base = .oc ∧ d.2 = 0 then none else some (d.2 == 0)) := by
  obtain ⟨il, hu, hilname, hilcond, hlen, hnodup⟩ := interlock_ok hil
  have hmode : u.mode = .gpio := by rw [hu, hmode]
  have hil : u.il = some il := by rw [hu]
  have hbank := onBank_of_files hmode hfiles
  have hfile := mapError_eq_ok.mp (files_ilcf hfiles)
  obtain ⟨_, _, -, -, -, -, hprinted⟩ := ilcf_gpio hmode hil hilcond hcond hfile
  obtain ⟨text, htext⟩ : ∃ text, f.ilcf = some text := ⟨_, hprinted⟩
  rw [htext] at hfile
  obtain ⟨groups, inst, hgroups, hascii, hparse, hinputs, hloaded, hchecked⟩ :=
    ilcf_accepted hmode hbank hil hilcond hcond (hilname ▸ hname) (hilname ▸ hlen) hnodup hfile
  obtain ⟨toks, e, htoks, hspells, heval⟩ := compileExpr_eval hgroups
  have hparse := ilParse_encoded hascii hparse hinputs
  have hgate : ∀ w, pioCondition inst w =
      some (e.eval ⟨l.py, false, u.roles, l.voltsToCount⟩ (padLevels w)) := fun w => by
    rw [pioCondition_loaded hloaded w, heval]
  -- some pin is watched, and the file of the pads has it
  obtain ⟨p, hp⟩ := List.exists_mem_of_ne_nil _ (operandsOf_ne_nil hloaded.ne hloaded.inhab)
  obtain ⟨role, hrole, -⟩ := hchecked.inputs p hp
  obtain ⟨-, m, int, -, hgpmp, -⟩ := gpmp_od hmode hfiles hrole
  refine ⟨il, text, _, _, toks, e, hil, htext, encodeAscii_eq hascii, hgpmp, htoks, hspells, ?_⟩
  intro c hc hilcf hmap
  have hentered := follows_enter hc hilcf hparse hloaded.watches_ne hmap
  refine ⟨hentered.valid, ?_⟩
  intro es hstays ctx chip monitor
  have hfollows := @follows_run _ _ (fun env => e.eval ctx env) _ _ hentered hgate _ hstays
  refine ⟨hfollows.tripped, fun hdue htrip d hd => ?_⟩
  obtain ⟨role, hrole, -⟩ := hchecked.outputs d hd
  obtain ⟨-, m', int', i, hgpmp', hlabel, hod⟩ :=
    gpmp_od hmode hfiles hrole
  have hsame : m'.od = m.od := by
    have heq := Option.some_inj.mp (hgpmp'.symm.trans hgpmp)
    simp only [List.cons.injEq] at heq
    exact heq.2.2.2.2.1
  rw [hsame] at hod
  obtain ⟨o, ho, hpin, herr⟩ := hloaded.output hd
  refine ⟨role, hrole, ?_⟩
  rw [← hpin, ← errDrive_pad hlabel hpin herr hfollows.od hod]
  exact @tick_drives inst _ (fun env => e.eval ctx env) _ _ _ o hfollows hgate hparse hloaded.line
    hdue htrip ho

def lampRoles : Roles :=
  [("D0", ⟨.input, ["up".toList]⟩), ("D1", ⟨.out, []⟩), ("D2", ⟨.input, []⟩), ("D3", ⟨.safe, []⟩),
    ("D7", ⟨.safe, []⟩), ("D8", ⟨.safe, []⟩), ("D9", ⟨.safe, []⟩), ("D10", ⟨.safe, []⟩)].map
      fun (label, role) => (pad label, role)

def lampIl : IlDef where
  name := "lamp".toList
  cond := some "D0 || D2 > 0".toList
  drive := [(asciiPy.upper "d1".toList, 1)]

/-- A lamp on D1 that is lit while the switch at D0 is open or D2 is high. -/
def lampUnit : SlaveUnit where
  addr := 0x21
  mode := .gpio
  roles := lampRoles
  il := some lampIl

def asciiLang : IlcfLang := ⟨asciiPython, asciiPy, fun _ => none⟩

/-- Its files. -/
def lampGpmp : List Nat := [2, 2, 1, 1, 0, 1]

def lampIlcf : Text :=
  "lamp;cfg[(D0):in,up,(D2):in,(D1):out];watch[D0:1|D2:gt:0];out_ok[D1:1];out_err[D1:0]".toList

/-- A chip that holds them. -/
def lampChip : Chip :=
  .powerOn (holding [(gpmpName, bytesOf lampGpmp),
    (ilcfName, lampIlcf.map fun c => .ofNat 8 c.toNat)])

/-- A tick finds the switch open; then it closes. -/
def switchCloses : List ChipEvent :=
  [.world { levels := fun p => p == .ofPhys (padPhys (pad "D0")), millis := 1 }, .pioTick,
    .world { millis := 5 }]

theorem gpio_unit_runs_lamp :
    (∃ f, lampUnit.files asciiPy (fun u => (u.ilcf asciiLang).mapError fun _ => .interlock []) =
      .ok f ∧ f.gpmp = some lampGpmp ∧ f.ilcf = some lampIlcf) ∧
    (lampChip.setMode .pio).pio.ilValid = true ∧
    let chip := run Chip.next (lampChip.setMode .pio) switchCloses
    chip.pio.ilTripped = false ∧ (chip.next .pioTick).pio.ilTripped = true ∧
      ((chip.next .pioTick).port (.ofPhys (padPhys (pad "D1")))).drive = some false := by
  obtain ⟨f, hfiles, hf⟩ := Fallible.exists_of_succeedsWith
    (p := fun f : Files => f.gpmp == some lampGpmp && f.ilcf == some lampIlcf)
    (x := lampUnit.files asciiPy fun u => (u.ilcf asciiLang).mapError fun _ => .interlock [])
    (by decide +kernel)
  obtain ⟨hgpmp, hilcf⟩ := Bool.and_eq_true_iff.mp hf
  have hgpmp := eq_of_beq hgpmp
  have hilcf := eq_of_beq hilcf
  refine ⟨⟨f, hfiles, hgpmp, hilcf⟩, ?_⟩
  have hil : ({ lampUnit with il := none } : SlaveUnit).interlock asciiPy "lamp".toList
      (some "D0 || D2 > 0".toList) [("d1".toList, 1)] = .ok lampUnit := by
    rw [SlaveUnit.interlock, if_neg (by decide +kernel)]
    rfl
  obtain ⟨il, text, bytes, gpmp, toks, e, hlamp, htext, hbytes, hmap, -, -, hruns⟩ :=
    @gpio_unit_runs asciiLang (fun _ => .interlock []) { lampUnit with il := none } lampUnit
      "lamp".toList "D0 || D2 > 0".toList [("d1".toList, 1)] f rfl hil (by decide +kernel)
      (by decide +kernel) hfiles
  obtain rfl : il = lampIl := (Option.some.inj hlamp).symm
  obtain rfl : text = lampIlcf := Option.some.inj (htext.symm.trans hilcf)
  obtain rfl : gpmp = lampGpmp := Option.some.inj (hmap.symm.trans hgpmp)
  have hstored : lampChip.file ilcfName = some bytes := by
    rw [← hbytes]
    decide +kernel
  obtain ⟨hvalid, hrun⟩ := hruns lampChip (by decide) hstored (by decide +kernel)
  have hstays : Along Chip.next (fun c e => (c.next e).mode = .pio) (lampChip.setMode .pio)
      switchCloses :=
    ⟨by decide +kernel, by decide +kernel, by decide +kernel, trivial⟩
  obtain ⟨-, hdrive⟩ := hrun switchCloses hstays
  have htrip : ((run Chip.next (lampChip.setMode .pio) switchCloses).next .pioTick).pio.ilTripped =
      true := by decide +kernel
  have hnext : (lampChip.setMode .pio).pio.ilNextMs = 0 := by decide +kernel
  have hdue (safe : Env → Bool) :
      (run (Monitor.next safe) (.start (lampChip.setMode .pio)) switchCloses).due = true := by
    have hopen : gateOpen 1 0 = true := by decide
    simp only [run, switchCloses, List.foldl_cons, List.foldl_nil, Monitor.next, Monitor.start,
      Monitor.due, hnext, hopen, if_true]
    decide
  obtain ⟨role, -, hlow⟩ := hdrive (hdue _) htrip (pad "D1", 1) (by decide +kernel)
  exact ⟨hvalid, by decide +kernel, htrip, hlow.trans (if_neg fun h => Nat.one_ne_zero h.2)⟩

end SlowBus.Dsl
