import SlowBus.Bus.Frame
import SlowBus.Interlock.History
import SlowBus.Lib.BitSet
import SlowBus.Lib.ShiftRegister

/-!
# The debounce law

`eval_slot` filters GPIO inputs at the rate of the ticks, `gpio_sample_1khz` filters the pins
of the GPIO block at 1 kHz. Both are the shift-register filter, so their output is the value of
the latest run of as many equal samples as the depth says.
-/

namespace SlowBus.Interlock

open Fallible
open Bus (Byte)
open ShiftRegister (LatestRun)

/-! ## The GPIO block -/

/-- `HWIO_MODE_GPIO` -/
def hwioModeGpio : Nat := 1

/-- `g_io_mode` and the `g_gpio_*` arrays, one entry for each pin of the block. -/
structure GpioBlock where
  ioMode : Nat
  debDepth : Fin hilGpioCount → Nat
  sr : Fin hilGpioCount → Nat
  raw : Byte
  deb : Byte
  ipol : Byte

/-- The GPIO branch of `hwio_apply` at boot, over zeroed memory. -/
def GpioBlock.apply (pins : Fin hilGpioCount → Byte) : GpioBlock where
  ioMode := hwioModeGpio
  debDepth := fun i => (pins i).toNat >>> 4 &&& 0x0F
  sr := fun _ => 0
  raw := 0
  deb := 0
  ipol := 0

/-- One pin of the filter loop of `gpio_sample_1khz`. -/
def GpioBlock.filterPin (raw : Byte) (b : GpioBlock) (i : Fin hilGpioCount) : GpioBlock :=
  let bit : Byte := .twoPow 8 i
  let rawbit := if raw &&& bit ≠ 0 then 1 else 0
  let depth := b.debDepth i
  if depth < 2 then
    { b with deb := if rawbit ≠ 0 then b.deb ||| bit else b.deb &&& ~~~bit }
  else
    let mask := (1 <<< depth) - 1
    let sr := ((b.sr i <<< 1) ||| rawbit) &&& mask
    { b with
      sr := Function.update b.sr i sr
      deb := if sr = mask then b.deb ||| bit else if sr = 0 then b.deb &&& ~~~bit else b.deb }

/-- The levels of the pins after the polarity. -/
def GpioBlock.levels (b : GpioBlock) (gpioIn : BitVec 32) : Byte :=
  (List.finRange hilGpioCount).foldl (fun raw (i : Fin hilGpioCount) =>
    if gpioIn.getLsbD (hilGpioBase + i) then raw ||| .twoPow 8 i else raw) 0 ^^^ b.ipol

/-- `gpio_sample_1khz` -/
def GpioBlock.sample1khz (b : GpioBlock) (gpioIn : BitVec 32) : GpioBlock :=
  if b.ioMode ≠ hwioModeGpio then b
  else
    let raw := b.levels gpioIn
    { (List.finRange hilGpioCount).foldl (GpioBlock.filterPin raw) b with raw }

/-- Samples of the block, each after any writes of the polarity by `CMD_GPIO_IPOL`. -/
def GpioBlock.run (b : GpioBlock) (samples : List (Byte × BitVec 32)) : GpioBlock :=
  samples.foldl (fun b x => { b with ipol := x.1 }.sample1khz x.2) b

/-- The level of pin `i` in a sample, after the polarity. -/
def pinLevel (i : Fin hilGpioCount) (x : Byte × BitVec 32) : Nat :=
  (x.2.getLsbD (hilGpioBase + i) ^^ x.1.getLsbD i).toNat

section Block

variable {b : GpioBlock} {i j : Fin hilGpioCount} {raw : Byte}

theorem levels_getLsbD (gpioIn : BitVec 32) :
    (b.levels gpioIn).getLsbD i = (gpioIn.getLsbD (hilGpioBase + i) ^^ b.ipol.getLsbD i) := by
  have hi : (i : Nat) < 8 := i.isLt
  have hfold : ∀ (pins : List (Fin hilGpioCount)) (acc : Byte),
      (pins.foldl (fun raw (i : Fin hilGpioCount) =>
        if gpioIn.getLsbD (hilGpioBase + i) then raw ||| .twoPow 8 i else raw) acc).getLsbD i =
      (acc.getLsbD i || decide (i ∈ pins) && gpioIn.getLsbD (hilGpioBase + i)) := by
    intro pins
    induction pins with
    | nil => simp
    | cons j pins ih =>
        intro acc
        rw [List.foldl_cons, ih]
        by_cases hij : i = j
        · subst hij
          cases hlevel : gpioIn.getLsbD (hilGpioBase + i)
          · simp
          · simp [hi]
        · have hne : (j : Nat) ≠ i := fun h => hij (Fin.ext h.symm)
          cases gpioIn.getLsbD (hilGpioBase + j) <;> simp [hij, BitVec.getLsbD_twoPow, hne]
  rw [GpioBlock.levels, BitVec.getLsbD_xor, hfold]
  simp

theorem getLsbD_insert_self (x : Byte) (i : Fin hilGpioCount) :
    (x ||| .twoPow 8 i).getLsbD i = true := (BitSet.getLsbD_insert i.isLt).mpr (.inr rfl)

theorem getLsbD_erase_self (x : Byte) (i : Fin hilGpioCount) :
    (x &&& ~~~.twoPow 8 i).getLsbD i = false :=
  Bool.eq_false_iff.mpr fun h => (BitSet.getLsbD_erase.mp h).2 rfl

/-- The filter of one pin leaves the other pins alone. -/
theorem filterPin_other (hij : i ≠ j) :
    (b.filterPin raw j).sr i = b.sr i ∧
      (b.filterPin raw j).deb.getLsbD i = b.deb.getLsbD i := by
  have hne : (j : Nat) ≠ i := fun h => hij (Fin.ext h.symm)
  have hinsert : (b.deb ||| .twoPow 8 j).getLsbD i = b.deb.getLsbD i :=
    Bool.eq_iff_iff.mpr ((BitSet.getLsbD_insert j.isLt).trans (or_iff_left hne))
  have herase : (b.deb &&& ~~~.twoPow 8 j).getLsbD i = b.deb.getLsbD i :=
    Bool.eq_iff_iff.mpr (BitSet.getLsbD_erase.trans (and_iff_left hne))
  unfold GpioBlock.filterPin
  dsimp only
  split
  · refine ⟨rfl, ?_⟩
    dsimp only
    split <;> assumption
  · refine ⟨Function.update_of_ne hij .., ?_⟩
    dsimp only
    split_ifs <;> first | assumption | rfl

theorem filterPin_keeps : (b.filterPin raw i).debDepth = b.debDepth ∧
    (b.filterPin raw i).ioMode = b.ioMode := by
  unfold GpioBlock.filterPin
  dsimp only
  split <;> exact ⟨rfl, rfl⟩

/-- The filter of one pin is the shift-register filter. -/
theorem filterPin_self (hdepth : 2 ≤ b.debDepth i) :
    ((b.filterPin raw i).sr i, ((b.filterPin raw i).deb.getLsbD i).toNat) =
      ShiftRegister.step (b.debDepth i) (b.sr i, (b.deb.getLsbD i).toNat)
        (raw.getLsbD i).toNat := by
  have hbit : (if raw &&& .twoPow 8 i ≠ 0 then 1 else 0) = (raw.getLsbD i).toNat := by
    cases hraw : raw.getLsbD i
    · rw [if_neg (not_not.mpr ((BitSet.and_single_eq_zero_iff (w := 8) i.isLt).mpr hraw))]
      rfl
    · rw [if_pos (fun h => by
        rw [(BitSet.and_single_eq_zero_iff (w := 8) i.isLt).mp h] at hraw
        cases hraw)]
      rfl
  unfold GpioBlock.filterPin ShiftRegister.step ShiftRegister.shiftIn
  dsimp only
  rw [hbit, if_neg (not_lt.mpr hdepth), Nat.one_shiftLeft]
  dsimp only
  rw [Function.update_self]
  refine Prod.ext rfl ?_
  dsimp only
  split_ifs
  · rw [getLsbD_insert_self]
    rfl
  · rw [getLsbD_erase_self]
    rfl
  · rfl

/-- The state of the filter of a pin. -/
def GpioBlock.filter (b : GpioBlock) (i : Fin hilGpioCount) : Nat × Nat :=
  (b.sr i, (b.deb.getLsbD i).toNat)

/-- The filter loop runs the filter of each pin once. -/
theorem filterPins_filter {pins : List (Fin hilGpioCount)} (hnodup : pins.Nodup)
    (hdepth : 2 ≤ b.debDepth i) :
    (pins.foldl (GpioBlock.filterPin raw) b).filter i =
      if i ∈ pins then ShiftRegister.step (b.debDepth i) (b.filter i) (raw.getLsbD i).toNat
      else b.filter i := by
  induction pins generalizing b with
  | nil => rfl
  | cons j pins ih =>
      obtain ⟨hnot, hnodup⟩ := List.nodup_cons.mp hnodup
      have hkeep : (b.filterPin raw j).debDepth = b.debDepth := filterPin_keeps.1
      rw [List.foldl_cons, ih hnodup (hkeep ▸ hdepth), hkeep]
      by_cases hij : i = j
      · subst hij
        rw [if_neg hnot, if_pos List.mem_cons_self]
        exact filterPin_self hdepth
      · have hsame : (b.filterPin raw j).filter i = b.filter i := by
          unfold GpioBlock.filter
          rw [(filterPin_other hij).1, (filterPin_other hij).2]
        simp only [hsame, List.mem_cons, hij, false_or]

theorem filterPins_keeps (pins : List (Fin hilGpioCount)) :
    (pins.foldl (GpioBlock.filterPin raw) b).debDepth = b.debDepth ∧
      (pins.foldl (GpioBlock.filterPin raw) b).ioMode = b.ioMode := by
  induction pins generalizing b with
  | nil => exact ⟨rfl, rfl⟩
  | cons j pins ih =>
      rw [List.foldl_cons, ih.1, ih.2]
      exact filterPin_keeps

/-- One sample of the block, seen at one pin. -/
theorem sample1khz_filter (hmode : b.ioMode = hwioModeGpio) (hdepth : 2 ≤ b.debDepth i)
    (x : Byte × BitVec 32) :
    ({ b with ipol := x.1 }.sample1khz x.2).filter i =
      ShiftRegister.step (b.debDepth i) (b.filter i) (pinLevel i x) := by
  have hpins : (((List.finRange hilGpioCount).foldl
      (GpioBlock.filterPin ({ b with ipol := x.1 }.levels x.2)) { b with ipol := x.1 }).filter i) =
        if i ∈ List.finRange hilGpioCount then _ else _ :=
    filterPins_filter (List.nodup_finRange hilGpioCount) hdepth
  rw [if_pos (List.mem_finRange i), levels_getLsbD] at hpins
  rw [GpioBlock.sample1khz, if_neg (not_not.mpr hmode)]
  generalize List.finRange hilGpioCount = pins at hpins ⊢
  exact hpins

theorem sample1khz_keeps (b : GpioBlock) (gpioIn : BitVec 32) :
    (b.sample1khz gpioIn).debDepth = b.debDepth ∧ (b.sample1khz gpioIn).ioMode = b.ioMode := by
  unfold GpioBlock.sample1khz
  generalize List.finRange hilGpioCount = pins
  split
  · exact ⟨rfl, rfl⟩
  · exact filterPins_keeps pins

theorem run_filter (hmode : b.ioMode = hwioModeGpio) (hdepth : 2 ≤ b.debDepth i)
    (samples : List (Byte × BitVec 32)) : (b.run samples).filter i =
      (samples.map (pinLevel i)).foldl (ShiftRegister.step (b.debDepth i)) (b.filter i) := by
  induction samples generalizing b with
  | nil => rfl
  | cons x samples ih =>
      have hkeep := sample1khz_keeps { b with ipol := x.1 } x.2
      have hstep := sample1khz_filter hmode hdepth x
      show (({ b with ipol := x.1 }.sample1khz x.2).run samples).filter i = _
      generalize { b with ipol := x.1 }.sample1khz x.2 = b' at hkeep hstep ⊢
      rw [List.map_cons, List.foldl_cons, ← hstep, ← congrFun hkeep.1 i]
      exact ih (hkeep.2.trans hmode) ((congrFun hkeep.1 i).symm ▸ hdepth)

end Block

/-! ## The inputs of a slot -/

/-- The state of the filter of input `k`. -/
def SlotRuntime.filter (rt : SlotRuntime) (k : Nat) : Nat × Nat := (rt.shiftReg k, rt.debounced k)

section Slot

variable {raw : Input → Nat} {inputs : List Input} {i : Input} {inst : Inst} {rt : SlotRuntime}
  {j k : Nat}

theorem debounceStep_eq (depth : Nat) (r : Nat × Nat) {bit : Nat} (hbit : bit < 2) :
    debounceStep depth r.1 r.2 bit = ShiftRegister.step depth r bit := by
  rw [debounceStep, ShiftRegister.step, ShiftRegister.shiftIn, Nat.one_shiftLeft,
    Nat.and_one_is_mod, Nat.mod_eq_of_lt hbit]

theorem filter_update (k sr deb : Nat) : SlotRuntime.filter { rt with
      shiftReg := Function.update rt.shiftReg k sr
      debounced := Function.update rt.debounced k deb } j =
    if j = k then (sr, deb) else rt.filter j := by
  unfold SlotRuntime.filter
  dsimp only
  rw [Function.update_apply, Function.update_apply]
  split_ifs <;> rfl

/-- The input loop leaves the filters before its first index alone. -/
theorem sampledInputs_before (hj : j < k) :
    (sampledInputs raw k inputs rt).2.filter j = rt.filter j := by
  induction inputs generalizing k rt with
  | nil => rfl
  | cons i inputs ih =>
      have hnext : j < k + 1 := by omega
      unfold sampledInputs
      split
      · dsimp only
        rw [ih hnext, filter_update, if_neg hj.ne]
      · exact ih hnext

/-- The input loop samples a debounced input through its filter once. -/
theorem sampledInputs_filter (hi : inputs[j]? = some i) (hdeb : i.debounces = true)
    (hbit : raw i < 2) :
    (sampledInputs raw k inputs rt).2.filter (k + j) =
        ShiftRegister.step i.debounceDepth (rt.filter (k + j)) (raw i) ∧
      (sampledInputs raw k inputs rt).1[j]? =
        some (ShiftRegister.step i.debounceDepth (rt.filter (k + j)) (raw i)).2 := by
  induction inputs generalizing j k rt with
  | nil => cases hi
  | cons i₀ inputs ih =>
      unfold sampledInputs
      cases j with
      | zero =>
          obtain rfl := Option.some.inj hi
          have hstep := debounceStep_eq i₀.debounceDepth (rt.filter k) hbit
          rw [if_pos hdeb]
          dsimp only
          rw [Nat.add_zero k, sampledInputs_before (Nat.lt_add_one k), filter_update, if_pos rfl]
          have hout := congrArg Prod.snd hstep
          exact ⟨hstep, congrArg some hout⟩
      | succ j =>
          have hindex : k + (j + 1) = k + 1 + j := by omega
          have hne : k + 1 + j ≠ k := by omega
          rw [hindex]
          split
          · dsimp only
            have hsame : ∀ sr deb, SlotRuntime.filter { rt with
                shiftReg := Function.update rt.shiftReg k sr
                debounced := Function.update rt.debounced k deb } (k + 1 + j) =
                rt.filter (k + 1 + j) :=
              fun sr deb => (filter_update k sr deb).trans (if_neg hne)
            rw [← hsame]
            exact ih hi
          · exact ih hi

/-- Over a history, the filter of an input has seen its samples. -/
theorem foldl_nextRuntime_filter (hi : inst.inputs[k]? = some i) (hdeb : i.debounces = true)
    {past : List (Input → Nat)} (hbits : ∀ raw ∈ past, raw i < 2) :
    (past.foldl (nextRuntime inst) rt).filter k =
      (past.map fun raw => raw i).foldl (ShiftRegister.step i.debounceDepth) (rt.filter k) := by
  induction past generalizing rt with
  | nil => rfl
  | cons raw past ih =>
      obtain ⟨hbit, hbits⟩ := List.forall_mem_cons.mp hbits
      have hsampled : (sampledInputs raw 0 inst.inputs rt).2.filter (0 + k) = _ :=
        (sampledInputs_filter hi hdeb hbit).1
      obtain ⟨hreg, hout⟩ := @evalWatches_filters inst.inputs (sampledInputs raw 0 inst.inputs rt).1
        inst.watches 0 (sampledInputs raw 0 inst.inputs rt).2
      rw [Nat.zero_add] at hsampled
      have hstep : (nextRuntime inst rt raw).filter k =
          ShiftRegister.step i.debounceDepth (rt.filter k) (raw i) := by
        rw [← hsampled]
        exact Prod.ext (congrFun hreg k) (congrFun hout k)
      rw [List.map_cons, List.foldl_cons, List.foldl_cons, ih hbits, hstep]

/-- The samples of a debounced input are levels of its pin. -/
theorem rawSample_bit (hal : Hal) (samples : Samples) (hdeb : i.debounces = true) :
    rawSample hal samples i < 2 := by
  have hread : halPinRead samples i.physId < 2 := by
    unfold halPinRead
    split_ifs <;> decide
  unfold Input.debounces at hdeb
  unfold rawSample
  split at hdeb
  · cases hdeb
  · cases hdeb
  · exact hread

theorem Evaluated.bits {plat : Platform} {s : Slot} {past : List (Input → Nat)} {m : Machine}
    (h : Evaluated plat s past m) (hdeb : i.debounces = true) : ∀ raw ∈ past, raw i < 2 := by
  induction h with
  | armed => exact nofun
  | booted => exact nofun
  | call _ _ _ _ ih => exact ih
  | tick _ _ ih =>
      exact List.forall_mem_append.mpr ⟨ih, List.forall_mem_singleton.mpr (rawSample_bit _ _ hdeb)⟩

/-- A slot evaluates a debounced input to the value of the latest run of its samples. -/
theorem Evaluated.debounced {plat : Platform} {s : Slot} {past : List (Input → Nat)} {m : Machine}
    (h : Evaluated plat s past m) (hruns : m.persist.Runs s)
    (hi : (m.persist.inst s).inputs[k]? = some i) (hdeb : i.debounces = true)
    (hdepth : 0 < i.debounceDepth) (samples : Samples) : ∃ e v,
      evalSlot m.hal samples (m.persist.inst s) (m.runtime s) = some e ∧
      e.inputVals[k]? = some v ∧ LatestRun i.debounceDepth 0
        ((past ++ [rawSample m.hal samples]).map fun raw => raw i) v := by
  obtain ⟨held, hsettled⟩ := h.reachable.settled
  obtain ⟨e, tf, he, -⟩ := (hsettled.complete s hruns).1.wellFormed.evalSlot_returns m.hal samples
    (m.runtime s)
  have hbit := rawSample_bit m.hal samples hdeb
  have hbits := h.bits hdeb
  have hlatest := (ShiftRegister.latestRun_foldl hdepth (List.forall_mem_map.mpr
    (List.forall_mem_append.mpr ⟨hbits, List.forall_mem_singleton.mpr hbit⟩))).2
  have hfilter : (m.runtime s).filter k =
      (past.map fun raw => raw i).foldl (ShiftRegister.step i.debounceDepth) (0, 0) := by
    rw [h.runtime hruns]
    exact foldl_nextRuntime_filter hi hdeb hbits
  have hvals : e.inputVals =
      (sampledInputs (rawSample m.hal samples) 0 (m.persist.inst s).inputs (m.runtime s)).1 := by
    rw [evalSlot_sampled] at he
    obtain ⟨b, -, rfl⟩ := Option.map_eq_some_iff.mp he
    rfl
  refine ⟨e, _, he, ?_, hlatest⟩
  rw [hvals, (sampledInputs_filter hi hdeb hbit).2, Nat.zero_add, hfilter, List.map_append,
    List.foldl_append]
  rfl

end Slot

/-- Filtered at either rate, a pin has the value of its latest run of equal samples. -/
theorem debounce_law (N : Nat) (hN : 2 ≤ N ∧ N ≤ 15) :
    (∀ (plat : Platform) (s : Slot) (past : List (Input → Nat)) (m : Machine),
      Evaluated plat s past m → m.persist.Runs s →
      ∀ (k : Nat) (i : Input), (m.persist.inst s).inputs[k]? = some i → i.mode ≠ .adc →
      i.mode ≠ .virtual → i.debounceDepth = N → ∀ samples : Samples, ∃ e v,
        evalSlot m.hal samples (m.persist.inst s) (m.runtime s) = some e ∧
        e.inputVals[k]? = some v ∧
        LatestRun N 0 ((past ++ [rawSample m.hal samples]).map fun raw => raw i) v) ∧
    (∀ (pins : Fin hilGpioCount → Byte) (i : Fin hilGpioCount), (pins i).toNat / 16 = N →
      ∀ samples : List (Byte × BitVec 32), LatestRun N 0 (samples.map (pinLevel i))
        (((GpioBlock.apply pins).run samples).deb.getLsbD i).toNat) ∧
    ∀ (levels : List Nat) (v w : Nat), LatestRun N 0 levels v → LatestRun N 0 levels w →
      v = w := by
  have hpos : 0 < N := Nat.lt_of_lt_of_le Nat.two_pos hN.1
  refine ⟨?_, ?_, fun levels v w => LatestRun.unique hpos⟩
  · rintro plat s past m h hruns k i hi hadc hvirt rfl samples
    refine h.debounced hruns hi ?_ hpos samples
    unfold Input.debounces
    split
    · contradiction
    · contradiction
    · exact decide_eq_true hN.1
  · rintro pins i rfl samples
    have hdepth : (GpioBlock.apply pins).debDepth i = (pins i).toNat / 16 := by
      show (pins i).toNat >>> 4 &&& 2 ^ 4 - 1 = _
      rw [Nat.and_two_pow_sub_one_eq_mod, Nat.shiftRight_eq_div_pow, Nat.mod_eq_of_lt]
      omega
    have hrun := run_filter (b := .apply pins) rfl (hdepth ▸ hN.1) samples
    rw [hdepth] at hrun
    have hbits : ∀ level ∈ samples.map (pinLevel i), level < 2 :=
      List.forall_mem_map.mpr fun x _ => Bool.toNat_lt _
    have hlatest := (ShiftRegister.latestRun_foldl hpos hbits).2
    have hstart : (GpioBlock.apply pins).filter i = (0, 0) := by
      simp [GpioBlock.filter, GpioBlock.apply]
    rw [hstart] at hrun
    rw [← hrun] at hlatest
    exact hlatest

/-- All pins high. -/
def highSamples (ms : Nat) : Samples := ⟨fun _ => true, fun _ => 0, fun _ _ => 0, ms, 0, 0, 0⟩

/-- An interlock that waits for three equal samples of GP2. -/
def slowText : Text := "t;cfg[gp2:in,debounce_3];watch[gp2:1]".toList

/-- A tick on high pins. -/
def highTick (ms : Nat) : TickEnv := { quietTick ms with samples := fun _ => highSamples ms }

/-- The third high sample flips the value, of an input and of a pin of the block. -/
theorem debounce_law_three : ∃ (m m' m'' : Machine) (i : Input) (e : SlotEval),
    Evaluated benchPlatform 1
      [rawSample m.hal (highSamples 1000), rawSample m'.hal (highSamples 1100)] m'' ∧
    i.debounceDepth = 3 ∧
    evalSlot m''.hal (highSamples 1200) (m''.persist.inst 1) (m''.runtime 1) = some e ∧
    e.inputVals[0]? = some 1 ∧
    LatestRun 3 0 [rawSample m.hal (highSamples 1000) i, rawSample m'.hal (highSamples 1100) i,
      rawSample m''.hal (highSamples 1200) i] 1 ∧
    LatestRun 3 0 [0, 1, 1, 1] (((GpioBlock.apply fun _ => 0x31).run
      [(1, 4), (0, 4), (0, 4), (0, 4)]).deb.getLsbD 0).toNat ∧
    ((GpioBlock.apply fun _ => 0x31).run [(1, 4), (0, 4), (0, 4), (0, 4)]).deb.getLsbD 0 = true := by
  obtain ⟨⟨r, m⟩, harm, htest⟩ := exists_of_succeedsWith
    (x := interlockSetSlotDsl benchPlatform 1 slowText (.boot .cold []))
    (p := fun x => x.1.status == .ok && succeedsWith (interlockTickAll (highTick 1000) x.2) fun m' =>
      succeedsWith (interlockTickAll (highTick 1100) m') fun m'' =>
        decide ((((m''.persist.slots 1).state = .armed ∧ (m''.persist.slots 1).id = idDsl) ∧
          (m''.persist.inst 1).inputs = [{ physId := 2, mode := .input, debounceDepth := 3 }]) ∧
          ((evalSlot m''.hal (highSamples 1200) (m''.persist.inst 1) (m''.runtime 1)).bind
            fun e => e.inputVals[0]?) = some 1))
    (by decide +kernel)
  obtain ⟨hok, htest⟩ := Bool.and_eq_true_iff.mp htest
  obtain ⟨m', htick, htest⟩ := exists_of_succeedsWith htest
  obtain ⟨m'', htick', htest⟩ := exists_of_succeedsWith htest
  obtain ⟨⟨hruns, hinputs⟩, hflipped⟩ := of_decide_eq_true htest
  have hpast : Evaluated benchPlatform 1
      [rawSample m.hal (highSamples 1000), rawSample m'.hal (highSamples 1100)] m'' :=
    .tick (.tick (.armed (.cold []) harm (beq_iff_eq.mp hok)) htick) htick'
  have hinput : (m''.persist.inst 1).inputs[0]? =
      some { physId := 2, mode := .input, debounceDepth := 3 } := by rw [hinputs]; rfl
  obtain ⟨hslot, hblock, -⟩ := debounce_law 3 (by decide)
  obtain ⟨e, v, heval, hval, hlatest⟩ := hslot benchPlatform 1 _ m'' hpast hruns 0 _ hinput
    nofun nofun rfl (highSamples 1200)
  rw [heval, Option.bind_some, hval] at hflipped
  obtain rfl := Option.some.inj hflipped
  have hpin := hblock (fun _ => 0x31) ⟨0, by decide⟩ (by decide)
    [(1, 4), (0, 4), (0, 4), (0, 4)]
  exact ⟨m, m', m'', _, e, hpast, rfl, heval, hval, hlatest, hpin, by decide +kernel⟩

end SlowBus.Interlock
