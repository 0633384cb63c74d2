import SlowBus.Modes.Leave

/-!
# The freeze-frame of a trip

A tick of an interlock reads its inputs one after the other, and they may change between two
reads. GPIO and ADC mode read an input once for each watch and once more for the snapshot of
the trip; MIXED mode reads each input once, and evaluates and records that value. A snapshot is
kept until the trip is acknowledged or an interlock is armed.
-/

namespace SlowBus.Modes

open Bus (Byte)
open Interlock (Inst Input Watch ilDnfResult)
open Runs (run Along)

/-! ## Ticks that read one input after the other -/

/-- What is around the chip at each read of a tick. -/
abbrev Moments := Nat → World

/-- The watches, each on its own read. -/
def passesAt (inst : Inst) (pass : World → Watch → Bool) (ws : Moments) : List Bool :=
  inst.watches.mapIdx fun k watch => pass (ws k) watch

/-- The reads for the snapshot, after those of the watches. -/
def secondReads (inst : Inst) (read : World → Input → Nat) (ws : Moments) : List Nat :=
  inst.inputs.mapIdx fun j i => read (ws (inst.watches.length + j)) i

/-- `pio_phys_read` of an input -/
def pioRead (w : World) (i : Input) : Nat := if w.levels (.ofPhys i.physId) then 1 else 0

/-- `pio_tick` in GPIO mode, from a moment `w` on, with the reads of its interlock at `ws`. -/
def Pio.tickReading (r : Pio) (snap : Snapshot) (w : World) (ws : Moments) : PioTick :=
  if !gateOpen w.millis r.ilNextMs then { pio := r, snap }
  else
    let r := { r with ilNextMs := w.millis + 1 }.sampleInputs w
    if !r.ilValid then { pio := r, snap }
    else
      match ilDnfResult r.il.watches (passesAt r.il (pioWatchPass r.il) ws) with
      | none => { pio := r, snap }
      | some allPass =>
          let r := { r with ilState := ilStateByte r.ilTripped allPass }
          if r.ilTripped then { pio := r, snap, ops := r.driveSafe }
          else if allPass then { pio := r, snap }
          else
            { pio := { r with ilTripped := true }
              trip := true
              snap := snap.capture r.il (secondReads r.il pioRead ws)
              ops := r.driveSafe ++ pioIntAssert true }

/-- `adc_watch_pass` of what the stream of its input has. -/
def adcWatchPass (inst : Inst) (w : World) (watch : Watch) : Bool :=
  watch.op.holds ((inst.inputs[watch.inputIdx]?).elim 0 (adcStreamValue w)) watch.threshold

/-- `adc_il_tick` in ADC mode, with its reads at `ws`. -/
def Adc.tickReading (a : Adc) (snap : Snapshot) (ws : Moments) : AdcTick :=
  if !a.ilValid then { adc := a, snap }
  else
    match ilDnfResult a.il.watches (passesAt a.il (adcWatchPass a.il) ws) with
    | none => { adc := a, snap }
    | some allPass =>
        let trip := !a.ilTripped && !allPass
        let tripped := a.ilTripped || trip
        let a := { a with ilState := ilStateByte a.ilTripped allPass, ilTripped := tripped }
        { adc := a
          trip
          snap := if trip then snap.capture a.il (secondReads a.il adcStreamValue ws) else snap
          ops := a.drive (!tripped) }

/-- The input loop of `mixed_tick`, with a read for each input. -/
def Mixed.readInputsAt (claims : Claims) (ws : Moments) :
    Nat → List Input → Mixed → List Nat × Mixed
  | _, [], m => ([], m)
  | k, i :: rest, m =>
      let (v, m) := m.readInput claims (ws k) k i
      let (vals, m) := Mixed.readInputsAt claims ws (k + 1) rest m
      (v :: vals, m)

/-- The condition of a MIXED tick, and the cells it leaves. -/
def Mixed.conditionAt (m : Mixed) (claims : Claims) (ws : Moments) :
    Option Bool × List Nat × Mixed :=
  let (vals, m) := Mixed.readInputsAt claims ws 0 m.il.inputs { m with gpioRaw := 0, gpioDeb := 0 }
  (ilDnfResult m.il.watches (m.il.watches.map (mixedWatchPass vals)), vals, m)

/-- `mixed_tick` in MIXED mode, from a moment `w` on, with its reads at `ws`. -/
def Mixed.tickReading (m : Mixed) (snap : Snapshot) (claims : Claims) (w : World) (ws : Moments) :
    MixedTick :=
  if !m.ilValid || !gateOpen w.millis m.nextMs then { mixed := m, snap }
  else
    let reads := m.readOps claims
    match { m with nextMs := w.millis + 10 }.conditionAt claims ws with
    | (none, _, m) => { mixed := m, snap, ops := reads }
    | (some allPass, vals, m) =>
        let m := { m with ilState := ilStateByte m.ilTripped allPass }
        if m.ilTripped then { mixed := m, snap, ops := reads ++ m.drive false }
        else if allPass then { mixed := m, snap, ops := reads ++ m.drive true }
        else
          { mixed := { m with ilTripped := true }
            trip := true
            snap := snap.capture m.il vals
            ops := reads ++ (m.drive false ++ pioIntAssert true) }

/-- `pio_tick` -/
def Chip.pioTickReading (c : Chip) (ws : Moments) : Chip :=
  if c.mode = .pio then
    let t := c.pio.tickReading c.snap c.world ws
    { c with
      pio := t.pio
      snap := t.snap
      intFlags := if t.trip then c.intFlags ||| 0x01 else c.intFlags }.write t.ops
  else c

/-- `adc_sample_tick` -/
def Chip.adcTickReading (c : Chip) (ws : Moments) : Chip :=
  if c.mode = .adc then
    let t := c.adc.tickReading c.snap ws
    { c with
      adc := t.adc
      snap := t.snap
      intFlags := if t.trip then c.intFlags ||| 0x08 else c.intFlags }.write t.ops
  else c

/-- `mixed_tick` -/
def Chip.mixedTickReading (c : Chip) (ws : Moments) : Chip :=
  if c.mode = .mixed then
    let t := c.mixed.tickReading c.snap c.claims c.world ws
    { c with
      mixed := t.mixed
      snap := t.snap
      intFlags := if t.trip then c.intFlags ||| 0x02 else c.intFlags }.write t.ops
  else c

/-- An event, or a tick while the inputs move. -/
inductive Moment where
  | event (e : ChipEvent)
  | pioTick (ws : Moments)
  | adcTick (ws : Moments)
  | mixedTick (ws : Moments)

def Chip.after (c : Chip) : Moment → Chip
  | .event e => c.next e
  | .pioTick ws => c.pioTickReading ws
  | .adcTick ws => c.adcTickReading ws
  | .mixedTick ws => c.mixedTickReading ws

/-! ## What a snapshot is to say -/

/-- The watches on values of the inputs. -/
def onValues (inst : Inst) (vals : List Nat) : Option Bool :=
  ilDnfResult inst.watches (inst.watches.map (mixedWatchPass vals))

/-- The interlock of a mode: its instance, whether it is armed, and whether it has tripped. -/
structure Latch where
  il : Inst := {}
  valid : Bool := false
  tripped : Bool := false

def Pio.latch (r : Pio) : Latch := ⟨r.il, r.ilValid, r.ilTripped⟩

def Adc.latch (a : Adc) : Latch := ⟨a.il, a.ilValid, a.ilTripped⟩

def Mixed.latch (m : Mixed) : Latch := ⟨m.il, m.ilValid, m.ilTripped⟩

/-- The interlock of the mode the chip is in. -/
def Chip.latch (c : Chip) : Latch :=
  match c.mode with
  | .pio => c.pio.latch
  | .adc => c.adc.latch
  | .mixed => c.mixed.latch
  | _ => {}

/-- The watches give false on a snapshot that is captured. -/
def Chip.Explains (c c' : Chip) : Prop :=
  c.snap.valid = false → c'.snap.valid = true →
    onValues c.latch.il (c'.snap.inVals.map Prod.fst) = some false

/-- The tick trips. -/
def Pio.TripsAt (r : Pio) (w : World) (ws : Moments) : Prop :=
  gateOpen w.millis r.ilNextMs = true ∧ r.ilValid = true ∧ r.ilTripped = false ∧
    ilDnfResult r.il.watches (passesAt r.il (pioWatchPass r.il) ws) = some false

def Adc.TripsAt (a : Adc) (ws : Moments) : Prop :=
  a.ilValid = true ∧ a.ilTripped = false ∧
    ilDnfResult a.il.watches (passesAt a.il (adcWatchPass a.il) ws) = some false

def Mixed.TripsAt (m : Mixed) (claims : Claims) (w : World) (ws : Moments) : Prop :=
  m.ilValid = true ∧ gateOpen w.millis m.nextMs = true ∧ m.ilTripped = false ∧
    ({ m with nextMs := w.millis + 10 }.conditionAt claims ws).1 = some false

/-- Where a tick of GPIO or ADC mode trips, the inputs read again fail the watches again. -/
def Chip.Repeats (c : Chip) : Moment → Prop
  | .pioTick ws => c.mode = .pio → c.pio.TripsAt c.world ws →
      onValues c.pio.il (secondReads c.pio.il pioRead ws) = some false
  | .adcTick ws => c.mode = .adc → c.adc.TripsAt ws →
      onValues c.adc.il (secondReads c.adc.il adcStreamValue ws) = some false
  | _ => True

/-- Each watched input reads for the snapshot as it did for the watch. -/
def SteadyReads (inst : Inst) (read : World → Input → Nat) (ws : Moments) : Prop :=
  ∀ k watch i, inst.watches[k]? = some watch → inst.inputs[watch.inputIdx]? = some i →
    read (ws k) i = read (ws (inst.watches.length + watch.inputIdx)) i

/-- No watched input changes between the two reads of a tick that trips. -/
def Chip.Steady (c : Chip) : Moment → Prop
  | .pioTick ws => c.mode = .pio → c.pio.TripsAt c.world ws → SteadyReads c.pio.il pioRead ws
  | .adcTick ws => c.mode = .adc → c.adc.TripsAt ws → SteadyReads c.adc.il adcStreamValue ws
  | _ => True

/-- What is frozen; the register that selects an input is not. -/
structure Snapshot.Same (s s' : Snapshot) : Prop where
  valid : s'.valid = s.valid
  inVals : s'.inVals = s.inVals
  outVals : s'.outVals = s.outVals

/-- The event acknowledges a trip that is latched. -/
def Chip.Acknowledges (c : Chip) (m : Moment) : Prop :=
  ∃ val, m = .event (.regWrite regIntFlags val) ∧
    (val.getLsbD 0 = true ∧ c.pio.ilTripped = true ∨
      val.getLsbD 1 = true ∧ c.mode = .mixed ∧ c.mixed.ilTripped = true ∨
      val.getLsbD 3 = true ∧ c.mode = .adc ∧ c.adc.ilTripped = true)

/-- The event enters a mode that arms its interlock. -/
def Chip.Rearms (c : Chip) (m : Moment) : Prop :=
  ∃ val mode, m = .event (.regWrite regMode val) ∧ Mode.ofByte val = some mode ∧ mode ≠ c.mode ∧
    (mode = .pio ∨ mode = .adc ∨ mode = .mixed)

/-! ## Ticks while nothing moves -/

section Still

variable {c : Chip} {inst : Inst} {w : World}

theorem passesAt_still (pass : World → Watch → Bool) :
    passesAt inst pass (fun _ => w) = inst.watches.map (pass w) := by
  apply List.ext_getElem?
  intro k
  rw [passesAt, List.getElem?_mapIdx, List.getElem?_map]

theorem secondReads_still (read : World → Input → Nat) :
    secondReads inst read (fun _ => w) = inst.inputs.map (read w) := by
  apply List.ext_getElem?
  intro k
  rw [secondReads, List.getElem?_mapIdx, List.getElem?_map]

theorem readInputsAt_still (claims : Claims) (k : Nat) (is : List Input) (m : Mixed) :
    Mixed.readInputsAt claims (fun _ => w) k is m = Mixed.readInputs claims w k is m := by
  induction is generalizing k m with
  | nil => rfl
  | cons i is ih =>
      unfold Mixed.readInputsAt Mixed.readInputs
      simp only [ih]

/-- A tick of the chip is one while nothing moves. -/
theorem pioTick_still (c : Chip) : c.pioTickReading (fun _ => c.world) = c.pioTick := by
  have htick : c.pio.tickReading c.snap c.world (fun _ => c.world) =
      c.pio.tick c.snap c.world := by
    unfold Pio.tickReading Pio.tick pioCondition
    simp only [passesAt_still, secondReads_still]
    rfl
  unfold Chip.pioTickReading Chip.pioTick Chip.pioTickStart
  rw [htick]
  split <;> rfl

theorem adcTick_still (c : Chip) : c.adcTickReading (fun _ => c.world) = c.adcTick := by
  have htick : c.adc.tickReading c.snap (fun _ => c.world) = c.adc.tick c.snap c.world := by
    unfold Adc.tickReading Adc.tick
    simp only [passesAt_still, secondReads_still]
    rfl
  unfold Chip.adcTickReading Chip.adcTick
  rw [htick]

theorem mixedTick_still (c : Chip) : c.mixedTickReading (fun _ => c.world) = c.mixedTick := by
  let due : Mixed := { c.mixed with nextMs := c.world.millis + 10 }
  have hcond : due.conditionAt c.claims (fun _ => c.world) = due.condition c.claims c.world := by
    unfold Mixed.conditionAt Mixed.condition
    rw [readInputsAt_still]
  have htick : c.mixed.tickReading c.snap c.claims c.world (fun _ => c.world) =
      c.mixed.tick c.snap c.claims c.world := by
    unfold Mixed.tickReading Mixed.tick
    generalize due.conditionAt c.claims (fun _ => c.world) = cond at hcond ⊢
    subst hcond
    rfl
  unfold Chip.mixedTickReading Chip.mixedTick
  rw [htick]

/-- An event is a tick while nothing moves, or no tick of an interlock. -/
theorem after_event (c : Chip) (e : ChipEvent) :
    (∃ m, c.next e = c.after m ∧ c.Steady m ∧ ∀ e', m ≠ .event e') ∨
      (e ≠ .pioTick ∧ e ≠ .adcTick ∧ e ≠ .mixedTick) := by
  cases e with
  | pioTick =>
      exact .inl ⟨.pioTick fun _ => c.world, (pioTick_still c).symm, fun _ _ _ _ _ _ _ => rfl,
        nofun⟩
  | adcTick =>
      exact .inl ⟨.adcTick fun _ => c.world, (adcTick_still c).symm, fun _ _ _ _ _ _ _ => rfl,
        nofun⟩
  | mixedTick =>
      exact .inl ⟨.mixedTick fun _ => c.world, (mixedTick_still c).symm, trivial, nofun⟩
  | world | service | benchTick | servoTick | mc0 | mc1 | regWrite | goOffline =>
      exact .inr ⟨nofun, nofun, nofun⟩

end Still

/-! ## What a tick captures -/

section Captures

variable {c c' : Chip} {inst : Inst} {vals : List Nat} {w : World} {ws : Moments} {snap : Snapshot}

theorem length_secondReads (inst : Inst) (read : World → Input → Nat) (ws : Moments) :
    (secondReads inst read ws).length = inst.inputs.length := List.length_mapIdx

/-- The values of a snapshot are those it is given. -/
theorem capture_vals (hfree : snap.valid = false) (hlen : vals.length = inst.inputs.length) :
    (snap.capture inst vals).inVals.map Prod.fst = vals := by
  unfold Snapshot.capture
  rw [if_neg (by rw [hfree]; decide), List.map_map]
  show (inst.inputs.zip vals).map Prod.snd = vals
  exact List.map_snd_zip hlen.le

/-- What a tick does to the interlock of the mode, if it trips with these values and if not. -/
structure Latch.Ticks (l : Latch) (snap : Snapshot) (trips : Prop) (vals : List Nat) (l' : Latch)
    (snap' : Snapshot) : Prop where
  il : l'.il = l.il
  valid : l'.valid = l.valid
  armed : trips → l.valid = true ∧ l.tripped = false
  trip : trips → l'.tripped = true ∧ snap' = snap.capture l.il vals
  quiet : ¬trips → l'.tripped = l.tripped ∧ snap' = snap
  length : trips → vals.length = l.il.inputs.length

theorem Latch.Ticks.of_quiet {l l' : Latch} {trips : Prop} {snap' : Snapshot} (hl : l' = l)
    (hsnap : snap' = snap) (hno : ¬trips) : l.Ticks snap trips vals l' snap' :=
  ⟨congrArg Latch.il hl, congrArg Latch.valid hl, fun h => absurd h hno, fun h => absurd h hno,
    fun _ => ⟨congrArg Latch.tripped hl, hsnap⟩, fun h => absurd h hno⟩

theorem pio_ticks (r : Pio) (snap : Snapshot) (w : World) (ws : Moments) :
    r.latch.Ticks snap (r.TripsAt w ws) (secondReads r.il pioRead ws)
      (r.tickReading snap w ws).pio.latch (r.tickReading snap w ws).snap := by
  unfold Pio.tickReading
  split
  next hgate => exact .of_quiet rfl rfl fun h => by simp [h.1] at hgate
  next hgate =>
  dsimp only
  split
  next hvalid => exact .of_quiet rfl rfl fun h => by simp [Pio.sampleInputs, h.2.1] at hvalid
  next hvalid =>
  split
  next hdnf => exact .of_quiet rfl rfl fun h => nomatch hdnf.symm.trans h.2.2.2
  next allPass hdnf =>
  split
  next htripped => exact .of_quiet rfl rfl fun h => nomatch htripped.symm.trans h.2.2.1
  next htripped =>
  split
  next hpass =>
    refine .of_quiet rfl rfl fun h => ?_
    cases hdnf.symm.trans h.2.2.2
    cases hpass
  next hpass =>
    have htrips : r.TripsAt w ws := by
      refine ⟨by simpa using hgate, by simpa [Pio.sampleInputs] using hvalid,
        Bool.eq_false_of_not_eq_true htripped, hdnf.trans ?_⟩
      rw [Bool.eq_false_of_not_eq_true hpass]
    exact ⟨rfl, rfl, fun h => ⟨h.2.1, h.2.2.1⟩, fun _ => ⟨rfl, rfl⟩, fun hno => absurd htrips hno,
      fun _ => length_secondReads ..⟩

theorem adc_ticks (a : Adc) (snap : Snapshot) (ws : Moments) :
    a.latch.Ticks snap (a.TripsAt ws) (secondReads a.il adcStreamValue ws)
      (a.tickReading snap ws).adc.latch (a.tickReading snap ws).snap := by
  unfold Adc.tickReading
  split
  next hvalid => exact .of_quiet rfl rfl fun h => by simp [h.1] at hvalid
  next hvalid =>
  split
  next hdnf => exact .of_quiet rfl rfl fun h => nomatch hdnf.symm.trans h.2.2
  next allPass hdnf =>
  dsimp only
  cases htripped : a.ilTripped with
  | true =>
      refine .of_quiet ?_ rfl fun h => nomatch htripped.symm.trans h.2.1
      simp [Adc.latch, htripped]
  | false =>
      cases allPass with
      | true =>
          refine .of_quiet ?_ rfl fun h => nomatch hdnf.symm.trans h.2.2
          simp [Adc.latch, htripped]
      | false =>
          have htrips : a.TripsAt ws := ⟨by simpa using hvalid, htripped, hdnf⟩
          exact ⟨rfl, rfl, fun h => ⟨h.1, h.2.1⟩, fun _ => ⟨rfl, rfl⟩, fun hno => absurd htrips hno,
            fun _ => length_secondReads ..⟩

theorem readInput_latch (m : Mixed) (claims : Claims) (w : World) (k : Nat) (i : Input) :
    (m.readInput claims w k i).2.latch = m.latch := by
  unfold Mixed.readInput
  dsimp only
  split_ifs <;> rfl

/-- The input loop reads a value for each input and leaves the interlock alone. -/
theorem readInputsAt_latch (claims : Claims) (ws : Moments) (k : Nat) (is : List Input)
    (m : Mixed) :
    (Mixed.readInputsAt claims ws k is m).1.length = is.length ∧
      (Mixed.readInputsAt claims ws k is m).2.latch = m.latch := by
  induction is generalizing k m with
  | nil => exact ⟨rfl, rfl⟩
  | cons i is ih =>
      obtain ⟨hlen, hlatch⟩ := ih (k + 1) (m.readInput claims (ws k) k i).2
      exact ⟨congrArg (· + 1) hlen, hlatch.trans (readInput_latch m claims (ws k) k i)⟩

theorem conditionAt_eq (m : Mixed) (claims : Claims) (ws : Moments) :
    (m.conditionAt claims ws).2.2.latch = m.latch ∧
      (m.conditionAt claims ws).2.1.length = m.il.inputs.length ∧
      (m.conditionAt claims ws).1 = onValues m.il (m.conditionAt claims ws).2.1 := by
  obtain ⟨hlen, hlatch⟩ := readInputsAt_latch claims ws 0 m.il.inputs
    { m with gpioRaw := 0, gpioDeb := 0 }
  refine ⟨hlatch, hlen, ?_⟩
  have hil : (m.conditionAt claims ws).2.2.il = m.il := congrArg Latch.il hlatch
  show onValues (m.conditionAt claims ws).2.2.il _ = _
  rw [hil]
  rfl

/-- The values that MIXED mode evaluates and records. -/
def Mixed.readsAt (m : Mixed) (claims : Claims) (w : World) (ws : Moments) : List Nat :=
  ({ m with nextMs := w.millis + 10 }.conditionAt claims ws).2.1

theorem mixed_ticks (m : Mixed) (snap : Snapshot) (claims : Claims) (w : World) (ws : Moments) :
    m.latch.Ticks snap (m.TripsAt claims w ws) (m.readsAt claims w ws)
      (m.tickReading snap claims w ws).mixed.latch (m.tickReading snap claims w ws).snap := by
  obtain ⟨hlatch, hlen, -⟩ := conditionAt_eq { m with nextMs := w.millis + 10 } claims ws
  unfold Mixed.tickReading
  split
  next hidle => exact .of_quiet rfl rfl fun h => by simp [h.1, h.2.1] at hidle
  next hruns =>
  have hruns' : m.ilValid = true ∧ gateOpen w.millis m.nextMs = true := by simpa using hruns
  split
  next m' hcond =>
    rw [hcond] at hlatch
    exact .of_quiet hlatch rfl fun h => nomatch (congrArg Prod.fst hcond).symm.trans h.2.2.2
  next allPass vals m' hcond =>
  have hreads : m.readsAt claims w ws = vals := congrArg (·.2.1) hcond
  rw [hcond] at hlatch
  have htrip' : m'.ilTripped = m.ilTripped := congrArg Latch.tripped hlatch
  have hil' : m'.il = m.il := congrArg Latch.il hlatch
  dsimp only
  split
  next htripped =>
    exact .of_quiet hlatch rfl fun h => nomatch htripped.symm.trans (htrip'.trans h.2.2.1)
  next htripped =>
  split
  next hpass =>
    refine .of_quiet hlatch rfl fun h => ?_
    cases (congrArg Prod.fst hcond).symm.trans h.2.2.2
    cases hpass
  next hpass =>
    have hfree : m.ilTripped = false := htrip' ▸ Bool.eq_false_of_not_eq_true htripped
    have htrips : m.TripsAt claims w ws := by
      refine ⟨hruns'.1, hruns'.2, hfree, ?_⟩
      rw [hcond, Bool.eq_false_of_not_eq_true hpass]
    have hvalid' : m'.ilValid = m.ilValid := congrArg Latch.valid hlatch
    have hsnap : snap.capture m'.il vals = snap.capture m.il (m.readsAt claims w ws) := by
      rw [hreads, hil']
    exact ⟨hil', hvalid', fun h => ⟨h.1, h.2.2.1⟩, fun _ => ⟨rfl, hsnap⟩,
      fun hno => absurd htrips hno, fun _ => hlen⟩

end Captures

/-! ## Steps -/

/-- No snapshot is held while an interlock is armed and has not tripped. -/
def Chip.Fresh (c : Chip) : Prop :=
  c.latch.valid = true → c.latch.tripped = false → c.snap.valid = false

/-- The snapshot stays, and no interlock is armed by the step. -/
structure Chip.Frozen (c c' : Chip) : Prop where
  snap : c.snap.Same c'.snap
  latch : c'.latch.valid = true → c'.latch.tripped = false →
    c.latch.valid = true ∧ c.latch.tripped = false

section Steps

variable {c c' : Chip} {e : ChipEvent} {m : Moment} {val : Byte}

theorem Snapshot.Same.refl (snap : Snapshot) : snap.Same snap := ⟨rfl, rfl, rfl⟩

theorem Snapshot.Same.trans {s s' s'' : Snapshot} (h : s.Same s') (h' : s'.Same s'') :
    s.Same s'' :=
  ⟨h'.valid.trans h.valid, h'.inVals.trans h.inVals, h'.outVals.trans h.outVals⟩

theorem Chip.Frozen.of_eq (hsnap : c'.snap = c.snap) (hlatch : c'.latch = c.latch) :
    c.Frozen c' := by
  refine ⟨hsnap ▸ .refl c'.snap, ?_⟩
  rw [hlatch]
  exact fun hvalid hfree => ⟨hvalid, hfree⟩

/-- A mode without an interlock. -/
theorem Chip.Frozen.of_none (hsnap : c'.snap = c.snap) (hlatch : c'.latch = {}) :
    c.Frozen c' := by
  refine ⟨hsnap ▸ .refl c'.snap, ?_⟩
  rw [hlatch]
  exact fun hvalid => absurd hvalid Bool.false_ne_true

theorem modeLeave_snap (c : Chip) (m : Mode) : (c.modeLeave m).snap = c.snap := by
  cases m <;> rfl

theorem latch_congr (hmode : c'.mode = c.mode) (hpio : c'.pio.latch = c.pio.latch)
    (hadc : c'.adc.latch = c.adc.latch) (hmixed : c'.mixed.latch = c.mixed.latch) :
    c'.latch = c.latch := by
  rw [Chip.latch, Chip.latch, hmode, hpio, hadc, hmixed]

/-- The register that selects an input is none of the snapshot. -/
theorem snap_regWrite_same (snap : Snapshot) (reg val : Byte) :
    snap.Same (snap.regWrite reg val) := by
  unfold Snapshot.regWrite
  split <;> exact ⟨rfl, rfl, rfl⟩

theorem bankWrite_frozen (c : Chip) (reg val : Byte) : c.Frozen (c.bankWrite reg val) := by
  have hpio : (c.pio.regWrite c.world reg val).1.latch = c.pio.latch := by
    unfold Pio.regWrite
    split_ifs <;> rfl
  have hadc : (c.adc.regWrite c.dac reg val).1.latch = c.adc.latch := by
    unfold Adc.regWrite
    split
    next => split <;> rfl
    next => split <;> rfl
  have hmixed : (c.mixed.regWrite c.dac reg val).1.latch = c.mixed.latch := by
    unfold Mixed.regWrite
    split_ifs
    · rfl
    · rfl
    · split <;> rfl
    · rfl
  unfold Chip.bankWrite
  split
  next => exact ⟨snap_regWrite_same .., fun hvalid hfree => ⟨hvalid, hfree⟩⟩
  next =>
    split
    next => exact .of_eq rfl rfl
    next => exact .of_eq rfl (latch_congr rfl hpio rfl rfl)
    next => exact .of_eq rfl (latch_congr rfl rfl hadc rfl)
    next => exact .of_eq rfl (latch_congr rfl rfl rfl hmixed)
    next => exact .of_eq rfl rfl
    next => exact .of_eq rfl rfl

/-! ### Acknowledgements -/

/-- A part of `ackFlags`: it drops the snapshot, or it leaves it and the interlock. -/
structure Chip.Part (c c' : Chip) (acks : Prop) : Prop where
  mode : c'.mode = c.mode
  drops : acks ∨ c.snap.valid = false → c'.snap.valid = false
  keeps : ¬acks → c'.snap = c.snap ∧ c'.latch = c.latch

def Chip.ackPio (c : Chip) (val : Byte) : Chip :=
  if val.getLsbD 0 then
    let (pio, snap, ops) := c.pio.manualReset c.snap c.world
    { c with pio, snap }.write ops
  else c

def Chip.ackMixed (c : Chip) (val : Byte) : Chip :=
  if val.getLsbD 1 ∧ c.mode = .mixed then
    let (mixed, snap, ops) := c.mixed.manualReset c.snap
    { c with mixed, snap }.write ops
  else c

def Chip.ackAdc (c : Chip) (val : Byte) : Chip :=
  if val.getLsbD 3 ∧ c.mode = .adc then
    let (adc, snap, ops) := c.adc.manualReset c.snap
    { c with adc, snap }.write ops
  else c

theorem ackFlags_parts (c : Chip) (val : Byte) : c.ackFlags val =
    ((({ c with intFlags := c.intFlags &&& ~~~val } : Chip).ackPio val).ackMixed val).ackAdc val :=
  rfl

theorem ackPio_part (c : Chip) (val : Byte) :
    c.Part (c.ackPio val) (val.getLsbD 0 = true ∧ c.pio.ilTripped = true) ∧
      (c.ackPio val).mixed = c.mixed ∧ (c.ackPio val).adc = c.adc := by
  unfold Chip.ackPio
  split
  next hbit =>
    unfold Pio.manualReset
    by_cases htrip : c.pio.ilTripped = true
    · rw [if_pos htrip]
      exact ⟨⟨rfl, fun _ => rfl, fun hno => absurd ⟨hbit, htrip⟩ hno⟩, rfl, rfl⟩
    · rw [if_neg htrip]
      exact ⟨⟨rfl, fun h => h.resolve_left fun h => htrip h.2, fun _ => ⟨rfl, rfl⟩⟩, rfl, rfl⟩
  next hbit =>
    exact ⟨⟨rfl, fun h => h.resolve_left fun h => hbit h.1, fun _ => ⟨rfl, rfl⟩⟩, rfl, rfl⟩

theorem ackMixed_part (c : Chip) (val : Byte) :
    c.Part (c.ackMixed val) (val.getLsbD 1 = true ∧ c.mode = .mixed ∧ c.mixed.ilTripped = true) ∧
      (c.ackMixed val).adc = c.adc := by
  unfold Chip.ackMixed
  split
  next hbit =>
    unfold Mixed.manualReset
    by_cases htrip : c.mixed.ilTripped = true
    · rw [if_pos htrip]
      exact ⟨⟨rfl, fun _ => rfl, fun hno => absurd ⟨hbit.1, hbit.2, htrip⟩ hno⟩, rfl⟩
    · rw [if_neg htrip]
      exact ⟨⟨rfl, fun h => h.resolve_left fun h => htrip h.2.2, fun _ => ⟨rfl, rfl⟩⟩, rfl⟩
  next hbit =>
    exact ⟨⟨rfl, fun h => h.resolve_left fun h => hbit ⟨h.1, h.2.1⟩, fun _ => ⟨rfl, rfl⟩⟩, rfl⟩

theorem ackAdc_part (c : Chip) (val : Byte) :
    c.Part (c.ackAdc val) (val.getLsbD 3 = true ∧ c.mode = .adc ∧ c.adc.ilTripped = true) := by
  unfold Chip.ackAdc
  split
  next hbit =>
    unfold Adc.manualReset
    by_cases htrip : c.adc.ilTripped = true
    · rw [if_pos htrip]
      exact ⟨rfl, fun _ => rfl, fun hno => absurd ⟨hbit.1, hbit.2, htrip⟩ hno⟩
    · rw [if_neg htrip]
      exact ⟨rfl, fun h => h.resolve_left fun h => htrip h.2.2, fun _ => ⟨rfl, rfl⟩⟩
  next hbit =>
    exact ⟨rfl, fun h => h.resolve_left fun h => hbit ⟨h.1, h.2.1⟩, fun _ => ⟨rfl, rfl⟩⟩

/-- An acknowledgement of a trip drops the snapshot, and any other leaves it. -/
theorem ackFlags_frozen (c : Chip) (val : Byte) :
    (c.ackFlags val).snap.valid = false ∧ c.Acknowledges (.event (.regWrite regIntFlags val)) ∨
      c.Frozen (c.ackFlags val) := by
  obtain ⟨hpio, hmixed₁, hadc₁⟩ := ackPio_part { c with intFlags := c.intFlags &&& ~~~val } val
  rw [ackFlags_parts]
  generalize Chip.ackPio { c with intFlags := c.intFlags &&& ~~~val } val = c₁ at hpio hmixed₁ hadc₁
  obtain ⟨hmixed, hadc₂⟩ := ackMixed_part c₁ val
  generalize c₁.ackMixed val = c₂ at hmixed hadc₂
  have hadc := ackAdc_part c₂ val
  generalize c₂.ackAdc val = c₃ at hadc
  rw [hmixed₁, hpio.mode] at hmixed
  rw [hadc₂, hadc₁, hmixed.mode, hpio.mode] at hadc
  by_cases h : c.Acknowledges (.event (.regWrite regIntFlags val))
  · refine .inl ⟨?_, h⟩
    obtain ⟨val, heq, hbits⟩ := h
    cases heq
    rcases hbits with hbit | hbit | hbit
    · exact hadc.drops (.inr (hmixed.drops (.inr (hpio.drops (.inl hbit)))))
    · exact hadc.drops (.inr (hmixed.drops (.inl hbit)))
    · exact hadc.drops (.inl hbit)
  · have hpio' := hpio.keeps fun hbit => h ⟨val, rfl, .inl hbit⟩
    have hmixed' := hmixed.keeps fun hbit => h ⟨val, rfl, .inr (.inl hbit)⟩
    have hadc' := hadc.keeps fun hbit => h ⟨val, rfl, .inr (.inr hbit)⟩
    exact .inr (.of_eq (hadc'.1.trans (hmixed'.1.trans hpio'.1))
      (hadc'.2.trans (hmixed'.2.trans hpio'.2)))

/-- A mode that has an interlock arms it without a snapshot; the others leave the snapshot. -/
theorem switch_frozen (c : Chip) (mode : Mode) :
    ({ c.modeLeave c.mode with mode }.modeEnter mode).snap.valid = false ∧
        (mode = .pio ∨ mode = .adc ∨ mode = .mixed) ∨
      c.Frozen ({ c.modeLeave c.mode with mode }.modeEnter mode) := by
  have hsnap := modeLeave_snap c c.mode
  cases mode
  case pio => exact .inl ⟨rfl, .inl rfl⟩
  case adc => exact .inl ⟨rfl, .inr (.inl rfl)⟩
  case mixed => exact .inl ⟨rfl, .inr (.inr rfl)⟩
  all_goals exact .inr (.of_none hsnap rfl)

/-- Every event that is no tick of an interlock. -/
theorem next_frozen (c : Chip) (hpio : e ≠ .pioTick) (hadc : e ≠ .adcTick)
    (hmixed : e ≠ .mixedTick) :
    (c.next e).snap.valid = false ∧ (c.Acknowledges (.event e) ∨ c.Rearms (.event e)) ∨
      c.Frozen (c.next e) := by
  cases e with
  | world | service | benchTick => exact .inr (.of_eq rfl rfl)
  | pioTick => exact absurd rfl hpio
  | adcTick => exact absurd rfl hadc
  | mixedTick => exact absurd rfl hmixed
  | servoTick =>
      show _ ∨ c.Frozen c.servoTick
      unfold Chip.servoTick
      split_ifs <;> exact .inr (.of_eq rfl rfl)
  | mc0 =>
      show _ ∨ c.Frozen c.mc0
      unfold Chip.mc0
      split <;> exact .inr (.of_eq rfl rfl)
  | mc1 =>
      show _ ∨ c.Frozen c.mc1
      unfold Chip.mc1
      split <;> exact .inr (.of_eq rfl rfl)
  | goOffline => exact .inr (.of_none (modeLeave_snap c c.mode) rfl)
  | regWrite reg val =>
      have hstep := regStep_cases c reg val
      change (c.regWrite reg val).snap.valid = false ∧ _ ∨ c.Frozen (c.regWrite reg val)
      generalize c.regWrite reg val = c' at hstep ⊢
      cases hstep with
      | bank => exact .inr (bankWrite_frozen c reg val)
      | keep => exact .inr (.of_eq rfl rfl)
      | switch mode hreg hval hne =>
          subst hreg
          exact (switch_frozen c mode).imp_left fun h => ⟨h.1, .inr ⟨val, mode, rfl, hval, hne, h.2⟩⟩
      | ack hreg =>
          subst hreg
          exact (ackFlags_frozen c val).imp_left fun h => ⟨h.1, .inl h.2⟩
      | client => exact .inr (.of_eq rfl rfl)

/-! ### Ticks -/

/-- What a tick of the mode's interlock does to the chip: it trips with these values or it does
not, and where it trips it repeats if the values say so. -/
structure Chip.TickStep (c : Chip) (m : Moment) (trips : Prop) (vals : List Nat) : Prop where
  mode : (c.after m).mode = c.mode
  ticks : c.latch.Ticks c.snap trips vals (c.after m).latch (c.after m).snap
  repeats : c.Repeats m ↔ (trips → onValues c.latch.il vals = some false)

/-- A tick of another mode does nothing. -/
theorem tickStep_idle (hsame : c.after m = c) (hrepeats : c.Repeats m) :
    c.TickStep m False [] :=
  ⟨congrArg Chip.mode hsame, .of_quiet (congrArg Chip.latch hsame) (congrArg Chip.snap hsame) id,
    iff_of_true hrepeats nofun⟩

theorem latch_pio (h : c.mode = .pio) : c.latch = c.pio.latch := by rw [Chip.latch, h]

theorem latch_adc (h : c.mode = .adc) : c.latch = c.adc.latch := by rw [Chip.latch, h]

theorem latch_mixed (h : c.mode = .mixed) : c.latch = c.mixed.latch := by rw [Chip.latch, h]

theorem pio_tickStep (hmode : c.mode = .pio) (ws : Moments) :
    c.TickStep (.pioTick ws) (c.pio.TripsAt c.world ws) (secondReads c.pio.il pioRead ws) := by
  have hafter : c.after (.pioTick ws) = _ := if_pos hmode
  have hmode' : (c.after (.pioTick ws)).mode = c.mode := by rw [hafter]; rfl
  have hticks := pio_ticks c.pio c.snap c.world ws
  refine ⟨hmode', ?_, ?_⟩
  · rw [latch_pio hmode, latch_pio (hmode'.trans hmode), hafter]
    exact hticks
  · rw [latch_pio hmode]
    exact ⟨fun h => h hmode, fun h _ => h⟩

theorem adc_tickStep (hmode : c.mode = .adc) (ws : Moments) :
    c.TickStep (.adcTick ws) (c.adc.TripsAt ws) (secondReads c.adc.il adcStreamValue ws) := by
  have hafter : c.after (.adcTick ws) = _ := if_pos hmode
  have hmode' : (c.after (.adcTick ws)).mode = c.mode := by rw [hafter]; rfl
  have hticks := adc_ticks c.adc c.snap ws
  refine ⟨hmode', ?_, ?_⟩
  · rw [latch_adc hmode, latch_adc (hmode'.trans hmode), hafter]
    exact hticks
  · rw [latch_adc hmode]
    exact ⟨fun h => h hmode, fun h _ => h⟩

/-- MIXED mode records the values that failed. -/
theorem mixed_tickStep (hmode : c.mode = .mixed) (ws : Moments) :
    c.TickStep (.mixedTick ws) (c.mixed.TripsAt c.claims c.world ws)
      (c.mixed.readsAt c.claims c.world ws) := by
  have hafter : c.after (.mixedTick ws) = _ := if_pos hmode
  have hmode' : (c.after (.mixedTick ws)).mode = c.mode := by rw [hafter]; rfl
  have hticks := mixed_ticks c.mixed c.snap c.claims c.world ws
  refine ⟨hmode', ?_, ?_⟩
  · rw [latch_mixed hmode, latch_mixed (hmode'.trans hmode), hafter]
    exact hticks
  · rw [latch_mixed hmode]
    obtain ⟨-, -, hcond⟩ :=
      conditionAt_eq { c.mixed with nextMs := c.world.millis + 10 } c.claims ws
    exact iff_of_true trivial fun htrips => hcond.symm.trans htrips.2.2.2

theorem after_tick (c : Chip) (hm : ∀ e, m ≠ .event e) :
    ∃ trips vals, c.TickStep m trips vals := by
  cases m with
  | event e => exact absurd rfl (hm e)
  | pioTick ws =>
      by_cases hmode : c.mode = .pio
      · exact ⟨_, _, pio_tickStep hmode ws⟩
      · exact ⟨_, _, tickStep_idle (if_neg hmode) fun h => absurd h hmode⟩
  | adcTick ws =>
      by_cases hmode : c.mode = .adc
      · exact ⟨_, _, adc_tickStep hmode ws⟩
      · exact ⟨_, _, tickStep_idle (if_neg hmode) fun h => absurd h hmode⟩
  | mixedTick ws =>
      by_cases hmode : c.mode = .mixed
      · exact ⟨_, _, mixed_tickStep hmode ws⟩
      · exact ⟨_, _, tickStep_idle (if_neg hmode) trivial⟩

/-- A tick from a fresh state: what it captures explains the trip if and only if it repeats. -/
theorem explains_tick (hfresh : c.Fresh) {trips : Prop} {vals : List Nat}
    (h : c.TickStep m trips vals) : c.Explains (c.after m) ↔ c.Repeats m := by
  rw [h.repeats]
  by_cases htrips : trips
  · obtain ⟨hvalid, hfree⟩ := h.ticks.armed htrips
    have hnone := hfresh hvalid hfree
    have hsnap := (h.ticks.trip htrips).2
    have hvals := capture_vals hnone (h.ticks.length htrips)
    unfold Chip.Explains
    rw [hsnap, hvals]
    constructor
    · intro hexp _
      refine hexp hnone ?_
      unfold Snapshot.capture
      rw [if_neg (by rw [hnone]; decide)]
    · exact fun hrep _ _ => hrep htrips
  · have hsnap := (h.ticks.quiet htrips).2
    refine iff_of_true (fun hnone hsome => ?_) fun h => absurd h htrips
    rw [hsnap, hnone] at hsome
    cases hsome

theorem fresh_tick (hfresh : c.Fresh) {trips : Prop} {vals : List Nat}
    (h : c.TickStep m trips vals) : (c.after m).Fresh := by
  intro hvalid hfree
  by_cases htrips : trips
  · exact absurd ((h.ticks.trip htrips).1.symm.trans hfree) Bool.noConfusion
  · obtain ⟨htripped, hsnap⟩ := h.ticks.quiet htrips
    rw [hsnap]
    exact hfresh (h.ticks.valid ▸ hvalid) (htripped ▸ hfree)

/-- A snapshot that is held is not replaced. -/
theorem same_tick (hheld : c.snap.valid = true) {trips : Prop} {vals : List Nat}
    (h : c.TickStep m trips vals) : (c.after m).snap = c.snap := by
  by_cases htrips : trips
  · rw [(h.ticks.trip htrips).2, Snapshot.capture, if_pos hheld]
  · exact (h.ticks.quiet htrips).2

/-! ### Steady inputs -/

/-- On inputs that do not change the watches do on the second reads what they did on the first. -/
theorem passesAt_steady {inst : Inst} {pass : World → Watch → Bool} {read : World → Input → Nat}
    {ws : Moments} (hpass : ∀ w, ∀ watch ∈ inst.watches, pass w watch =
      watch.op.holds ((inst.inputs[watch.inputIdx]?).elim 0 (read w)) watch.threshold)
    (hsteady : SteadyReads inst read ws) :
    passesAt inst pass ws = inst.watches.map (mixedWatchPass (secondReads inst read ws)) := by
  apply List.ext_getElem?
  intro k
  rw [passesAt, List.getElem?_mapIdx, List.getElem?_map]
  cases hk : inst.watches[k]? with
  | none => rfl
  | some watch =>
      rw [Option.map_some, Option.map_some, hpass _ watch (List.mem_of_getElem? hk), mixedWatchPass,
        List.getD_eq_getElem?_getD, secondReads, List.getElem?_mapIdx]
      cases hi : inst.inputs[watch.inputIdx]? with
      | none => rfl
      | some i => rw [Option.elim_some, hsteady k watch i hk hi, Option.map_some, Option.getD_some]

theorem pioWatchPass_eq {r : Pio} (h : r.Parsed) (w : World) :
    ∀ watch ∈ r.il.watches, pioWatchPass r.il w watch =
      watch.op.holds ((r.il.inputs[watch.inputIdx]?).elim 0 (pioRead w)) watch.threshold := by
  intro watch hwatch
  have hidx : watch.inputIdx < r.il.inputs.length := by
    rcases h with hnone | ⟨file, hparse⟩
    · rw [hnone] at hwatch
      exact absurd hwatch List.not_mem_nil
    · exact (ilParse_resolved hparse).watches watch hwatch
  rw [pioWatchPass, List.getElem?_eq_getElem hidx]
  rfl

theorem steady_repeats (hinv : c.Inv) (h : c.Steady m) : c.Repeats m := by
  cases m with
  | event | mixedTick => trivial
  | pioTick ws =>
      intro hmode htrips
      have hpasses := passesAt_steady (pioWatchPass_eq hinv.parsed) (h hmode htrips)
      rw [onValues, ← hpasses]
      exact htrips.2.2.2
  | adcTick ws =>
      intro hmode htrips
      have hreads (w : World) (watch : Watch) : adcWatchPass c.adc.il w watch = watch.op.holds
          ((c.adc.il.inputs[watch.inputIdx]?).elim 0 (adcStreamValue w)) watch.threshold := rfl
      have hpasses := passesAt_steady (fun w watch _ => hreads w watch) (h hmode htrips)
      rw [onValues, ← hpasses]
      exact htrips.2.2

/-! ## Runs -/

/-- What holds in every state of a run. -/
structure Chip.Sound (c : Chip) : Prop where
  inv : c.Inv
  fresh : c.Fresh

/-- What a moment captures explains its trip if and only if it repeats. -/
theorem explains_after (h : c.Sound) (m : Moment) : c.Explains (c.after m) ↔ c.Repeats m := by
  have htick : ∀ m : Moment, (∀ e, m ≠ .event e) → (c.Explains (c.after m) ↔ c.Repeats m) := by
    intro m hm
    obtain ⟨trips, vals, hstep⟩ := after_tick c hm
    exact explains_tick h.fresh hstep
  cases m with
  | event e =>
      refine iff_of_true ?_ trivial
      rcases after_event c e with ⟨m, hnext, hsteady, hm⟩ | ⟨hpio, hadc, hmixed⟩
      · show c.Explains (c.next e)
        rw [hnext]
        exact (htick m hm).mpr (steady_repeats h.inv hsteady)
      · intro hnone hsome
        rcases next_frozen c hpio hadc hmixed with ⟨hdrop, -⟩ | hfrozen
        · exact absurd (hdrop.symm.trans hsome) Bool.false_ne_true
        · exact absurd (hnone.symm.trans (hfrozen.snap.valid.symm.trans hsome)) Bool.false_ne_true
  | pioTick ws => exact htick _ nofun
  | adcTick ws => exact htick _ nofun
  | mixedTick ws => exact htick _ nofun

theorem reading_inv (h : c.Inv) (ws : Moments) :
    (c.pioTickReading ws).Inv ∧ (c.adcTickReading ws).Inv ∧ (c.mixedTickReading ws).Inv := by
  refine ⟨?_, ?_, ?_⟩
  · unfold Chip.pioTickReading
    split
    next hmode =>
      have hil : (c.pio.tickReading c.snap c.world ws).pio.il = c.pio.il :=
        (pio_ticks c.pio c.snap c.world ws).il
      refine ⟨fun hne => absurd hmode hne, ?_, h.free, h.ofMixed, h.timer, h.bench⟩
      show (c.pio.tickReading c.snap c.world ws).pio.Parsed
      unfold Pio.Parsed
      rw [hil]
      exact h.parsed
    next => exact h
  · unfold Chip.adcTickReading
    split
    next => exact ⟨h.safe, h.parsed, h.free, h.ofMixed, h.timer, h.bench⟩
    next => exact h
  · unfold Chip.mixedTickReading
    split
    next => exact ⟨h.safe, h.parsed, h.free, h.ofMixed, h.timer, h.bench⟩
    next => exact h

theorem sound_after (h : c.Sound) (m : Moment) : (c.after m).Sound := by
  have hfresh : ∀ m : Moment, (∀ e, m ≠ .event e) → (c.after m).Fresh := by
    intro m hm
    obtain ⟨trips, vals, hstep⟩ := after_tick c hm
    exact fresh_tick h.fresh hstep
  cases m with
  | event e =>
      refine ⟨h.inv.next e, ?_⟩
      show (c.next e).Fresh
      rcases after_event c e with ⟨m, hnext, -, hm⟩ | ⟨hpio, hadc, hmixed⟩
      · rw [hnext]
        exact hfresh m hm
      · intro hvalid hfree
        rcases next_frozen c hpio hadc hmixed with ⟨hdrop, -⟩ | hfrozen
        · exact hdrop
        · obtain ⟨hvalid', hfree'⟩ := hfrozen.latch hvalid hfree
          exact hfrozen.snap.valid.trans (h.fresh hvalid' hfree')
  | pioTick ws => exact ⟨(reading_inv h.inv ws).1, hfresh _ nofun⟩
  | adcTick ws => exact ⟨(reading_inv h.inv ws).2.1, hfresh _ nofun⟩
  | mixedTick ws => exact ⟨(reading_inv h.inv ws).2.2, hfresh _ nofun⟩

/-- A snapshot that is held stays while no trip is acknowledged and no interlock armed. -/
theorem same_after (hheld : c.snap.valid = true) (hack : ¬c.Acknowledges m) (harm : ¬c.Rearms m) :
    c.snap.Same (c.after m).snap := by
  have htick : ∀ m : Moment, (∀ e, m ≠ .event e) → c.snap.Same (c.after m).snap := by
    intro m hm
    obtain ⟨trips, vals, hstep⟩ := after_tick c hm
    rw [same_tick hheld hstep]
    exact .refl _
  cases m with
  | event e =>
      show c.snap.Same (c.next e).snap
      rcases after_event c e with ⟨m, hnext, -, hm⟩ | ⟨hpio, hadc, hmixed⟩
      · rw [hnext]
        exact htick m hm
      · rcases next_frozen c hpio hadc hmixed with ⟨-, hends⟩ | hfrozen
        · exact absurd hends (not_or.mpr ⟨hack, harm⟩)
        · exact hfrozen.snap
  | pioTick ws => exact htick _ nofun
  | adcTick ws => exact htick _ nofun
  | mixedTick ws => exact htick _ nofun

theorem sound_powerOn (cfg : Config.Client) : (Chip.powerOn cfg).Sound :=
  ⟨chip_inv cfg [], fun hvalid => absurd hvalid Bool.false_ne_true⟩

end Steps

/-- In every run each snapshot that is captured explains its trip if and only if, wherever GPIO
or ADC mode trips, the inputs fail the watches again when they are read again; inputs that do not
change between the two reads do. And a snapshot that is held stays as it is until a trip is
acknowledged or an interlock armed. -/
theorem freeze_frame (cfg : Config.Client) (ms : List Moment) :
    (Along Chip.after (fun c m => c.Explains (c.after m)) (.powerOn cfg) ms ↔
      Along Chip.after Chip.Repeats (.powerOn cfg) ms) ∧
    (Along Chip.after Chip.Steady (.powerOn cfg) ms →
      Along Chip.after Chip.Repeats (.powerOn cfg) ms) ∧
    ∀ later, let c := run Chip.after (.powerOn cfg) ms
      c.snap.valid = true →
        Along Chip.after (fun c m => ¬c.Acknowledges m ∧ ¬c.Rearms m) c later →
        c.snap.Same (run Chip.after c later).snap := by
  refine ⟨?_, fun hsteady => ?_, ?_⟩
  · exact Runs.along_congr (P := Chip.Sound) (fun c m h => explains_after h m)
      (fun c m h _ => sound_after h m) (sound_powerOn cfg)
  · have hboth : Along Chip.after (fun c m => c.Steady m ∧ c.Repeats m) (.powerOn cfg) ms :=
      (Runs.along_congr (P := Chip.Sound)
        (fun c m h => ⟨fun hs => ⟨hs, steady_repeats h.inv hs⟩, And.left⟩)
        (fun c m h _ => sound_after h m) (sound_powerOn cfg)).mp hsteady
    exact hboth.imp fun _ _ h => h.2
  · intro later c hheld halong
    have hkept := Runs.run_along (P := fun s : Chip => s.snap.valid = true ∧ c.snap.Same s.snap)
      (fun s m hs hquiet =>
        have hstep := same_after hs.1 hquiet.1 hquiet.2
        ⟨hstep.valid.trans hs.1, hs.2.trans hstep⟩) halong ⟨hheld, .refl _⟩
    exact hkept.2

/-- An interlock on D0, which is to be high. -/
def highFiles : List (Config.Name × List Byte) :=
  [(ilcfName, "a;cfg[D0:in];watch[D0:eq:1]".toList.map fun c => .ofNat 8 c.toNat)]

theorem freeze_frame_low : Along Chip.after (fun c m => c.Explains (c.after m))
    (.powerOn (holding highFiles)) [.event (.regWrite regMode 1), .pioTick fun _ => {}] := by
  have h := freeze_frame (holding highFiles) [.event (.regWrite regMode 1), .pioTick fun _ => {}]
  exact h.1.mpr (h.2.1 ⟨trivial, fun _ _ _ _ _ _ _ => rfl, trivial⟩)

/-- D0 is low for the first read of a tick and high from then on. -/
def briefLow : Moments := fun n => { levels := fun _ => decide (n ≠ 0) }

/-- GPIO mode trips on D0, and the snapshot says that D0 was high. -/
theorem not_freeze_frame :
    let c := run Chip.after (.powerOn (holding highFiles)) [.event (.regWrite regMode 1)]
    let c' := c.after (.pioTick briefLow)
    c.pio.ilTripped = false ∧ c'.pio.ilTripped = true ∧ c'.snap.inVals = [(1, 1)] ∧
      ¬c.Explains c' := by
  intro c c'
  have hnone : c.snap.valid = false := by decide +kernel
  have hsome : c'.snap.valid = true := by decide +kernel
  have hpass : onValues c.latch.il (c'.snap.inVals.map Prod.fst) = some true := by decide +kernel
  refine ⟨by decide +kernel, by decide +kernel, by decide +kernel, fun h => ?_⟩
  cases hpass.symm.trans (h hnone hsome)

end SlowBus.Modes
