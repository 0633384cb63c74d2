import SlowBus.Modes.EStop

/-!
# The pulses of the servo bank

A frame of 15000 ticks opens with all enabled pads raised and drops each at its event. A
write of a width or of the enable mask rebuilds the events and takes the handler back to
the first one, while the compare register and the pads keep the frame's state. Pulses end
in time as long as each such write leaves every raised pad an event still to come.
-/

namespace SlowBus.Modes

open Bus (Byte)
open Runs (run Along)

/-! ## Time -/

def Chip.setCount (c : Chip) (count : Nat) : Chip :=
  { c with servo := { c.servo with tc := { c.servo.tc with count } } }

/-- One tick of the frame timer and the interrupt it raises. -/
def Chip.clock (c : Chip) : Chip :=
  if c.servo.tc.running then
    let count := c.servo.tc.count + 1
    if count = servoFrameTicks then (c.setCount 0).mc0
    else if count = c.servo.tc.cc1 then (c.setCount count).mc1
    else c.setCount count
  else c

inductive PulseEvent where
  | clock
  | world (w : World)
  /-- A pass of the main loop: the e-stop poll, and before it the bench tools' conversion, an
  event of its own as the other events may come between the two. -/
  | poll
  | convert
  /-- A write to a register of the mode. -/
  | write (reg val : Byte)

def PulseEvent.isClock : PulseEvent → Bool
  | .clock => true
  | _ => false

def Chip.pulse (c : Chip) : PulseEvent → Chip
  | .clock => c.clock
  | .world w => { c with world := w }
  | .poll => c.servoTick
  | .convert => c.benchTick
  | .write reg val => c.bankWrite reg val

/-- The longest pulse, 2500 us. -/
def servoTicksMax : Nat := 1875

/-! ## Rebuilding -/

/-- What a write of a width or of the enable mask has stored when it comes to rebuild. -/
def Servo.stores (s : Servo) (reg val : Byte) : Option Servo :=
  if reg = 0x12 then
    let us := clampUs (setHi s.widthStage val)
    some { s with us := Function.update s.us s.selected us, widthStage := us }
  else if reg = 0x13 then
    some { s with enable := (val.setWidth 16 &&& s.declared) &&& servoEnableMask }
  else none

/-- A channel of the least width. -/
def Servo.Least (s : Servo) (ch : Fin 8) : Prop :=
  ∀ k, s.enabled k = true → s.ticks ch ≤ s.ticks k

/-- What a rebuild from `s` to the widths and the mask of `s'` must leave a raised pad: the
event at the compare time, which is the first of the new ones, or one after it, all of
which are still ahead. Without an enabled channel the old first event stays in place. -/
def Servo.StillDrops (s s' : Servo) (ch : Fin 8) : Prop :=
  ((∀ k, s'.enabled k = false) ∧ (s.evt 0).clr.get (bankPad ch) = true) ∨
    s'.enabled ch = true ∧
      (s'.Least ch ∨ ∀ k, s'.enabled k = true → ¬ s'.Least k → s.tc.cc1 < s'.ticks k)

/-- A write of a width or of the enable mask leaves every raised pad a drop. -/
def Chip.DropsKept (c : Chip) (e : PulseEvent) : Prop :=
  ∀ reg val, e = .write reg val → ∀ s', c.servo.stores reg val = some s' →
    ∀ ch, c.servo.isDeclared ch = true → (c.port (bankPad ch)).out = true →
      c.servo.StillDrops s' ch

instance (s s' : Servo) (ch : Fin 8) : Decidable (s.StillDrops s' ch) := by
  unfold Servo.StillDrops Servo.Least
  infer_instance

/-- The condition of one write, in the state it finds. -/
theorem dropsKept_write {c : Chip} {reg val : Byte} :
    c.DropsKept (.write reg val) ↔ ∀ s' ∈ c.servo.stores reg val, ∀ ch,
      c.servo.isDeclared ch = true → (c.port (bankPad ch)).out = true →
        c.servo.StillDrops s' ch := by
  refine ⟨fun h s' hs' => h reg val rfl s' hs', fun h reg' val' heq s' hs' => ?_⟩
  cases heq
  exact h s' hs'

instance (c : Chip) : (e : PulseEvent) → Decidable (c.DropsKept e)
  | .write _ _ => decidable_of_iff _ dropsKept_write.symm
  | .clock | .world _ | .poll | .convert => isTrue fun _ _ heq => by cases heq

/-! ## The events of a schedule -/

section Events

variable {t t' : Nat} {clr : Mask} {es : List ServoEvt} {q : Pin} {s : Servo} {ch : Fin 8}

theorem insertEvt_times :
    t' ∈ (insertEvt t clr es).map ServoEvt.t ↔ t' = t ∨ t' ∈ es.map ServoEvt.t := by
  induction es with
  | nil => simp [insertEvt]
  | cons e es ih =>
      unfold insertEvt
      split
      next =>
        rw [List.map_cons, List.mem_cons, ih, List.map_cons, List.mem_cons]
        exact or_left_comm
      next =>
        split
        next heq =>
          subst heq
          simp
        next => simp

theorem insertEvt_sorted (h : es.Pairwise fun e e' => e.t < e'.t) :
    (insertEvt t clr es).Pairwise fun e e' => e.t < e'.t := by
  induction es with
  | nil => simp [insertEvt]
  | cons e es ih =>
      obtain ⟨hhead, htail⟩ := List.pairwise_cons.mp h
      unfold insertEvt
      split
      next hlt =>
        refine List.pairwise_cons.mpr ⟨fun e' he' => ?_, ih htail⟩
        rcases insertEvt_times.mp (List.mem_map_of_mem he') with heq | hmem
        · exact heq ▸ hlt
        · obtain ⟨e'', he'', heq⟩ := List.mem_map.mp hmem
          exact heq ▸ hhead e'' he''
      next hge =>
        split
        next heq => exact List.pairwise_cons.mpr ⟨fun e' he' => hhead e' he', htail⟩
        next hne =>
          refine List.pairwise_cons.mpr ⟨fun e' he' => ?_, h⟩
          have hlt : t < e.t := by omega
          rcases List.mem_cons.mp he' with rfl | he'
          · exact hlt
          · exact hlt.trans (hhead e' he')

/-- What is dropped at a time. -/
theorem insertEvt_drops :
    (∃ e ∈ insertEvt t clr es, e.t = t' ∧ e.clr.get q = true) ↔
      (t = t' ∧ clr.get q = true) ∨ ∃ e ∈ es, e.t = t' ∧ e.clr.get q = true := by
  induction es with
  | nil => simp [insertEvt]
  | cons e es ih =>
      unfold insertEvt
      split
      next => simp only [List.exists_mem_cons_iff, ih, or_left_comm]
      next =>
        split
        next heq =>
          subst heq
          simp only [List.exists_mem_cons_iff, get_or, Bool.or_eq_true, and_or_left, or_assoc,
            or_left_comm]
        next => simp only [List.exists_mem_cons_iff]

/-- The events of a list of channels, on top of what is there. -/
theorem foldl_insertEvt (s : Servo) (chs : List (Fin 8)) (es : List ServoEvt)
    (h : es.Pairwise fun e e' => e.t < e'.t) :
    let built := chs.foldl (fun es ch => insertEvt (s.ticks ch) (.bit (bankPad ch)) es) es
    (built.Pairwise fun e e' => e.t < e'.t) ∧
      (∀ t, t ∈ built.map ServoEvt.t ↔ (∃ ch ∈ chs, s.ticks ch = t) ∨ t ∈ es.map ServoEvt.t) ∧
      ∀ t q, (∃ e ∈ built, e.t = t ∧ e.clr.get q = true) ↔
        (∃ ch ∈ chs, s.ticks ch = t ∧ bankPad ch = q) ∨ ∃ e ∈ es, e.t = t ∧ e.clr.get q = true := by
  induction chs generalizing es with
  | nil => exact ⟨h, by simp, by simp⟩
  | cons ch chs ih =>
      obtain ⟨hsorted, htimes, hdrops⟩ := ih _ (insertEvt_sorted h)
      refine ⟨hsorted, fun t => ?_, fun t q => ?_⟩
      · rw [List.foldl_cons, htimes, insertEvt_times, List.exists_mem_cons_iff, eq_comm (a := t)]
        exact or_left_comm.trans or_assoc.symm
      · rw [List.foldl_cons, hdrops, insertEvt_drops, List.exists_mem_cons_iff, get_bit,
          decide_eq_true_iff]
        exact or_left_comm.trans or_assoc.symm

theorem mem_pulsing : ch ∈ s.pulsing ↔ s.enabled ch = true := by
  simp [Servo.pulsing]

theorem buildEvts_sorted (s : Servo) : s.buildEvts.Pairwise fun e e' => e.t < e'.t :=
  (foldl_insertEvt s s.pulsing [] List.Pairwise.nil).1

theorem buildEvts_times (s : Servo) {e : ServoEvt} (he : e ∈ s.buildEvts) :
    ∃ ch, s.enabled ch = true ∧ s.ticks ch = e.t := by
  have htimes := ((foldl_insertEvt s s.pulsing [] List.Pairwise.nil).2.1 e.t).mp
    (List.mem_map_of_mem he)
  obtain ⟨ch, hch, ht⟩ := htimes.resolve_right (by simp)
  exact ⟨ch, mem_pulsing.mp hch, ht⟩

theorem buildEvts_drops (h : s.enabled ch = true) :
    ∃ e ∈ s.buildEvts, e.t = s.ticks ch ∧ e.clr.get (bankPad ch) = true :=
  ((foldl_insertEvt s s.pulsing [] List.Pairwise.nil).2.2 _ _).mpr
    (Or.inl ⟨ch, mem_pulsing.mpr h, rfl, rfl⟩)

theorem buildEvts_nil (h : ∀ k, s.enabled k = false) : s.buildEvts = [] := by
  refine List.eq_nil_iff_forall_not_mem.mpr fun e he => ?_
  obtain ⟨ch, hch, _⟩ := buildEvts_times s he
  rw [h ch] at hch
  cases hch

theorem buildRaise_get (s : Servo) (ch : Fin 8) :
    s.buildRaise.get (bankPad ch) = s.enabled ch := by
  have hfold : ∀ (chs : List (Fin 8)) (m : Mask),
      (chs.foldl (fun m ch => m.or (.bit (bankPad ch))) m).get (bankPad ch) =
        (m.get (bankPad ch) || decide (ch ∈ chs)) := by
    intro chs
    induction chs with
    | nil => simp
    | cons k chs ih =>
        intro m
        rw [List.foldl_cons, ih, get_or, get_bit, Bool.or_assoc]
        simp [bankPad_injective.eq_iff, eq_comm]
  rw [Servo.buildRaise, hfold, get_empty, Bool.false_or]
  exact Bool.eq_iff_iff.mpr (decide_eq_true_iff.trans mem_pulsing)

theorem clampUs_range (us : BitVec 16) : 500 ≤ (clampUs us).toNat ∧ (clampUs us).toNat ≤ 2500 := by
  have hmin : servoUsMin.toNat = 500 := rfl
  have hmax : servoUsMax.toNat = 2500 := rfl
  unfold clampUs
  dsimp only
  split_ifs with h₁ h₂ h₃
  all_goals
    simp only [BitVec.lt_def, hmin, hmax] at *
    omega

theorem ticks_range (s : Servo) (ch : Fin 8) : 0 < s.ticks ch ∧ s.ticks ch ≤ servoTicksMax := by
  have hclamp := clampUs_range (s.us ch.castSucc)
  unfold Servo.ticks usToTicks servoTicksMax
  omega

end Events

/-! ## Raised pads have a drop to come -/

/-- The masks and the events of a schedule cover its enabled channels. -/
structure Servo.Built (s : Servo) : Prop where
  raise : ∀ ch, s.raise.get (bankPad ch) = s.enabled ch
  sorted : ∀ i j, i < j → j < s.evtN → (s.evt i).t < (s.evt j).t
  range : ∀ i, i < s.evtN → 0 < (s.evt i).t ∧ (s.evt i).t ≤ servoTicksMax
  drop : ∀ ch, s.enabled ch = true → ∃ j, j < s.evtN ∧ (s.evt j).clr.get (bankPad ch) = true

/-- An armed event drops the pad at the compare time, or one after it does. -/
structure Servo.Drops (s : Servo) (q : Pin) : Prop where
  armed : s.tc.mc1 = true
  ahead : s.tc.count < s.tc.cc1
  bound : s.tc.cc1 ≤ servoTicksMax
  event : ∃ j, s.evtIdx ≤ j ∧ (s.evt j).clr.get q = true ∧
    (s.evtIdx < j → j < s.evtN ∧ s.tc.cc1 < (s.evt (s.evtIdx + 1)).t)

structure Chip.PulseInv (c : Chip) : Prop where
  mode : c.mode = .servo
  running : c.servo.tc.running = true
  frame : c.servo.tc.count < servoFrameTicks
  closed : c.BankClosed
  built : c.servo.Built
  drops : ∀ ch, c.servo.isDeclared ch = true → (c.port (bankPad ch)).out = true →
    c.servo.Drops (bankPad ch)

/-- What an event makes of the bank: pads rise at the boundary of a frame only, enabled
ones. -/
structure PulseStep (e : PulseEvent) (c c' : Chip) : Prop where
  inv : c'.PulseInv
  declared : c'.servo.declared = c.servo.declared
  count : c'.servo.tc.count =
    if e.isClock then (c.servo.tc.count + 1) % servoFrameTicks else c.servo.tc.count
  rises : ∀ ch, c.servo.isDeclared ch = true → (c'.port (bankPad ch)).out = true →
    (c.port (bankPad ch)).out = true ∨
      e.isClock = true ∧ c.servo.tc.count + 1 = servoFrameTicks ∧ c.servo.enabled ch = true

section Build

variable {s s' : Servo} {ch : Fin 8} {q : Pin}

theorem build_evt {i : Nat} (h : i < s.buildEvts.length) : s.build.evt i = s.buildEvts[i] := by
  simp [Servo.build, List.getElem?_eq_getElem h]

theorem build_sorted {i j : Nat} (hij : i < j) (hj : j < s.buildEvts.length) :
    (s.build.evt i).t < (s.build.evt j).t := by
  rw [build_evt (hij.trans hj), build_evt hj]
  exact List.pairwise_iff_getElem.mp (buildEvts_sorted s) i j (hij.trans hj) hj hij

theorem build_drops (h : s.enabled ch = true) : ∃ j, j < s.buildEvts.length ∧
    (s.build.evt j).t = s.ticks ch ∧ (s.build.evt j).clr.get (bankPad ch) = true := by
  obtain ⟨e, he, ht, hclr⟩ := buildEvts_drops h
  obtain ⟨j, hj, rfl⟩ := List.getElem_of_mem he
  exact ⟨j, hj, by rw [build_evt hj]; exact ⟨ht, hclr⟩⟩

theorem built_build (s : Servo) : s.build.Built where
  raise := buildRaise_get s
  sorted _ _ hij hj := build_sorted hij hj
  range i hi := by
    rw [build_evt hi]
    obtain ⟨ch, _, ht⟩ := buildEvts_times s (List.getElem_mem hi)
    exact ht ▸ ticks_range s ch
  drop ch hch := by
    obtain ⟨j, hj, _, hclr⟩ := build_drops (s := s) hch
    exact ⟨j, hj, hclr⟩

/-- A rebuild leaves a raised pad its drop. -/
theorem Servo.Drops.build (h : s.Drops (bankPad ch)) (htc : s'.tc = s.tc) (hevt : s'.evt = s.evt)
    (hstill : s.StillDrops s' ch) : s'.build.Drops (bankPad ch) := by
  have htc' : s'.build.tc = s.tc := htc
  refine ⟨htc'.symm ▸ h.armed, htc'.symm ▸ h.ahead, htc'.symm ▸ h.bound, ?_⟩
  rcases hstill with ⟨hnone, hclr⟩ | ⟨hch, hwhen⟩
  · -- nothing is installed over the old first event
    have hold : s'.build.evt 0 = s.evt 0 := by
      simp [Servo.build, buildEvts_nil hnone, hevt]
    exact ⟨0, le_rfl, by rw [hold]; exact hclr, fun hlt => absurd hlt (lt_irrefl 0)⟩
  · obtain ⟨j, hj, ht, hclr⟩ := build_drops hch
    refine ⟨j, Nat.zero_le j, hclr, fun hlt => ⟨hj, ?_⟩⟩
    have hlt : 0 < j := hlt
    have hone : 1 < s'.buildEvts.length := by omega
    have hzero : 0 < s'.buildEvts.length := by omega
    obtain ⟨k₀, hk₀, ht₀⟩ := buildEvts_times s' (List.getElem_mem hzero)
    obtain ⟨k, hk, htk⟩ := buildEvts_times s' (List.getElem_mem hone)
    rw [← build_evt hzero] at ht₀
    rw [← build_evt hone] at htk
    have hfirst := build_sorted hlt hj
    have hsecond := build_sorted (s := s') Nat.zero_lt_one hone
    show s'.build.tc.cc1 < (s'.build.evt 1).t
    rw [htc', ← htk]
    rcases hwhen with hleast | hahead
    · have := hleast k₀ hk₀
      omega
    · refine hahead k hk fun hleast => ?_
      have := hleast k₀ hk₀
      omega

theorem Servo.Drops.lt (h : s.Drops q) : s.tc.count < servoTicksMax := h.ahead.trans_le h.bound

/-- The frame opens: every enabled pad has an event. -/
theorem drops_open (h : s.Built) (hch : s.enabled ch = true) (hcount : s.tc.count = 0)
    (hidx : s.evtIdx = 0) (harmed : 0 < s.evtN → s.tc.mc1 = true ∧ s.tc.cc1 = (s.evt 0).t) :
    s.Drops (bankPad ch) := by
  obtain ⟨j, hj, hclr⟩ := h.drop ch hch
  have hpos : 0 < s.evtN := by omega
  obtain ⟨hmc1, hcc1⟩ := harmed hpos
  obtain ⟨hlow, hhigh⟩ := h.range 0 hpos
  refine ⟨hmc1, by omega, by omega, j, by omega, hclr, fun hlt => ⟨hj, ?_⟩⟩
  rw [hcc1, hidx]
  exact h.sorted 0 1 (by omega) (by omega)

end Build

/-! ## One event -/

section Steps

variable {c : Chip} {e : PulseEvent} {ch : Fin 8}

/-- The masks and the events are as they were. -/
structure Servo.SameSchedule (s s' : Servo) : Prop where
  declared : s'.declared = s.declared
  enable : s'.enable = s.enable
  raise : s'.raise = s.raise
  evt : s'.evt = s.evt
  evtN : s'.evtN = s.evtN

theorem Servo.SameSchedule.enabled {s s' : Servo} (h : s.SameSchedule s') (ch : Fin 8) :
    s'.enabled ch = s.enabled ch := by
  rw [Servo.enabled, Servo.enabled, h.enable, h.declared]

theorem Servo.Built.congr {s s' : Servo} (h : s.Built) (hsame : s.SameSchedule s') : s'.Built where
  raise ch := by rw [hsame.raise, hsame.enabled, h.raise]
  sorted := by
    rw [hsame.evt, hsame.evtN]
    exact h.sorted
  range := by
    rw [hsame.evt, hsame.evtN]
    exact h.range
  drop ch := by
    rw [hsame.enabled, hsame.evt, hsame.evtN]
    exact h.drop ch

theorem Servo.Drops.congr {s s' : Servo} {q : Pin} (h : s.Drops q) (hsame : s.SameSchedule s')
    (htc : s'.tc = s.tc) (hidx : s'.evtIdx = s.evtIdx) : s'.Drops q where
  armed := htc ▸ h.armed
  ahead := htc ▸ h.ahead
  bound := htc ▸ h.bound
  event := by
    rw [hsame.evt, hsame.evtN, htc, hidx]
    exact h.event

/-- Late in a frame every pad is low. -/
theorem Chip.PulseInv.low (h : c.PulseInv) (hcount : servoTicksMax ≤ c.servo.tc.count)
    (hch : c.servo.isDeclared ch = true) : (c.port (bankPad ch)).out = false :=
  Bool.eq_false_of_not_eq_true fun hup => absurd (h.drops ch hch hup).lt (not_lt.mpr hcount)

/-- The handler at the boundary of a running frame. -/
theorem mc0_spec {s : Servo} (port : Port) (hrun : s.run = true) :
    let r := s.mc0 port
    s.SameSchedule r.1 ∧ r.2 = port.outSet s.raise ∧ r.1.evtIdx = 0 ∧
      r.1.tc.running = s.tc.running ∧ r.1.tc.count = s.tc.count ∧
      (0 < s.evtN → r.1.tc.mc1 = true ∧ r.1.tc.cc1 = (s.evt 0).t) := by
  unfold Servo.mc0
  rw [if_pos hrun]
  refine ⟨⟨rfl, rfl, rfl, rfl, rfl⟩, rfl, rfl, ?_, ?_, fun hpos => ?_⟩
  all_goals dsimp only
  · split <;> rfl
  · split <;> rfl
  · split
    next => exact ⟨rfl, rfl⟩
    next hnot => exact absurd hpos hnot

/-- The handler at a drop time. -/
theorem mc1_spec (s : Servo) (port : Port) :
    let r := s.mc1 port
    s.SameSchedule r.1 ∧ r.2 = port.outClr (s.evt s.evtIdx).clr ∧ r.1.evtIdx = s.evtIdx + 1 ∧
      r.1.tc.running = s.tc.running ∧ r.1.tc.count = s.tc.count ∧
      (s.evtIdx + 1 < s.evtN →
        r.1.tc.mc1 = s.tc.mc1 ∧ r.1.tc.cc1 = (s.evt (s.evtIdx + 1)).t) := by
  unfold Servo.mc1
  refine ⟨⟨rfl, rfl, rfl, rfl, rfl⟩, rfl, rfl, ?_, ?_, fun hlt => ?_⟩
  all_goals dsimp only
  · split <;> rfl
  · split <;> rfl
  · split
    next => exact ⟨rfl, rfl⟩
    next hnot => exact absurd hlt hnot

/-- The boundary of a frame. -/
theorem pulseStep_open (h : c.PulseInv) (hwrap : c.servo.tc.count + 1 = servoFrameTicks) :
    PulseStep .clock c (c.setCount 0).mc0 := by
  -- no pulse reaches the end of its frame
  have hlow : ∀ ch, c.servo.isDeclared ch = true → (c.port (bankPad ch)).out = false :=
    fun ch hch => h.low (by unfold servoFrameTicks at hwrap; unfold servoTicksMax; omega) hch
  have hcount : (c.servo.tc.count + 1) % servoFrameTicks = 0 := by rw [hwrap, Nat.mod_self]
  have hpos : 0 < servoFrameTicks := by decide
  have hmc0 : (c.setCount 0).mc0 = { c.setCount 0 with
      servo := ((c.setCount 0).servo.mc0 c.port).1
      port := ((c.setCount 0).servo.mc0 c.port).2 } := if_pos h.running
  by_cases hrun : (c.setCount 0).servo.run = true
  · obtain ⟨hsame, hport, hidx, hrunning, hzero, harmed⟩ := mc0_spec c.port hrun
    rw [hmc0]
    generalize (c.setCount 0).servo.mc0 c.port = r at hsame hport hidx hrunning hzero harmed ⊢
    obtain ⟨s, port⟩ := r
    obtain rfl : port = c.port.outSet c.servo.raise := hport
    have hdecl : ∀ ch, s.isDeclared ch = c.servo.isDeclared ch := fun ch => by
      rw [Servo.isDeclared, hsame.declared]
      rfl
    have hstart : (c.setCount 0).servo.Built := h.built.congr ⟨rfl, rfl, rfl, rfl, rfl⟩
    have hbuilt : s.Built := hstart.congr hsame
    -- what the boundary raises is enabled
    have hup : ∀ ch, c.servo.isDeclared ch = true →
        (c.port.outSet c.servo.raise (bankPad ch)).out = true → c.servo.enabled ch = true := by
      intro ch hch hout
      rw [outSet_out, hlow ch hch, Bool.false_or, h.built.raise] at hout
      exact hout
    refine ⟨⟨h.mode, hrunning.trans h.running, hzero.symm ▸ hpos, fun ch hch => ?_, hbuilt,
      fun ch hch hout => ?_⟩, hsame.declared, hzero.trans hcount.symm,
      fun ch hch hout => Or.inr ⟨rfl, hwrap, hup ch hch hout⟩⟩
    · exact h.closed ch (hdecl ch ▸ hch)
    · have hen : s.enabled ch = true := (hsame.enabled ch).trans (hup ch (hdecl ch ▸ hch) hout)
      refine drops_open hbuilt hen hzero hidx fun hN => ?_
      rw [hsame.evt]
      exact harmed (hsame.evtN ▸ hN)
  · have hstop : (c.setCount 0).servo.mc0 c.port = ({ (c.setCount 0).servo with
        tc := { (c.setCount 0).servo.tc with mc1 := false } }, c.port) := if_neg hrun
    rw [hmc0, hstop]
    have hnone : ∀ ch, c.servo.isDeclared ch = true → (c.port (bankPad ch)).out ≠ true :=
      fun ch hch hout => by simp [hlow ch hch] at hout
    refine ⟨⟨h.mode, h.running, hpos, h.closed, h.built.congr ⟨rfl, rfl, rfl, rfl, rfl⟩, ?_⟩, rfl,
      hcount.symm, ?_⟩
    · exact fun ch hch hout => absurd hout (hnone ch hch)
    · exact fun ch hch hout => absurd hout (hnone ch hch)

/-- The pads that are high after a drop have a later event. -/
theorem drops_next {s s' : Servo} {q : Pin} (hdrops : s.Drops q) (hbuilt : s.Built)
    (hkept : (s.evt s.evtIdx).clr.get q = false) (hsame : s.SameSchedule s')
    (hidx : s'.evtIdx = s.evtIdx + 1) (hcount : s'.tc.count = s.tc.cc1)
    (hnext : s.evtIdx + 1 < s.evtN →
      s'.tc.mc1 = s.tc.mc1 ∧ s'.tc.cc1 = (s.evt (s.evtIdx + 1)).t) : s'.Drops q := by
  obtain ⟨j, hj, hclr, hlater⟩ := hdrops.event
  have hne : s.evtIdx ≠ j := by
    rintro rfl
    rw [hclr] at hkept
    cases hkept
  obtain ⟨hjN, hahead⟩ := hlater (lt_of_le_of_ne hj hne)
  have hlt : s.evtIdx + 1 ≤ j := lt_of_le_of_ne hj hne
  have hin : s.evtIdx + 1 < s.evtN := by omega
  obtain ⟨hmc1, hcc1⟩ := hnext hin
  refine ⟨hmc1.trans hdrops.armed, by omega, hcc1 ▸ (hbuilt.range _ hin).2, j, by omega, ?_,
    fun hlt' => ⟨hsame.evtN ▸ hjN, ?_⟩⟩
  · rw [hsame.evt]
    exact hclr
  · rw [hcc1, hsame.evt, hidx]
    rw [hidx] at hlt'
    exact hbuilt.sorted _ _ (Nat.lt_succ_self _) (by omega)

/-- A drop time. -/
theorem pulseStep_drop (h : c.PulseInv) (hframe : c.servo.tc.count + 1 < servoFrameTicks)
    (hmatch : c.servo.tc.count + 1 = c.servo.tc.cc1) :
    PulseStep .clock c (c.setCount (c.servo.tc.count + 1)).mc1 := by
  have hcount : (c.servo.tc.count + 1) % servoFrameTicks = c.servo.tc.count + 1 :=
    Nat.mod_eq_of_lt hframe
  by_cases harmed : c.servo.tc.mc1 = true
  · have hmc1 : (c.setCount (c.servo.tc.count + 1)).mc1 = { c.setCount (c.servo.tc.count + 1) with
        servo := ((c.setCount (c.servo.tc.count + 1)).servo.mc1 c.port).1
        port := ((c.setCount (c.servo.tc.count + 1)).servo.mc1 c.port).2 } :=
      if_pos (Bool.and_eq_true_iff.mpr ⟨h.running, harmed⟩)
    obtain ⟨hsame, hport, hidx, hrunning, hnow, hnext⟩ :=
      mc1_spec (c.setCount (c.servo.tc.count + 1)).servo c.port
    rw [hmc1]
    generalize (c.setCount (c.servo.tc.count + 1)).servo.mc1 c.port = r
      at hsame hport hidx hrunning hnow hnext ⊢
    obtain ⟨s, port⟩ := r
    obtain rfl : port = c.port.outClr (c.servo.evt c.servo.evtIdx).clr := hport
    have hsame' : c.servo.SameSchedule s :=
      ⟨hsame.declared, hsame.enable, hsame.raise, hsame.evt, hsame.evtN⟩
    have hdecl : ∀ ch, s.isDeclared ch = c.servo.isDeclared ch := fun ch => by
      rw [Servo.isDeclared, hsame'.declared, Servo.isDeclared]
    have hup : ∀ q, (c.port.outClr (c.servo.evt c.servo.evtIdx).clr q).out = true →
        (c.port q).out = true ∧ (c.servo.evt c.servo.evtIdx).clr.get q = false := by
      intro q hout
      rw [outClr_out, Bool.and_eq_true_iff] at hout
      exact ⟨hout.1, by simpa using hout.2⟩
    refine ⟨⟨h.mode, hrunning.trans h.running, hnow.symm ▸ hframe, fun ch hch => ?_,
      h.built.congr hsame', fun ch hch hout => ?_⟩, hsame.declared, hnow.trans hcount.symm,
      fun ch hch hout => Or.inl (hup _ hout).1⟩
    · exact h.closed ch (hdecl ch ▸ hch)
    · obtain ⟨hhigh, hkept⟩ := hup _ hout
      exact drops_next (h.drops ch (hdecl ch ▸ hch) hhigh) h.built hkept hsame' hidx
        (hnow.trans hmatch) hnext
  · have hmc1 : (c.setCount (c.servo.tc.count + 1)).mc1 = c.setCount (c.servo.tc.count + 1) :=
      if_neg fun hand => harmed (Bool.and_eq_true_iff.mp hand).2
    rw [hmc1]
    refine ⟨⟨h.mode, h.running, hframe, h.closed, h.built.congr ⟨rfl, rfl, rfl, rfl, rfl⟩, ?_⟩, rfl,
      hcount.symm, fun ch hch hout => Or.inl hout⟩
    exact fun ch hch hout => absurd (h.drops ch hch hout).armed harmed

theorem pulseStep_clock (h : c.PulseInv) : PulseStep .clock c c.clock := by
  have hle : c.servo.tc.count + 1 ≤ servoFrameTicks := h.frame
  unfold Chip.clock
  rw [if_pos h.running]
  dsimp only
  split
  next hwrap => exact pulseStep_open h hwrap
  next hwrap =>
    have hframe : c.servo.tc.count + 1 < servoFrameTicks := lt_of_le_of_ne hle hwrap
    split
    next hmatch => exact pulseStep_drop h hframe hmatch
    next hmatch =>
      refine ⟨⟨h.mode, h.running, hframe, h.closed, h.built.congr ⟨rfl, rfl, rfl, rfl, rfl⟩, ?_⟩, rfl,
        (Nat.mod_eq_of_lt hframe).symm, fun ch hch hout => Or.inl hout⟩
      intro ch hch hout
      have hdrops := h.drops ch hch hout
      exact ⟨hdrops.armed, lt_of_le_of_ne hdrops.ahead hmatch, hdrops.bound, hdrops.event⟩

/-- An event that leaves the schedule alone and raises no pad. -/
theorem pulseStep_keep (h : c.PulseInv) {c' : Chip} (ce : ChipEvent) (hce : ce ≠ .mc0)
    (hstep : ServoStep ce c c') (hmode : c'.mode = .servo)
    (hsame : c.servo.SameSchedule c'.servo) (htc : c'.servo.tc = c.servo.tc)
    (hidx : c'.servo.evtIdx = c.servo.evtIdx) (he : e.isClock = false) : PulseStep e c c' := by
  have hdecl : ∀ ch, c'.servo.isDeclared ch = c.servo.isDeclared ch := fun ch => by
    rw [Servo.isDeclared, hsame.declared, Servo.isDeclared]
  have hup : ∀ ch, c.servo.isDeclared ch = true → (c'.port (bankPad ch)).out = true →
      (c.port (bankPad ch)).out = true := fun ch hch hout =>
    (hstep.raised ch hch hout).resolve_right fun hraise => hce hraise.1
  refine ⟨⟨hmode, htc ▸ h.running, htc ▸ h.frame, fun ch hch => ?_, h.built.congr hsame,
    fun ch hch hout => ?_⟩, hsame.declared, ?_, fun ch hch hout => Or.inl (hup ch hch hout)⟩
  · exact hstep.closed _ (h.closed ch (hdecl ch ▸ hch))
  · have hch : c.servo.isDeclared ch = true := hdecl ch ▸ hch
    exact (h.drops ch hch (hup ch hch hout)).congr hsame htc hidx
  · rw [he, htc]
    rfl

theorem pulseStep_poll (h : c.PulseInv) : PulseStep .poll c c.servoTick := by
  unfold Chip.servoTick
  split_ifs
  · exact pulseStep_keep h .servoTick (by simp) (.stop rfl rfl) h.mode
      ⟨rfl, rfl, rfl, rfl, rfl⟩ rfl rfl rfl
  · exact pulseStep_keep h .servoTick (by simp) (.of_eq rfl rfl rfl rfl) h.mode
      ⟨rfl, rfl, rfl, rfl, rfl⟩ rfl rfl rfl
  · exact pulseStep_keep h .servoTick (by simp) (.of_eq rfl rfl rfl rfl) h.mode
      ⟨rfl, rfl, rfl, rfl, rfl⟩ rfl rfl rfl

theorem regWrite_stores {s s' : Servo} {b : Bench} {d : Dac} {levels : Pin → Bool}
    {reg val : Byte} (hs : s.stores reg val = some s') :
    s.regWrite b d levels reg val = (s'.build, b, d, []) := by
  unfold Servo.stores at hs
  split at hs
  next hreg =>
    subst hreg
    obtain rfl := Option.some_inj.mp hs
    rfl
  next =>
    split at hs
    next hreg =>
      subst hreg
      obtain rfl := Option.some_inj.mp hs
      rfl
    next => cases hs

theorem stores_same {s s' : Servo} {reg val : Byte} (hs : s.stores reg val = some s') :
    s'.declared = s.declared ∧ s'.tc = s.tc ∧ s'.evt = s.evt := by
  unfold Servo.stores at hs
  split at hs
  next =>
    obtain rfl := Option.some_inj.mp hs
    exact ⟨rfl, rfl, rfl⟩
  next =>
    split at hs
    next =>
      obtain rfl := Option.some_inj.mp hs
      exact ⟨rfl, rfl, rfl⟩
    next => cases hs

/-- The other registers leave the schedule and the timer alone. -/
theorem regWrite_keeps {s : Servo} (b : Bench) (d : Dac) (levels : Pin → Bool) {reg val : Byte}
    (hs : s.stores reg val = none) :
    let s' := (s.regWrite b d levels reg val).1
    s.SameSchedule s' ∧ s'.tc = s.tc ∧ s'.evtIdx = s.evtIdx := by
  unfold Servo.stores at hs
  split at hs
  next => cases hs
  next h12 =>
    split at hs
    next => cases hs
    next h13 =>
      unfold Servo.regWrite Servo.setRun
      rw [if_neg h12, if_neg h13]
      split_ifs <;> exact ⟨⟨rfl, rfl, rfl, rfl, rfl⟩, rfl, rfl⟩

/-- A rebuild in the frame. -/
theorem pulseStep_rebuild (h : c.PulseInv) {reg val : Byte} {s' : Servo}
    (hs : c.servo.stores reg val = some s') (hkept : c.DropsKept (.write reg val)) :
    PulseStep (.write reg val) c (c.bankWrite reg val) := by
  obtain ⟨hdeclared, htc, hevt⟩ := stores_same hs
  rw [bankWrite_servo h.mode, regWrite_stores hs]
  have hdecl : ∀ ch, s'.build.isDeclared ch = c.servo.isDeclared ch := fun ch =>
    congrArg (·.getLsbD ch.val) hdeclared
  have hcount : s'.build.tc = c.servo.tc := htc
  refine ⟨⟨h.mode, hcount.symm ▸ h.running, hcount.symm ▸ h.frame, fun ch hch => ?_, built_build s',
    fun ch hch hout => ?_⟩, hdeclared, congrArg Tc4.count hcount, fun ch _ hout => Or.inl hout⟩
  · exact h.closed ch (hdecl ch ▸ hch)
  · have hch : c.servo.isDeclared ch = true := hdecl ch ▸ hch
    exact (h.drops ch hch hout).build htc hevt (hkept reg val rfl s' hs ch hch hout)

theorem pulseStep_write (h : c.PulseInv) {reg val : Byte} (hkept : c.DropsKept (.write reg val)) :
    PulseStep (.write reg val) c (c.bankWrite reg val) := by
  cases hs : c.servo.stores reg val with
  | some s' => exact pulseStep_rebuild h hs hkept
  | none =>
      obtain ⟨hsame, htc, hidx⟩ := regWrite_keeps c.bench c.dac c.world.levels hs
      have hmode : (c.bankWrite reg val).mode = .servo := (bankWrite_mode c reg val).trans h.mode
      rw [bankWrite_servo h.mode] at hmode ⊢
      exact pulseStep_keep h _ (by simp) (.regWrite c reg val h.closed) hmode hsame htc hidx rfl

/-- Every event that keeps the drops. -/
theorem pulseStep (h : c.PulseInv) (hkept : c.DropsKept e) : PulseStep e c (c.pulse e) := by
  cases e with
  | clock => exact pulseStep_clock h
  | world w =>
      exact pulseStep_keep h (.world w) (by simp) (.of_eq rfl rfl rfl rfl) h.mode
        ⟨rfl, rfl, rfl, rfl, rfl⟩ rfl rfl rfl
  | poll => exact pulseStep_poll h
  | convert =>
      exact pulseStep_keep h .benchTick (by simp) (.benchTick c h.closed) h.mode
        ⟨rfl, rfl, rfl, rfl, rfl⟩ rfl rfl rfl
  | write reg val => exact pulseStep_write h hkept

/-! ## Runs -/

theorem servo_enter_built (s : Servo) (b : Bench) (file : Option (List Byte)) :
    (s.enter b file).1.Built :=
  (built_build { (s.applyCfg b.reset file).1 with enable := 0, run := false, latched := false }).congr
    ⟨rfl, rfl, rfl, rfl, rfl⟩

theorem pulseInv_enter (hmode : c.mode ≠ .servo) : (c.setMode .servo).PulseInv := by
  have hset : c.setMode .servo = { c.modeLeave c.mode with mode := .servo }.enterServo :=
    if_neg (Ne.symm hmode)
  rw [hset]
  generalize hc : ({ c.modeLeave c.mode with mode := .servo } : Chip) = c₀
  have hpad : ∀ ch, c₀.enterServo.servo.isDeclared ch = true → _ :=
    fun ch => enterServo_declared c₀
  refine ⟨hc ▸ rfl, rfl, (by decide : 0 < servoFrameTicks), fun ch hch => (hpad ch hch).1, ?_,
    fun ch hch hout => ?_⟩
  · exact servo_enter_built c₀.servo c₀.bench (c₀.file srvoName)
  · rw [(hpad ch hch).2.2.1] at hout
    cases hout

theorem run_pulseInv (h : c.PulseInv) {es : List PulseEvent}
    (halong : Along Chip.pulse Chip.DropsKept c es) :
    (run Chip.pulse c es).PulseInv ∧ (run Chip.pulse c es).servo.declared = c.servo.declared :=
  Runs.run_along (P := fun c' => c'.PulseInv ∧ c'.servo.declared = c.servo.declared)
    (fun _ _ ⟨h, hdecl⟩ hkept =>
      ⟨(pulseStep h hkept).inv, (pulseStep h hkept).declared.trans hdecl⟩) halong ⟨h, rfl⟩

/-- While a channel is disabled its pad is high in the frame it was high in only. -/
theorem disabled_run (h : c.PulseInv) {es : List PulseEvent}
    (halong : Along Chip.pulse Chip.DropsKept c es)
    (hoff : ∀ soFar, soFar <+: es → (run Chip.pulse c soFar).servo.enabled ch = false)
    (hch : c.servo.isDeclared ch = true)
    (hhigh : ((run Chip.pulse c es).port (bankPad ch)).out = true) :
    (run Chip.pulse c es).servo.tc.count = c.servo.tc.count + es.countP PulseEvent.isClock := by
  induction es using List.reverseRecOn with
  | nil => rfl
  | append_singleton es e ih =>
      obtain ⟨halong, hkept⟩ := Runs.along_concat.mp halong
      obtain ⟨hinv, hdecl⟩ := run_pulseInv h halong
      have hstep := pulseStep hinv hkept
      rw [Runs.run_append] at hhigh ⊢
      have hch' : (run Chip.pulse c es).servo.isDeclared ch = true := by
        rw [Servo.isDeclared, hdecl]
        exact hch
      have hbefore : ((run Chip.pulse c es).port (bankPad ch)).out = true := by
        refine (hstep.rises ch hch' hhigh).resolve_right fun hrise => ?_
        rw [hoff es (List.prefix_append _ _)] at hrise
        cases hrise.2.2
      have hcount := ih halong (fun soFar hsoFar => hoff soFar (hsoFar.trans (List.prefix_append _ _)))
        hbefore
      refine hstep.count.trans ?_
      rw [List.countP_append, List.countP_singleton]
      split
      next hclock =>
        -- a raised pad is far from the end of its frame
        have hlt := (hinv.drops ch hch' hbefore).lt
        have hframe : (run Chip.pulse c es).servo.tc.count + 1 < servoFrameTicks := by
          unfold servoTicksMax at hlt
          unfold servoFrameTicks
          omega
        rw [Nat.mod_eq_of_lt hframe, hcount, Nat.add_assoc]
      next hclock => rw [hcount, Nat.add_zero]

end Steps

/-- Without a write that takes a raised pad's drop away, a pad is high from the boundary of
a frame for 1875 ticks at most, and a disabled one is low from then on. -/
theorem servo_pulses (cfg : Config.Client) (before : List ChipEvent) (es : List PulseEvent) :
    let c := run Chip.next (.powerOn cfg) before
    c.mode ≠ .servo → Along Chip.pulse Chip.DropsKept (c.setMode .servo) es →
    let s := run Chip.pulse (c.setMode .servo) es
    (∀ ch, s.servo.isDeclared ch = true → (s.port (bankPad ch)).out = true →
      s.servo.tc.count < servoTicksMax) ∧
    (∀ e, s.DropsKept e → ∀ ch, s.servo.isDeclared ch = true →
      ((s.pulse e).port (bankPad ch)).out = true → (s.port (bankPad ch)).out = true ∨
        e.isClock = true ∧ s.servo.tc.count + 1 = servoFrameTicks ∧ s.servo.enabled ch = true) ∧
    ∀ later, Along Chip.pulse Chip.DropsKept s later → ∀ ch, s.servo.isDeclared ch = true →
      (∀ soFar, soFar <+: later → (run Chip.pulse s soFar).servo.enabled ch = false) →
      servoTicksMax ≤ s.servo.tc.count + later.countP PulseEvent.isClock →
      ((run Chip.pulse s later).port (bankPad ch)).out = false := by
  intro c hmode halong s
  have hinv : s.PulseInv := (run_pulseInv (pulseInv_enter hmode) halong).1
  refine ⟨fun ch hch hout => (hinv.drops ch hch hout).lt, fun e hkept ch hch hout =>
    (pulseStep hinv hkept).rises ch hch hout, fun later hlater ch hch hoff hlong => ?_⟩
  refine Bool.eq_false_of_not_eq_true fun hhigh => ?_
  obtain ⟨hlast, hdecl⟩ := run_pulseInv hinv hlater
  have hch' : (run Chip.pulse s later).servo.isDeclared ch = true := by
    rw [Servo.isDeclared, hdecl]
    exact hch
  have hlt := (hlast.drops ch hch' hhigh).lt
  have hcount := disabled_run hinv hlater hoff hch hhigh
  omega

/-! ## A mask written in a frame -/

theorem clock_quiet {c : Chip} (hrun : c.servo.tc.running = true)
    (hframe : c.servo.tc.count + 1 < servoFrameTicks)
    (hquiet : c.servo.tc.mc1 = false ∨ c.servo.tc.count + 1 < c.servo.tc.cc1) :
    c.clock = c.setCount (c.servo.tc.count + 1) := by
  unfold Chip.clock
  rw [if_pos hrun]
  dsimp only
  rw [if_neg (by omega)]
  split
  next hmatch =>
    have hoff : c.servo.tc.mc1 = false := hquiet.resolve_right fun h => by omega
    have hmasked : (c.setCount (c.servo.tc.count + 1)).servo.tc.mc1 = false := hoff
    unfold Chip.mc1
    rw [hmasked, Bool.and_false, if_neg Bool.false_ne_true]
  next => rfl

/-- Ticks without an interrupt. -/
theorem run_ticks (c : Chip) (n : Nat) (hrun : c.servo.tc.running = true)
    (hframe : c.servo.tc.count + n < servoFrameTicks)
    (hquiet : c.servo.tc.mc1 = false ∨ c.servo.tc.count + n < c.servo.tc.cc1) :
    run Chip.pulse c (List.replicate n .clock) = c.setCount (c.servo.tc.count + n) := by
  induction n with
  | zero => rfl
  | succ n ih =>
      rw [List.replicate_succ', Runs.run_append, ih (by omega) (hquiet.imp_right fun h => by omega)]
      exact clock_quiet (c := c.setCount (c.servo.tc.count + n)) hrun hframe hquiet

/-- Ticks without an interrupt after some events. -/
theorem run_then_ticks {c built : Chip} {es : List PulseEvent} (n : Nat)
    (hbuilt : run Chip.pulse c es = built) (hrun : built.servo.tc.running = true)
    (hframe : built.servo.tc.count + n < servoFrameTicks) (hquiet : built.servo.tc.mc1 = false) :
    run Chip.pulse c (es ++ List.replicate n .clock) =
      built.setCount (built.servo.tc.count + n) := by
  rw [Runs.run_append, hbuilt]
  exact run_ticks built n hrun hframe (Or.inl hquiet)

/-- Two channels pulse for 1000 and 2000 us. -/
def twoServos : List PulseEvent :=
  [.world { levels := fun _ => true }, .write 0x11 0xE8, .write 0x12 0x03, .write 0x10 1,
    .write 0x11 0xD0, .write 0x12 0x07, .write 0x13 3, .write 0x1A 1]

/-- A whole frame, and the mask cleared at the boundary of the next. -/
def maskCleared : List PulseEvent :=
  twoServos ++ List.replicate 14999 .clock ++ [.clock, .write 0x13 0] ++
    List.replicate 749 .clock ++ [.clock] ++ List.replicate 1125 .clock

/-- The second width made that of the first while both pads are high, and the mask cleared. -/
def widthLowered : List PulseEvent :=
  [.clock, .write 0x11 0xE8, .write 0x12 0x03, .write 0x13 0]

/-- The interrupts leave the run flag and the masks. -/
theorem clock_keeps (c : Chip) : c.clock.servo.run = c.servo.run ∧
    ∀ ch, c.clock.servo.enabled ch = c.servo.enabled ch := by
  have hmc0 (c : Chip) : c.mc0.servo.run = c.servo.run ∧
      ∀ ch, c.mc0.servo.enabled ch = c.servo.enabled ch := by
    unfold Chip.mc0 Servo.mc0
    dsimp only
    split_ifs <;> exact ⟨rfl, fun _ => rfl⟩
  have hmc1 (c : Chip) : c.mc1.servo.run = c.servo.run ∧
      ∀ ch, c.mc1.servo.enabled ch = c.servo.enabled ch := by
    unfold Chip.mc1
    split <;> exact ⟨rfl, fun _ => rfl⟩
  unfold Chip.clock
  dsimp only
  split_ifs
  · exact hmc0 _
  · exact hmc1 _
  · exact ⟨rfl, fun _ => rfl⟩
  · exact ⟨rfl, fun _ => rfl⟩

theorem enabled_ticks (c : Chip) (n : Nat) (ch : Fin 8) :
    (run Chip.pulse c (List.replicate n .clock)).servo.enabled ch = c.servo.enabled ch := by
  induction n with
  | zero => rfl
  | succ n ih =>
      rw [List.replicate_succ', Runs.run_append]
      exact ((clock_keeps _).2 ch).trans ih

/-- Both writes keep the drops of the two raised pads, which are low 1875 ticks later. -/
theorem servo_pulses_lowered :
    let s := run Chip.pulse ((Chip.powerOn (holding [(srvoName, [1, 5, 5])])).setMode .servo)
      (twoServos ++ List.replicate 14999 .clock ++ widthLowered)
    ∀ ch : Fin 2, let pad := bankPad (ch.castLE (by decide))
      (s.port pad).out = true ∧ s.servo.tc.count < servoTicksMax ∧
        ((run Chip.pulse s (List.replicate servoTicksMax .clock)).port pad).out = false := by
  have hpulses := servo_pulses (holding [(srvoName, [1, 5, 5])]) []
    (twoServos ++ List.replicate 14999 .clock ++ widthLowered)
  dsimp only [Runs.run_nil] at hpulses ⊢
  generalize hc : Chip.powerOn (holding [(srvoName, [1, 5, 5])]) = c at hpulses ⊢
  -- clocks write no register
  have hclocks (c : Chip) (n : Nat) :
      Along Chip.pulse Chip.DropsKept c (List.replicate n .clock) :=
    Runs.along_of_forall fun e he _ => by
      rw [List.eq_of_mem_replicate he]
      exact fun _ _ heq => by cases heq
  generalize hbuilt : run Chip.pulse (c.setMode .servo) twoServos = built at hpulses
  -- 14999 ticks take the frame to its boundary
  have hframe : run Chip.pulse (c.setMode .servo) (twoServos ++ List.replicate 14999 .clock) =
      built.setCount (built.servo.tc.count + 14999) :=
    run_then_ticks 14999 hbuilt (by subst hbuilt hc; decide +kernel)
      (by subst hbuilt hc; decide +kernel) (by subst hbuilt hc; decide +kernel)
  have halong : Along Chip.pulse Chip.DropsKept (c.setMode .servo)
      (twoServos ++ List.replicate 14999 .clock ++ widthLowered) := by
    rw [Runs.along_append, Runs.along_append, hframe]
    refine ⟨⟨?_, hclocks _ _⟩, ?_⟩
    · subst hbuilt hc; decide +kernel
    · subst hbuilt hc; decide +kernel
  obtain ⟨hshort, -, hlow⟩ := hpulses (by subst hc; decide +kernel) halong
  rw [Runs.run_append, hframe] at hshort hlow ⊢
  generalize hs : run Chip.pulse (built.setCount (built.servo.tc.count + 14999)) widthLowered = s
    at hshort hlow ⊢
  intro ch
  have hpad : s.servo.isDeclared (ch.castLE (by decide)) = true ∧
      (s.port (bankPad (ch.castLE (by decide)))).out = true ∧
      s.servo.enabled (ch.castLE (by decide)) = false := by
    revert ch
    subst hs hbuilt hc
    decide +kernel
  obtain ⟨hdecl, hhigh, hoff⟩ := hpad
  refine ⟨hhigh, hshort _ hdecl hhigh, hlow _ (hclocks _ _) _ hdecl (fun soFar hsoFar => ?_) ?_⟩
  · obtain ⟨-, hsoFar⟩ := List.prefix_replicate_iff.mp hsoFar
    rw [hsoFar, enabled_ticks, hoff]
  · rw [List.countP_replicate]
    exact Nat.le_add_left _ _

/-- The three waits of `maskCleared`. -/
theorem run_maskCleared {c built cleared dropped : Chip}
    (hbuilt : run Chip.pulse c twoServos = built)
    (hcleared : run Chip.pulse (built.setCount (built.servo.tc.count + 14999))
      [.clock, .write 0x13 0] = cleared)
    (hdropped : (cleared.setCount (cleared.servo.tc.count + 749)).clock = dropped)
    (hframe : built.servo.tc.running = true ∧ built.servo.tc.count + 14999 < servoFrameTicks ∧
      built.servo.tc.mc1 = false)
    (hfirst : cleared.servo.tc.running = true ∧
      cleared.servo.tc.count + 749 < servoFrameTicks ∧
      cleared.servo.tc.count + 749 < cleared.servo.tc.cc1)
    (hsecond : dropped.servo.tc.running = true ∧
      dropped.servo.tc.count + 1125 < servoFrameTicks ∧ dropped.servo.tc.mc1 = false) :
    run Chip.pulse c maskCleared = dropped.setCount (dropped.servo.tc.count + 1125) := by
  unfold maskCleared
  simp only [Runs.run_append]
  rw [hbuilt, run_ticks built 14999 hframe.1 hframe.2.1 (Or.inl hframe.2.2), hcleared,
    run_ticks cleared 749 hfirst.1 hfirst.2.1 (Or.inr hfirst.2.2)]
  show run Chip.pulse (cleared.setCount (cleared.servo.tc.count + 749)).clock _ = _
  rw [hdropped, run_ticks dropped 1125 hsecond.1 hsecond.2.1 (Or.inl hsecond.2.2)]

/-- The second channel, disabled at the boundary, is high 1875 ticks later. -/
theorem not_servo_pulses :
    let s := run Chip.pulse ((Chip.powerOn (holding [(srvoName, [1, 5, 5])])).setMode .servo)
      maskCleared
    s.servo.isDeclared 1 = true ∧ s.servo.enabled 1 = false ∧
      (s.port (bankPad 1)).out = true ∧ ¬ s.servo.tc.count < servoTicksMax := by
  rw [run_maskCleared rfl rfl rfl (by decide +kernel) (by decide +kernel) (by decide +kernel)]
  decide +kernel

end SlowBus.Modes
