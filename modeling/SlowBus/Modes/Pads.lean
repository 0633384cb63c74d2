import Mathlib.Data.Fin.VecNotation
import Mathlib.Data.Fintype.Basic
import Mathlib.Data.List.FinRange
import SlowBus.Bus.Frame
import SlowBus.Lib.Writes

/-!
# Pads of the client chip

The PORT registers as far as they concern one pad: its direction and output bits and
its `PINCFG`. A routine of the source that touches the PORT is the list of the writes
it makes, in order. Every `PMUX` the source selects on a channel pad is function B, the
converters, so only its enable bit is kept.
-/

namespace SlowBus.Modes

open Bus (Byte)

/-! Groups, channels and bench pads are numbered from zero. -/

instance groups_neZero : NeZero 2 := ⟨by decide⟩
instance channels_neZero : NeZero 9 := ⟨by decide⟩
instance bench_neZero : NeZero 11 := ⟨by decide⟩

structure Pin where
  group : Fin 2
  pin : Fin 32
  deriving DecidableEq, Repr

def pa (n : Fin 32) : Pin := ⟨0, n⟩
def pb (n : Fin 32) : Pin := ⟨1, n⟩

/-- The pin of a physical identifier, `group << 5 | pin`. -/
def Pin.ofPhys (phys : Nat) : Pin := ⟨.ofNat 2 (phys / 32), .ofNat 32 (phys % 32)⟩

structure Pad where
  dir : Bool := false
  out : Bool := false
  pmuxen : Bool := false
  inen : Bool := false
  pullen : Bool := false
  deriving DecidableEq, Repr

/-- A pad after power-on. -/
def Pad.reset : Pad := {}

inductive PadOp where
  | dirSet | dirClr | outSet | outClr
  /-- The whole of `PINCFG`; it clears `PMUXEN`. -/
  | pincfg (inen pullen : Bool)
  | pmuxen (on : Bool)
  | inen (on : Bool)
  | pullen (on : Bool)
  deriving DecidableEq, Repr

def PadOp.apply (pad : Pad) : PadOp → Pad
  | .dirSet => { pad with dir := true }
  | .dirClr => { pad with dir := false }
  | .outSet => { pad with out := true }
  | .outClr => { pad with out := false }
  | .pincfg i u => { pad with pmuxen := false, inen := i, pullen := u }
  | .pmuxen on => { pad with pmuxen := on }
  | .inen on => { pad with inen := on }
  | .pullen on => { pad with pullen := on }

/-- What a list of writes makes of one pad. -/
def Pad.exec (pad : Pad) (ops : List PadOp) : Pad := ops.foldl PadOp.apply pad

/-- One write to one pad. -/
structure PortOp where
  pin : Pin
  op : PadOp
  deriving DecidableEq, Repr

def PortOp.apply (w : PortOp) (pad : Pad) : Pad := w.op.apply pad

/-- The writes to one pad. -/
def Pin.on (p : Pin) (ops : List PadOp) : List PortOp := ops.map fun op => ⟨p, op⟩

/-- A level written to an output. -/
def outLevel (v : Bool) : PadOp := if v then .outSet else .outClr

abbrev Port := Pin → Pad

def Port.reset : Port := fun _ => .reset

def Port.exec (port : Port) (ops : List PortOp) : Port :=
  Writes.play PortOp.pin PortOp.apply port ops

/-- Masks for the two groups. -/
@[ext]
structure Mask where
  a : BitVec 32 := 0
  b : BitVec 32 := 0
  deriving DecidableEq, Repr

def Mask.get (m : Mask) (p : Pin) : Bool :=
  if p.group = 0 then m.a.getLsbD p.pin else m.b.getLsbD p.pin

def Mask.bit (p : Pin) : Mask :=
  if p.group = 0 then { a := .twoPow 32 p.pin } else { b := .twoPow 32 p.pin }

def Mask.or (m m' : Mask) : Mask := ⟨m.a ||| m'.a, m.b ||| m'.b⟩

/-- `OUTSET` of both groups. -/
def Port.outSet (port : Port) (m : Mask) : Port := fun q =>
  if m.get q then { port q with out := true } else port q

/-- `OUTCLR` of both groups. -/
def Port.outClr (port : Port) (m : Mask) : Port := fun q =>
  if m.get q then { port q with out := false } else port q

/-- A pad that drives a low level. -/
def Pad.Low (pad : Pad) : Prop := pad.dir = true ∧ pad.out = false ∧ pad.pmuxen = false

instance Pad.instDecidableLow (pad : Pad) : Decidable pad.Low :=
  inferInstanceAs (Decidable (_ ∧ _ ∧ _))

/-! ## Pads by channel -/

/-- `g_servo_pad`, the pads of the nine channels; `g_counter_pad` lists the same. -/
def channelPad : Fin 9 → Pin :=
  ![pa 2, pa 4, pa 10, pa 11, pb 9, pa 7, pa 5, pa 6, pb 8]

/-- `g_pio_ch`, the channels before the ninth; they are the servo channels too. -/
def bankPad (ch : Fin 8) : Pin := channelPad ch.castSucc

/-- D6, the interrupt line of the interlocks and the e-stop line of the servos. -/
def intPad : Pin := channelPad 8

/-- The output of the converter, D0. -/
def dacPad : Pin := channelPad 0

/-- `g_bench_pad`, by silkscreen index. -/
def benchPad : Fin 11 → Pin :=
  ![pa 2, pa 4, pa 10, pa 11, pa 8, pa 9, pb 8, pb 9, pa 7, pa 5, pa 6]

/-- `g_ch_to_bench`; `g_servo_ch_to_bench` is its first eight entries. -/
def benchOf : Fin 9 → Fin 11 := ![0, 1, 2, 3, 7, 8, 9, 10, 6]

/-- `g_ain_to_pad`, the pads of the converter channels. -/
def ainToPad : Fin 20 → Pin :=
  ![pa 2, pa 3, pb 8, pb 9, pa 4, pa 5, pa 6, pa 7, pb 0, pb 1, pb 2, pb 3, pa 10, pa 11,
    pa 12, pa 13, pa 8, pa 9, pa 10, pa 11]

/-- What `samd21_adc_read_oneshot` writes: the pad of the channel is given to the converter by
`adc_pin_config`. -/
def oneshotOps (channel : Nat) : List PortOp :=
  if h : channel < 20 then (ainToPad ⟨channel, h⟩).on [.pmuxen true] else []

theorem channelPad_injective : Function.Injective channelPad := by
  unfold Function.Injective
  decide

theorem bankPad_injective : Function.Injective bankPad := fun _ _ h =>
  Fin.castSucc_injective 8 (channelPad_injective h)

theorem benchPad_injective : Function.Injective benchPad := by
  unfold Function.Injective
  decide

theorem benchOf_injective : Function.Injective benchOf := by
  unfold Function.Injective
  decide

@[simp] theorem benchPad_benchOf (ch : Fin 9) : benchPad (benchOf ch) = channelPad ch := by
  revert ch
  decide

/-! ## Effects of writes -/

section Effects

variable {port : Port} {ops ops' : List PortOp} {pops : List PadOp} {p q : Pin}

@[simp] theorem exec_nil : port.exec [] = port := rfl

theorem exec_append : port.exec (ops ++ ops') = (port.exec ops).exec ops' := Writes.play_append

@[simp] theorem exec_on : port.exec (p.on pops) p = (port p).exec pops := by
  have hall : ((p.on pops).filter fun w => w.pin = p) = p.on pops := by
    simp [Pin.on, List.filter_eq_self]
  rw [Port.exec, Writes.play_apply, hall, Pin.on, List.foldl_map]
  rfl

theorem pin_of_mem_on {w : PortOp} (h : w ∈ p.on pops) : w.pin = p := by
  obtain ⟨op, _, rfl⟩ := List.mem_map.mp h
  rfl

theorem exec_on_of_ne (h : p ≠ q) : port.exec (p.on pops) q = port q :=
  Writes.play_of_ne fun _ hw => pin_of_mem_on hw ▸ h

theorem exec_of_ne (h : ∀ w ∈ ops, w.pin ≠ q) : port.exec ops q = port q := Writes.play_of_ne h

/-- One routine for each channel. -/
theorem exec_each {ι : Type*} {cell : ι → Pin} (hcell : Function.Injective cell)
    (pops : ι → List PadOp) {xs : List ι} (hxs : xs.Nodup) {i : ι} (hi : i ∈ xs) :
    port.exec (xs.flatMap fun i => (cell i).on (pops i)) (cell i) = (port (cell i)).exec (pops i) :=
  (Writes.play_flatMap hcell (fun _ _ hw => pin_of_mem_on hw) hxs hi).trans exec_on

theorem exec_each_of_ne {ι : Type*} {cell : ι → Pin} (pops : ι → List PadOp) {xs : List ι}
    (h : ∀ i ∈ xs, cell i ≠ q) :
    port.exec (xs.flatMap fun i => (cell i).on (pops i)) q = port q :=
  Writes.play_flatMap_of_ne (fun _ _ hw => pin_of_mem_on hw) h

/-- What each write to a pad preserves. -/
theorem exec_preserves {P : Pad → Prop}
    (hstep : ∀ w ∈ ops, w.pin = q → ∀ pad, P pad → P (w.op.apply pad)) (hstart : P (port q)) :
    P (port.exec ops q) :=
  Writes.play_preserves hstep hstart

end Effects

/-! ## The writes to one pad -/

def opsAt (ops : List PortOp) (q : Pin) : List PadOp :=
  (ops.filter fun w => w.pin = q).map PortOp.op

def PadOp.setsDir : PadOp → Bool
  | .dirSet | .dirClr => true
  | _ => false

def PadOp.setsMux : PadOp → Bool
  | .pincfg .. | .pmuxen _ => true
  | _ => false

section At

variable {port : Port} {ops ops' : List PortOp} {pops pops' : List PadOp} {pad : Pad}
  {p q : Pin}

theorem exec_opsAt : port.exec ops q = (port q).exec (opsAt ops q) := by
  rw [Port.exec, Writes.play_apply, opsAt, Pad.exec, List.foldl_map]
  rfl

@[simp] theorem opsAt_nil : opsAt [] q = [] := rfl

@[simp] theorem opsAt_append : opsAt (ops ++ ops') q = opsAt ops q ++ opsAt ops' q := by
  simp [opsAt]

theorem opsAt_on : opsAt (p.on pops) p = pops := by
  have hall : ((p.on pops).filter fun w => w.pin = p) = p.on pops := by
    simp [Pin.on, List.filter_eq_self]
  rw [opsAt, hall, Pin.on, List.map_map]
  exact List.map_id pops

theorem opsAt_of_ne (h : ∀ w ∈ ops, w.pin ≠ q) : opsAt ops q = [] := by
  simpa [opsAt, List.filter_eq_nil_iff] using h

theorem mem_opsAt {op : PadOp} : op ∈ opsAt ops q ↔ (⟨q, op⟩ : PortOp) ∈ ops := by
  constructor
  · intro h
    obtain ⟨w, hw, rfl⟩ := List.mem_map.mp h
    obtain ⟨hmem, hpin⟩ := List.mem_filter.mp hw
    obtain rfl : w.pin = q := by simpa using hpin
    exact hmem
  · intro h
    exact List.mem_map.mpr ⟨_, List.mem_filter.mpr ⟨h, by simp⟩, rfl⟩

/-- The writes to a pad, gathered in their order. -/
theorem opsAt_eq_play :
    opsAt ops q = Writes.play PortOp.pin (fun w gathered => gathered ++ [w.op]) (fun _ => []) ops q := by
  have hgather : ∀ (ws : List PortOp) (pops : List PadOp),
      ws.foldl (fun gathered w => gathered ++ [w.op]) pops = pops ++ ws.map PortOp.op := by
    intro ws
    induction ws with
    | nil => simp
    | cons w ws ih =>
        intro pops
        rw [List.foldl_cons, ih]
        simp
  rw [Writes.play_apply, hgather]
  rfl

/-- The writes to one of the pads that are each given a list of their own. -/
theorem opsAt_each {ι : Type*} {cell : ι → Pin} (hcell : Function.Injective cell)
    (pops : ι → List PadOp) {xs : List ι} (hxs : xs.Nodup) {i : ι} (hi : i ∈ xs) :
    opsAt (xs.flatMap fun i => (cell i).on (pops i)) (cell i) = pops i := by
  rw [opsAt_eq_play, Writes.play_flatMap hcell (fun _ _ hw => pin_of_mem_on hw) hxs hi,
    ← opsAt_eq_play, opsAt_on]

@[simp] theorem pad_exec_append : pad.exec (pops ++ pops') = (pad.exec pops).exec pops' :=
  List.foldl_append ..

theorem exec_dir_of_none (h : pops.any PadOp.setsDir = false) : (pad.exec pops).dir = pad.dir :=
  Writes.foldl_keep (fun op pad => PadOp.apply pad op) Pad.dir PadOp.setsDir
    (fun op hop _ => by cases op <;> first | rfl | cases hop) h pad

theorem exec_dir_agree (h : pops.any PadOp.setsDir = true) (pad pad' : Pad) :
    (pad.exec pops).dir = (pad'.exec pops).dir :=
  Writes.foldl_agree (fun op pad => PadOp.apply pad op) Pad.dir PadOp.setsDir
    (fun op hop _ _ => by cases op <;> first | rfl | cases hop)
    (fun op hop _ => by cases op <;> first | rfl | cases hop) h pad pad'

theorem exec_pmuxen_agree (h : pops.any PadOp.setsMux = true) (pad pad' : Pad) :
    (pad.exec pops).pmuxen = (pad'.exec pops).pmuxen :=
  Writes.foldl_agree (fun op pad => PadOp.apply pad op) Pad.pmuxen PadOp.setsMux
    (fun op hop _ _ => by cases op <;> first | rfl | cases hop)
    (fun op hop _ => by cases op <;> first | rfl | cases hop) h pad pad'

end At

/-! ## Masks -/

section Masks

variable {m m' : Mask} {p q : Pin} {port : Port}

@[simp] theorem get_empty : ({} : Mask).get q = false := by
  simp [Mask.get]

@[simp] theorem get_or : (m.or m').get q = (m.get q || m'.get q) := by
  unfold Mask.get Mask.or
  split <;> exact BitVec.getLsbD_or

@[simp] theorem get_bit : (Mask.bit p).get q = decide (p = q) := by
  obtain ⟨pg, pn⟩ := p
  obtain ⟨qg, qn⟩ := q
  unfold Mask.bit Mask.get
  by_cases hp : pg = 0 <;> by_cases hq : qg = 0
  all_goals simp only [hp, hq, if_true, if_false, BitVec.getLsbD_twoPow,
    Pin.mk.injEq]
  · simp [Fin.ext_iff, pn.isLt]
  · simp [Ne.symm hq]
  · simp
  · have hsame : pg = qg := by omega
    simp [hsame, Fin.ext_iff, pn.isLt]

@[simp] theorem outSet_out : (port.outSet m q).out = ((port q).out || m.get q) := by
  unfold Port.outSet
  split <;> simp [*]

@[simp] theorem outClr_out : (port.outClr m q).out = ((port q).out && !m.get q) := by
  unfold Port.outClr
  split <;> simp [*]

@[simp] theorem outSet_dir : (port.outSet m q).dir = (port q).dir := by
  unfold Port.outSet
  split <;> rfl

@[simp] theorem outClr_dir : (port.outClr m q).dir = (port q).dir := by
  unfold Port.outClr
  split <;> rfl

@[simp] theorem outSet_pmuxen : (port.outSet m q).pmuxen = (port q).pmuxen := by
  unfold Port.outSet
  split <;> rfl

@[simp] theorem outClr_pmuxen : (port.outClr m q).pmuxen = (port q).pmuxen := by
  unfold Port.outClr
  split <;> rfl

end Masks

end SlowBus.Modes
