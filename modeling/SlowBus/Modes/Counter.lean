import SlowBus.Modes.Bench

/-!
# The counter bank

Nine pads that count edges when the `cntr` file makes them counters, and carry a bench
role otherwise. The edges themselves are counted in an interrupt that writes no pad.
-/

namespace SlowBus.Modes

open Bus (Byte)

def cntrVersion : Byte := 1
def counterRateMin : Nat := 50
def counterRateMax : Nat := 10000
def counterTickHz : Nat := 750000

structure Counter where
  count : Fin 9 → BitVec 32 := fun _ => 0
  shadow : Fin 9 → BitVec 32 := fun _ => 0
  last : BitVec 16 := 0
  edge : Fin 9 → Byte := fun _ => 0
  enabled : BitVec 16 := 0x1FF
  dataIdx : Byte := 0
  cc0 : Nat := 750
  running : Bool := false

/-- `counter_pin_input` -/
def counterPinInput (pull : Byte) : List PadOp :=
  [.pmuxen false, .dirClr] ++
    (if pull = 1 then [.outSet] else if pull = 2 then [.outClr] else []) ++
    [.pincfg true (pull != 0)]

/-- The byte of a channel in a `cntr` file; none when there is no such byte. -/
def cntrByte (file : Option (List Byte)) (ch : Fin 9) : Option Byte :=
  match file with
  | some (v :: _ :: _ :: bytes) => if v = cntrVersion then bytes[ch.val]? else none
  | _ => none

/-- Whether the file is one that `counter_apply_cfg` reads. -/
def cntrOk (file : Option (List Byte)) : Bool :=
  match file with
  | some (v :: _ :: _ :: _) => v == cntrVersion
  | _ => false

def cntrCounts (b : Byte) : Bool := b.getLsbD 0
def cntrPull (b : Byte) : Byte := (b >>> 1) &&& 3
def cntrEdge (b : Byte) : Byte := (b >>> 3) &&& 3
def cntrRole (b : Byte) : Byte := (b >>> 1) &&& 7

/-- The update rate of a file, 1 kHz by default, as a period of the timer. -/
def cntrPeriod (file : Option (List Byte)) : Nat :=
  let rate :=
    match file with
    | some (v :: lo :: hi :: _) => if v = cntrVersion then lo.toNat + 256 * hi.toNat else 1000
    | _ => 1000
  let rate := min counterRateMax (max counterRateMin rate)
  min 65535 (max 2 (counterTickHz / rate))

/-- Whether a channel counts: all of them without a file. -/
def counterEnabled (file : Option (List Byte)) (ch : Fin 9) : Bool :=
  if cntrOk file then (cntrByte file ch).elim false cntrCounts else true

/-- The pull of a counter pad. -/
def counterPull (file : Option (List Byte)) (ch : Fin 9) : Byte :=
  (cntrByte file ch).elim 0 cntrPull

/-- One channel of the file: a spare pad takes its bench role. -/
def counterApplyRole (file : Option (List Byte)) (b : Bench) (ch : Fin 9) : Bench :=
  match cntrByte file ch with
  | some v => if cntrCounts v then b else b.setRole (benchOf ch) (cntrRole v)
  | none => b

/-- `counter_apply_cfg` -/
def Counter.applyCfg (c : Counter) (b : Bench) (file : Option (List Byte)) :
    Counter × Bench × List PortOp :=
  let enabled := (List.finRange 9).foldl
    (fun m ch => if counterEnabled file ch then m ||| BitVec.twoPow 16 ch else m) 0
  let b := (List.finRange 9).foldl (counterApplyRole file) b
  let b := (List.finRange 9).foldl
    (fun b ch => if counterEnabled file ch then b.reserve (benchOf ch) else b) b
  ({ c with
      enabled
      edge := fun ch => (cntrByte file ch).elim 0 fun v => if cntrCounts v then cntrEdge v else 0
      cc0 := cntrPeriod file },
    b,
    (List.finRange 9).flatMap fun ch =>
      (channelPad ch).on (if counterEnabled file ch then counterPinInput (counterPull file ch) else []))

/-- `counter_sample_now` -/
def counterSampleNow (levels : Pin → Bool) : BitVec 16 :=
  (List.finRange 9).foldl (fun v ch => if levels (channelPad ch) then v ||| .twoPow 16 ch else v) 0

/-- `counter_enter` -/
def Counter.enter (c : Counter) (b : Bench) (d : Dac) (levels : Pin → Bool)
    (file : Option (List Byte)) : Counter × Bench × Dac × List PortOp :=
  let (c, b, ops) := c.applyCfg b.reset file
  let c := { c with
    last := counterSampleNow levels
    count := fun _ => 0
    shadow := fun _ => 0
    dataIdx := 0
    running := true }
  let (d, dacOps) := if b.role 0 = benchRoleDac then d.idle.bringUp else (d, [])
  (c, { b with active := true }, d, ops ++ b.applyRoles ++ dacOps)

/-- `counter_exit` -/
def Counter.exit (c : Counter) (b : Bench) (d : Dac) : Counter × Bench × Dac :=
  ({ c with running := false }, { b with active := false, adcPending := false },
    { d with active := false })

/-- `counter_snapshot` -/
def Counter.snapshot (c : Counter) (clear : Bool) : Counter :=
  { c with
    shadow := c.count
    count := if clear then fun _ => 0 else c.count
    dataIdx := 0 }

/-- `counter_reg_write` -/
def Counter.regWrite (c : Counter) (b : Bench) (d : Dac) (reg val : Byte) :
    Counter × Bench × Dac × List PortOp :=
  if reg = 0x10 then (c.snapshot false, b, d, [])
  else if reg = 0x11 then (c.snapshot true, b, d, [])
  else if reg = 0x1A then
    (if val = 0xFF then { c with count := fun _ => 0 } else c, b, d, [])
  else
    let (b, d, ops) := b.regWrite d false reg val
    (c, b, d, ops)

end SlowBus.Modes
