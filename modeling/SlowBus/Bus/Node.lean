import Mathlib.Data.List.Pairwise
import SlowBus.Lib.Runs
import SlowBus.Bus.Transport

/-!
# A node on the bus

The outbound queue of a node and what makes it transmit. The task that serves the
bus takes one received word at a time; a POLL opens a window in which the queue is
drained. Another task of the same priority queues frames too, so a call of
`bus_node_queue` may come between two frames of a window.
-/

namespace SlowBus.Bus

def busFtMask : Byte := 0x0F
def busFtNoMessage : Byte := 0x00
def busFtPoll : Byte := 0x01
def busFtData : Byte := 0x02
def busFtAck : Byte := 0x03

def nodeTxqLen : Nat := 8

/-- `node_txq_slot_t` -/
structure TxqSlot where
  frame : Frame
  inUse : Bool
  deriving Repr

/-- The arguments of `bus_node_queue`; `payload` is the memory pointed to. -/
structure QueueCall where
  dest : Byte
  type : Byte
  payload : Nat → Byte
  len : Byte

/-- What the call asks to send. -/
def QueueCall.message (c : QueueCall) (myAddr : Byte) : Message where
  dest := c.dest
  src := myAddr
  type := c.type
  seq := 0
  len := c.len
  payload := (List.range c.len.toNat).map c.payload

/-- The frame left in a slot: the payload beyond `len` stays as it was. -/
def QueueCall.fill (c : QueueCall) (myAddr : Byte) (old : Frame) : Frame where
  dest := c.dest
  src := myAddr
  type := c.type
  seq := 0
  len := c.len
  payload := Vector.ofFn fun i => if i.val < c.len.toNat then c.payload i else old.payload.get i

/-- The loop of `bus_node_queue`: the first slot that is not in use is filled. -/
def storeFirstFree (fill : Frame → Frame) : List TxqSlot → Option (List TxqSlot)
  | [] => none
  | s :: rest =>
      if s.inUse then (storeFirstFree fill rest).map (s :: ·)
      else some (⟨fill s.frame, true⟩ :: rest)

/-- Why a frame is transmitted. -/
inductive Origin where
  | ack | queued | terminator
  deriving DecidableEq, Repr

/-- What happens at a node: a call that returns true, a frame the assembler
returns, a frame given to the PHY. -/
inductive Entry where
  | accepted (m : Message)
  | received (m : Message)
  | sent (origin : Origin) (words : List Word)
  deriving DecidableEq, Repr

/-- The statics of `bus_node.c`. In a window, `window` is the slot looked at next;
`log` only records. -/
structure Node where
  txq : List TxqSlot
  asm : Asm
  myAddr : Byte
  window : Option Nat := none
  log : List Entry := []

/-- `bus_node_init`; the slots and the accumulator keep what the memory holds. -/
def Node.init (memory : Vector Frame nodeTxqLen) (acc : Frame) (myAddr : Byte) : Node where
  txq := memory.toList.map (⟨·, false⟩)
  asm := Asm.init acc myAddr false
  myAddr := myAddr

/-- `bus_node_queue` -/
def Node.queue (n : Node) (c : QueueCall) : Node :=
  if c.len > busPayloadMax then n
  else
    match storeFirstFree (c.fill n.myAddr) n.txq with
    | none => n
    | some txq => { n with txq, log := n.log ++ [.accepted (c.message n.myAddr)] }

/-- A frame to the master without a payload. -/
def controlFrame (src type : Byte) : Frame :=
  ⟨busAddrMaster, src, type, 0, 0, Vector.replicate 240 0⟩

/-- `node_emit_ack` -/
def Node.emitAck (n : Node) : Node :=
  { n with log := n.log ++ [.sent .ack (busFrameEncode (controlFrame n.myAddr busFtAck))] }

/-- A frame the assembler returned, in `bus_node_task`. `calls` are the calls of
`bus_node_queue` that `bus_node_on_data` makes. -/
def Node.handle (n : Node) (f : Frame) (calls : List QueueCall) : Node :=
  let n := { n with log := n.log ++ [.received f.message] }
  let cls := f.type &&& busFtMask
  if cls = busFtData then
    let n := calls.foldl Node.queue n
    if f.src = busAddrMaster ∧ f.dest = n.myAddr then n.emitAck else n
  else if cls = busFtPoll ∧ f.dest = n.myAddr then { n with window := some 0 }
  else n

/-- One round of the loop of `bus_node_task`. In a window the words wait in the ring. -/
def Node.word (n : Node) (w : Word) (calls : List QueueCall) : Node :=
  if n.window.isSome then n
  else
    let (asm, out) := n.asm.feed w
    let n := { n with asm }
    match out with
    | none => n
    | some f => n.handle f calls

/-- `node_emit_window`, one slot at a time and the terminator last. -/
def Node.advance (n : Node) : Node :=
  match n.window with
  | none => n
  | some i =>
      match n.txq[i]? with
      | some s =>
          if s.inUse then
            { n with
              txq := n.txq.set i { s with inUse := false }
              window := some (i + 1)
              log := n.log ++ [.sent .queued (busFrameEncode s.frame)] }
          else { n with window := some (i + 1) }
      | none =>
          { n with
            window := none
            log := n.log ++
              [.sent .terminator (busFrameEncode (controlFrame n.myAddr busFtNoMessage))] }

inductive NodeEvent where
  | queue (c : QueueCall)
  | word (w : Word) (calls : List QueueCall)
  | advance

def Node.next (n : Node) : NodeEvent → Node
  | .queue c => n.queue c
  | .word w calls => n.word w calls
  | .advance => n.advance

/-! ## What a node has to transmit -/

/-- The words of a message on the wire. -/
def Message.words (m : Message) : List Word :=
  busPreambleWord :: wordAddr m.dest ::
    (([m.src, m.type, m.seq, m.len] ++ m.payload ++ [m.crc]).map wordData)

/-- What a node has to transmit now, and what it keeps for the next POLL. -/
structure Due where
  now : List (Origin × List Word) := []
  later : List Message := []

/-- What a grant makes due: for a POLL to the node its window, the frames queued
since the last one and a terminator; for DATA from the master an ACK. -/
def Due.granted (d : Due) (myAddr : Byte) (m : Message) : Due :=
  let cls := m.type &&& busFtMask
  if cls = busFtPoll ∧ m.dest = myAddr then
    { now := d.later.map (fun m => (.queued, m.words)) ++
        [(.terminator, (controlFrame myAddr busFtNoMessage).message.words)]
      later := [] }
  else if cls = busFtData ∧ m.src = busAddrMaster ∧ m.dest = myAddr then
    { d with now := [(.ack, (controlFrame myAddr busFtAck).message.words)] }
  else d

def Due.after (myAddr : Byte) (d : Due) : Entry → Due
  | .accepted m => { d with later := d.later ++ [m] }
  | .received m => d.granted myAddr m
  | .sent _ _ => { d with now := d.now.tail }

/-- What is due after a log. -/
def due (myAddr : Byte) (log : List Entry) : Due := log.foldl (Due.after myAddr) {}

/-- A frame is taken only when nothing is due, and only what is due first is sent. -/
def Due.Allows (d : Due) : Entry → Prop
  | .accepted _ => True
  | .received _ => d.now = []
  | .sent origin words => d.now.head? = some (origin, words)

/-- Every entry of a log is allowed by what was due before it. -/
def Obeys (myAddr : Byte) (log : List Entry) : Prop :=
  ∀ before e after, log = before ++ e :: after → (due myAddr before).Allows e

/-- The frames whose call returned true. -/
def Entry.accepts : Entry → Option Message
  | .accepted m => some m
  | _ => none

/-- The queued frames given to the PHY. -/
def Entry.ships : Entry → Option (List Word)
  | .sent .queued words => some words
  | _ => none

/-- What is still to be shipped. -/
def Due.toShip (d : Due) : List (List Word) :=
  (d.now.filter (·.1 = .queued)).map Prod.snd ++ d.later.map Message.words

end SlowBus.Bus
