import Mathlib.Logic.Function.Basic
import SlowBus.Arbiter.Desk

/-!
# The shared pair

The nodes and the frames between them and the master. A node transmits only when
the master grants it the bus: it acknowledges a DATA frame at once and answers a
POLL with everything it has queued and a terminator.
-/

namespace SlowBus.Arbiter

def nodeTxqLen : Nat := 8

/-- A node as `bus_node.c` has it: its outbound queue, and the commands delivered
to its application that it has still to answer. -/
structure Station where
  powered : Bool := true
  txq : List Frame := []
  todo : List Command := []
  deriving Repr

/-- What the master transmits. -/
inductive Grant where
  | data (payload : Bytes) (command : Option Command)
  | poll
  deriving DecidableEq, Repr

/-- The bus. `air` holds what granted nodes have yet to transmit, `rx` the frames
in the master's receive ring. The other fields only record: the nodes granted
whose answer was neither received nor given up, the transmissions of the master,
those it began while a node owed its answer, and the frames that reached the ring. -/
structure Wire where
  stations : Nat → Station := fun _ => {}
  air : List Frame := []
  rx : List Frame := []
  owing : List Nat := []
  grants : List (Nat × Grant) := []
  clashes : Nat := 0
  arrived : List Frame := []

def Wire.modify (w : Wire) (addr : Nat) (f : Station → Station) : Wire :=
  { w with stations := Function.update w.stations addr (f (w.stations addr)) }

/-- `node_emit_ack`, or `node_emit_window` up to its terminator. -/
def Station.window (st : Station) (addr : Nat) : Grant → List Frame
  | .data _ _ => [{ src := addr, type := .ack }]
  | .poll => st.txq ++ [{ src := addr, type := .noMessage }]

/-- What a grant does to a node: DATA goes to its application, POLL empties its queue. -/
def Station.granted (st : Station) : Grant → Station
  | .data _ command => { st with todo := st.todo ++ command.toList }
  | .poll => { st with txq := [] }

/-- `bus_send`: the receive ring is flushed, then the frame goes out. -/
def Wire.send (w : Wire) (addr : Nat) (g : Grant) : Wire :=
  let w := { w with
    rx := []
    grants := w.grants ++ [(addr, g)]
    clashes := if w.owing = [] then w.clashes else w.clashes + 1 }
  if (w.stations addr).powered then
    { w.modify addr (·.granted g) with
      air := w.air ++ (w.stations addr).window addr g
      owing := w.owing ++ [addr] }
  else w

/-- The last frame of a node's answer. -/
def Frame.final (f : Frame) : Bool :=
  f.type == .ack || f.type == .noMessage

/-- The next frame on the air reaches the receive ring. -/
def Wire.arrive (w : Wire) : Wire :=
  match w.air with
  | [] => w
  | f :: air =>
      { w with
        air
        rx := w.rx ++ [f]
        owing := if f.final then w.owing.erase f.src else w.owing
        arrived := w.arrived ++ [f] }

/-- The next frame on the air is garbled and dropped by the assembler. -/
def Wire.garble (w : Wire) : Wire := { w with air := w.air.tail }

/-- The master gives up waiting for a node. -/
def Wire.giveUp (w : Wire) (addr : Nat) : Wire :=
  { w with owing := w.owing.filter (· ≠ addr) }

/-- `bus_node_queue` for a frame to the master; a full queue refuses it. -/
def Wire.queue (w : Wire) (f : Frame) : Wire :=
  if (w.stations f.src).txq.length < nodeTxqLen ∧ f.payload.length ≤ busPayloadMax then
    w.modify f.src fun st => { st with txq := st.txq ++ [f] }
  else w

/-- The reply of a node to a command: the command's id and whatever follows it. -/
def Command.reply (c : Command) (body : Bytes) : Frame :=
  { src := c.addr
    type := .data
    payload := le16 opShellReply ++ le16 c.req ++ body
    answers := some c }

/-- A node answers a command delivered to it, once. -/
def Wire.answer (w : Wire) (c : Command) (body : Bytes) : Wire :=
  if c ∈ (w.stations c.addr).todo then
    (w.modify c.addr fun st => { st with todo := st.todo.erase c }).queue (c.reply body)
  else w

end SlowBus.Arbiter
