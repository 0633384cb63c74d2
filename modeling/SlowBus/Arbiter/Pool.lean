import Mathlib.Algebra.Ring.Nat
import Mathlib.Data.List.Basic
import Mathlib.Logic.Function.Basic

/-!
# The transmit buffer pool

Transmit buffers are carved once and then move between a free list and the lists
of the nodes. A pointer to a buffer is its number; a list is threaded through the
`next` fields. Every function here is one critical section on `g_pool_cs`.
-/

namespace SlowBus.Arbiter

def busPoolN : Nat := 24
def busPayloadMax : Nat := 240

/-- A pointer to a transmit buffer. -/
abbrev Buf := Nat

/-- A byte of a frame is a natural number below 256. -/
abbrev Bytes := List Nat

/-- The party that waits for the reply to a command. -/
inductive Party where
  | host | engine
  deriving DecidableEq, Repr

/-- A command for a node: the request id its reply carries on the wire, and the
one the requester knows it by. `id` numbers the commands of a run. -/
structure Command where
  id : Nat
  party : Party
  req : Nat
  hostReq : Nat
  addr : Nat
  deriving DecidableEq, Repr

/-- One call of `bus_msg_send`, numbered in the order of the calls. -/
structure Msg where
  call : Nat
  dest : Nat
  payload : Bytes
  command : Option Command := none
  deriving DecidableEq, Repr

/-- `tx_buf_t`; the payload is its first `len` bytes. `msg` is the call a filled
buffer belongs to, which the program does not see. -/
structure TxBuf where
  next : Option Buf := none
  payload : Bytes := []
  msg : Option Msg := none
  deriving DecidableEq, Repr

/-- The buffers, the free list and its counters. -/
structure Pool where
  mem : Buf → TxBuf := fun _ => {}
  free : Option Buf := none
  avail : Nat := 0
  low : Nat := 0

def Pool.setNext (p : Pool) (b : Buf) (next : Option Buf) : Pool :=
  { p with mem := Function.update p.mem b { p.mem b with next } }

/-- Copy a message into a buffer; no more than fits. -/
def Pool.fill (p : Pool) (b : Buf) (msg : Msg) : Pool :=
  let buf := { p.mem b with payload := msg.payload.take busPayloadMax, msg := some msg }
  { p with mem := Function.update p.mem b buf }

/-- `pool_grab`; the counter is 16 bits wide. -/
def poolGrab (p : Pool) : Option Buf × Pool :=
  match p.free with
  | none => (none, p)
  | some b =>
      let avail := (p.avail + (2 ^ 16 - 1)) % 2 ^ 16
      (some b, { p with
        free := (p.mem b).next
        avail
        low := if avail < p.low then avail else p.low })

/-- `pool_recover` -/
def poolRecover (p : Pool) (b : Buf) : Pool :=
  { p with
    mem := Function.update p.mem b { p.mem b with next := p.free, msg := none }
    free := some b
    avail := (p.avail + 1) % 2 ^ 16 }

/-- The buffers `bus_pool_init` carves when `cfl_perm` has room for `room` of them. -/
def busPoolSize (room : Nat) : Nat := min busPoolN room

/-- The carving loop of `bus_pool_init`. -/
def busPoolInit (room : Nat) : Pool :=
  let p := (List.range (busPoolSize room)).foldl poolRecover {}
  { p with low := p.avail }

end SlowBus.Arbiter
