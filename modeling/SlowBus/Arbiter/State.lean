import SlowBus.Arbiter.Table
import SlowBus.Arbiter.Wire

/-!
# The state of the master

Everything the bus task shares with the producers, the host link and the
administration commands, and where each task is. A step of a task is at most one
critical section or one bus transaction.
-/

namespace SlowBus.Arbiter

def origPayMax : Nat := 64
def origQueueLen : Nat := 4
def cmdCollectTries : Nat := 15

/-- The bus task, and the tasks that call `bus_msg_send` from elsewhere. -/
inductive Task where
  | bus
  | producer (n : Nat)
  deriving DecidableEq, Repr

/-- Where a task is inside `bus_msg_send`. -/
inductive Stage where
  | grab
  | fill (b : Buf)
  | attach (b : Buf)
  | recover (b : Buf)
  deriving DecidableEq, Repr

/-- The buffer a task holds. -/
def Stage.buf : Stage → Option Buf
  | .grab => none
  | .fill b | .attach b | .recover b => some b

structure Flight where
  msg : Msg
  stage : Stage
  deriving DecidableEq, Repr

/-- The in-flight command slot, `g_cmd_*`. -/
structure HostCmd where
  slave : Nat := 0
  op : Nat := 0
  reqId : Nat := 0
  body : Bytes := []
  isOrig : Bool := false
  hostReq : Nat := 0
  deriving DecidableEq, Repr

/-- `orig_req_t` -/
structure OrigReq where
  addr : Nat
  hostReqId : Nat
  bytes : Bytes
  deriving DecidableEq, Repr

/-- The locals of the per-slot engine in `BS_CMD_COLLECT`. -/
structure Collect where
  command : Command
  tries : Nat
  deriving DecidableEq, Repr

/-- Where the bus task is. -/
inductive Pc where
  /-- The head of the loop of `bus_control_task`. -/
  | top
  /-- `bus_run_cycle`: recover the buffers a rebuild detached. -/
  | orphans (next : Option Buf)
  | host
  | hostAdd (cmd : HostCmd)
  | hostSend
  | swap
  /-- Message pass: detach the list of node `i`, send its buffers, recover each. -/
  | pass (i : Nat)
  | drain (i : Nat) (b : Option Buf)
  | release (i : Nat) (b : Buf) (next : Option Buf)
  /-- Sweep: poll node `i`, then collect what it sends. -/
  | sweep (i : Nat)
  | listen (i : Nat) (heard : Bool)
  | probe
  | probeListen (i : Nat) (heard : Bool)
  | count
  | emit
  /-- The per-slot engine. -/
  | choose
  | inject (cmd : HostCmd)
  | injectWait (cmd : HostCmd) (command : Command)
  | collectWait (collect : Collect)
  | slot (addr : Nat) (heard : Bool)
  deriving DecidableEq, Repr

/-- Why an accepted message was not sent: the node on whose list it was is dead,
or the table was rebuilt. -/
inductive Unsent where
  | dead (addr : Nat)
  | rebuilt
  deriving DecidableEq, Repr

/-- A DATA frame the cyclic engine put on the wire. -/
structure Sent where
  msg : Msg
  node : Nat
  addr : Nat
  payload : Bytes
  cycle : Nat
  deriving DecidableEq, Repr

/-- A POLL the cyclic engine put on the wire. -/
structure Poll where
  node : Nat
  addr : Nat
  cycle : Nat
  deriving DecidableEq, Repr

/-- What happened so far; the program does not see it. -/
structure History where
  /-- The number of the next call of `bus_msg_send`. -/
  calls : Nat := 0
  /-- The number of the next command. -/
  commands : Nat := 0
  /-- How many swaps there were. -/
  cycle : Nat := 0
  /-- The calls that returned true, with the cycle they did so in. -/
  accepted : List (Msg × Nat) := []
  sent : List Sent := []
  unsent : List (Msg × Unsent) := []
  polls : List Poll := []
  /-- The commands `corr_add` took, and those that came to nothing. -/
  registered : List Command := []
  lost : List Command := []

structure Master where
  pool : Pool
  nodes : List Node
  /-- `g_active_idx`; producers attach to the other lists. -/
  active : Bool := false
  /-- `g_nodes_dirty` -/
  dirty : Bool := false
  roster : List Slave
  cursor : Nat := 0
  pollEnabled : Bool := false
  pollMaxMisses : Nat := 3
  cycleMode : Bool := true
  deadSlowpollDiv : Nat := 200
  deadTick : Nat := 0
  deadCursor : Nat := 0
  /-- `g_il_nodes_dead` -/
  ilNodesDead : Nat := 0
  cmdPending : Bool := false
  cmd : HostCmd := {}
  origSeq : Nat := 0
  origQ : List OrigReq := []
  desk : Desk := {}
  wire : Wire := {}
  flights : Task → Option Flight := fun _ => none
  pc : Pc := .top
  /-- `marked` of the running cycle. -/
  marked : List Nat := []
  collect : Option Collect := none
  hist : History := {}

def Master.modifyNode (s : Master) (i : Nat) (f : Node → Node) : Master :=
  { s with nodes := s.nodes.modify i f }

/-- The message a buffer carries. -/
def Master.msgOf (s : Master) (b : Buf) : Option Msg := (s.pool.mem b).msg

end SlowBus.Arbiter
