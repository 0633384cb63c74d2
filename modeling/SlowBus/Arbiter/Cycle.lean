import SlowBus.Arbiter.Send

/-!
# The cyclic engine

`bus_run_cycle`: rebuild the table if the roster changed, pass the pending
command of the host on, swap the lists, send what was queued, then poll every
live node that was sent nothing and now and then a dead one.
-/

namespace SlowBus.Arbiter

/-! ## Rebuild -/

/-- Move a list over to the orphans. A list is no longer than the pool. -/
def detachList : Nat → Option Buf → Option Buf × Pool → Option Buf × Pool
  | 0, _, acc => acc
  | _ + 1, none, acc => acc
  | fuel + 1, some b, (orphans, pool) =>
      detachList fuel (pool.mem b).next (some b, pool.setNext b orphans)

/-- Move both lists of every node over to the orphans. -/
def detachAll (nodes : List Node) (pool : Pool) : Option Buf × Pool :=
  nodes.foldl (fun acc node =>
    detachList busPoolN (node.list true) (detachList busPoolN (node.list false) acc)) (none, pool)

def Master.rebuild (s : Master) : Master :=
  let detached := detachAll s.nodes s.pool
  { s with
    dirty := false
    pool := detached.2
    nodes := busNodetableBuild s.roster
    desk := { s.desk with corr := List.replicate cmdcorrMax none }
    pc := .orphans detached.1 }

/-- The record of a message recovered unsent. -/
def Master.unsent (s : Master) (b : Buf) (why : Unsent) : Master :=
  match s.msgOf b with
  | none => s
  | some msg =>
      { s.forget msg with hist := { (s.forget msg).hist with
          unsent := s.hist.unsent ++ [(msg, why)] } }

def Master.orphansStep (s : Master) : Option Buf → Master
  | none => { s with pc := .host }
  | some b =>
      { s.unsent b .rebuilt with
        pool := poolRecover s.pool b
        pc := .orphans (s.pool.mem b).next }

/-! ## The command of the host -/

def Master.hostStep (s : Master) : Master :=
  if s.cmdPending then { s with cmdPending := false, pc := .hostAdd s.cmd }
  else { s with pc := .swap }

def Master.hostAddStep (s : Master) (cmd : HostCmd) : Master :=
  { s with pc := .hostSend }.issue .bus (s.command .host cmd.reqId cmd.reqId cmd.slave) cmd.frame

def Master.hostSendStep (s : Master) : Master :=
  match s.flights .bus with
  | none => { s with pc := .swap }
  | some _ => s.busMsgSend .bus

/-! ## Message pass -/

/-- `bus_pingpong_swap`, and the start of a new cycle. -/
def Master.swapStep (s : Master) : Master :=
  { s with
    active := !s.active
    marked := []
    desk := s.desk.openBatch
    hist := { s.hist with cycle := s.hist.cycle + 1 }
    pc := .pass 0 }

/-- Detach the list of node `i`. -/
def Master.passStep (s : Master) (i : Nat) : Master :=
  match s.nodes[i]? with
  | none => { s with pc := .sweep 0 }
  | some node =>
      { s.modifyNode i (·.setList s.active none) with pc := .drain i (node.list s.active) }

/-- Transmit a buffer to node `i`. -/
def Master.transmit (s : Master) (i : Nat) (node : Node) (b : Buf) : Master :=
  match s.msgOf b with
  | none => s
  | some msg =>
      let payload := (s.pool.mem b).payload
      { s with
        wire := s.wire.send node.addr (.data payload msg.command)
        marked := i :: s.marked
        hist := { s.hist with sent := s.hist.sent ++
          [{ msg, node := i, addr := node.addr, payload, cycle := s.hist.cycle }] } }

/-- Send the next buffer unless the node is dead. -/
def Master.drainStep (s : Master) (i : Nat) : Option Buf → Master
  | none => { s with pc := .pass (i + 1) }
  | some b =>
      match s.nodes[i]? with
      | none => s
      | some node =>
          let next := (s.pool.mem b).next
          if node.dead then { s.unsent b (.dead node.addr) with pc := .release i b next }
          else { s.transmit i node b with pc := .release i b next }

def Master.releaseStep (s : Master) (i : Nat) (b : Buf) (next : Option Buf) : Master :=
  { s with pool := poolRecover s.pool b, pc := .drain i next }

/-! ## Sweep -/

/-- The poll of node `i`, which opens `bus_poll_slot`. -/
def Master.pollNode (s : Master) (i : Nat) (node : Node) : Master :=
  { s with
    wire := s.wire.send node.addr .poll
    hist := { s.hist with
      polls := s.hist.polls ++ [{ node := i, addr := node.addr, cycle := s.hist.cycle }] } }

def Master.sweepStep (s : Master) (i : Nat) : Master :=
  match s.nodes[i]? with
  | none => { s with pc := .probe }
  | some node =>
      if node.dead ∨ i ∈ s.marked then { s with pc := .sweep (i + 1) }
      else { s.pollNode i node with pc := .listen i false }

/-- A frame the slot of `addr` drained from the receive ring. -/
def Master.slotFrame (s : Master) (addr : Nat) (f : Frame) : Master :=
  if f.src = addr then { s with desk := s.desk.handleSlotFrame addr f } else s

/-- Liveness of a swept node, in the roster and in the table. -/
def Master.sweepVerdict (s : Master) (i : Nat) (addr : Nat) (heard : Bool) : Master :=
  if heard then
    { s.modifyNode i Node.heard with roster := markAlive addr s.roster }
  else
    { s.modifyNode i (Node.missed s.pollMaxMisses) with
      roster := markMiss s.pollMaxMisses addr s.roster }

/-- The first dead node from the cursor on, in the order of the table. -/
def Master.nextDead (s : Master) : Option Nat :=
  ((List.range s.nodes.length).map fun k => (s.deadCursor + k) % s.nodes.length).find?
    fun i => s.nodes[i]?.any (·.dead)

/-- One dead node is polled every `g_dead_slowpoll_div` cycles. -/
def Master.probeStep (s : Master) : Master :=
  if s.deadSlowpollDiv = 0 then { s with pc := .count }
  else if (s.deadTick + 1) % 2 ^ 32 < s.deadSlowpollDiv then
    { s with deadTick := (s.deadTick + 1) % 2 ^ 32, pc := .count }
  else
    match s.nextDead with
    | none => { s with deadTick := 0, pc := .count }
    | some i =>
        match s.nodes[i]? with
        | none => { s with deadTick := 0, pc := .count }
        | some node =>
            { s.pollNode i node with
              deadTick := 0
              deadCursor := (i + 1) % s.nodes.length
              pc := .probeListen i false }

/-- A dead node that answered is taken back. -/
def Master.probeVerdict (s : Master) (i : Nat) (addr : Nat) (heard : Bool) : Master :=
  if heard then { s.modifyNode i Node.revived with roster := markAlive addr s.roster } else s

def Master.countStep (s : Master) : Master :=
  { s with ilNodesDead := s.nodes.countP (·.dead), pc := .emit }

def Master.emitStep (s : Master) : Master :=
  { s with desk := s.desk.emitFeedback, pc := .top }

end SlowBus.Arbiter
