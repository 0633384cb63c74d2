import SlowBus.Arbiter.Rotation
import SlowBus.Lib.Runs

/-!
# Runs of the master

What can happen next: the bus task takes a step or stops waiting, another task
calls `bus_msg_send` or takes a step of it, the host link administers the master,
a node does something on its own, or a frame arrives. Runs are lists of these.
-/

namespace SlowBus.Arbiter

/-- The configured roster as `boot_read_roster` returns it. -/
structure RosterCfg where
  slaves : List (Nat × Bool)
  maxMisses : UInt8 := 0
  deriving DecidableEq, Repr

/-- `bc_load_cfg_roster` -/
def Master.loadCfgRoster (s : Master) (cfg : Option RosterCfg) : Master :=
  match cfg with
  | none => { s with roster := [], cursor := 0, pollEnabled := false }
  | some rc =>
      let roster := (rc.slaves.take rosterMax).map fun e => { addr := e.1, enabled := e.2 }
      { s with
        roster
        cursor := 0
        pollMaxMisses := if rc.maxMisses = 0 then s.pollMaxMisses else rc.maxMisses.toNat
        pollEnabled := 0 < roster.length }

/-- `uplink_enter`; the dirty flag is not touched. -/
def Master.uplinkEnter (s : Master) (active : Bool) (cfg : Option RosterCfg) : Master :=
  { s.loadCfgRoster cfg with
    cmdPending := false
    desk := { s.desk with uplinkActive := active } }

/-- `CMD_BUS_CLEAR_ROSTER` -/
def Master.clearRoster (s : Master) : Master :=
  { s with roster := [], cursor := 0, dirty := true, cmdPending := false }

/-- `CMD_BUS_REGISTER_SLAVE` -/
def Master.registerSlave (s : Master) (addr : Nat) (enabled : Bool) : Master :=
  if s.roster.length < rosterMax then
    { s with roster := s.roster ++ [{ addr, enabled }], dirty := true }
  else s

/-- The request id `on_bus_msg` finds in a command. -/
def cmdReqId (opcode : Nat) (body : Bytes) : Nat :=
  if opcode = opBusExec ∧ 4 ≤ body.length then readLe16 (body.drop 2)
  else if 2 ≤ body.length then readLe16 body
  else 0

/-- `on_bus_msg` for a node: one command in flight. -/
def Master.onBusMsg (s : Master) (dest opcode : Nat) (body : Bytes) : Master :=
  if dest = busAddrAppcore ∨ s.cmdPending then s
  else
    let body := body.take busPayloadMax
    { s with
      cmdPending := true
      cmd := { slave := dest, op := opcode, reqId := cmdReqId opcode body, body } }

/-! ## The bus task -/

/-- The bus task gets the next frame of the receive ring while it waits for one. -/
def Master.frame (s : Master) (f : Frame) : Master :=
  match s.pc with
  | .listen i heard =>
      match s.nodes[i]? with
      | none => s
      | some node =>
          { s.slotFrame node.addr f with pc := .listen i (heard || f.src == node.addr) }
  | .probeListen i heard =>
      match s.nodes[i]? with
      | none => s
      | some node =>
          { s.slotFrame node.addr f with pc := .probeListen i (heard || f.src == node.addr) }
  | .injectWait cmd command => s.injected cmd command (some f)
  | .collectWait c => s.collectAnswer c f
  | .slot addr heard => { s.slotFrame addr f with pc := .slot addr (heard || f.src == addr) }
  | _ => s

/-- The wait is over: the idle-gap alarm of a slot, or the time-out of `bus_recv`. -/
def Master.waitOver (s : Master) : Master :=
  match s.pc with
  | .listen i heard =>
      match s.nodes[i]? with
      | none => s
      | some node =>
          { s.sweepVerdict i node.addr heard with
            wire := s.wire.giveUp node.addr
            pc := .sweep (i + 1) }
  | .probeListen i heard =>
      match s.nodes[i]? with
      | none => s
      | some node =>
          { s.probeVerdict i node.addr heard with
            wire := s.wire.giveUp node.addr
            pc := .count }
  | .injectWait cmd command =>
      { s.injected cmd command none with wire := s.wire.giveUp cmd.slave }
  | .collectWait c => { s.retryCollect c with wire := s.wire.giveUp c.command.addr }
  | .slot addr heard =>
      { s.slotVerdict addr heard with wire := s.wire.giveUp addr, pc := .top }
  | _ => s

/-- The next step of the bus task. -/
def Master.busStep (s : Master) : Master :=
  match s.pc with
  | .top =>
      if s.cycleMode then if s.dirty then s.rebuild else { s with pc := .host }
      else { s.promote with pc := .choose }
  | .orphans next => s.orphansStep next
  | .host => s.hostStep
  | .hostAdd cmd => s.hostAddStep cmd
  | .hostSend => s.hostSendStep
  | .swap => s.swapStep
  | .pass i => s.passStep i
  | .drain i b => s.drainStep i b
  | .release i b next => s.releaseStep i b next
  | .sweep i => s.sweepStep i
  | .probe => s.probeStep
  | .count => s.countStep
  | .emit => s.emitStep
  | .choose => s.chooseStep
  | .inject cmd => s.injectStep cmd
  | .listen _ _ | .probeListen _ _ | .injectWait _ _ | .collectWait _ | .slot _ _ =>
      match s.wire.rx with
      | [] => s
      | f :: rx => { s with wire := { s.wire with rx } }.frame f

/-! ## Actions -/

inductive Action where
  /-- The bus task takes its next step, or stops waiting. -/
  | bus
  | alarm
  /-- Another task calls `bus_msg_send`, originates an echo, or takes its next step. -/
  | call (n : Nat) (dest : Nat) (payload : Bytes)
  | originate (n : Nat) (addr hostReqId : Nat) (bytes : Bytes)
  | send (n : Nat)
  /-- The host link hands a command for a node or for the master itself over. -/
  | busMsg (dest opcode : Nat) (body : Bytes)
  | clearRoster
  | registerSlave (addr : Nat) (enabled : Bool)
  | setPoll (maxMisses : Nat)
  | pollEnable (on : Bool)
  | cycleMode (on : Bool)
  | setSlowpoll (div : Nat)
  | pingPong (on : Bool)
  | uplinkEnter (active : Bool) (cfg : Option RosterCfg)
  /-- The transmit ring of the host link fills up or is drained. -/
  | linkRoom (room : Bool)
  /-- A node queues a frame, answers a command, comes or goes. -/
  | queue (addr : Nat) (payload : Bytes)
  | answer (command : Command) (body : Bytes)
  | power (addr : Nat) (on : Bool)
  /-- The next frame on the air arrives, or is garbled. -/
  | arrive
  | garble
  deriving DecidableEq, Repr

/-- A task other than the bus task begins something if it is not busy. -/
def Master.idle (s : Master) (n : Nat) : Bool := (s.flights (.producer n)).isNone

def step (s : Master) : Action → Master
  | .bus => s.busStep
  | .alarm => if s.wire.rx = [] then s.waitOver else s
  | .call n dest payload =>
      if s.idle n then s.beginSend (.producer n) dest payload none else s
  | .originate n addr hostReqId bytes =>
      if s.idle n then s.kbappOnEchoTo (.producer n) addr hostReqId bytes else s
  | .send n => s.busMsgSend (.producer n)
  | .busMsg dest opcode body => s.onBusMsg dest opcode body
  | .clearRoster => s.clearRoster
  | .registerSlave addr enabled => s.registerSlave addr enabled
  | .setPoll maxMisses => { s with pollMaxMisses := maxMisses % 256 }
  | .pollEnable on => { s with pollEnabled := on }
  | .cycleMode on => { s with cycleMode := on }
  | .setSlowpoll div => { s with deadSlowpollDiv := div % 2 ^ 32 }
  | .pingPong on => { s with desk := { s.desk with ppRun := on } }
  | .uplinkEnter active cfg => s.uplinkEnter active cfg
  | .linkRoom room => { s with desk := { s.desk with room } }
  | .queue addr payload =>
      { s with wire := s.wire.queue { src := addr, type := .data, payload } }
  | .answer command body => { s with wire := s.wire.answer command body }
  | .power addr on =>
      { s with wire := s.wire.modify addr fun st => { st with powered := on } }
  | .arrive => { s with wire := s.wire.arrive }
  | .garble => { s with wire := s.wire.garble }

/-! ## Start -/

/-- The master when the bus task enters its loop: a pool of `n` buffers, the
configured roster, and the table built from it. -/
def boot (n : Nat) (cfg : Option RosterCfg) : Master :=
  let s : Master := { pool := busPoolInit n, nodes := [], roster := [] }
  let s := s.loadCfgRoster cfg
  { s with nodes := busNodetableBuild s.roster }

/-- A state of some run. -/
def Reached (s : Master) : Prop :=
  ∃ (room : Nat) (cfg : Option RosterCfg) (as : List Action),
    s = Runs.run step (boot room cfg) as

end SlowBus.Arbiter
