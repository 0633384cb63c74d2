import SlowBus.Arbiter.Cycle

/-!
# The per-slot engine

The other half of `bus_control_task`: one bus transaction per pass. A pending
command is injected and its reply collected by polling the node; otherwise the
next enabled node is polled.
-/

namespace SlowBus.Arbiter

/-- With no command under way an origination takes the in-flight slot. -/
def Master.promote (s : Master) : Master :=
  match s.collect, s.cmdPending, s.origQ with
  | none, false, o :: origQ =>
      let req := nextOrigSeq s.origSeq
      { s with
        origSeq := req
        origQ
        cmdPending := true
        cmd :=
          { slave := o.addr
            op := opShellExec
            reqId := req
            body := (echoBody req o.bytes).take busPayloadMax
            isOrig := true
            hostReq := o.hostReqId } }
  | _, _, _ => s

/-- A transmission of the per-slot engine. -/
def Master.grant (s : Master) (addr : Nat) (g : Grant) : Master :=
  { s with wire := s.wire.send addr g }

/-- Collect, inject or sweep. -/
def Master.chooseStep (s : Master) : Master :=
  match s.collect with
  | some c => { s.grant c.command.addr .poll with pc := .collectWait c }
  | none =>
      if s.cmdPending then { s with pc := .inject s.cmd }
      else if s.pollEnabled then
        let next := nextEnabledAddr s.roster s.roster.length s.cursor
        if next.1 = noAddr then { s with cursor := next.2, pc := .top }
        else { s.grant next.1 .poll with cursor := next.2, pc := .slot next.1 false }
      else { s with pc := .top }

/-- The command an in-flight slot stands for. -/
def HostCmd.command (cmd : HostCmd) (id : Nat) : Command :=
  { id
    party := if cmd.isOrig then .engine else .host
    req := cmd.reqId
    hostReq := if cmd.isOrig then cmd.hostReq else cmd.reqId
    addr := cmd.slave }

/-- `BS_CMD_INJECT`: put the command on the wire. -/
def Master.injectStep (s : Master) (cmd : HostCmd) : Master :=
  let command := cmd.command s.hist.commands
  { s.grant cmd.slave (.data cmd.frame (some command)) with
    hist := { s.hist with commands := s.hist.commands + 1 }
    pc := .injectWait cmd command }

/-- The host is told that its command was acknowledged; it tracks this itself. -/
def Desk.acknowledge (d : Desk) (slave reqId : Nat) (f : Frame) : Desk :=
  if f.type = .ack then
    d.s2m { dest := slave, opcode := opBusCmdAck, payload := slave :: le16 reqId }
  else if f.type = .nak then
    d.s2m { dest := slave, opcode := opBusCmdNak, payload := slave :: le16 reqId }
  else d

/-- The first frame of the answer to an injected command. -/
def Master.injectAnswer (s : Master) (cmd : HostCmd) (f : Frame) : Master :=
  if f.src = cmd.slave then
    { s with
      roster := markAlive cmd.slave s.roster
      desk := if cmd.isOrig then s.desk else s.desk.acknowledge cmd.slave s.cmd.reqId f }
  else s

/-- What `BS_CMD_INJECT` does with the first frame of the answer, if any came. -/
def Master.injected (s : Master) (cmd : HostCmd) (command : Command) (got : Option Frame) :
    Master :=
  { got.elim s (s.injectAnswer cmd) with
    cmdPending := false
    collect := some { command, tries := cmdCollectTries }
    pc := .top }

/-- One try of `BS_CMD_COLLECT` is used up. -/
def Collect.retry (c : Collect) : Option Collect :=
  if c.tries = 1 then none else some { c with tries := c.tries - 1 }

/-- What is made of a reply that ends `BS_CMD_COLLECT`. -/
def Desk.collected (d : Desk) (c : Command) (f : Frame) (body : Bytes) : Desk :=
  d.relay f (.collected c)
    (match c.party with
      | .engine => d.originReply c.hostReq body
      | .host => some (hostReply c.addr body))

/-- `BS_CMD_COLLECT` polls the node again or gives up. -/
def Master.retryCollect (s : Master) (c : Collect) : Master :=
  { s with collect := c.retry, pc := .top }

/-- The first frame of the window `BS_CMD_COLLECT` polled for; nothing in it is
compared with the request id of the command. -/
def Master.collectAnswer (s : Master) (c : Collect) (f : Frame) : Master :=
  if f.src = c.command.addr then
    let s := { s with roster := markAlive c.command.addr s.roster }
    match f.shellReply with
    | some body =>
        { s with desk := s.desk.collected c.command f body, collect := none, pc := .top }
    | none => s.retryCollect c
  else s.retryCollect c

/-- Liveness of a node polled in its slot, in the roster only. -/
def Master.slotVerdict (s : Master) (addr : Nat) (heard : Bool) : Master :=
  if heard then { s with roster := markAlive addr s.roster }
  else { s with roster := markMiss s.pollMaxMisses addr s.roster }

end SlowBus.Arbiter
