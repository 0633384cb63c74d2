import SlowBus.Arbiter.State

/-!
# Sending a message

`bus_msg_send` takes a buffer, fills it, and attaches it to the fill list of its
node; each is a step of its own. It is called by the bus task for a command of
the host, by the engine for a command it originates, and by the host link.
-/

namespace SlowBus.Arbiter

/-- A call of `bus_msg_send` begins. -/
def Master.beginSend (s : Master) (t : Task) (dest : Nat) (payload : Bytes)
    (command : Option Command) : Master :=
  { s with
    flights := Function.update s.flights t
      (some { msg := { call := s.hist.calls, dest, payload, command }, stage := .grab })
    hist := { s.hist with calls := s.hist.calls + 1 } }

/-- The call moves on to its next stage. -/
def Master.stage (s : Master) (t : Task) (msg : Msg) (stage : Stage) : Master :=
  { s with flights := Function.update s.flights t (some { msg, stage }) }

/-- The call returns. -/
def Master.endSend (s : Master) (t : Task) : Master :=
  { s with flights := Function.update s.flights t none }

/-- A message will not reach its node. -/
def Master.forget (s : Master) (msg : Msg) : Master :=
  { s with hist := { s.hist with lost := s.hist.lost ++ msg.command.toList } }

/-- Push a buffer onto the fill list of node `i`. -/
def Master.attach (s : Master) (i : Nat) (b : Buf) (msg : Msg) : Master :=
  let fill := !s.active
  match s.nodes[i]? with
  | none => s
  | some node =>
      { s with
        pool := s.pool.setNext b (node.list fill)
        nodes := s.nodes.modify i (·.setList fill (some b))
        hist := { s.hist with accepted := s.hist.accepted ++ [(msg, s.hist.cycle)] } }

/-- The next step of `bus_msg_send`. -/
def Master.busMsgSend (s : Master) (t : Task) : Master :=
  match s.flights t with
  | none => s
  | some { msg, stage := .grab } =>
      match poolGrab s.pool with
      | (none, _) => (s.forget msg).endSend t
      | (some b, pool) => { s with pool }.stage t msg (.fill b)
  | some { msg, stage := .fill b } =>
      { s with pool := s.pool.fill b msg }.stage t msg (.attach b)
  | some { msg, stage := .attach b } =>
      match nodeIndexOf s.nodes msg.dest with
      | none => s.stage t msg (.recover b)
      | some i => (s.attach i b msg).endSend t
  | some { msg, stage := .recover b } =>
      { s.forget msg with pool := poolRecover s.pool b }.endSend t

/-! ## Commands -/

/-- `corr_add` for a command; a full table is only counted. -/
def Master.corrAdd (s : Master) (c : Command) : Master :=
  match SlowBus.Arbiter.corrAdd c.entry s.desk.corr with
  | none => s
  | some corr =>
      { s with
        desk := { s.desk with corr }
        hist := { s.hist with registered := s.hist.registered ++ [c] } }

/-- The next command of the run. -/
def Master.command (s : Master) (party : Party) (req hostReq addr : Nat) : Command :=
  { id := s.hist.commands, party, req, hostReq, addr }

/-- Register a command and start to send it. -/
def Master.issue (s : Master) (t : Task) (c : Command) (payload : Bytes) : Master :=
  let s := { s with hist := { s.hist with commands := s.hist.commands + 1 } }
  (s.corrAdd c).beginSend t c.addr payload (some c)

/-- `++g_orig_seq`, once more when it wraps to zero. -/
def nextOrigSeq (seq : Nat) : Nat :=
  let next := (seq + 1) % 2 ^ 16
  if next = 0 then 1 else next

/-- The `OP_SHELL_EXEC` body of an originated echo. -/
def echoBody (req : Nat) (bytes : Bytes) : Bytes :=
  le16 req ++ le16 cmdAppEcho ++ bytes

/-- `kbapp_on_echo_to`: in cycle mode the engine is a producer itself, else the
request waits for the per-slot engine. -/
def Master.kbappOnEchoTo (s : Master) (t : Task) (addr hostReqId : Nat) (bytes : Bytes) :
    Master :=
  let bytes := bytes.take origPayMax
  if s.cycleMode then
    let req := nextOrigSeq s.origSeq
    { s with origSeq := req }.issue t (s.command .engine req hostReqId addr)
      (le16 opShellExec ++ echoBody req bytes)
  else if s.origQ.length < origQueueLen then
    { s with origQ := s.origQ ++ [{ addr, hostReqId, bytes }] }
  else s

/-- The payload of a command on the bus: its opcode and its body, cut to what fits. -/
def HostCmd.frame (c : HostCmd) : Bytes :=
  le16 c.op ++ c.body.take (busPayloadMax - 2)

end SlowBus.Arbiter
