import SlowBus.Host.AppRequests
import SlowBus.Host.Link
import SlowBus.Host.Roster

/-!
# Echoes by the application engines

`kbapp_on_echo`, and what brings a request to it and takes its answer away. On the master
the frame of the host becomes the request of an event; on a slave the payload of a DATA
frame does, and the answer becomes the payload of another. Each stage has a header and a
limit of its own.
-/

namespace SlowBus.Host

open Bus (Byte)

def busAddrAppcore : Byte := 0xFB
def opShellReply : BitVec 16 := 0x0011

def appcoreArgsMax : Nat := 64
def appcorePayMax : Nat := 96
def busPayloadMax : Nat := 240

def routeUsb : Byte := 0
def routeBus : Byte := 1

def kbappVer : Byte := 1

/-- `on_bus_msg` for the application core: what is put into the down-queue. -/
def onBusMsg (dest : Byte) (opcode : BitVec 16) : List Byte → Option AppCmd
  | r0 :: r1 :: c0 :: c1 :: args =>
      if dest = busAddrAppcore ∧ opcode = opShellExec then
        some
          { reqId := r1 ++ r0
            cmd := c1 ++ c0
            route := routeUsb
            busSrc := 0
            args := args.take appcoreArgsMax }
      else none
  | _ => none

/-- `node_engine_try_route`: a slave's engine takes its own commands only. -/
def nodeEngineTryRoute (src : Byte) (req cmd : BitVec 16) (args : List Byte) : Option AppCmd :=
  if cmd ≠ cmdAppEcho ∧ cmd ≠ cmdAppIlClear then none
  else
    some { reqId := req, cmd, route := routeBus, busSrc := src, args := args.take appcoreArgsMax }

/-- `bus_node_on_data`: what is put into the down-queue; what the engine does not take is
answered at once. -/
def busNodeOnData (src : Byte) : List Byte → Option AppCmd
  | o0 :: o1 :: r0 :: r1 :: c0 :: c1 :: args =>
      if (o1 ++ o0 : BitVec 16) = opShellExec then
        nodeEngineTryRoute src (r1 ++ r0) (c1 ++ c0) args
      else none
  | _ => none

/-- `appcore_rep_t`, with as many bytes as `len` says. -/
structure AppRep where
  dest : Byte
  opcode : BitVec 16
  payload : List Byte
  deriving DecidableEq, Repr

/-- `kbapp_reply` -/
def kbappReply (q : AppReq) (body : List Byte) : AppRep where
  dest := if q.route = routeBus then q.busSrc else busAddrAppcore
  opcode := opShellReply
  payload := body.take appcorePayMax

/-- `kbapp_on_echo`: the reply, and `g_pp_slave` after it. Over the bus the count stands
behind the echo, and the version is left out. -/
def kbappOnEcho (q : AppReq) (ppSlave : BitVec 32) : AppRep × BitVec 32 :=
  let head := wrU16 q.reqId ++ [shellOk]
  if q.route = routeBus then
    let echo := head ++ q.bytes.take (appcorePayMax - 4 - head.length)
    (kbappReply q (echo ++ wrU32 (ppSlave + 1)), ppSlave + 1)
  else
    let head := head ++ [kbappVer]
    (kbappReply q (head ++ q.bytes.take (appcorePayMax - head.length)), ppSlave)

/-- What `node_reply_pump_task` queues for a reply: the destination and the payload. -/
def nodeReplyPump (r : AppRep) : Byte × List Byte :=
  (r.dest, wrU16 r.opcode ++ r.payload.take (busPayloadMax - 2))

/-- What a slave queues for the payload of a DATA frame when its engine echoes it. -/
def slaveEcho (ppSlave : BitVec 32) (src : Byte) (payload : List Byte) :
    Option (Byte × List Byte) :=
  match (busNodeOnData src payload).bind AppCmd.request with
  | some (.echo, q) => some (nodeReplyPump (kbappOnEcho q ppSlave).1)
  | _ => none

/-! ## What gets through -/

@[simp] theorem length_wrU16 (v : BitVec 16) : (wrU16 v).length = 2 := rfl

@[simp] theorem length_wrU32 (v : BitVec 32) : (wrU32 v).length = 4 := rfl

/-- The two bytes of a value, put together again. -/
theorem append_wrU16 (v : BitVec 16) : (v >>> 8).setWidth 8 ++ v.setWidth 8 = v := by
  ext i hi
  rw [BitVec.getElem_append]
  split <;> simp <;> grind

/-- The arguments of `CMD_APP_ECHO_TO`: the node, and what it is to echo. -/
def echoToBody (reqId : BitVec 16) (addr : Byte) (payload : List Byte) : List Byte :=
  wrU16 reqId ++ wrU16 cmdAppEchoTo ++ addr :: payload

/-- With the node the arguments fill the command: nothing is cut off. -/
theorem request_echoTo (reqId : BitVec 16) (addr : Byte) {payload : List Byte}
    (h : payload.length ≤ 63) :
    (onBusMsg busAddrAppcore opShellExec (echoToBody reqId addr payload)).bind AppCmd.request =
      some (.echoTo, { reqId, addr, route := routeUsb, busSrc := 0, bytes := payload }) := by
  have hargs : (addr :: payload).take appcoreArgsMax = addr :: payload := by
    apply List.take_of_length_le
    rw [List.length_cons, appcoreArgsMax]
    omega
  have hbytes : payload.take appReqMax = payload :=
    List.take_of_length_le (h.trans (by decide))
  have honBusMsg : onBusMsg busAddrAppcore opShellExec (echoToBody reqId addr payload) =
      some { reqId, cmd := cmdAppEchoTo, route := routeUsb, busSrc := 0
             args := addr :: payload } := by
    simp only [echoToBody, wrU16, List.cons_append, List.nil_append, onBusMsg, append_wrU16,
      hargs, and_self, if_true]
  rw [honBusMsg, Option.bind_some, AppCmd.request]
  simp [cmdAppEchoTo, cmdAppEcho, hbytes]

/-- The payload of a DATA frame that asks a slave's engine for an echo. -/
def echoFrame (req : BitVec 16) (bytes : List Byte) : List Byte :=
  wrU16 opShellExec ++ wrU16 req ++ wrU16 cmdAppEcho ++ bytes

/-- The slave sends the bytes back as they are, behind the request id and the status and
before its count. -/
theorem slaveEcho_echoFrame (ppSlave : BitVec 32) (src : Byte) (req : BitVec 16)
    {bytes : List Byte} (h : bytes.length ≤ 64) :
    slaveEcho ppSlave src (echoFrame req bytes) =
      some (src, wrU16 opShellReply ++ wrU16 req ++ shellOk :: bytes ++ wrU32 (ppSlave + 1)) := by
  have hargs : bytes.take appcoreArgsMax = bytes := List.take_of_length_le h
  have hcap : bytes.take (appcorePayMax - 4 - 3) = bytes :=
    List.take_of_length_le (h.trans (by decide))
  -- the command table takes the frame: at most 64 bytes, so no argument is cut
  have hroute : nodeEngineTryRoute src req cmdAppEcho bytes =
      some { reqId := req, cmd := cmdAppEcho, route := routeBus, busSrc := src
             args := bytes } := by
    rw [nodeEngineTryRoute, if_neg fun h => h.1 rfl, hargs]
  have hdata : busNodeOnData src (echoFrame req bytes) =
      some { reqId := req, cmd := cmdAppEcho, route := routeBus, busSrc := src
             args := bytes } := by
    simp only [echoFrame, wrU16, List.cons_append, List.nil_append, busNodeOnData, append_wrU16,
      if_true, hroute]
  have hrequest : AppCmd.request
        { reqId := req, cmd := cmdAppEcho, route := routeBus, busSrc := src, args := bytes } =
      some (.echo, { reqId := req, addr := 0, route := routeBus, busSrc := src, bytes }) := by
    rw [AppCmd.request, if_pos rfl]
    exact congrArg (fun b => some (AppEvent.echo, AppReq.mk req 0 routeBus src b)) hargs
  -- the reply is the request id, the status, the bytes and the count, none cut
  have hreply : (kbappOnEcho { reqId := req, addr := 0, route := routeBus, busSrc := src, bytes }
        ppSlave).1 =
      { dest := src, opcode := opShellReply
        payload := wrU16 req ++ [shellOk] ++ bytes ++ wrU32 (ppSlave + 1) } := by
    have hbody : (wrU16 req ++ [shellOk] ++ bytes ++ wrU32 (ppSlave + 1)).length ≤
        appcorePayMax := by
      simp only [List.length_append, length_wrU16, length_wrU32, List.length_singleton,
        appcorePayMax]
      omega
    simp only [kbappOnEcho, kbappReply, if_true, List.length_append, length_wrU16,
      List.length_singleton, hcap, List.take_of_length_le hbody]
  -- nor does the pump, which keeps two bytes of the payload for the opcode, cut it
  have hpump : (wrU16 req ++ [shellOk] ++ bytes ++ wrU32 (ppSlave + 1)).length ≤
      busPayloadMax - 2 := by
    simp only [List.length_append, length_wrU16, length_wrU32, List.length_singleton,
      busPayloadMax]
    omega
  simp only [slaveEcho, hdata, Option.bind_some, hrequest, hreply, nodeReplyPump,
    List.take_of_length_le hpump]
  simp

end SlowBus.Host
