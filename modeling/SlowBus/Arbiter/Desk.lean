import Mathlib.Algebra.Ring.Nat
import SlowBus.Arbiter.Pool

/-!
# The master's desk

What the master does with a frame a node sent it: replies to outstanding
commands are relayed to whoever waits for them, the others are gathered into one
feedback frame a cycle. Frames for the host are staged on the host link.
-/

namespace SlowBus.Arbiter

def busAddrAppcore : Nat := 0xFB
def opShellReply : Nat := 0x0011
def opBusCmdAck : Nat := 0x0018
def opBusCmdNak : Nat := 0x0019
def opBusFeedback : Nat := 0x001C
def opShellExec : Nat := 0x0109
def opBusExec : Nat := 0x010B
def cmdAppEcho : Nat := 0x0300

/-- `COMM_PAYLOAD_MAX`, the largest payload the host link's encoder takes. -/
def commPayloadMax : Nat := 128
def cmdcorrMax : Nat := 8

/-- The two bytes of a 16-bit value, low byte first. -/
def le16 (v : Nat) : Bytes := [v % 256, v / 256 % 256]

/-- The 16-bit value at the head of a payload. -/
def readLe16 (p : Bytes) : Nat := p.getD 0 0 + 256 * p.getD 1 0

/-! ## Frames from the nodes -/

/-- `BUS_FT_NO_MESSAGE`, `BUS_FT_POLL`, `BUS_FT_DATA`, `BUS_FT_ACK` and `BUS_FT_NAK`. -/
inductive FrameType where
  | noMessage | poll | data | ack | nak
  deriving DecidableEq, Repr

/-- A frame a node sends to the master. `answers` is the command it is the reply
to, which the program does not see. -/
structure Frame where
  src : Nat
  type : FrameType
  payload : Bytes := []
  answers : Option Command := none
  deriving DecidableEq, Repr

/-- A DATA frame that carries a shell reply: what follows the opcode. -/
def Frame.shellReply (f : Frame) : Option Bytes :=
  if f.type = .data ∧ f.payload.take 2 = le16 opShellReply then some (f.payload.drop 2) else none

/-! ## The correlation table -/

/-- `cmdcorr_t` in use. -/
structure CorrEntry where
  req : Nat
  hostReq : Nat
  addr : Nat
  isOrig : Bool
  deriving DecidableEq, Repr

/-- The entry `corr_add` writes for a command; both ids are 16 bits wide. -/
def Command.entry (c : Command) : CorrEntry where
  req := c.req % 2 ^ 16
  hostReq := c.hostReq % 2 ^ 16
  addr := c.addr
  isOrig := c.party == .engine

/-- `corr_add`: the first unused entry is taken. -/
def corrAdd (e : CorrEntry) : List (Option CorrEntry) → Option (List (Option CorrEntry))
  | [] => none
  | none :: corr => some (some e :: corr)
  | some x :: corr => (corrAdd e corr).map (some x :: ·)

/-- `corr_take`: the first entry for the request id and the node is given up. -/
def corrTake (req addr : Nat) :
    List (Option CorrEntry) → Option (CorrEntry × List (Option CorrEntry))
  | [] => none
  | none :: corr => (corrTake req addr corr).map fun r => (r.1, none :: r.2)
  | some e :: corr =>
      if e.req = req ∧ e.addr = addr then some (e, none :: corr)
      else (corrTake req addr corr).map fun r => (r.1, some e :: r.2)

/-! ## The host link -/

/-- A frame for the host. -/
structure HostFrame where
  dest : Nat
  opcode : Nat
  payload : Bytes
  deriving DecidableEq, Repr

/-- How a reply came to be passed on. -/
inductive Route where
  /-- Matched by the correlation table. -/
  | correlated
  /-- Unsolicited, outside a cycle. -/
  | direct
  /-- Taken by the per-slot engine as the reply to the command it collects. -/
  | collected (command : Command)
  deriving DecidableEq, Repr

/-- A reply that was passed on: the frame, what was made of it for the host, and
whether the host link took it. -/
structure Relay where
  frame : Frame
  route : Route
  sent : Option HostFrame
  staged : Bool
  deriving DecidableEq, Repr

/-- A reply for the feedback batch, and whether there was room for it. -/
structure Unsolicited where
  addr : Nat
  bytes : Bytes
  kept : Bool
  deriving DecidableEq, Repr

structure Desk where
  corr : List (Option CorrEntry) := List.replicate cmdcorrMax none
  /-- `g_fb_buf`, its first `g_fb_n` bytes. -/
  fbBuf : Bytes := []
  fbRec : Nat := 0
  collecting : Bool := false
  fbFrames : Nat := 0
  fbDrops : Nat := 0
  ppRun : Bool := false
  /-- `g_uplink_active` -/
  uplinkActive : Bool := false
  /-- The transmit ring of the host link has room for another frame. -/
  room : Bool := true
  /-- The frames staged on the host link so far. -/
  link : List HostFrame := []
  /-- The shell replies taken in the slots so far, and what became of replies. -/
  heard : List Frame := []
  relays : List Relay := []
  unsolicited : List Unsolicited := []
  deriving Repr

/-- `emit_s2m` stages a frame or returns an error. -/
def Desk.takes (d : Desk) (f : HostFrame) : Bool :=
  d.room && decide (f.payload.length ≤ commPayloadMax)

/-- `host_link_s2m` with its result ignored. -/
def Desk.s2m (d : Desk) (f : HostFrame) : Desk :=
  if d.takes f then { d with link := d.link ++ [f] } else d

/-- Pass a reply on to the host link, or to nobody. -/
def Desk.relay (d : Desk) (frame : Frame) (route : Route) (sent : Option HostFrame) : Desk :=
  match sent with
  | none => { d with relays := d.relays ++ [{ frame, route, sent := none, staged := false }] }
  | some f =>
      { d.s2m f with relays := d.relays ++ [{ frame, route, sent, staged := d.takes f }] }

/-- The count a node appends to every echo is cut off. -/
def stripCount (body : Bytes) : Bytes :=
  if 7 ≤ body.length then body.take (body.length - 4) else body

/-- A reply for the application core: the count is cut off and the requester's
own id put in the place of the one used on the wire. -/
def retag (hostReq : Nat) (body : Bytes) : Bytes :=
  let body := stripCount body
  if 2 ≤ body.length then le16 hostReq ++ body.drop 2 else body

/-- What becomes of the reply to an origination; a running ping-pong bench keeps it. -/
def Desk.originReply (d : Desk) (hostReq : Nat) (body : Bytes) : Option HostFrame :=
  if d.ppRun then none
  else some { dest := busAddrAppcore, opcode := opShellReply, payload := retag hostReq body }

/-- What becomes of the reply to a command of the host. -/
def hostReply (addr : Nat) (body : Bytes) : HostFrame :=
  { dest := addr, opcode := opShellReply, payload := body }

/-- Append an unsolicited reply to the batch if it fits. -/
def Desk.batch (d : Desk) (addr : Nat) (bytes : Bytes) : Desk :=
  if d.fbBuf.length + 2 + bytes.length ≤ busPayloadMax then
    { d with
      fbBuf := d.fbBuf ++ addr :: bytes.length :: bytes
      fbRec := d.fbRec + 1
      unsolicited := d.unsolicited ++ [{ addr, bytes, kept := true }] }
  else
    { d with
      fbDrops := (d.fbDrops + 1) % 2 ^ 32
      unsolicited := d.unsolicited ++ [{ addr, bytes, kept := false }] }

/-- The correlation entry for a reply, if it is long enough to carry an id. -/
def Desk.correlate (d : Desk) (addr : Nat) (body : Bytes) :
    Option (CorrEntry × List (Option CorrEntry)) :=
  if 2 ≤ body.length then corrTake (readLe16 body) addr d.corr else none

/-- `handle_slot_frame` -/
def Desk.handleSlotFrame (d : Desk) (addr : Nat) (f : Frame) : Desk :=
  match f.shellReply with
  | none => d
  | some body =>
      let d := { d with heard := d.heard ++ [f] }
      match d.correlate addr body with
      | some (e, corr) =>
          { d with corr }.relay f .correlated
            (if e.isOrig then d.originReply e.hostReq body else some (hostReply addr body))
      | none =>
          if d.collecting then d.batch addr body
          else d.relay f .direct (some (hostReply addr body))

/-- The feedback frame of the records gathered so far. -/
def Desk.feedbackFrame (d : Desk) : HostFrame :=
  { dest := 1, opcode := opBusFeedback, payload := d.fbRec :: d.fbBuf.drop 1 }

/-- The start of a cycle: one byte is reserved for the count of records. -/
def Desk.openBatch (d : Desk) : Desk :=
  { d with fbBuf := [0], fbRec := 0, collecting := true }

/-- The end of a cycle: one frame for all of its feedback. -/
def Desk.emitFeedback (d : Desk) : Desk :=
  let d := { d with collecting := false }
  if d.uplinkActive ∧ 0 < d.fbRec then
    { d.s2m d.feedbackFrame with fbFrames := (d.fbFrames + 1) % 2 ^ 32 }
  else d

end SlowBus.Arbiter
