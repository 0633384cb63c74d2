import SlowBus.Arbiter.Machine

/-!
# What a step of the bus task can do

The bus task is a loop over many program points. Its steps are listed here once,
each with what it changes; the invariants of the later modules go by these cases.
-/

namespace SlowBus.Arbiter

/-- A frame the slot of `addr` drains: other sources are ignored. -/
def Desk.slotFrame (d : Desk) (addr : Nat) (f : Frame) : Desk :=
  if f.src = addr then d.handleSlotFrame addr f else d

/-- The bus task waits for a frame. -/
def Pc.waiting : Pc → Bool
  | .listen _ _ | .probeListen _ _ | .injectWait _ _ | .collectWait _ | .slot _ _ => true
  | _ => false

/-- The steps of the bus task; it does not wait for a frame that is not there. -/
inductive BusStep (s : Master) : Master → Prop
  /-- The head of the loop. -/
  | rebuild (hpc : s.pc = .top) (hmode : s.cycleMode = true) (hdirty : s.dirty = true) :
      BusStep s s.rebuild
  | begin (hpc : s.pc = .top) (hmode : s.cycleMode = true) (hdirty : s.dirty = false) :
      BusStep s { s with pc := .host }
  | promote (hpc : s.pc = .top) (hmode : s.cycleMode = false) :
      BusStep s { s with
        origSeq := s.promote.origSeq
        origQ := s.promote.origQ
        cmdPending := s.promote.cmdPending
        cmd := s.promote.cmd
        pc := .choose }
  /-- The orphans of a rebuild. -/
  | orphansOver (hpc : s.pc = .orphans none) : BusStep s { s with pc := .host }
  | orphan (b : Buf) (hpc : s.pc = .orphans (some b)) :
      BusStep s { s with
        pool := poolRecover s.pool b
        hist := (s.unsent b .rebuilt).hist
        pc := .orphans (s.pool.mem b).next }
  /-- The command of the host. -/
  | hostNone (hpc : s.pc = .host) (hcmd : s.cmdPending = false) : BusStep s { s with pc := .swap }
  | host (hpc : s.pc = .host) (hcmd : s.cmdPending = true) :
      BusStep s { s with cmdPending := false, pc := .hostAdd s.cmd }
  | hostAdd (cmd : HostCmd) (hpc : s.pc = .hostAdd cmd) : BusStep s (s.hostAddStep cmd)
  | hostSend (hpc : s.pc = .hostSend) (flight : Flight) (hflight : s.flights .bus = some flight) :
      BusStep s (s.busMsgSend .bus)
  | hostSent (hpc : s.pc = .hostSend) (hflight : s.flights .bus = none) :
      BusStep s { s with pc := .swap }
  | swap (hpc : s.pc = .swap) : BusStep s s.swapStep
  /-- The message pass. -/
  | passOver (i : Nat) (hpc : s.pc = .pass i) (hnode : s.nodes[i]? = none) :
      BusStep s { s with pc := .sweep 0 }
  | pass (i : Nat) (node : Node) (hpc : s.pc = .pass i) (hnode : s.nodes[i]? = some node) :
      BusStep s { s with
        nodes := s.nodes.modify i (·.setList s.active none)
        pc := .drain i (node.list s.active) }
  | drained (i : Nat) (hpc : s.pc = .drain i none) : BusStep s { s with pc := .pass (i + 1) }
  | drainGone (i : Nat) (b : Buf) (hpc : s.pc = .drain i (some b)) (hnode : s.nodes[i]? = none) :
      BusStep s s
  | drainDead (i : Nat) (b : Buf) (node : Node) (hpc : s.pc = .drain i (some b))
      (hnode : s.nodes[i]? = some node) (hdead : node.dead = true) :
      BusStep s { s with
        hist := (s.unsent b (.dead node.addr)).hist
        pc := .release i b (s.pool.mem b).next }
  | drainBlank (i : Nat) (b : Buf) (node : Node) (hpc : s.pc = .drain i (some b))
      (hnode : s.nodes[i]? = some node) (hdead : node.dead = false) (hmsg : s.msgOf b = none) :
      BusStep s { s with pc := .release i b (s.pool.mem b).next }
  | transmit (i : Nat) (b : Buf) (node : Node) (msg : Msg) (hpc : s.pc = .drain i (some b))
      (hnode : s.nodes[i]? = some node) (hdead : node.dead = false) (hmsg : s.msgOf b = some msg) :
      BusStep s { s with
        wire := s.wire.send node.addr (.data (s.pool.mem b).payload msg.command)
        marked := i :: s.marked
        hist := { s.hist with sent := s.hist.sent ++ [{
          msg, node := i, addr := node.addr, payload := (s.pool.mem b).payload,
          cycle := s.hist.cycle }] }
        pc := .release i b (s.pool.mem b).next }
  | release (i : Nat) (b : Buf) (next : Option Buf) (hpc : s.pc = .release i b next) :
      BusStep s { s with pool := poolRecover s.pool b, pc := .drain i next }
  /-- The sweep. -/
  | sweepOver (i : Nat) (hpc : s.pc = .sweep i) (hnode : s.nodes[i]? = none) :
      BusStep s { s with pc := .probe }
  | sweepSkip (i : Nat) (node : Node) (hpc : s.pc = .sweep i) (hnode : s.nodes[i]? = some node)
      (hskip : node.dead = true ∨ i ∈ s.marked) : BusStep s { s with pc := .sweep (i + 1) }
  | sweepPoll (i : Nat) (node : Node) (hpc : s.pc = .sweep i) (hnode : s.nodes[i]? = some node)
      (hdead : node.dead = false) (hmarked : i ∉ s.marked) :
      BusStep s { s.pollNode i node with pc := .listen i false }
  /-- The probe of a dead node. -/
  | probeNone (deadTick : Nat) (hpc : s.pc = .probe) : BusStep s { s with deadTick, pc := .count }
  | probe (i : Nat) (node : Node) (hpc : s.pc = .probe) (hnode : s.nodes[i]? = some node)
      (hdead : node.dead = true) :
      BusStep s { s.pollNode i node with
        deadTick := 0
        deadCursor := (i + 1) % s.nodes.length
        pc := .probeListen i false }
  | count (hpc : s.pc = .count) : BusStep s s.countStep
  | emit (hpc : s.pc = .emit) : BusStep s s.emitStep
  /-- The per-slot engine. -/
  | choosePoll (c : Collect) (hpc : s.pc = .choose) (hcollect : s.collect = some c) :
      BusStep s { s with
        wire := s.wire.send c.command.addr .poll
        pc := .collectWait c }
  | chooseInject (hpc : s.pc = .choose) (hcollect : s.collect = none) (hcmd : s.cmdPending = true) :
      BusStep s { s with pc := .inject s.cmd }
  | chooseNone (cursor : Nat) (hpc : s.pc = .choose) : BusStep s { s with cursor, pc := .top }
  | chooseSlot (addr cursor : Nat) (hpc : s.pc = .choose) (hcollect : s.collect = none)
      (hcmd : s.cmdPending = false) (hpoll : s.pollEnabled = true)
      (hnext : nextEnabledAddr s.roster s.roster.length s.cursor = (addr, cursor))
      (haddr : addr ≠ noAddr) :
      BusStep s { s with
        wire := s.wire.send addr .poll
        cursor
        pc := .slot addr false }
  | inject (cmd : HostCmd) (hpc : s.pc = .inject cmd) : BusStep s (s.injectStep cmd)
  /-- The task waits for a frame. -/
  | wait (hpc : s.pc.waiting = true) (hrx : s.wire.rx = []) : BusStep s s
  | ignore (f : Frame) (rx : List Frame) (hpc : s.pc.waiting = true) (hrx : s.wire.rx = f :: rx)
      (i : Nat) (heard : Bool) (hlisten : s.pc = .listen i heard ∨ s.pc = .probeListen i heard)
      (hnode : s.nodes[i]? = none) : BusStep s { s with wire := { s.wire with rx } }
  | listen (i : Nat) (heard : Bool) (node : Node) (f : Frame) (rx : List Frame)
      (hpc : s.pc = .listen i heard) (hnode : s.nodes[i]? = some node)
      (hrx : s.wire.rx = f :: rx) :
      BusStep s { s with
        wire := { s.wire with rx }
        desk := s.desk.slotFrame node.addr f
        pc := .listen i (heard || f.src == node.addr) }
  | probeListen (i : Nat) (heard : Bool) (node : Node) (f : Frame) (rx : List Frame)
      (hpc : s.pc = .probeListen i heard) (hnode : s.nodes[i]? = some node)
      (hrx : s.wire.rx = f :: rx) :
      BusStep s { s with
        wire := { s.wire with rx }
        desk := s.desk.slotFrame node.addr f
        pc := .probeListen i (heard || f.src == node.addr) }
  | slot (addr : Nat) (heard : Bool) (f : Frame) (rx : List Frame) (hpc : s.pc = .slot addr heard)
      (hrx : s.wire.rx = f :: rx) :
      BusStep s { s with
        wire := { s.wire with rx }
        desk := s.desk.slotFrame addr f
        pc := .slot addr (heard || f.src == addr) }
  | injectHeard (cmd : HostCmd) (command : Command) (f : Frame) (rx : List Frame)
      (hpc : s.pc = .injectWait cmd command) (hrx : s.wire.rx = f :: rx) (hsrc : f.src = cmd.slave) :
      BusStep s { s with
        wire := { s.wire with rx }
        roster := markAlive cmd.slave s.roster
        desk := if cmd.isOrig then s.desk else s.desk.acknowledge cmd.slave s.cmd.reqId f
        cmdPending := false
        collect := some { command, tries := cmdCollectTries }
        pc := .top }
  | injectOther (cmd : HostCmd) (command : Command) (f : Frame) (rx : List Frame)
      (hpc : s.pc = .injectWait cmd command) (hrx : s.wire.rx = f :: rx) (hsrc : f.src ≠ cmd.slave) :
      BusStep s { s with
        wire := { s.wire with rx }
        cmdPending := false
        collect := some { command, tries := cmdCollectTries }
        pc := .top }
  | collectReply (c : Collect) (f : Frame) (rx : List Frame) (body : Bytes)
      (hpc : s.pc = .collectWait c) (hrx : s.wire.rx = f :: rx) (hsrc : f.src = c.command.addr)
      (hreply : f.shellReply = some body) :
      BusStep s { s with
        wire := { s.wire with rx }
        roster := markAlive c.command.addr s.roster
        desk := s.desk.collected c.command f body
        collect := none
        pc := .top }
  | collectHeard (c : Collect) (f : Frame) (rx : List Frame) (hpc : s.pc = .collectWait c)
      (hrx : s.wire.rx = f :: rx) (hsrc : f.src = c.command.addr) (hreply : f.shellReply = none) :
      BusStep s { s with
        wire := { s.wire with rx }
        roster := markAlive c.command.addr s.roster
        collect := c.retry
        pc := .top }
  | collectOther (c : Collect) (f : Frame) (rx : List Frame) (hpc : s.pc = .collectWait c)
      (hrx : s.wire.rx = f :: rx) (hsrc : f.src ≠ c.command.addr) :
      BusStep s { s with
        wire := { s.wire with rx }
        collect := c.retry
        pc := .top }

variable {s : Master}

theorem BusStep.of_eq {s' s'' : Master} (h : BusStep s s'') (heq : s' = s'') : BusStep s s' :=
  heq ▸ h

theorem slotFrame_eq (s : Master) (addr : Nat) (f : Frame) :
    s.slotFrame addr f = { s with desk := s.desk.slotFrame addr f } := by
  unfold Master.slotFrame Desk.slotFrame
  split <;> rfl

theorem promote_eq (s : Master) :
    s.promote = { s with
      origSeq := s.promote.origSeq
      origQ := s.promote.origQ
      cmdPending := s.promote.cmdPending
      cmd := s.promote.cmd } := by
  unfold Master.promote
  split <;> rfl

theorem unsent_eq (s : Master) (b : Buf) (why : Unsent) :
    s.unsent b why = { s with hist := (s.unsent b why).hist } := by
  unfold Master.unsent
  split <;> rfl

theorem nextDead_dead {i : Nat} {node : Node} (h : s.nextDead = some i)
    (hnode : s.nodes[i]? = some node) : node.dead = true := by
  have := List.find?_some h
  simpa [hnode] using this

/-- A frame the task was waiting for. -/
theorem busStep_frame {f : Frame} {rx : List Frame} (hrx : s.wire.rx = f :: rx)
    (hwait : s.pc.waiting = true) :
    BusStep s (Master.frame { s with wire := { s.wire with rx } } f) := by
  unfold Master.frame
  split
  · next i heard hpc =>
      split
      · next hnode => exact .ignore f rx hwait hrx i heard (Or.inl hpc) hnode
      · next node hnode =>
          refine (BusStep.listen (s := s) i heard node f rx hpc hnode hrx).of_eq ?_
          rw [slotFrame_eq]
  · next i heard hpc =>
      split
      · next hnode => exact .ignore f rx hwait hrx i heard (Or.inr hpc) hnode
      · next node hnode =>
          refine (BusStep.probeListen (s := s) i heard node f rx hpc hnode hrx).of_eq ?_
          rw [slotFrame_eq]
  · next cmd command hpc =>
      simp only [Master.injected, Option.elim_some, Master.injectAnswer]
      split
      · next hsrc => exact .injectHeard cmd command f rx hpc hrx hsrc
      · next hsrc => exact .injectOther cmd command f rx hpc hrx hsrc
  · next c hpc =>
      unfold Master.collectAnswer
      split
      · next hsrc =>
          split
          · next body hreply => exact .collectReply c f rx body hpc hrx hsrc hreply
          · next hreply => exact .collectHeard c f rx hpc hrx hsrc hreply
      · next hsrc => exact .collectOther c f rx hpc hrx hsrc
  · next addr heard hpc =>
      refine (BusStep.slot (s := s) addr heard f rx hpc hrx).of_eq ?_
      rw [slotFrame_eq]
  · simp_all [Pc.waiting]

theorem busStep_drain {i : Nat} {b : Option Buf} (hpc : s.pc = .drain i b) :
    BusStep s (s.drainStep i b) := by
  cases b with
  | none => exact .drained i hpc
  | some b =>
      simp only [Master.drainStep]
      split
      · next hnode => exact .drainGone i b hpc hnode
      · next node hnode =>
          split
          · next hdead =>
              refine (BusStep.drainDead i b node hpc hnode hdead).of_eq ?_
              rw [unsent_eq]
          · next hdead =>
              have hdead : node.dead = false := eq_false_of_ne_true hdead
              unfold Master.transmit
              split
              · next hmsg => exact .drainBlank i b node hpc hnode hdead hmsg
              · next msg hmsg => exact .transmit i b node msg hpc hnode hdead hmsg

theorem busStep_probe (hpc : s.pc = .probe) : BusStep s s.probeStep := by
  unfold Master.probeStep
  split
  · exact .probeNone s.deadTick hpc
  · split
    · exact .probeNone _ hpc
    · split
      · exact .probeNone 0 hpc
      · next i hdead =>
          split
          · exact .probeNone 0 hpc
          · next node hnode => exact .probe i node hpc hnode (nextDead_dead hdead hnode)

theorem busStep_choose (hpc : s.pc = .choose) : BusStep s s.chooseStep := by
  unfold Master.chooseStep
  split
  · next c hcollect => exact .choosePoll c hpc hcollect
  · next hcollect =>
      split
      · next hcmd => exact .chooseInject hpc hcollect hcmd
      · next hcmd =>
          split
          · next hpoll =>
              dsimp only
              split
              · exact .chooseNone _ hpc
              · next haddr =>
                  exact .chooseSlot _ _ hpc hcollect (eq_false_of_ne_true hcmd) hpoll rfl haddr
          · exact .chooseNone s.cursor hpc

/-- Everything a step of the bus task can do. -/
theorem busStep_cases (s : Master) : BusStep s s.busStep := by
  unfold Master.busStep
  split
  case h_1 hpc =>
    split
    · next hmode =>
        split
        · next hdirty => exact .rebuild hpc hmode hdirty
        · next hdirty => exact .begin hpc hmode (eq_false_of_ne_true hdirty)
    · next hmode =>
        refine (BusStep.promote hpc (eq_false_of_ne_true hmode)).of_eq ?_
        rw [promote_eq]
  case h_2 next hpc =>
    cases next with
    | none => exact .orphansOver hpc
    | some b =>
        refine (BusStep.orphan b hpc).of_eq ?_
        rw [Master.orphansStep, unsent_eq]
  case h_3 hpc =>
    unfold Master.hostStep
    split
    · next hcmd => exact .host hpc hcmd
    · next hcmd => exact .hostNone hpc (eq_false_of_ne_true hcmd)
  case h_4 cmd hpc => exact .hostAdd cmd hpc
  case h_5 hpc =>
    unfold Master.hostSendStep
    split
    · next hflight => exact .hostSent hpc hflight
    · next flight hflight => exact .hostSend hpc flight hflight
  case h_6 hpc => exact .swap hpc
  case h_7 i hpc =>
    unfold Master.passStep
    split
    · next hnode => exact .passOver i hpc hnode
    · next node hnode => exact .pass i node hpc hnode
  case h_8 i b hpc => exact busStep_drain hpc
  case h_9 i b next hpc => exact .release i b next hpc
  case h_10 i hpc =>
    unfold Master.sweepStep
    split
    · next hnode => exact .sweepOver i hpc hnode
    · next node hnode =>
        split
        · next hskip => exact .sweepSkip i node hpc hnode hskip
        · next hskip =>
            rw [not_or] at hskip
            exact .sweepPoll i node hpc hnode (eq_false_of_ne_true hskip.1) hskip.2
  case h_11 hpc => exact busStep_probe hpc
  case h_12 hpc => exact .count hpc
  case h_13 hpc => exact .emit hpc
  case h_14 hpc => exact busStep_choose hpc
  case h_15 cmd hpc => exact .inject cmd hpc
  all_goals
    next hpc =>
      have hwait : s.pc.waiting = true := by rw [hpc]; rfl
      split
      · next hrx => exact .wait hwait hrx
      · next f rx hrx => exact busStep_frame hrx hwait

/-! ## The end of a wait -/

inductive WaitOver (s : Master) : Master → Prop
  /-- The task does not wait, or there still are frames. -/
  | none : WaitOver s s
  | swept (i : Nat) (node : Node) (hpc : s.pc = .listen i true) (hrx : s.wire.rx = [])
      (hnode : s.nodes[i]? = some node) :
      WaitOver s { s with
        nodes := s.nodes.modify i Node.heard
        roster := markAlive node.addr s.roster
        wire := s.wire.giveUp node.addr
        pc := .sweep (i + 1) }
  | missed (i : Nat) (node : Node) (hpc : s.pc = .listen i false) (hrx : s.wire.rx = [])
      (hnode : s.nodes[i]? = some node) :
      WaitOver s { s with
        nodes := s.nodes.modify i (Node.missed s.pollMaxMisses)
        roster := markMiss s.pollMaxMisses node.addr s.roster
        wire := s.wire.giveUp node.addr
        pc := .sweep (i + 1) }
  | revived (i : Nat) (node : Node) (hpc : s.pc = .probeListen i true) (hrx : s.wire.rx = [])
      (hnode : s.nodes[i]? = some node) :
      WaitOver s { s with
        nodes := s.nodes.modify i Node.revived
        roster := markAlive node.addr s.roster
        wire := s.wire.giveUp node.addr
        pc := .count }
  | probed (i : Nat) (node : Node) (hpc : s.pc = .probeListen i false) (hrx : s.wire.rx = [])
      (hnode : s.nodes[i]? = some node) :
      WaitOver s { s with wire := s.wire.giveUp node.addr, pc := .count }
  | inject (cmd : HostCmd) (command : Command) (hpc : s.pc = .injectWait cmd command)
      (hrx : s.wire.rx = []) :
      WaitOver s { s with
        cmdPending := false
        collect := some { command, tries := cmdCollectTries }
        wire := s.wire.giveUp cmd.slave
        pc := .top }
  | collect (c : Collect) (hpc : s.pc = .collectWait c) (hrx : s.wire.rx = []) :
      WaitOver s { s with
        collect := c.retry
        wire := s.wire.giveUp c.command.addr
        pc := .top }
  | slotHeard (addr : Nat) (hpc : s.pc = .slot addr true) (hrx : s.wire.rx = []) :
      WaitOver s { s with
        roster := markAlive addr s.roster
        wire := s.wire.giveUp addr
        pc := .top }
  | slotMissed (addr : Nat) (hpc : s.pc = .slot addr false) (hrx : s.wire.rx = []) :
      WaitOver s { s with
        roster := markMiss s.pollMaxMisses addr s.roster
        wire := s.wire.giveUp addr
        pc := .top }

theorem waitOver_cases (s : Master) : WaitOver s (step s .alarm) := by
  simp only [step]
  split
  · next hrx =>
      unfold Master.waitOver
      split
      · next i heard hpc =>
          split
          · exact .none
          · next node hnode =>
              cases heard with
              | true => exact .swept i node hpc hrx hnode
              | false => exact .missed i node hpc hrx hnode
      · next i heard hpc =>
          split
          · exact .none
          · next node hnode =>
              cases heard with
              | true => exact .revived i node hpc hrx hnode
              | false => exact .probed i node hpc hrx hnode
      · next cmd command hpc => exact .inject cmd command hpc hrx
      · next c hpc => exact .collect c hpc hrx
      · next addr heard hpc =>
          cases heard with
          | true => exact .slotHeard addr hpc hrx
          | false => exact .slotMissed addr hpc hrx
      · exact .none
  · exact .none

/-! ## The other tasks -/

/-- What only the bus task writes. -/
structure Own where
  pc : Pc
  active : Bool
  marked : List Nat
  collect : Option Collect
  deadTick : Nat
  deadCursor : Nat
  ilNodesDead : Nat
  cycle : Nat
  sent : List Sent
  unsent : List (Msg × Unsent)
  polls : List Poll

def Master.own (s : Master) : Own where
  pc := s.pc
  active := s.active
  marked := s.marked
  collect := s.collect
  deadTick := s.deadTick
  deadCursor := s.deadCursor
  ilNodesDead := s.ilNodesDead
  cycle := s.hist.cycle
  sent := s.hist.sent
  unsent := s.hist.unsent
  polls := s.hist.polls

/-- A step of `bus_msg_send` writes its own call, the pool, the fill lists and the
record of what became of the message. -/
theorem busMsgSend_frame (s : Master) (t : Task) :
    ∃ flights pool nodes lost accepted, s.busMsgSend t =
      { s with flights, pool, nodes, hist := { s.hist with lost, accepted } } := by
  unfold Master.busMsgSend
  split
  · exact ⟨_, _, _, _, _, rfl⟩
  · split <;> exact ⟨_, _, _, _, _, rfl⟩
  · exact ⟨_, _, _, _, _, rfl⟩
  · split
    · exact ⟨_, _, _, _, _, rfl⟩
    · unfold Master.endSend Master.attach
      dsimp only
      split <;> exact ⟨_, _, _, _, _, rfl⟩
  · exact ⟨_, _, _, _, _, rfl⟩

theorem own_busMsgSend (s : Master) (t : Task) : (s.busMsgSend t).own = s.own := by
  obtain ⟨_, _, _, _, _, hframe⟩ := busMsgSend_frame s t
  rw [hframe]
  rfl

theorem own_issue (s : Master) (t : Task) (c : Command) (payload : Bytes) :
    (s.issue t c payload).own = s.own := by
  simp only [Master.issue, Master.beginSend, Master.corrAdd]
  split <;> rfl

theorem own_hostAddStep (s : Master) (cmd : HostCmd) :
    (s.hostAddStep cmd).own = { s.own with pc := .hostSend } :=
  own_issue { s with pc := .hostSend } .bus _ _

theorem own_kbappOnEchoTo (s : Master) (t : Task) (addr hostReqId : Nat) (bytes : Bytes) :
    (s.kbappOnEchoTo t addr hostReqId bytes).own = s.own := by
  unfold Master.kbappOnEchoTo
  split
  · exact own_issue ..
  · split <;> rfl

/-- A message recovered unsent is only recorded. -/
theorem own_unsent (s : Master) (b : Buf) (why : Unsent) :
    (s.unsent b why).own = { s.own with unsent := (s.unsent b why).hist.unsent } := by
  unfold Master.unsent
  split <;> rfl

/-- No other task writes what the bus task owns. -/
theorem own_step (s : Master) {a : Action} (hbus : a ≠ .bus) (halarm : a ≠ .alarm) :
    (step s a).own = s.own := by
  cases a
  case bus => exact absurd rfl hbus
  case alarm => exact absurd rfl halarm
  case call n dest payload =>
    simp only [step]
    split <;> rfl
  case originate n addr hostReqId bytes =>
    simp only [step]
    split
    · exact own_kbappOnEchoTo ..
    · rfl
  case send n => exact own_busMsgSend ..
  case busMsg dest opcode body =>
    simp only [step, Master.onBusMsg]
    split <;> rfl
  case registerSlave addr enabled =>
    simp only [step, Master.registerSlave]
    split <;> rfl
  case uplinkEnter active cfg =>
    cases cfg <;> rfl
  all_goals rfl

theorem pc_busMsgSend (s : Master) (t : Task) : (s.busMsgSend t).pc = s.pc :=
  congrArg Own.pc (own_busMsgSend s t)

theorem pc_hostAddStep (s : Master) (cmd : HostCmd) : (s.hostAddStep cmd).pc = .hostSend :=
  congrArg Own.pc (own_hostAddStep s cmd)

theorem pc_step (s : Master) {a : Action} (hbus : a ≠ .bus) (halarm : a ≠ .alarm) :
    (step s a).pc = s.pc :=
  congrArg Own.pc (own_step s hbus halarm)

/-! ## The bus -/

theorem wire_busMsgSend (s : Master) (t : Task) : (s.busMsgSend t).wire = s.wire := by
  obtain ⟨_, _, _, _, _, hframe⟩ := busMsgSend_frame s t
  rw [hframe]

theorem wire_issue (s : Master) (t : Task) (c : Command) (payload : Bytes) :
    (s.issue t c payload).wire = s.wire := by
  simp only [Master.issue, Master.beginSend, Master.corrAdd]
  split <;> rfl

theorem wire_hostAddStep (s : Master) (cmd : HostCmd) : (s.hostAddStep cmd).wire = s.wire :=
  wire_issue { s with pc := .hostSend } .bus _ _

theorem wire_kbappOnEchoTo (s : Master) (t : Task) (addr hostReqId : Nat) (bytes : Bytes) :
    (s.kbappOnEchoTo t addr hostReqId bytes).wire = s.wire := by
  unfold Master.kbappOnEchoTo
  split
  · exact wire_issue ..
  · split <;> rfl

/-- An action of a node or of the air. -/
def Action.onWire : Action → Bool
  | .queue _ _ | .answer _ _ | .power _ _ | .arrive | .garble => true
  | _ => false

/-- The other tasks do not touch the bus. -/
theorem wire_step (s : Master) {a : Action} (hbus : a ≠ .bus) (halarm : a ≠ .alarm)
    (hwire : a.onWire = false) : (step s a).wire = s.wire := by
  cases a
  case bus => exact absurd rfl hbus
  case alarm => exact absurd rfl halarm
  case call n dest payload =>
    simp only [step]
    split <;> rfl
  case originate n addr hostReqId bytes =>
    simp only [step]
    split
    · exact wire_kbappOnEchoTo ..
    · rfl
  case send n => exact wire_busMsgSend ..
  case busMsg dest opcode body =>
    simp only [step, Master.onBusMsg]
    split <;> rfl
  case registerSlave addr enabled =>
    simp only [step, Master.registerSlave]
    split <;> rfl
  case uplinkEnter active cfg => cases cfg <;> rfl
  all_goals first | rfl | cases hwire

theorem grants_send (w : Wire) (addr : Nat) (g : Grant) :
    (w.send addr g).grants = w.grants ++ [(addr, g)] := by
  unfold Wire.send
  dsimp only
  split <;> rfl

/-- Only the bus task transmits for the master. -/
theorem grants_step (s : Master) {a : Action} (hbus : a ≠ .bus) :
    (step s a).wire.grants = s.wire.grants := by
  by_cases halarm : a = .alarm
  · subst halarm
    have hstep := waitOver_cases s
    generalize step s .alarm = s' at hstep ⊢
    cases hstep <;> rfl
  cases hwire : a.onWire with
  | false => rw [wire_step s hbus halarm hwire]
  | true =>
      cases a with
      | queue addr payload =>
          simp only [step, Wire.queue]
          split <;> rfl
      | answer c body =>
          simp only [step, Wire.answer]
          split
          · unfold Wire.queue
            split <;> rfl
          · rfl
      | arrive =>
          simp only [step, Wire.arrive]
          split <;> rfl
      | _ => first | rfl | cases hwire

/-! ## The poll parameters -/

structure Config where
  pollEnabled : Bool
  pollMaxMisses : Nat
  cycleMode : Bool
  deadSlowpollDiv : Nat

def Master.config (s : Master) : Config where
  pollEnabled := s.pollEnabled
  pollMaxMisses := s.pollMaxMisses
  cycleMode := s.cycleMode
  deadSlowpollDiv := s.deadSlowpollDiv

/-- An action that sets a poll parameter. -/
def Action.administers : Action → Bool
  | .setPoll _ | .pollEnable _ | .cycleMode _ | .setSlowpoll _ | .uplinkEnter _ _ => true
  | _ => false

theorem config_busMsgSend (s : Master) (t : Task) : (s.busMsgSend t).config = s.config := by
  obtain ⟨_, _, _, _, _, hframe⟩ := busMsgSend_frame s t
  rw [hframe]
  rfl

theorem config_issue (s : Master) (t : Task) (c : Command) (payload : Bytes) :
    (s.issue t c payload).config = s.config := by
  simp only [Master.issue, Master.beginSend, Master.corrAdd]
  split <;> rfl

theorem config_step (s : Master) {a : Action} (ha : a.administers = false) :
    (step s a).config = s.config := by
  cases a
  case bus =>
    have hstep := busStep_cases s
    change s.busStep.config = _
    generalize s.busStep = s' at hstep ⊢
    cases hstep with
    | hostAdd cmd => exact config_issue { s with pc := .hostSend } .bus _ _
    | hostSend => exact config_busMsgSend s .bus
    | _ => rfl
  case alarm =>
    have hstep := waitOver_cases s
    generalize step s .alarm = s' at hstep ⊢
    cases hstep <;> rfl
  case call n dest payload =>
    simp only [step]
    split <;> rfl
  case originate n addr hostReqId bytes =>
    simp only [step, Master.kbappOnEchoTo]
    split
    · split
      · exact config_issue { s with origSeq := nextOrigSeq s.origSeq } _ _ _
      · split <;> rfl
    · rfl
  case send n => exact config_busMsgSend ..
  case busMsg dest opcode body =>
    simp only [step, Master.onBusMsg]
    split <;> rfl
  case registerSlave addr enabled =>
    simp only [step, Master.registerSlave]
    split <;> rfl
  all_goals first | rfl | cases ha

end SlowBus.Arbiter
