import SlowBus.Arbiter.Collecting
import SlowBus.Arbiter.Leaks
import SlowBus.Arbiter.PollTargets
import SlowBus.Host.Echo

/-!
# The round trip of an echo

The host asks the application core to have a node echo something. The engine of the master
originates the command, the engine of the node answers it, and the master gives the answer
the request id of the host. The command is followed through a run by its number.
-/

namespace SlowBus.Arbiter

open Runs
open Bus (Byte busAddrMaster)

/-! ## Bytes -/

/-- The bytes of a handler as the bus carries them, and the other way. -/
def bytesOf (bs : List Byte) : Bytes := bs.map BitVec.toNat

def ofBytes (bs : Bytes) : List Byte := bs.map (BitVec.ofNat 8)

theorem ofBytes_bytesOf (bs : List Byte) : ofBytes (bytesOf bs) = bs := by
  rw [ofBytes, bytesOf, List.map_map]
  exact List.map_id'' (fun b => BitVec.ofNat_toNat ..) bs

@[simp] theorem bytesOf_append (bs bs' : List Byte) :
    bytesOf (bs ++ bs') = bytesOf bs ++ bytesOf bs' :=
  List.map_append

@[simp] theorem bytesOf_cons (b : Byte) (bs : List Byte) :
    bytesOf (b :: bs) = b.toNat :: bytesOf bs := rfl

@[simp] theorem length_bytesOf (bs : List Byte) : (bytesOf bs).length = bs.length :=
  List.length_map ..

theorem bytesOf_wrU16 (v : BitVec 16) : bytesOf (Host.wrU16 v) = le16 v.toNat := by
  simp [bytesOf, Host.wrU16, le16, Nat.shiftRight_eq_div_pow]

theorem le16_ofNat (v : Nat) : le16 (BitVec.ofNat 16 v).toNat = le16 v := by
  rw [BitVec.toNat_ofNat, le16_mod]

/-- The payload the engine sends is the frame a node's engine echoes. -/
theorem echoFrame_eq (req : Nat) (bytes : List Byte) :
    bytesOf (Host.echoFrame (BitVec.ofNat 16 req) bytes) =
      le16 opShellExec ++ echoBody req (bytesOf bytes) := by
  simp only [Host.echoFrame, bytesOf_append, bytesOf_wrU16, le16_ofNat, echoBody,
    List.append_assoc]
  rfl

/-! ## Numbered commands -/

variable {s : Master} {a : Action} {c : Command}

theorem commands_numbers (h : s.numbers a = some c) :
    c.id = s.hist.commands ∧ (step s a).hist.commands = s.hist.commands + 1 := by
  unfold Master.numbers at h
  split at h
  · next cmd hpc =>
      cases h
      have hstep : step s .bus = s.injectStep cmd := by simp only [step, Master.busStep, hpc]
      rw [hstep]
      exact ⟨rfl, rfl⟩
  · have hissued := issued_step h
    exact ⟨hissued.id, hissued.commands⟩

theorem commands_le_step (s : Master) (a : Action) :
    s.hist.commands ≤ (step s a).hist.commands := by
  cases h : s.numbers a with
  | none => rw [(records_step h).commands]
  | some c =>
      have hcommands := (commands_numbers h).2
      omega

/-- Only the bus task transmits. -/
theorem grants_cases (s : Master) (a : Action) :
    (step s a).wire.grants = s.wire.grants ∨ ∃ addr g, a = .bus ∧ Transmits s addr g ∧
      (step s a).wire.grants = s.wire.grants ++ [(addr, g)] := by
  by_cases hbus : a = .bus
  · subst hbus
    have hwire := wireStep_bus s
    generalize (step s .bus).wire = w at hwire ⊢
    cases hwire with
    | sent addr g h => exact Or.inr ⟨addr, g, rfl, h, grants_send s.wire addr g⟩
    | _ => exact Or.inl rfl
  · exact Or.inl (grants_step s hbus)

/-- A DATA frame that goes out for a command now was granted before, or is the payload of a
message that is held, or of the command being injected. -/
theorem granted_step {addr : Nat} {payload : Bytes}
    (h : (addr, Grant.data payload (some c)) ∈ (step s a).wire.grants) :
    (addr, Grant.data payload (some c)) ∈ s.wire.grants ∨
      (∃ b msg, s.msgOf b = some msg ∧ msg.command = some c ∧ payload = (s.pool.mem b).payload) ∨
      ∃ cmd, a = .bus ∧ s.pc = .inject cmd ∧ c = cmd.command s.hist.commands ∧
        payload = cmd.frame := by
  rcases grants_cases s a with heq | ⟨addr', g, ha, htransmits, heq⟩
  · exact Or.inl (heq ▸ h)
  · rw [heq] at h
    refine (List.mem_append.mp h).imp_right fun h => ?_
    have hg : (addr, Grant.data payload (some c)) = (addr', g) := List.mem_singleton.mp h
    cases htransmits with
    | pass i b node msg _ _ hmsg =>
        injection hg with _ hg
        injection hg with hpayload hcommand
        exact Or.inl ⟨b, msg, hmsg, hcommand.symm, hpayload⟩
    | inject cmd hpc =>
        cases hg
        exact Or.inr ⟨cmd, ha, hpc, rfl, rfl⟩
    | _ => cases hg

/-- What a run keeps of the numbering: a command that is numbered anew is not known. -/
structure Known (room : Nat) (s : Master) : Prop where
  kept : Kept (busPoolSize room) s
  own : s.wire.OwnFrames
  genuine : s.wire.Genuine
  owed : ∀ c, s.Owes c → c.id < s.hist.commands
  granted : ∀ addr payload c, (addr, Grant.data payload (some c)) ∈ s.wire.grants →
    c.id < s.hist.commands

theorem Known.step {room : Nat} (h : Known room s) (a : Action) : Known room (step s a) := by
  have hle := commands_le_step s a
  refine ⟨kept_step h.kept a, ownFrames_step s h.own a, genuine_step a h.own h.genuine, ?_, ?_⟩
  · intro c hc
    rcases owed_step h.own hc with hc | hc
    · exact (h.owed c hc).trans_le hle
    · obtain ⟨hid, hcommands⟩ := commands_numbers hc
      omega
  · intro addr payload c hc
    rcases granted_step hc with hc | ⟨b, msg, hmsg, hcommand, -⟩ | ⟨cmd, rfl, hpc, rfl, -⟩
    · exact (h.granted addr payload c hc).trans_le hle
    · exact (h.owed c (.message msg (Or.inr ⟨b, hmsg⟩) hcommand)).trans_le hle
    · obtain ⟨hid, hcommands⟩ := commands_numbers (numbers_inject hpc)
      omega

theorem Reached.known (h : Reached s) : ∃ room, Known room s := by
  obtain ⟨room, cfg, as, rfl⟩ := h
  have hwire : (boot room cfg).wire = {} := by cases cfg <;> rfl
  refine ⟨room, run_invariant (fun s a h => h.step a) ⟨kept_boot room cfg, ?_, ?_, ?_, ?_⟩⟩
  · simp [Wire.OwnFrames, hwire]
  · simp [Wire.Genuine, Wire.Carries, hwire]
  · exact fun c hc => absurd hc (not_owes_boot room cfg c)
  · simp [hwire]

/-! ## A command on its way -/

/-- `kbapp_on_echo_to` is run for a request. -/
def originate (n : Nat) (q : Host.AppReq) : Action :=
  .originate n q.addr.toNat q.reqId.toNat (bytesOf q.bytes)

/-- What the engine of a node makes of a DATA frame of the master is a reply of its own;
its count may be any. -/
def EchoOf (payload reply : Bytes) : Prop :=
  ∃ ppSlave bs, Host.slaveEcho ppSlave busAddrMaster (ofBytes payload) = some (busAddrMaster, bs) ∧
    reply = bytesOf bs

/-- A node answers a command of the engine with what its own engine makes of a DATA frame
it was sent for the command. -/
def Echoes (s : Master) : Action → Prop
  | .answer c body => c.party = .engine → ∃ payload,
      (c.addr, Grant.data payload (some c)) ∈ s.wire.grants ∧ EchoOf payload (c.reply body).payload
  | _ => True

/-- The command is known, and nothing but `payload` is sent for it. -/
structure Tracked (room : Nat) (c : Command) (payload : Bytes) (s : Master) : Prop where
  known : Known room s
  numbered : c.id < s.hist.commands
  held : ∀ msg, s.Holds msg → msg.command = some c → msg.payload = payload
  granted : ∀ addr p, (addr, Grant.data p (some c)) ∈ s.wire.grants → p = payload
  replies : ∀ f, s.wire.Carries f → f.shellReply ≠ none → f.answers = some c →
    EchoOf payload f.payload

variable {room : Nat} {payload : Bytes}

theorem payload_held {b : Buf} {msg : Msg} (h : Kept (busPoolSize room) s)
    (hmsg : s.msgOf b = some msg) :
    (s.pool.mem b).payload = msg.payload.take busPayloadMax := by
  obtain ⟨-, placed, hs⟩ := h
  exact hs.ledger.payload b msg hmsg

theorem Tracked.step (h : Tracked room c payload s) (hlen : payload.length ≤ busPayloadMax)
    (hparty : c.party = .engine) (hecho : Echoes s a) :
    Tracked room c payload (step s a) := by
  -- The number of the command is given away, so no step makes another one of it.
  have hold : s.numbers a ≠ some c := fun hc => by
    have hid := (commands_numbers hc).1
    have hnumbered := h.numbered
    omega
  refine ⟨h.known.step a, h.numbered.trans_le (commands_le_step s a), ?_, ?_, ?_⟩
  · intro msg hmsg hc
    rcases holds_step hmsg hc with hmsg | hissues
    · exact h.held msg hmsg hc
    · exact absurd (numbers_of_issues hissues) hold
  · intro addr p hp
    rcases granted_step hp with hp | ⟨b, msg, hmsg, hc, rfl⟩ | ⟨cmd, rfl, hpc, hc, -⟩
    · exact h.granted addr p hp
    · rw [payload_held h.known.kept hmsg, h.held msg (Or.inr ⟨b, hmsg⟩) hc,
        List.take_of_length_le hlen]
    · exact absurd (hc ▸ numbers_inject hpc) hold
  · intro f hf hreply hc
    rcases carries_step h.known.own hf hreply with hf | ⟨addr, p, -, rfl⟩ | ⟨c', body, rfl, -, rfl⟩
    · exact h.replies f hf hreply hc
    · cases hc
    · cases hc
      obtain ⟨p, hp, hechoOf⟩ := hecho hparty
      rwa [h.granted _ p hp] at hechoOf

/-- A step that numbers a command tracks it, if the messages and the frames it brings for
the command have the payload. -/
theorem tracked_numbers (h : Known room s) (hc : s.numbers a = some c)
    (hanswer : ∀ c' body, a ≠ .answer c' body)
    (hheld : ∀ msg, (step s a).Holds msg → msg.command = some c →
      s.Holds msg ∨ msg.payload = payload)
    (hgranted : ∀ addr p, (addr, Grant.data p (some c)) ∈ (step s a).wire.grants →
      (addr, Grant.data p (some c)) ∈ s.wire.grants ∨ p = payload) :
    Tracked room c payload (step s a) := by
  obtain ⟨hid, hcommands⟩ := commands_numbers hc
  have hnew : ¬s.Owes c := fun howes => by
    have hlt := h.owed c howes
    omega
  refine ⟨h.step a, by omega, ?_, ?_, ?_⟩
  · intro msg hmsg hcommand
    exact (hheld msg hmsg hcommand).resolve_left fun hmsg => hnew (.message msg hmsg hcommand)
  · intro addr p hp
    refine (hgranted addr p hp).resolve_left fun hp => ?_
    have hlt := h.granted addr p c hp
    omega
  · intro f hf hreply hf'
    rcases carries_step h.own hf hreply with hf | ⟨addr, p, -, rfl⟩ | ⟨c', body, ha, -, -⟩
    · exact absurd (.reply f hf hreply hf') hnew
    · cases hf'
    · exact absurd ha (hanswer c' body)

/-- The command of the cyclic engine is tracked from its origination on. -/
theorem tracked_originate {n : Nat} {q : Host.AppReq} (h : Known room s)
    (hidle : s.idle n = true) (hmode : s.cycleMode = true) (hlen : q.bytes.length ≤ origPayMax) :
    Tracked room (s.command .engine (nextOrigSeq s.origSeq) q.reqId.toNat q.addr.toNat)
      (bytesOf (Host.echoFrame (BitVec.ofNat 16 (nextOrigSeq s.origSeq)) q.bytes))
      (step s (originate n q)) := by
  have hbytes : (bytesOf q.bytes).take origPayMax = bytesOf q.bytes :=
    List.take_of_length_le (by rwa [length_bytesOf])
  have hissues : s.issues (originate n q) =
      some (s.command .engine (nextOrigSeq s.origSeq) q.reqId.toNat q.addr.toNat) :=
    if_pos ⟨hidle, hmode⟩
  refine tracked_numbers h (numbers_of_issues hissues) (by simp [originate]) ?_ ?_
  · intro msg hmsg _
    simp only [originate, step, Master.kbappOnEchoTo, if_pos hidle, if_pos hmode,
      hbytes] at hmsg
    refine (holds_issue (s := s) { s with origSeq := nextOrigSeq s.origSeq } rfl rfl hmsg).imp_right
      fun hmsg => ?_
    rw [hmsg.2, echoFrame_eq]
  · intro addr p hp
    rw [grants_step s (by simp [originate])] at hp
    exact Or.inl hp

/-- The command of the per-slot engine is tracked from its injection on. -/
theorem tracked_inject {cmd : HostCmd} (h : Known room s) (hpc : s.pc = .inject cmd) :
    Tracked room (cmd.command s.hist.commands) cmd.frame (step s .bus) := by
  refine tracked_numbers h (numbers_inject hpc) (by simp) ?_ ?_
  · intro msg hmsg _
    refine (holds_bus hmsg).imp_right fun ⟨c, hissues, _⟩ => ?_
    simp [Master.issues, hpc] at hissues
  · intro addr p hp
    rcases granted_step hp with hp | ⟨b, msg, hmsg, hc, -⟩ | ⟨cmd', -, hpc', -, hp⟩
    · exact Or.inl hp
    · have hlt := h.owed _ (.message msg (Or.inr ⟨b, hmsg⟩) hc)
      exact absurd hlt (Nat.lt_irrefl _)
    · obtain rfl : cmd = cmd' := by
        injection hpc.symm.trans hpc'
      exact Or.inr hp

/-! ## From the engine to the bus -/

/-- The bus task is about to promote an origination. -/
structure Master.Promotes (s : Master) (o : OrigReq) : Prop where
  top : s.pc = .top
  mode : s.cycleMode = false
  collect : s.collect = none
  pending : s.cmdPending = false
  head : s.origQ.head? = some o

/-- The state in which the command for a request is on its way, and the command. -/
inductive Launched (q : Host.AppReq) : Master → Command → Prop
  /-- In cycle mode the engine sends the command itself. -/
  | cycle (n : Nat) {s : Master} (hreached : Reached s) (hidle : s.idle n = true)
      (hmode : s.cycleMode = true) :
      Launched q (step s (originate n q))
        (s.command .engine (nextOrigSeq s.origSeq) q.reqId.toNat q.addr.toNat)
  /-- Otherwise the request waits in a queue until the bus task makes a command of it,
  which the bus task then injects. -/
  | perSlot (n : Nat) {s s₁ s₂ : Master} {o : OrigReq} (wait ready : List Action)
      (hreached : Reached s) (hidle : s.idle n = true) (hmode : s.cycleMode = false)
      (hqueued : (step s (originate n q)).origQ = s.origQ ++ [o])
      (hwait : s₁ = run step (step s (originate n q)) wait) (hpromotes : s₁.Promotes o)
      (hready : s₂ = run step (step s₁ .bus) ready)
      (hinject : s₂.pc = .inject (step s₁ .bus).cmd) :
      Launched q (step s₂ .bus) ((step s₁ .bus).cmd.command s₂.hist.commands)

theorem Reached.run (h : Reached s) (as : List Action) : Reached (run step s as) := by
  obtain ⟨room, cfg, before, rfl⟩ := h
  exact ⟨room, cfg, before ++ as, (run_append ..).symm⟩

theorem Reached.step (h : Reached s) (a : Action) : Reached (step s a) := h.run [a]

/-- What `kbapp_on_echo_to` leaves in the queue for the per-slot engine. -/
theorem origQ_originate {n : Nat} {q : Host.AppReq} {o : OrigReq} (hidle : s.idle n = true)
    (hmode : s.cycleMode = false) (h : (step s (originate n q)).origQ = s.origQ ++ [o]) :
    o = { addr := q.addr.toNat, hostReqId := q.reqId.toNat
          bytes := (bytesOf q.bytes).take origPayMax } := by
  simp only [originate, step, Master.kbappOnEchoTo, if_pos hidle, hmode, Bool.false_eq_true,
    if_false] at h
  split at h
  · exact (List.singleton_inj.mp (List.append_cancel_left h)).symm
  · simp at h

/-- The command the bus task makes of an origination. -/
theorem Master.Promotes.cmd {o : OrigReq} (h : s.Promotes o) :
    (SlowBus.Arbiter.step s .bus).cmd =
      { slave := o.addr, op := opShellExec, reqId := nextOrigSeq s.origSeq
        body := (echoBody (nextOrigSeq s.origSeq) o.bytes).take busPayloadMax
        isOrig := true, hostReq := o.hostReqId } := by
  obtain ⟨rest, hqueue⟩ := List.head?_eq_some_iff.mp h.head
  simp [SlowBus.Arbiter.step, Master.busStep, h.top, h.mode, Master.promote, h.collect,
    h.pending, hqueue]

/-- Either way the command goes out as a frame that a node's engine echoes, and is known
to be the engine's under the request id of the host. -/
theorem Launched.tracked {q : Host.AppReq} (h : Launched q s c) (hlen : q.bytes.length ≤ 63) :
    (∃ room, Tracked room c (bytesOf (Host.echoFrame (BitVec.ofNat 16 c.req) q.bytes)) s) ∧
      c.party = .engine ∧ c.hostReq = q.reqId.toNat := by
  have hmax : q.bytes.length ≤ origPayMax := hlen.trans (by decide)
  cases h with
  | cycle n hreached hidle hmode =>
      obtain ⟨room, hknown⟩ := hreached.known
      exact ⟨⟨room, tracked_originate hknown hidle hmode hmax⟩, rfl, rfl⟩
  | @perSlot n s s₁ s₂ o wait ready hreached hidle hmode hqueued hwait hpromotes hready hinject =>
      have hreached₂ : Reached s₂ :=
        hready ▸ ((hwait ▸ (hreached.step _).run wait).step .bus).run ready
      obtain ⟨room, hknown⟩ := hreached₂.known
      have ho := origQ_originate hidle hmode hqueued
      have hbytes : o.bytes = bytesOf q.bytes := by
        rw [ho]
        exact List.take_of_length_le (by rwa [length_bytesOf])
      have hcmd := hpromotes.cmd
      -- Neither the body of the command nor its frame is cut.
      have hbody : (echoBody (nextOrigSeq s₁.origSeq) o.bytes).length ≤ busPayloadMax - 2 := by
        simp only [hbytes, echoBody, le16, List.length_append, List.length_cons, List.length_nil,
          length_bytesOf, busPayloadMax]
        omega
      have hframe : (step s₁ .bus).cmd.frame =
          bytesOf (Host.echoFrame (BitVec.ofNat 16 (nextOrigSeq s₁.origSeq)) q.bytes) := by
        rw [hcmd, echoFrame_eq, HostCmd.frame]
        dsimp only
        rw [List.take_of_length_le (hbody.trans (Nat.sub_le ..)), List.take_of_length_le hbody,
          hbytes]
      refine ⟨⟨room, ?_⟩, ?_, ?_⟩
      · have htracked := tracked_inject hknown hinject
        rw [hframe] at htracked
        have hreq : ((step s₁ .bus).cmd.command s₂.hist.commands).req =
            nextOrigSeq s₁.origSeq := by rw [hcmd]; rfl
        rwa [hreq]
      · rw [hcmd]; rfl
      · rw [hcmd, ho]; rfl

/-! ## From the bus to the host -/

/-- The bus task is about to take a frame for the reply to a command: by an entry of the
correlation table, or because it collects the reply to that command. -/
inductive Master.Correlates (s : Master) (c : Command) (f : Frame) : Prop
  | table (body : Bytes) (corr : List (Option CorrEntry)) (hrx : s.wire.rx.head? = some f)
      (hanswers : f.answers = some c) (hreply : f.shellReply = some body)
      (hslot : s.slotOf = some c.addr)
      (hentry : s.desk.correlate c.addr body = some (c.entry, corr))
  | collect (body : Bytes) (tries : Nat) (hrx : s.wire.rx.head? = some f)
      (hanswers : f.answers = some c) (hreply : f.shellReply = some body)
      (hpc : s.pc = .collectWait { command := c, tries })

/-- The next step of the bus task hands a frame over to the host link for a reply. -/
def Master.HandsOver (s : Master) (f : Frame) (h : HostFrame) : Prop :=
  ∃ route, (step s .bus).desk.relays = s.desk.relays ++
      [{ frame := f, route, sent := some h, staged := s.desk.room }] ∧
    (step s .bus).desk.link = if s.desk.room then s.desk.link ++ [h] else s.desk.link

theorem desk_slot {addr : Nat} {f : Frame} (hslot : s.slotOf = some addr)
    (hrx : s.wire.rx.head? = some f) : (step s .bus).desk = s.desk.slotFrame addr f := by
  obtain ⟨rx, hrx⟩ := List.head?_eq_some_iff.mp hrx
  have hdesk (d : Master) (hd : d.desk = s.desk) :
      (d.slotFrame addr f).desk = s.desk.slotFrame addr f := by
    unfold Master.slotFrame Desk.slotFrame
    split <;> rw [← hd]
  unfold Master.slotOf at hslot
  split at hslot
  · next i heard hpc =>
      obtain ⟨node, hnode, rfl⟩ := Option.map_eq_some_iff.mp hslot
      simp only [step, Master.busStep, hpc, hrx, Master.frame, hnode]
      exact hdesk _ rfl
  · next i heard hpc =>
      obtain ⟨node, hnode, rfl⟩ := Option.map_eq_some_iff.mp hslot
      simp only [step, Master.busStep, hpc, hrx, Master.frame, hnode]
      exact hdesk _ rfl
  · next addr' heard hpc =>
      cases hslot
      simp only [step, Master.busStep, hpc, hrx, Master.frame]
      exact hdesk _ rfl
  · cases hslot

theorem desk_collect {f : Frame} {body : Bytes} {k : Collect} (hpc : s.pc = .collectWait k)
    (hrx : s.wire.rx.head? = some f) (hsrc : f.src = k.command.addr)
    (hreply : f.shellReply = some body) :
    (step s .bus).desk = s.desk.collected k.command f body := by
  obtain ⟨rx, hrx⟩ := List.head?_eq_some_iff.mp hrx
  simp only [step, Master.busStep, hpc, hrx, Master.frame, Master.collectAnswer, if_pos hsrc,
    hreply]

theorem relay_some {d : Desk} {h : HostFrame} (hfits : h.payload.length ≤ commPayloadMax)
    (f : Frame) (route : Route) :
    (d.relay f route (some h)).relays =
        d.relays ++ [{ frame := f, route, sent := some h, staged := d.room }] ∧
      (d.relay f route (some h)).link = if d.room then d.link ++ [h] else d.link := by
  have htakes : d.takes h = d.room := by simp [Desk.takes, hfits]
  refine ⟨by rw [relays_relay, Option.any_some, htakes], ?_⟩
  simp only [Desk.relay, Desk.s2m, htakes]
  split <;> rfl

/-- What becomes of a frame that is taken for the reply to a command of the engine. -/
theorem Master.Correlates.handsOver {f : Frame} {body : Bytes} (h : s.Correlates c f)
    (hreply : f.shellReply = some body) (hsrc : f.src = c.addr) (hparty : c.party = .engine)
    (hrun : s.desk.ppRun = false) (hfits : (retag c.hostReq body).length ≤ commPayloadMax) :
    s.HandsOver f (c.relayed body) := by
  have hrelayed : c.relayed body =
      { dest := busAddrAppcore, opcode := opShellReply, payload := retag c.hostReq body } := by
    rw [Command.relayed, hparty]
  have hfits' : (c.relayed body).payload.length ≤ commPayloadMax := by rwa [hrelayed]
  cases h with
  | table body' corr hrx hanswers hreply' hslot hentry =>
      obtain rfl : body = body' := Option.some.inj (hreply.symm.trans hreply')
      let d := { s.desk with heard := s.desk.heard ++ [f], corr }
      have hmade : (if c.entry.isOrig then d.originReply c.entry.hostReq body
          else some (hostReply c.addr body)) = some (c.relayed body) :=
        (serves_entry c).relayed ⟨rfl, rfl⟩ hrun body
      have hdesk : (step s .bus).desk = d.relay f .correlated (some (c.relayed body)) := by
        have htake : Desk.correlate { s.desk with heard := s.desk.heard ++ [f] } c.addr body =
          some (c.entry, corr) := hentry
        rw [desk_slot hslot hrx, Desk.slotFrame, if_pos hsrc]
        simp only [Desk.handleSlotFrame, hreply, htake]
        exact congrArg (d.relay f .correlated) hmade
      exact ⟨.correlated, hdesk ▸ relay_some hfits' f .correlated⟩
  | collect body' tries hrx hanswers hreply' hpc =>
      have hdesk : (step s .bus).desk =
          s.desk.relay f (.collected c) (some (c.relayed body)) := by
        rw [desk_collect hpc hrx hsrc hreply, Desk.collected, hparty, hrelayed]
        simp only [Desk.originReply, hrun, Bool.false_eq_true, if_false]
      exact ⟨.collected c, hdesk ▸ relay_some hfits' f (.collected c)⟩

/-- The count is cut off and nothing else. -/
theorem retag_echo (hostReq req status : Nat) {bytes count : Bytes} (hcount : count.length = 4) :
    retag hostReq (le16 req ++ status :: bytes ++ count) = le16 hostReq ++ status :: bytes := by
  have hlong : 7 ≤ (le16 req ++ status :: bytes ++ count).length := by
    simp only [List.length_append, List.length_cons, hcount, le16, List.length_nil]
    omega
  have hstrip : stripCount (le16 req ++ status :: bytes ++ count) =
      le16 req ++ status :: bytes := by
    rw [stripCount, if_pos hlong]
    apply List.take_left'
    have hlength : (le16 req ++ status :: bytes ++ count).length =
        (le16 req ++ status :: bytes).length + 4 := by rw [List.length_append, hcount]
    rw [hlength, Nat.add_sub_cancel]
  simp only [retag, hstrip]
  simp [le16]

/-- The round trip of an echo. The frame of the host is accepted and read as it was meant.
Whichever way the engine has the command sent, and whatever happens on the way, the reply
that the node's engine makes, with any count, and the master correlates is handed over to the
host under its own request id, with the status and exactly the payload. -/
theorem echo_round_trip (reqId : BitVec 16) (addr : Byte) (payload : List Byte)
    (h : payload.length ≤ 63) :
    let q : Host.AppReq :=
      { reqId, addr, route := Host.routeUsb, busSrc := 0, bytes := payload }
    (Host.onBusMsg Host.busAddrAppcore Host.opShellExec
        (Host.echoToBody reqId addr payload)).bind Host.AppCmd.request = some (.echoTo, q) ∧
      ∀ (s : Master) (c : Command) (as : List Action) (f : Frame), Launched q s c →
        Along step Echoes s as → (run step s as).Correlates c f →
          (run step s as).desk.ppRun = false →
            (run step s as).HandsOver f
              { dest := busAddrAppcore
                opcode := opShellReply
                payload := le16 reqId.toNat ++ Host.shellOk.toNat :: bytesOf payload } := by
  refine ⟨Host.request_echoTo reqId addr h, ?_⟩
  intro s c as f hlaunched hechoes hcorrelates hrun
  obtain ⟨⟨room, htracked⟩, hparty, hhostReq⟩ := hlaunched.tracked h
  have hshort : (bytesOf (Host.echoFrame (BitVec.ofNat 16 c.req) payload)).length ≤
      busPayloadMax := by
    simp only [length_bytesOf, Host.echoFrame, List.length_append, Host.length_wrU16,
      busPayloadMax]
    omega
  -- the invariant follows the command through the run
  have hend := run_along (P := Tracked room c _)
    (fun _ _ ht he => ht.step hshort hparty he) hechoes htracked
  generalize run step s as = s' at hcorrelates hrun hend ⊢
  obtain ⟨body, hrx, hanswers, hreply⟩ : ∃ body, s'.wire.rx.head? = some f ∧
      f.answers = some c ∧ f.shellReply = some body := by
    cases hcorrelates with
    | table body corr hrx hanswers hreply => exact ⟨body, hrx, hanswers, hreply⟩
    | collect body tries hrx hanswers hreply => exact ⟨body, hrx, hanswers, hreply⟩
  have hcarries : s'.wire.Carries f := Or.inr (Or.inl (List.mem_of_mem_head? hrx))
  have hsome : f.shellReply ≠ none := by simp [hreply]
  obtain ⟨rest, hf⟩ := hend.known.genuine f hcarries hsome c hanswers
  obtain ⟨ppSlave, bs, hslave, hpayload⟩ := hend.replies f hcarries hsome hanswers
  rw [ofBytes_bytesOf, Host.slaveEcho_echoFrame _ _ _ (h.trans (by decide))] at hslave
  -- The reply is the id on the bus, the status, the payload and the count.
  have hop : Host.opShellReply.toNat = opShellReply := rfl
  have hrest : rest = Host.shellOk.toNat :: bytesOf payload ++
      bytesOf (Host.wrU32 (ppSlave + 1)) := by
    have hwire : le16 opShellReply ++ le16 c.req ++ rest = le16 opShellReply ++ le16 c.req ++
        (Host.shellOk.toNat :: bytesOf payload ++ bytesOf (Host.wrU32 (ppSlave + 1))) := by
      obtain ⟨-, rfl⟩ := Prod.mk.inj (Option.some.inj hslave)
      rw [hf] at hpayload
      simpa only [Command.reply, bytesOf_append, bytesOf_cons, bytesOf_wrU16, le16_ofNat, hop,
        List.append_assoc] using hpayload
    exact List.append_cancel_left hwire
  have hbody : body = le16 c.req ++ Host.shellOk.toNat :: bytesOf payload ++
      bytesOf (Host.wrU32 (ppSlave + 1)) := by
    rw [hf, shellReply_reply, hrest] at hreply
    rw [← Option.some.inj hreply, List.append_assoc]
  -- the count is cut off with the id on the bus
  have hretag : retag c.hostReq body =
      le16 reqId.toNat ++ Host.shellOk.toNat :: bytesOf payload := by
    rw [hbody, retag_echo _ _ _ (by rw [length_bytesOf, Host.length_wrU32]), hhostReq]
  have hfits : (retag c.hostReq body).length ≤ commPayloadMax := by
    simp only [hretag, List.length_append, List.length_cons, length_bytesOf, le16,
      List.length_nil, commPayloadMax]
    omega
  have hsrc : f.src = c.addr := congrArg Frame.src hf
  have hhands := hcorrelates.handsOver hreply hsrc hparty hrun hfits
  rwa [Command.relayed, hparty, hretag] at hhands

/-- The node at address 5 is to echo two bytes, for request 70 of the host. -/
def echoRequest : Host.AppReq where
  reqId := 70
  addr := 5
  route := Host.routeUsb
  bytes := [1, 2]

/-- The node has answered seven echoes before. -/
def eighthReply : Bytes := [0, 1, 2, 8, 0, 0, 0]

theorem echoes_eighth {s : Master}
    (h : (5, Grant.data [9, 1, 1, 0, 0, 3, 1, 2] (some (echoCommand 0))) ∈ s.wire.grants) :
    Echoes s (.answer (echoCommand 0) eighthReply) :=
  fun _ => ⟨_, h, 7, [17, 0, 1, 0, 0, 1, 2, 8, 0, 0, 0], by decide, rfl⟩

/-- In cycle mode the command is sent, and the answer heard in the slot of the node. -/
def cycleSends : List Action := List.replicate 3 (.send 0) ++ List.replicate 15 .bus

def cycleHears : List Action := List.replicate 7 .bus ++ List.replicate 3 .arrive ++ [.bus]

/-- Otherwise it is injected and acknowledged, and the answer collected. -/
def slotSends : List Action := [.arrive, .bus]

def slotHears : List Action := [.bus, .bus, .arrive]

/-- The origination in cycle mode; otherwise the queue, the promotion and the injection. -/
def cycleStart : Master := step (boot 24 oneNode) (originate 0 echoRequest)

def slotIdle : Master := step (boot 24 none) (.cycleMode false)

def slotQueued : Master := step slotIdle (originate 0 echoRequest)

def slotReady : Master := run step slotQueued [.bus, .bus]

def slotStart : Master := step slotReady .bus

theorem launched_slotStart : Launched echoRequest slotStart (echoCommand 0) := by
  have hcommand : (step slotQueued .bus).cmd.command slotReady.hist.commands = echoCommand 0 := by
    decide +kernel
  have hreached : Reached slotIdle := ⟨24, none, [.cycleMode false], rfl⟩
  have hpromotes : slotQueued.Promotes { addr := 5, hostReqId := 70, bytes := [1, 2] } :=
    ⟨by decide +kernel, by decide +kernel, by decide +kernel, by decide +kernel, by decide +kernel⟩
  rw [← hcommand]
  exact .perSlot 0 [] [.bus] hreached (by decide +kernel) (by decide +kernel) (by decide +kernel)
    rfl hpromotes rfl (by decide +kernel)

theorem echo_round_trip_both :
    (run step cycleStart
          (cycleSends ++ .answer (echoCommand 0) eighthReply :: cycleHears)).HandsOver
        ((echoCommand 0).reply eighthReply)
        { dest := busAddrAppcore, opcode := opShellReply, payload := [70, 0, 0, 1, 2] } ∧
      (run step slotStart
          (slotSends ++ .answer (echoCommand 0) eighthReply :: slotHears)).HandsOver
        ((echoCommand 0).reply eighthReply)
        { dest := busAddrAppcore, opcode := opShellReply, payload := [70, 0, 0, 1, 2] } := by
  constructor
  · have hlaunched : Launched echoRequest cycleStart (echoCommand 0) :=
      .cycle 0 ⟨24, oneNode, [], rfl⟩ (by decide +kernel) (by decide +kernel)
    have hechoes : Along step Echoes cycleStart
        (cycleSends ++ .answer (echoCommand 0) eighthReply :: cycleHears) := by
      refine along_append.mpr ⟨?_, echoes_eighth (by decide +kernel), ?_⟩
      · simp [cycleSends, Along, Echoes, List.replicate]
      · simp [cycleHears, Along, Echoes, List.replicate]
    exact (echo_round_trip 70 5 [1, 2] (by decide)).2 _ _ _ _ hlaunched hechoes
      (.table [1, 0, 0, 1, 2, 8, 0, 0, 0] (List.replicate cmdcorrMax none) (by decide +kernel) rfl
        (by decide) (by decide +kernel) (by decide +kernel)) (by decide +kernel)
  · have hechoes : Along step Echoes slotStart
        (slotSends ++ .answer (echoCommand 0) eighthReply :: slotHears) := by
      refine along_append.mpr ⟨?_, echoes_eighth (by decide +kernel), ?_⟩
      · simp [slotSends, Along, Echoes]
      · simp [slotHears, Along, Echoes]
    exact (echo_round_trip 70 5 [1, 2] (by decide)).2 _ _ _ _ launched_slotStart hechoes
      (.collect [1, 0, 0, 1, 2, 8, 0, 0, 0] cmdCollectTries (by decide +kernel) rfl (by decide)
        (by decide +kernel)) (by decide +kernel)

end SlowBus.Arbiter
