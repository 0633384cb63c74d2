import SlowBus.Arbiter.Collecting
import SlowBus.Arbiter.Feedback

/-!
# The replies the per-slot engine receives

The engine takes the first frame of a window it collects from; the others stay in
the receive ring, which the next transmission flushes. No reply is lost where at
most the first frame of such a window is one.
-/

namespace SlowBus.Arbiter

open Runs

/-- The frame carries a shell reply. -/
def Frame.isReply (f : Frame) : Bool := f.shellReply.isSome

/-- The replies the host link took. -/
def Desk.delivered (d : Desk) : List Relay := d.relays.filter (·.staged)

/-- The replies staged on the host link. -/
def Desk.replies (d : Desk) : List HostFrame := d.link.filter (·.opcode == opShellReply)

/-- The host gets the reply as it is, the requester of an origination under its own id. -/
def Relay.PassedOn (r : Relay) : Prop :=
  ∃ body, r.frame.shellReply = some body ∧
    (r.sent = some (hostReply r.frame.src body) ∨ ∃ hostReq, r.sent = some {
      dest := busAddrAppcore, opcode := opShellReply, payload := retag hostReq body })

/-- The replies that arrived are those passed on and those still in the ring, each
once and in order. -/
structure NoReplyLost (s : Master) : Prop where
  arrived : s.wire.arrived.filter (·.isReply) =
    s.desk.delivered.map (·.frame) ++ s.wire.rx.filter (·.isReply)
  staged : s.desk.replies = s.desk.delivered.filterMap (·.sent)
  passedOn : ∀ r ∈ s.desk.delivered, r.PassedOn

/-- The host link has room for the reply, and no bench keeps it. -/
def Desk.Accepts (d : Desk) (f : Frame) : Prop :=
  d.room = true ∧ d.ppRun = false ∧ ∀ body ∈ f.shellReply, body.length ≤ commPayloadMax

instance (d : Desk) (f : Frame) : Decidable (d.Accepts f) := by
  unfold Desk.Accepts
  infer_instance

/-- When the engine polls for a reply only the first frame that can come is one; the
replies it takes are accepted; and no reply is on its way when it stops waiting. -/
def KeepsReplies (s : Master) : Action → Prop
  | .bus =>
      match s.pc with
      | .choose => ∀ c ∈ s.collect,
          ∀ f ∈ (s.wire.air ++ (s.wire.stations c.command.addr).txq).tail, f.isReply = false
      | .slot _ _ | .collectWait _ => ∀ f ∈ s.wire.rx.head?, s.desk.Accepts f
      | _ => True
  | .alarm => s.pc.waiting = true → s.wire.rx = [] → ∀ f ∈ s.wire.air, f.isReply = false
  | _ => True

/-- At its next step, whatever the bus task is at. -/
instance keepsReplies_bus (s : Master) : (pc : Pc) → Decidable (KeepsReplies { s with pc } .bus)
  | .choose => inferInstanceAs (Decidable (∀ c ∈ s.collect, ∀ f ∈ _, _ = false))
  | .slot _ _ | .collectWait _ => inferInstanceAs (Decidable (∀ f ∈ _, Desk.Accepts ..))
  | .top | .orphans _ | .host | .hostAdd _ | .hostSend | .swap | .pass _ | .drain _ _
  | .release _ _ _ | .sweep _ | .listen _ _ | .probe | .probeListen _ _ | .count | .emit
  | .inject _ | .injectWait _ _ =>
      inferInstanceAs (Decidable True)

instance (s : Master) : (a : Action) → Decidable (KeepsReplies s a)
  | .bus => keepsReplies_bus s s.pc
  | .alarm => inferInstanceAs (Decidable (_ → _ → ∀ f ∈ s.wire.air, _ = false))
  | .call _ _ _ | .originate _ _ _ _ | .send _ | .busMsg _ _ _ | .clearRoster
  | .registerSlave _ _ | .setPoll _ | .pollEnable _ | .cycleMode _ | .setSlowpoll _
  | .pingPong _ | .uplinkEnter _ _ | .linkRoom _ | .queue _ _ | .answer _ _ | .power _ _
  | .arrive | .garble =>
      inferInstanceAs (Decidable True)

/-! ## What can be on the line -/

/-- The frames in the ring and on the air, in the order the engine gets them. -/
def Wire.line (w : Wire) : List Frame := w.rx ++ w.air

/-- The replies on the line are from the node polled, and at most the first frame is
one while the engine collects. -/
def Pc.Admits (pc : Pc) (line : List Frame) : Prop :=
  match pc with
  | .slot addr _ => ∀ f ∈ line, f.isReply = true → f.src = addr
  | .collectWait c =>
      (∀ f ∈ line, f.isReply = true → f.src = c.command.addr) ∧ ∀ f ∈ line.tail, f.isReply = false
  | _ => ∀ f ∈ line, f.isReply = false

variable {line line' : List Frame}

theorem Pc.Admits.sublist {pc : Pc} (h : pc.Admits line) (hline : line'.Sublist line) :
    pc.Admits line' := by
  cases pc with
  | collectWait c =>
      exact ⟨fun f hf => h.1 f (hline.subset hf), fun f hf => h.2 f (hline.tail.subset hf)⟩
  | _ => exact fun f hf => h f (hline.subset hf)

variable {w : Wire}

theorem line_send (addr : Nat) (g : Grant) :
    (w.send addr g).line =
      w.air ++ if (w.stations addr).powered then (w.stations addr).window addr g else [] := by
  unfold Wire.send Wire.line
  dsimp only
  split <;> simp [Wire.modify]

theorem arrived_send (addr : Nat) (g : Grant) : (w.send addr g).arrived = w.arrived := by
  unfold Wire.send
  dsimp only
  split <;> rfl

/-- A POLL brings the replies of the node polled onto the line. -/
theorem line_poll (hown : w.OwnFrames) {addr : Nat} {f : Frame}
    (hf : f ∈ (w.send addr .poll).line) : f ∈ w.air ∨ f.src = addr := by
  rw [line_send] at hf
  refine (List.mem_append.mp hf).imp_right fun hf => ?_
  split at hf
  · rcases List.mem_append.mp hf with hf | hf
    · exact hown addr f hf
    · rw [List.mem_singleton.mp hf]
  · cases hf

variable {s : Master}

/-- Nothing arrived and no reply was taken or passed on. -/
theorem NoReplyLost.same {s' : Master} (h : NoReplyLost s)
    (harrived : s'.wire.arrived = s.wire.arrived)
    (hrx : s'.wire.rx.filter (·.isReply) = s.wire.rx.filter (·.isReply))
    (hrelays : s'.desk.relays = s.desk.relays) (hlink : s'.desk.replies = s.desk.replies) :
    NoReplyLost s' := by
  have hdelivered : s'.desk.delivered = s.desk.delivered := by rw [Desk.delivered, hrelays]; rfl
  exact ⟨by rw [harrived, hrx, hdelivered, h.arrived], by rw [hlink, hdelivered, h.staged],
    hdelivered ▸ h.passedOn⟩

/-- The reply at the head of the ring is passed on. -/
theorem NoReplyLost.take {s' : Master} {f : Frame} {rx : List Frame} {d : Desk} {route : Route}
    {sent : HostFrame} (h : NoReplyLost s) (harrived : s'.wire.arrived = s.wire.arrived)
    (hrx : s.wire.rx = f :: rx) (hrx' : s'.wire.rx = rx) (hreply : f.isReply = true)
    (hd : d.relays = s.desk.relays ∧ d.link = s.desk.link)
    (hdesk : s'.desk = d.relay f route (some sent)) (htakes : d.takes sent = true)
    (hopcode : sent.opcode = opShellReply)
    (hpassed : Relay.PassedOn { frame := f, route, sent := some sent, staged := true }) :
    NoReplyLost s' := by
  have hrelays : s'.desk.relays =
      s.desk.relays ++ [{ frame := f, route, sent := some sent, staged := true }] := by
    rw [hdesk, ← hd.1, ← htakes]
    rfl
  have hlink : s'.desk.link = s.desk.link ++ [sent] := by
    rw [hdesk, ← hd.2]
    simp only [Desk.relay, Desk.s2m, if_pos htakes]
  have hdelivered : s'.desk.delivered =
      s.desk.delivered ++ [{ frame := f, route, sent := some sent, staged := true }] := by
    simp [Desk.delivered, hrelays]
  constructor
  · rw [harrived, h.arrived, hrx, hrx', hdelivered]
    simp [hreply]
  · have hstaged := h.staged
    simp only [Desk.replies] at hstaged ⊢
    rw [hlink, hdelivered, List.filter_append, hstaged]
    simp [hopcode]
  · intro r hr
    rw [hdelivered] at hr
    rcases List.mem_append.mp hr with hr | hr
    · exact h.passedOn r hr
    · rw [List.mem_singleton.mp hr]
      exact hpassed

theorem length_retag (hostReq : Nat) (body : Bytes) :
    (retag hostReq body).length ≤ body.length := by
  have hstrip : (stripCount body).length ≤ body.length := by
    unfold stripCount
    split
    · simp
    · exact le_rfl
  unfold retag
  dsimp only
  split
  · simp only [List.length_append, List.length_drop, le16, List.length_cons, List.length_nil]
    omega
  · exact hstrip

/-- A reply that is accepted goes to the host or to the requester. -/
theorem Desk.Accepts.host {d d' : Desk} {f : Frame} {body : Bytes} (h : d.Accepts f)
    (hreply : f.shellReply = some body) (hroom : d'.room = d.room) (addr : Nat) :
    d'.takes (hostReply addr body) = true := by
  simp [Desk.takes, hostReply, hroom, h.1, h.2.2 body hreply]

theorem Desk.Accepts.origin {d d' : Desk} {f : Frame} {body : Bytes} (h : d.Accepts f)
    (hreply : f.shellReply = some body) (hroom : d'.room = d.room) (hostReq : Nat) :
    d'.takes { dest := busAddrAppcore, opcode := opShellReply, payload := retag hostReq body } =
      true := by
  have hlength := (length_retag hostReq body).trans (h.2.2 body hreply)
  simp [Desk.takes, hroom, h.1, hlength]

/-- What handling a reply in a slot comes to, outside a cycle. -/
theorem handleSlotFrame_reply {d : Desk} {addr : Nat} {f : Frame} {body : Bytes}
    (hclosed : d.collecting = false) (hreply : f.shellReply = some body) (h : d.Accepts f)
    (hsrc : f.src = addr) :
    ∃ corr route sent,
      d.handleSlotFrame addr f =
        Desk.relay { d with heard := d.heard ++ [f], corr } f route (some sent) ∧
      Desk.takes { d with heard := d.heard ++ [f], corr } sent = true ∧
      sent.opcode = opShellReply ∧
      Relay.PassedOn { frame := f, route, sent := some sent, staged := true } := by
  have hhost (route : Route) : Relay.PassedOn
      { frame := f, route, sent := some (hostReply addr body), staged := true } :=
    ⟨body, hreply, Or.inl (hsrc ▸ rfl)⟩
  unfold Desk.handleSlotFrame
  rw [hreply]
  dsimp only
  cases Desk.correlate { d with heard := d.heard ++ [f] } addr body with
  | some r =>
      obtain ⟨e, corr⟩ := r
      dsimp only
      cases e.isOrig with
      | true =>
          simp only [if_true, Desk.originReply, h.2.1]
          exact ⟨corr, .correlated, _, rfl, h.origin hreply rfl e.hostReq, rfl,
            body, hreply, Or.inr ⟨e.hostReq, rfl⟩⟩
      | false => exact ⟨corr, .correlated, _, rfl, h.host hreply rfl addr, rfl, hhost _⟩
  | none =>
      dsimp only
      rw [if_neg (ne_true_of_eq_false hclosed)]
      exact ⟨d.corr, .direct, _, rfl, h.host hreply rfl addr, rfl, hhost _⟩

/-- No reply was lost, and the next transmission will flush none. -/
structure Received (s : Master) : Prop where
  own : s.wire.OwnFrames
  slot : s.pc.cycling = false
  gathers : s.Gathers
  admits : s.pc.Admits s.wire.line
  kept : NoReplyLost s

theorem replies_acknowledge (d : Desk) (slave reqId : Nat) (f : Frame) :
    (d.acknowledge slave reqId f).relays = d.relays ∧
      (d.acknowledge slave reqId f).replies = d.replies := by
  have hs2m {g : HostFrame} (hg : g.opcode ≠ opShellReply) : (d.s2m g).replies = d.replies := by
    unfold Desk.s2m
    split
    · simp [Desk.replies, hg]
    · rfl
  unfold Desk.acknowledge
  split
  · exact ⟨relays_s2m .., hs2m (by simp [opBusCmdAck, opShellReply])⟩
  · split
    · exact ⟨relays_s2m .., hs2m (by simp [opBusCmdNak, opShellReply])⟩
    · exact ⟨rfl, rfl⟩

/-- A frame that is no reply is taken from the ring. -/
theorem filter_taken {f : Frame} {rx : List Frame} (hrx : s.wire.rx = f :: rx)
    (hreply : f.isReply = false) :
    rx.filter (·.isReply) = s.wire.rx.filter (·.isReply) := by
  rw [hrx]
  simp [hreply]

/-- Outside a wait, and during that for an acknowledgement, no reply is on the line. -/
theorem Received.quiet (h : Received s) (hslot : ∀ addr heard, s.pc ≠ .slot addr heard)
    (hcollect : ∀ c, s.pc ≠ .collectWait c) : ∀ f ∈ s.wire.line, f.isReply = false := by
  have hadmits := h.admits
  generalize s.pc = pc at *
  cases pc with
  | slot addr heard => exact absurd rfl (hslot addr heard)
  | collectWait c => exact absurd rfl (hcollect c)
  | _ => exact hadmits

/-- A transmission with no reply on the line flushes none. -/
theorem NoReplyLost.sent {s' : Master} {addr : Nat} {g : Grant} (h : NoReplyLost s)
    (hquiet : ∀ f ∈ s.wire.line, f.isReply = false) (hwire : s'.wire = s.wire.send addr g)
    (hdesk : s'.desk = s.desk) : NoReplyLost s' := by
  apply h.same
  · rw [hwire, arrived_send]
  · rw [hwire, rx_send, List.filter_nil, eq_comm, List.filter_eq_nil_iff]
    intro f hf
    simp [hquiet f (List.mem_append_left _ hf)]
  · rw [hdesk]
  · rw [hdesk]

/-- Outside a cycle no bus command of the host is collected. -/
theorem Received.closed (h : Received s) : s.desk.collecting = false := by
  have hgathers := h.gathers
  have hslot := h.slot
  unfold Master.Gathers at hgathers
  rw [hgathers]
  cases hpc : s.pc <;> rw [hpc] at hslot <;> first | rfl | cases hslot

/-- A poll of a quiet line brings replies of the polled station only. -/
theorem Received.polled (h : Received s) (hquiet : ∀ f ∈ s.wire.line, f.isReply = false)
    {addr : Nat} {f : Frame} (hf : f ∈ (s.wire.send addr .poll).line)
    (hreply : f.isReply = true) : f.src = addr := by
  refine (line_poll h.own hf).resolve_left fun hair => ?_
  rw [hquiet f (List.mem_append_right _ hair)] at hreply
  cases hreply

/-- The frame at the head of the ring in a slot of `addr`: a reply is relayed, anything
else leaves the desk as it is. -/
theorem NoReplyLost.slotFrame {addr : Nat} {heard : Bool} {f : Frame} {rx : List Frame}
    (h : NoReplyLost s) (hclosed : s.desk.collecting = false) (hrx : s.wire.rx = f :: rx)
    (haccepts : s.desk.Accepts f) (hsrc : f.isReply = true → f.src = addr) :
    NoReplyLost { s with
      wire := { s.wire with rx }
      desk := s.desk.slotFrame addr f
      pc := .slot addr heard } := by
  cases hreply : f.shellReply with
  | none =>
      have hdesk : s.desk.slotFrame addr f = s.desk := by
        simp [Desk.slotFrame, Desk.handleSlotFrame, hreply]
      exact h.same rfl (filter_taken hrx (by rw [Frame.isReply, hreply]; rfl))
        (congrArg Desk.relays hdesk) (congrArg Desk.replies hdesk)
  | some body =>
      have hisReply : f.isReply = true := by rw [Frame.isReply, hreply]; rfl
      have hsrc := hsrc hisReply
      obtain ⟨corr, route, sent, hdesk, htakes, hopcode, hpassed⟩ :=
        handleSlotFrame_reply hclosed hreply haccepts hsrc
      have hdesk := (if_pos hsrc : s.desk.slotFrame addr f = _).trans hdesk
      exact h.take (d := { s.desk with heard := s.desk.heard ++ [f], corr }) rfl hrx rfl
        hisReply ⟨rfl, rfl⟩ hdesk htakes hopcode hpassed

end SlowBus.Arbiter
