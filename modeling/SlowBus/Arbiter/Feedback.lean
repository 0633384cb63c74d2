import SlowBus.Arbiter.DeskSteps
import SlowBus.Arbiter.Order

/-!
# The feedback of the nodes

Unsolicited replies are gathered over a cycle and leave in one frame at its end.
The batch may grow beyond what the host link takes for a frame; then it is lost
and counted as sent.
-/

namespace SlowBus.Arbiter

open Runs

/-- A reply as it stands in a feedback frame. -/
def Unsolicited.record (u : Unsolicited) : Bytes := u.addr :: u.bytes.length :: u.bytes

/-- The feedback frame of a batch. -/
def feedbackOf (batch : List Unsolicited) : HostFrame where
  dest := 1
  opcode := opBusFeedback
  payload := batch.length :: batch.flatMap (·.record)

/-- The feedback frames staged on the host link. -/
def Desk.feedback (d : Desk) : List HostFrame := d.link.filter (·.opcode == opBusFeedback)

/-- Every unsolicited reply is in one staged feedback frame, once and byte for byte,
or was counted as dropped; and the counter of frames is that of the staged ones. -/
structure NoneLost (d : Desk) : Prop where
  contained : ∃ batches : List (List Unsolicited),
    d.feedback = batches.map feedbackOf ∧ batches.flatten = d.unsolicited.filter (·.kept)
  drops : d.fbDrops = (d.unsolicited.countP fun u => !u.kept) % 2 ^ 32
  frames : d.fbFrames = d.feedback.length % 2 ^ 32

/-- At the end of a cycle with feedback the host link takes the frame. -/
def BatchFits (s : Master) : Action → Prop
  | .bus =>
      s.pc = .emit → 0 < s.desk.fbRec →
        s.desk.uplinkActive = true ∧ s.desk.room = true ∧ s.desk.fbBuf.length ≤ commPayloadMax
  | _ => True

instance (s : Master) (a : Action) : Decidable (BatchFits s a) := by
  unfold BatchFits
  split <;> infer_instance

/-! ## The batch of a cycle -/

/-- The batches sent so far and the one being gathered, which is empty outside a cycle. -/
structure Tally (d : Desk) (batches : List (List Unsolicited)) (pending : List Unsolicited) :
    Prop where
  staged : d.feedback = batches.map feedbackOf
  kept : batches.flatten ++ pending = d.unsolicited.filter (·.kept)
  drops : d.fbDrops = (d.unsolicited.countP fun u => !u.kept) % 2 ^ 32
  frames : d.fbFrames = batches.length % 2 ^ 32
  closed : d.collecting = false → pending = []
  buf : d.collecting = true → d.fbBuf = 0 :: pending.flatMap (·.record) ∧ d.fbRec = pending.length

variable {d : Desk} {batches : List (List Unsolicited)} {batch : List Unsolicited}

theorem feedback_s2m {f : HostFrame} (hf : f.opcode ≠ opBusFeedback) :
    (d.s2m f).feedback = d.feedback := by
  unfold Desk.s2m
  split
  · simp [Desk.feedback, hf]
  · rfl

/-- The desk is touched outside the feedback. -/
theorem Tally.same {d' : Desk} (h : Tally d batches batch) (hlink : d'.feedback = d.feedback)
    (hunsolicited : d'.unsolicited = d.unsolicited) (hdrops : d'.fbDrops = d.fbDrops)
    (hframes : d'.fbFrames = d.fbFrames) (hcollecting : d'.collecting = d.collecting)
    (hbuf : d'.fbBuf = d.fbBuf) (hrec : d'.fbRec = d.fbRec) : Tally d' batches batch where
  staged := hlink.trans h.staged
  kept := hunsolicited ▸ h.kept
  drops := by rw [hdrops, hunsolicited, h.drops]
  frames := hframes.trans h.frames
  closed hclosed := h.closed (hcollecting ▸ hclosed)
  buf hopen := by rw [hbuf, hrec]; exact h.buf (hcollecting ▸ hopen)

theorem Tally.s2m (h : Tally d batches batch) {f : HostFrame} (hf : f.opcode ≠ opBusFeedback) :
    Tally (d.s2m f) batches batch := by
  have hlink := feedback_s2m (d := d) hf
  unfold Desk.s2m at hlink ⊢
  split
  · next htakes =>
      rw [if_pos htakes] at hlink
      exact h.same hlink rfl rfl rfl rfl rfl rfl
  · exact h

theorem Tally.relay (h : Tally d batches batch) (frame : Frame) (route : Route)
    {sent : Option HostFrame} (hsent : ∀ f ∈ sent, f.opcode ≠ opBusFeedback) :
    Tally (d.relay frame route sent) batches batch := by
  cases sent with
  | none => exact h.same rfl rfl rfl rfl rfl rfl rfl
  | some f => exact (h.s2m (hsent f rfl)).same rfl rfl rfl rfl rfl rfl rfl

/-- A reply is added to the batch, or counted as dropped. -/
theorem Tally.gather (h : Tally d batches batch) (hopen : d.collecting = true) (addr : Nat)
    (bytes : Bytes) : ∃ batch', Tally (d.batch addr bytes) batches batch' := by
  obtain ⟨hbuf, hrec⟩ := h.buf hopen
  unfold Desk.batch
  split
  · refine ⟨batch ++ [{ addr, bytes, kept := true }], ?_⟩
    constructor
    case staged => exact h.staged
    case kept =>
      rw [← List.append_assoc, h.kept]
      simp
    case drops => simp [h.drops]
    case frames => exact h.frames
    case closed =>
      intro hclosed
      cases hopen.symm.trans hclosed
    case buf =>
      intro _
      simp [hbuf, hrec, Unsolicited.record]
  · refine ⟨batch, ?_⟩
    constructor
    case staged => exact h.staged
    case kept =>
      rw [h.kept]
      simp
    case drops =>
      rw [List.countP_append, h.drops]
      simp
    case frames => exact h.frames
    case closed => exact h.closed
    case buf => exact h.buf

theorem opcode_hostReply (addr : Nat) (body : Bytes) :
    (hostReply addr body).opcode ≠ opBusFeedback := by
  simp [hostReply, opShellReply, opBusFeedback]

theorem opcode_originReply {hostReq : Nat} {body : Bytes} :
    ∀ f ∈ d.originReply hostReq body, f.opcode ≠ opBusFeedback := by
  unfold Desk.originReply
  split
  · simp
  · simp [opShellReply, opBusFeedback]

theorem Tally.handleSlotFrame (h : Tally d batches batch) (addr : Nat) (f : Frame) :
    ∃ batch', Tally (d.handleSlotFrame addr f) batches batch' := by
  unfold Desk.handleSlotFrame
  split
  · exact ⟨batch, h⟩
  · next body hbody =>
      have hheard : Tally { d with heard := d.heard ++ [f] } batches batch :=
        h.same rfl rfl rfl rfl rfl rfl rfl
      dsimp only
      split
      · next e corr hcorr =>
          have htaken : Tally { d with heard := d.heard ++ [f], corr } batches batch :=
            h.same rfl rfl rfl rfl rfl rfl rfl
          refine ⟨batch, htaken.relay _ _ ?_⟩
          split
          · exact opcode_originReply
          · rintro _ ⟨⟩
            exact opcode_hostReply addr body
      · split
        · next hopen => exact hheard.gather hopen addr body
        · refine ⟨batch, hheard.relay _ _ ?_⟩
          rintro _ ⟨⟩
          exact opcode_hostReply addr body

/-- The frame of the batch leaves, if the host link takes it. -/
theorem Tally.emit (h : Tally d batches batch) (hopen : d.collecting = true)
    (hfits : 0 < d.fbRec → d.uplinkActive = true ∧ d.room = true ∧
      d.fbBuf.length ≤ commPayloadMax) :
    ∃ batches', Tally d.emitFeedback batches' [] := by
  obtain ⟨hbuf, hrec⟩ := h.buf hopen
  by_cases hpos : 0 < d.fbRec
  · obtain ⟨hup, hroom, hlength⟩ := hfits hpos
    have hframe : Desk.feedbackFrame { d with collecting := false } = feedbackOf batch := by
      simp [Desk.feedbackFrame, feedbackOf, hbuf, hrec]
    have htakes : Desk.takes { d with collecting := false } (feedbackOf batch) = true := by
      have hpayload : (feedbackOf batch).payload.length = d.fbBuf.length := by
        simp [feedbackOf, hbuf]
      simp [Desk.takes, hroom, hpayload, hlength]
    have hemit : d.emitFeedback = { d with
        collecting := false
        link := d.link ++ [feedbackOf batch]
        fbFrames := (d.fbFrames + 1) % 2 ^ 32 } := by
      unfold Desk.emitFeedback
      dsimp only
      rw [if_pos ⟨hup, hpos⟩, hframe, Desk.s2m, if_pos htakes]
    rw [hemit]
    refine ⟨batches ++ [batch], ?_⟩
    constructor
    case staged =>
      have hstaged := h.staged
      simp only [Desk.feedback] at hstaged ⊢
      rw [List.filter_append, hstaged]
      simp [feedbackOf]
    case kept => simpa using h.kept
    case drops => exact h.drops
    case frames =>
      rw [List.length_append, h.frames]
      simp
    case closed => exact fun _ => rfl
    case buf =>
      intro hclosed
      cases hclosed
  -- an empty batch makes no frame
  · have hzero : d.fbRec = 0 := by omega
    have hempty : batch = [] := List.length_eq_zero_iff.mp (hrec.symm.trans hzero)
    subst hempty
    have hemit : d.emitFeedback = { d with collecting := false } := by
      unfold Desk.emitFeedback
      dsimp only
      rw [if_neg fun hboth => hpos hboth.2]
    rw [hemit]
    refine ⟨batches, ?_⟩
    exact ⟨h.staged, h.kept, h.drops, h.frames, fun _ => rfl, fun hclosed => nomatch hclosed⟩

/-! ## Runs -/

/-- The part of a cycle in which feedback is gathered. -/
def Pc.gathering : Pc → Bool
  | .pass _ | .drain _ _ | .release _ _ _ | .sweep _ | .listen _ _ | .probe | .probeListen _ _
  | .count | .emit => true
  | _ => false

theorem collecting_s2m (d : Desk) (f : HostFrame) : (d.s2m f).collecting = d.collecting := by
  unfold Desk.s2m
  split <;> rfl

theorem collecting_relay (d : Desk) (frame : Frame) (route : Route) (sent : Option HostFrame) :
    (d.relay frame route sent).collecting = d.collecting := by
  cases sent with
  | none => rfl
  | some f => exact collecting_s2m d f

theorem collecting_slotFrame (d : Desk) (addr : Nat) (f : Frame) :
    (d.slotFrame addr f).collecting = d.collecting := by
  unfold Desk.slotFrame Desk.handleSlotFrame
  split
  · split
    · rfl
    · dsimp only
      split
      · exact collecting_relay ..
      · split
        · unfold Desk.batch
          split <;> rfl
        · exact collecting_relay ..
  · rfl

theorem collecting_acknowledge (d : Desk) (slave reqId : Nat) (f : Frame) :
    (d.acknowledge slave reqId f).collecting = d.collecting := by
  unfold Desk.acknowledge
  split
  · exact collecting_s2m ..
  · split
    · exact collecting_s2m ..
    · rfl

theorem collecting_emit (d : Desk) : d.emitFeedback.collecting = false := by
  unfold Desk.emitFeedback
  dsimp only
  split
  · exact collecting_s2m ..
  · rfl

/-- Feedback is gathered from the swap of a cycle to its end. -/
def Master.Gathers (s : Master) : Prop := s.desk.collecting = s.pc.gathering

variable {s : Master}

theorem gathers_bus (h : s.Gathers) : (step s .bus).Gathers := by
  have hstep := busStep_cases s
  change s.busStep.Gathers
  generalize s.busStep = s' at hstep ⊢
  unfold Master.Gathers at h ⊢
  cases hstep with
  | hostAdd cmd hpc =>
      rw [pc_hostAddStep]
      rw [Master.hostAddStep, desk_issue, h, hpc]
      rfl
  | hostSend => rw [desk_busMsgSend, pc_busMsgSend, h]
  | emit => exact collecting_emit s.desk
  | listen i heard node f rx hpc =>
      rw [collecting_slotFrame, h, hpc]
      rfl
  | probeListen i heard node f rx hpc =>
      rw [collecting_slotFrame, h, hpc]
      rfl
  | slot addr heard f rx hpc =>
      rw [collecting_slotFrame, h, hpc]
      rfl
  | injectHeard cmd c f rx hpc =>
      dsimp only
      split
      · rw [h, hpc]
        rfl
      · rw [collecting_acknowledge, h, hpc]
        rfl
  | collectReply c f rx body hpc =>
      rw [Desk.collected, collecting_relay, h, hpc]
      rfl
  | drainGone => exact h
  | wait => exact h
  | ignore => exact h
  | swap => rfl
  | _ => simp_all [Pc.gathering, Master.rebuild, Master.countStep, Master.injectStep,
      Master.pollNode, Master.grant]

theorem gathers_step (h : s.Gathers) (a : Action) : (step s a).Gathers := by
  by_cases hbus : a = .bus
  · subst hbus
    exact gathers_bus h
  by_cases halarm : a = .alarm
  · subst halarm
    have hstep := waitOver_cases s
    generalize step s .alarm = s' at hstep ⊢
    unfold Master.Gathers at h ⊢
    cases hstep with
    | none => exact h
    | _ => simp_all [Pc.gathering]
  have hdesk := deskStep_step s a
  unfold Master.Gathers at h ⊢
  rw [pc_step s hbus halarm, ← h]
  generalize (step s a).desk = d at hdesk
  cases hdesk <;> first | rfl | exact absurd rfl hbus

/-- The state of the feedback: what was sent and what is being gathered. -/
def Master.Tallied (s : Master) : Prop := ∃ batches batch, Tally s.desk batches batch

theorem tallied_step {a : Action} (hgathers : s.Gathers) (h : s.Tallied) (hfits : BatchFits s a) :
    (step s a).Tallied := by
  obtain ⟨batches, batch, h⟩ := h
  have hdesk := deskStep_step s a
  unfold Master.Tallied
  generalize (step s a).desk = d at hdesk ⊢
  have hsame {d : Desk} (hd : Tally d batches batch) : ∃ batches batch, Tally d batches batch :=
    ⟨batches, batch, hd⟩
  cases hdesk with
  | opened hpc =>
      rw [Master.Gathers, hpc] at hgathers
      obtain rfl := h.closed hgathers
      exact hsame ⟨h.staged, h.kept, h.drops, h.frames, fun _ => rfl, fun _ => ⟨rfl, rfl⟩⟩
  | emitted hpc =>
      rw [Master.Gathers, hpc] at hgathers
      obtain ⟨batches', hd⟩ := h.emit hgathers (hfits hpc)
      exact ⟨batches', [], hd⟩
  | heard addr f =>
      unfold Desk.slotFrame
      split
      · obtain ⟨batch', hd⟩ := h.handleSlotFrame addr f
        exact ⟨batches, batch', hd⟩
      · exact hsame h
  | acknowledged cmd c f =>
      unfold Desk.acknowledge
      split
      · exact hsame (h.s2m (by simp [opBusCmdAck, opBusFeedback]))
      · split
        · exact hsame (h.s2m (by simp [opBusCmdNak, opBusFeedback]))
        · exact hsame h
  | collected c f body =>
      apply hsame
      apply h.relay
      split
      · exact opcode_originReply
      · rintro _ ⟨⟩
        exact opcode_hostReply c.command.addr body
  | _ => exact hsame (h.same rfl rfl rfl rfl rfl rfl rfl)

theorem Master.Tallied.noneLost (h : s.Tallied) (hclosed : s.desk.collecting = false) :
    NoneLost s.desk := by
  obtain ⟨batches, batch, h⟩ := h
  obtain rfl := h.closed hclosed
  refine ⟨⟨batches, h.staged, ?_⟩, h.drops, ?_⟩
  · rw [← h.kept, List.append_nil]
  · rw [h.staged, List.length_map, h.frames]

/-- Where the batch of every cycle fits into a frame of the host link, no feedback is
lost silently. -/
theorem no_feedback_lost_when_batch_fits (room : Nat) (cfg : Option RosterCfg) (as : List Action)
    (hfits : Along step BatchFits (boot room cfg) as)
    (hclosed : (run step (boot room cfg) as).desk.collecting = false) :
    NoneLost (run step (boot room cfg) as).desk := by
  have hdesk : (boot room cfg).desk = {} := by cases cfg <;> rfl
  have hpc : (boot room cfg).pc = .top := by cases cfg <;> rfl
  have hboot : (boot room cfg).Gathers ∧ (boot room cfg).Tallied := by
    refine ⟨by rw [Master.Gathers, hdesk, hpc]; rfl, [], [], ?_⟩
    rw [hdesk]
    exact ⟨rfl, rfl, rfl, rfl, fun _ => rfl, fun hopen => nomatch hopen⟩
  have hrun := run_along (P := fun s : Master => s.Gathers ∧ s.Tallied)
    (fun _ a h hf => ⟨gathers_step h.1 a, tallied_step h.1 h.2 hf⟩) hfits hboot
  exact hrun.2.noneLost hclosed

/-- With the uplink up, the node at address 5 has `k` unsolicited replies of 30 bytes,
which it sends when it is polled. -/
def unsolicitedReplies (k : Nat) : List Action :=
  .uplinkEnter true oneNode ::
    List.replicate k (.queue 5 (le16 opShellReply ++ List.replicate 30 0)) ++
    List.replicate 7 .bus ++ List.replicate (k + 1) .arrive ++ List.replicate (k + 1) .bus ++
    .alarm :: List.replicate 5 .bus

theorem no_feedback_lost_when_batch_fits_two :
    Along step BatchFits (boot 24 oneNode) (unsolicitedReplies 2) ∧
      NoneLost (run step (boot 24 oneNode) (unsolicitedReplies 2)).desk :=
  ⟨by decide, no_feedback_lost_when_batch_fits 24 oneNode _ (by decide) (by decide)⟩

/-- The uplink is active when a cycle ends. -/
def UplinkActive (s : Master) : Action → Prop
  | .bus => s.pc = .emit → s.desk.uplinkActive = true
  | _ => True

instance (s : Master) (a : Action) : Decidable (UplinkActive s a) := by
  unfold UplinkActive
  split <;> infer_instance

/-- Four replies make a batch of 129 bytes; the host link refuses the frame. -/
theorem not_always_no_feedback_lost :
    ¬∀ (room : Nat) (cfg : Option RosterCfg) (as : List Action),
      Along step UplinkActive (boot room cfg) as →
        (run step (boot room cfg) as).desk.collecting = false →
          NoneLost (run step (boot room cfg) as).desk := by
  intro h
  have hlost := h 24 oneNode (unsolicitedReplies 4) (by decide) (by decide)
  exact absurd hlost.frames (by decide)

end SlowBus.Arbiter
