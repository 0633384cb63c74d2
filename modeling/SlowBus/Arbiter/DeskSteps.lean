import SlowBus.Arbiter.Steps

/-!
# What a step does to the desk

The correlation table, the feedback batch and the host link change in a few ways
only; everything else leaves the desk as it is.
-/

namespace SlowBus.Arbiter

/-- The slot the bus task has open: the address polled. -/
def Master.slotOf (s : Master) : Option Nat :=
  match s.pc with
  | .listen i _ | .probeListen i _ => s.nodes[i]?.map (·.addr)
  | .slot addr _ => some addr
  | _ => none

/-- The command an action is about to register. -/
def Master.issues (s : Master) : Action → Option Command
  | .bus =>
      match s.pc with
      | .hostAdd cmd => some (s.command .host cmd.reqId cmd.reqId cmd.slave)
      | _ => none
  | .originate n addr hostReqId _ =>
      if s.idle n ∧ s.cycleMode then
        some (s.command .engine (nextOrigSeq s.origSeq) hostReqId addr)
      else none
  | _ => none

inductive DeskStep (s : Master) : Action → Desk → Prop
  | same {a : Action} : DeskStep s a s.desk
  /-- A rebuild drops the correlations. -/
  | dropped (hpc : s.pc = .top) (hdirty : s.dirty = true) :
      DeskStep s .bus { s.desk with corr := List.replicate cmdcorrMax none }
  | registered {a : Action} (c : Command) (corr : List (Option CorrEntry))
      (hissues : s.issues a = some c) (hadd : corrAdd c.entry s.desk.corr = some corr) :
      DeskStep s a { s.desk with corr }
  /-- The batch of a cycle. -/
  | opened (hpc : s.pc = .swap) : DeskStep s .bus s.desk.openBatch
  | emitted (hpc : s.pc = .emit) : DeskStep s .bus s.desk.emitFeedback
  /-- A frame in a slot. -/
  | heard (addr : Nat) (f : Frame) (hslot : s.slotOf = some addr)
      (hrx : s.wire.rx.head? = some f) : DeskStep s .bus (s.desk.slotFrame addr f)
  /-- A frame for the command of the per-slot engine. -/
  | acknowledged (cmd : HostCmd) (c : Command) (f : Frame) (hpc : s.pc = .injectWait cmd c) :
      DeskStep s .bus (s.desk.acknowledge cmd.slave s.cmd.reqId f)
  | collected (c : Collect) (f : Frame) (body : Bytes) (hpc : s.pc = .collectWait c)
      (hrx : s.wire.rx.head? = some f) (hsrc : f.src = c.command.addr)
      (hreply : f.shellReply = some body) :
      DeskStep s .bus (s.desk.collected c.command f body)
  /-- The host and its link. -/
  | uplink (active : Bool) (cfg : Option RosterCfg) :
      DeskStep s (.uplinkEnter active cfg) { s.desk with uplinkActive := active }
  | pingPong (on : Bool) : DeskStep s (.pingPong on) { s.desk with ppRun := on }
  | linkRoom (room : Bool) : DeskStep s (.linkRoom room) { s.desk with room }

variable {s : Master}

theorem DeskStep.of_eq {a : Action} {d d' : Desk} (h : DeskStep s a d) (heq : d' = d) :
    DeskStep s a d' :=
  heq ▸ h

theorem desk_busMsgSend (s : Master) (t : Task) : (s.busMsgSend t).desk = s.desk := by
  obtain ⟨_, _, _, _, _, hframe⟩ := busMsgSend_frame s t
  rw [hframe]

/-- Issuing a command registers it, if there is an unused entry. -/
theorem desk_issue (s : Master) (t : Task) (c : Command) (payload : Bytes) :
    (s.issue t c payload).desk =
      { s.desk with corr := (corrAdd c.entry s.desk.corr).getD s.desk.corr } := by
  simp only [Master.issue, Master.beginSend, Master.corrAdd]
  cases hadd : corrAdd c.entry s.desk.corr <;> simp

theorem deskStep_issue (s' : Master) {t : Task} {c : Command} {payload : Bytes} {a : Action}
    (hdesk : s'.desk = s.desk) (hissues : s.issues a = some c) :
    DeskStep s a (s'.issue t c payload).desk := by
  rw [desk_issue, hdesk]
  cases hadd : corrAdd c.entry s.desk.corr with
  | none => exact .same
  | some corr => exact .registered c corr hissues hadd

theorem deskStep_bus (s : Master) : DeskStep s .bus (step s .bus).desk := by
  have hstep := busStep_cases s
  change DeskStep s .bus s.busStep.desk
  generalize s.busStep = s' at hstep ⊢
  cases hstep with
  | rebuild hpc hmode hdirty => exact .dropped hpc hdirty
  | hostAdd cmd hpc =>
      exact deskStep_issue { s with pc := .hostSend } rfl (by simp [Master.issues, hpc])
  | hostSend => exact DeskStep.same.of_eq (desk_busMsgSend s .bus)
  | swap hpc => exact .opened hpc
  | emit hpc => exact .emitted hpc
  | listen i heard node f rx hpc hnode hrx =>
      exact .heard node.addr f (by simp [Master.slotOf, hpc, hnode]) (by rw [hrx]; rfl)
  | probeListen i heard node f rx hpc hnode hrx =>
      exact .heard node.addr f (by simp [Master.slotOf, hpc, hnode]) (by rw [hrx]; rfl)
  | slot addr heard f rx hpc hrx =>
      exact .heard addr f (by simp [Master.slotOf, hpc]) (by rw [hrx]; rfl)
  | injectHeard cmd c f rx hpc =>
      dsimp only
      split
      · exact .same
      · exact .acknowledged cmd c f hpc
  | collectReply c f rx body hpc hrx hsrc hreply =>
      exact .collected c f body hpc (by rw [hrx]; rfl) hsrc hreply
  | _ => exact .same

/-- Everything a step can do to the desk. -/
theorem deskStep_step (s : Master) (a : Action) : DeskStep s a (step s a).desk := by
  cases a
  case bus => exact deskStep_bus s
  case alarm =>
    have hstep := waitOver_cases s
    generalize step s .alarm = s' at hstep ⊢
    cases hstep <;> exact .same
  case call n dest payload =>
    simp only [step]
    split <;> exact .same
  case originate n addr hostReqId bytes =>
    simp only [step, Master.kbappOnEchoTo]
    split
    · next hidle =>
        split
        · next hmode =>
            exact deskStep_issue { s with origSeq := nextOrigSeq s.origSeq } rfl
              (if_pos ⟨hidle, hmode⟩)
        · split <;> exact .same
    · exact .same
  case send n => exact DeskStep.same.of_eq (desk_busMsgSend ..)
  case busMsg dest opcode body =>
    simp only [step, Master.onBusMsg]
    split <;> exact .same
  case registerSlave addr enabled =>
    simp only [step, Master.registerSlave]
    split <;> exact .same
  case uplinkEnter active cfg => cases cfg <;> exact .uplink active _
  case pingPong on => exact .pingPong on
  case linkRoom room => exact .linkRoom room
  all_goals exact .same

end SlowBus.Arbiter
