import SlowBus.Arbiter.DeskSteps
import SlowBus.Arbiter.NodesDead
import SlowBus.Arbiter.WireSteps

/-!
# The reply to an injected command

The per-slot engine takes the first reply of the node it polls for the reply to its
command. That is right where the node owes no other reply when the command goes out.
-/

namespace SlowBus.Arbiter

open Runs

/-- The bus task takes the per-slot branch. -/
def PerSlot (s : Master) : Action → Prop
  | .bus => s.pc = .top → s.cycleMode = false
  | _ => True

instance (s : Master) (a : Action) : Decidable (PerSlot s a) := by
  unfold PerSlot
  split <;> infer_instance

variable {s : Master}

theorem cycling_step {a : Action} (h : s.pc.cycling = false) (hslot : PerSlot s a) :
    (step s a).pc.cycling = false := by
  by_cases hbus : a = .bus
  · subst hbus
    have hstep := busStep_cases s
    change s.busStep.pc.cycling = false
    generalize s.busStep = s' at hstep ⊢
    cases hstep with
    | rebuild hpc hmode => rw [hslot hpc] at hmode; cases hmode
    | begin hpc hmode => rw [hslot hpc] at hmode; cases hmode
    | wait => exact h
    | ignore => exact h
    | _ => first | rfl | simp_all [Pc.cycling]
  by_cases halarm : a = .alarm
  · subst halarm
    have hstep := waitOver_cases s
    generalize step s .alarm = s' at hstep ⊢
    cases hstep with
    | none => exact h
    | _ => first | rfl | simp_all [Pc.cycling]
  rw [pc_step s hbus halarm]
  exact h

/-! ## The command under way -/

/-- The command the per-slot engine has injected and collects the reply of. -/
def Master.current (s : Master) : Option Command :=
  match s.pc with
  | .injectWait _ c => some c
  | _ => s.collect.map (·.command)

/-- While the engine waits for a reply it still knows which. -/
def Master.Collects (s : Master) : Prop := ∀ c, s.pc = .collectWait c → s.collect = some c

theorem collects_step (h : s.Collects) (a : Action) : (step s a).Collects := by
  by_cases hbus : a = .bus
  · subst hbus
    have hstep := busStep_cases s
    change s.busStep.Collects
    generalize s.busStep = s' at hstep ⊢
    intro c hpc
    cases hstep with
    | hostAdd cmd =>
        rw [pc_hostAddStep] at hpc
        cases hpc
    | hostSend hsend =>
        rw [pc_busMsgSend] at hpc
        cases hsend.symm.trans hpc
    | choosePoll c' _ hcollect =>
        cases hpc
        exact hcollect
    | drainGone => exact h c hpc
    | wait => exact h c hpc
    | ignore => exact h c hpc
    | _ => cases hpc
  by_cases halarm : a = .alarm
  · subst halarm
    have hstep := waitOver_cases s
    generalize step s .alarm = s' at hstep ⊢
    intro c hpc
    cases hstep with
    | none => exact h c hpc
    | _ => cases hpc
  intro c hpc
  rw [pc_step s hbus halarm] at hpc
  exact (congrArg Own.collect (own_step s hbus halarm)).trans (h c hpc)

/-- The command under way, as the bus task knows it. -/
def Own.current (o : Own) : Option Command :=
  match o.pc with
  | .injectWait _ c => some c
  | _ => o.collect.map (·.command)

theorem current_eq {s' : Master} {o : Own} (h : s'.own = o) : s'.current = o.current :=
  congrArg Own.current h

/-- A command is under way from its injection on, until it is given up or answered. -/
theorem current_step {a : Action} {c : Command} (hcollects : s.Collects)
    (h : (step s a).current = some c) :
    s.current = some c ∨
      ∃ cmd, a = .bus ∧ s.pc = .inject cmd ∧ c = cmd.command s.hist.commands := by
  -- a retry asks for the same command again
  have hretry {c' : Collect} (hpc : s.pc = .collectWait c')
      (hc : c'.retry.map (·.command) = some c) : s.current = some c := by
    have hcurrent : s.current = some c'.command := by simp [Master.current, hpc, hcollects c' hpc]
    unfold Collect.retry at hc
    split at hc
    · cases hc
    · exact hcurrent.trans hc
  by_cases hbus : a = .bus
  · subst hbus
    have hstep := busStep_cases s
    change s.busStep.current = some c at h
    generalize s.busStep = s' at hstep h
    cases hstep with
    | hostAdd cmd hpc =>
        left
        rw [current_eq (own_hostAddStep s cmd)] at h
        simpa [Own.current, Master.own, Master.current, hpc] using h
    | hostSend hpc => exact Or.inl ((current_eq (own_busMsgSend s .bus)).symm.trans h)
    -- the only step that puts another command under way
    | inject cmd hpc =>
        right
        exact ⟨cmd, rfl, hpc, (Option.some.inj h).symm⟩
    | injectHeard cmd c' f rx hpc => simp_all [Master.current]
    | injectOther cmd c' f rx hpc => simp_all [Master.current]
    | collectReply => cases h
    | collectHeard c' f rx hpc => exact Or.inl (hretry hpc h)
    | collectOther c' f rx hpc => exact Or.inl (hretry hpc h)
    | drainGone => exact Or.inl h
    | wait => exact Or.inl h
    | ignore => exact Or.inl h
    | _ =>
        left
        simp_all [Master.current, Master.rebuild, Master.swapStep, Master.countStep,
          Master.emitStep, Master.pollNode]
  by_cases halarm : a = .alarm
  · subst halarm
    have hstep := waitOver_cases s
    generalize step s .alarm = s' at hstep h
    cases hstep with
    | none => exact Or.inl h
    | collect c' hpc => exact Or.inl (hretry hpc h)
    | _ => simp_all [Master.current]
  · exact Or.inl ((current_eq (own_step s hbus halarm)).symm.trans h)

/-! ## One command at a time -/

/-- The node has nothing to answer, and none of its replies is under way. -/
def Wire.Settled (w : Wire) (addr : Nat) : Prop :=
  (w.stations addr).todo = [] ∧
    ∀ f ∈ w.air ++ w.rx ++ (w.stations addr).txq, f.src = addr → f.shellReply = none

instance (w : Wire) (addr : Nat) : Decidable (w.Settled addr) := by
  unfold Wire.Settled
  infer_instance

/-- A command is injected only to a node that is settled, and nodes send no shell
reply unasked. -/
def OneAtATime (s : Master) : Action → Prop
  | .bus =>
      match s.pc with
      | .inject cmd => s.wire.Settled cmd.slave
      | _ => True
  | .queue addr payload => Frame.shellReply { src := addr, type := .data, payload } = none
  | _ => True

/-- At its next step, whatever the bus task is at. -/
instance oneAtATime_bus (s : Master) : (pc : Pc) → Decidable (OneAtATime { s with pc } .bus)
  | .inject _ => inferInstanceAs (Decidable (Wire.Settled ..))
  | .top | .orphans _ | .host | .hostAdd _ | .hostSend | .swap | .pass _ | .drain _ _
  | .release _ _ _ | .sweep _ | .listen _ _ | .probe | .probeListen _ _ | .count | .emit
  | .choose | .injectWait _ _ | .collectWait _ | .slot _ _ =>
      inferInstanceAs (Decidable True)

instance (s : Master) : (a : Action) → Decidable (OneAtATime s a)
  | .bus => oneAtATime_bus s s.pc
  | .queue _ _ => inferInstanceAs (Decidable (_ = none))
  | .alarm | .call _ _ _ | .originate _ _ _ _ | .send _ | .busMsg _ _ _ | .clearRoster
  | .registerSlave _ _ | .setPoll _ | .pollEnable _ | .cycleMode _ | .setSlowpoll _
  | .pingPong _ | .uplinkEnter _ _ | .linkRoom _ | .answer _ _ | .power _ _ | .arrive
  | .garble =>
      inferInstanceAs (Decidable True)

/-- A reply taken for the answer to an origination carries the request id minted for
it, and no reply is taken for the answer to another command than its own. -/
def Relay.OwnAnswer (r : Relay) : Prop :=
  ∀ c, r.route = .collected c →
    (c.party = .engine → ∃ body, r.frame.shellReply = some body ∧ body.take 2 = le16 c.req) ∧
      ∀ c', r.frame.answers = some c' → c' = c

theorem shellReply_reply (c : Command) (rest : Bytes) :
    (c.reply rest).shellReply = some (le16 c.req ++ rest) := by
  simp [Frame.shellReply, Command.reply, le16]

theorem Wire.Settled.shellReply {w : Wire} {addr : Nat} (h : w.Settled addr) {f : Frame}
    (hf : w.Carries f) (hsrc : f.src = addr) : f.shellReply = none := by
  apply h.2 f _ hsrc
  rcases hf with hf | hf | hf
  · exact List.mem_append_left _ (List.mem_append_left _ hf)
  · exact List.mem_append_left _ (List.mem_append_right _ hf)
  · exact List.mem_append_right _ (hsrc ▸ hf)

theorem relays_s2m (d : Desk) (f : HostFrame) : (d.s2m f).relays = d.relays := by
  unfold Desk.s2m
  split <;> rfl

theorem relays_emitFeedback (d : Desk) : d.emitFeedback.relays = d.relays := by
  unfold Desk.emitFeedback
  dsimp only
  split
  · exact relays_s2m { d with collecting := false } _
  · rfl

theorem mem_relays_relay {d : Desk} {frame : Frame} {route : Route} {sent : Option HostFrame}
    {r : Relay} (h : r ∈ (d.relay frame route sent).relays) :
    r ∈ d.relays ∨ (r.frame = frame ∧ r.route = route) := by
  cases sent with
  | none =>
      rcases List.mem_append.mp h with h | h
      · exact Or.inl h
      · rw [List.mem_singleton.mp h]
        exact Or.inr ⟨rfl, rfl⟩
  | some f =>
      rcases List.mem_append.mp h with h | h
      · exact Or.inl (relays_s2m d f ▸ h)
      · rw [List.mem_singleton.mp h]
        exact Or.inr ⟨rfl, rfl⟩

/-- Frames of a slot are not taken for collected ones. -/
theorem mem_relays_slotFrame {d : Desk} {addr : Nat} {f : Frame} {r : Relay}
    (h : r ∈ (d.slotFrame addr f).relays) : r ∈ d.relays ∨ ∀ c, r.route ≠ .collected c := by
  unfold Desk.slotFrame Desk.handleSlotFrame at h
  split at h
  · split at h
    · exact Or.inl h
    · dsimp only at h
      split at h
      · refine (mem_relays_relay h).imp_right fun hr c hc => ?_
        cases hr.2.symm.trans hc
      · split at h
        · unfold Desk.batch at h
          split at h <;> exact Or.inl h
        · refine (mem_relays_relay h).imp_right fun hr c hc => ?_
          cases hr.2.symm.trans hc
  · exact Or.inl h

/-- The replies of the node of the current command are all to that command. -/
structure Matched (s : Master) : Prop where
  own : s.wire.OwnFrames
  slot : s.pc.cycling = false
  collects : s.Collects
  genuine : ∀ f, s.wire.Carries f → f.shellReply ≠ none → ∃ c rest, f = Command.reply c rest
  todo : ∀ c, s.current = some c → ∀ c' ∈ (s.wire.stations c.addr).todo, c' = c
  replies : ∀ c, s.current = some c → ∀ f, s.wire.Carries f → f.src = c.addr →
    f.shellReply ≠ none → f.answers = some c
  relays : ∀ r ∈ s.desk.relays, r.OwnAnswer

theorem Transmits.data_slot {addr : Nat} {payload : Bytes} {c : Command}
    (h : Transmits s addr (.data payload (some c))) (hslot : s.pc.cycling = false) :
    ∃ cmd, s.pc = .inject cmd ∧ c = cmd.command s.hist.commands := by
  generalize hg : Grant.data payload (some c) = g at h
  cases h with
  | pass i b node msg hpc =>
      rw [hpc] at hslot
      cases hslot
  | inject cmd hpc =>
      cases hg
      exact ⟨cmd, hpc, rfl⟩
  | _ => cases hg

theorem current_inject {cmd : HostCmd} {c : Command} (hpc : s.pc = .inject cmd)
    (h : (step s .bus).current = some c) : c = cmd.command s.hist.commands := by
  have hstep : step s .bus = s.injectStep cmd := by simp only [step, Master.busStep, hpc]
  rw [hstep] at h
  exact (Option.some.inj h).symm

theorem Matched.relays_step {a : Action} (h : Matched s) :
    ∀ r ∈ (step s a).desk.relays, r.OwnAnswer := by
  have hdesk := deskStep_step s a
  generalize (step s a).desk = d at hdesk ⊢
  cases hdesk with
  | emitted => exact relays_emitFeedback s.desk ▸ h.relays
  | heard addr f =>
      intro r hr
      rcases mem_relays_slotFrame hr with hr | hr
      · exact h.relays r hr
      · exact fun c hc => absurd hc (hr c)
  | acknowledged cmd c f =>
      intro r hr
      unfold Desk.acknowledge at hr
      split at hr
      · exact h.relays r (relays_s2m _ _ ▸ hr)
      · split at hr
        · exact h.relays r (relays_s2m _ _ ▸ hr)
        · exact h.relays r hr
  | collected c f body hpc hrx hsrc hreply =>
      intro r hr
      rcases mem_relays_relay hr with hr | ⟨hframe, hroute⟩
      · exact h.relays r hr
      · intro c' hc'
        obtain rfl : c.command = c' := by
          cases hroute.symm.trans hc'
          rfl
        have hcurrent : s.current = some c.command := by
          simp [Master.current, hpc, h.collects c hpc]
        have hcarries : s.wire.Carries f := Or.inr (Or.inl (List.mem_of_mem_head? hrx))
        have hsome : f.shellReply ≠ none := by simp [hreply]
        have hanswers := h.replies _ hcurrent f hcarries hsrc hsome
        obtain ⟨c'', rest, rfl⟩ := h.genuine f hcarries hsome
        cases hanswers
        rw [hframe]
        refine ⟨fun _ => ⟨_, shellReply_reply _ rest, by simp [le16]⟩, fun c' hc' => ?_⟩
        exact (Option.some.inj hc').symm
  | _ => exact h.relays

theorem matched_step {a : Action} (h : Matched s) (hslot : PerSlot s a) (hone : OneAtATime s a) :
    Matched (step s a) := by
  -- a frame queued by a node of its own is no reply
  have hqueue {addr : Nat} {payload : Bytes} {f : Frame} (ha : a = .queue addr payload)
      (hf : f = { src := addr, type := .data, payload }) : f.shellReply = none := by
    subst ha
    rw [hf]
    exact hone
  have hsettled {cmd : HostCmd} (ha : a = .bus) (hpc : s.pc = .inject cmd) :
      s.wire.Settled cmd.slave := by
    subst ha
    simp only [OneAtATime, hpc] at hone
    exact hone
  refine ⟨ownFrames_step s h.own a, cycling_step h.slot hslot, collects_step h.collects a, ?_, ?_,
    ?_, h.relays_step⟩
  · intro f hf hreply
    rcases carries_step h.own hf hreply with hf | ⟨addr, payload, ha, hf⟩ | ⟨c, body, -, -, rfl⟩
    · exact h.genuine f hf hreply
    · exact absurd (hqueue ha hf) hreply
    · exact ⟨c, body, rfl⟩
  · intro c hc c' hc'
    rcases todo_step hc' with htodo | ⟨payload, rfl, htransmits⟩
    · rcases current_step h.collects hc with hcurrent | ⟨cmd, ha, hpc, rfl⟩
      · exact h.todo c hcurrent c' htodo
      · have hnone := (hsettled ha hpc).1
        change c' ∈ (s.wire.stations cmd.slave).todo at htodo
        rw [hnone] at htodo
        cases htodo
    · obtain ⟨cmd, hpc, rfl⟩ := htransmits.data_slot h.slot
      exact (current_inject hpc hc).symm
  -- a reply heard is one the injected command asked for, as the node had nothing older
  · intro c hc f hf hsrc hreply
    rcases carries_step h.own hf hreply with
      hf | ⟨addr, payload, ha, hf⟩ | ⟨c', body, -, hc', rfl⟩
    · rcases current_step h.collects hc with hcurrent | ⟨cmd, ha, hpc, rfl⟩
      · exact h.replies c hcurrent f hf hsrc hreply
      · exact absurd ((hsettled ha hpc).shellReply hf hsrc) hreply
    · exact absurd (hqueue ha hf) hreply
    · rcases current_step h.collects hc with hcurrent | ⟨cmd, ha, hpc, rfl⟩
      · have haddr : c'.addr = c.addr := hsrc
        rw [haddr] at hc'
        rw [h.todo c hcurrent c' hc']
        rfl
      · have haddr : c'.addr = cmd.slave := hsrc
        rw [haddr, (hsettled ha hpc).1] at hc'
        cases hc'

/-- Where a node has answered everything before the next command for it goes out, the
per-slot engine takes no reply for the answer to another command. -/
theorem answers_matched_when_one_at_a_time (room : Nat) (cfg : Option RosterCfg)
    (as : List Action) (hslot : Along step PerSlot (boot room cfg) as)
    (hone : Along step OneAtATime (boot room cfg) as) :
    ∀ r ∈ (run step (boot room cfg) as).desk.relays, r.OwnAnswer := by
  have hboot : Matched (boot room cfg) := by
    have hwire : (boot room cfg).wire = {} := by cases cfg <;> rfl
    have hpc : (boot room cfg).pc = .top := by cases cfg <;> rfl
    have hdesk : (boot room cfg).desk = {} := by cases cfg <;> rfl
    have hcollect : (boot room cfg).collect = none := by cases cfg <;> rfl
    have hcurrent : (boot room cfg).current = none := by simp [Master.current, hpc, hcollect]
    have hcarries (f : Frame) : ¬(boot room cfg).wire.Carries f := by
      simp [Wire.Carries, hwire]
    refine ⟨?_, by rw [hpc]; rfl, ?_, fun f hf => absurd hf (hcarries f), ?_, ?_, ?_⟩
    · simp [Wire.OwnFrames, hwire]
    · simp [Master.Collects, hpc]
    · simp [hcurrent]
    · simp [hcurrent]
    · simp [hdesk]
  have hboth := hslot.and hone
  exact (run_along (P := Matched) (fun _ _ h hc => matched_step h hc.1 hc.2) hboth hboot).relays

/-- The command of the `n`-th origination of a run, an echo for the node at address 5. -/
def echoCommand (n : Nat) : Command :=
  { id := n, party := .engine, req := n + 1, hostReq := 70 + n, addr := 5 }

/-- The per-slot engine injects the next origination and gets it acknowledged. -/
def injectNext : List Action := List.replicate 3 .bus ++ [.arrive, .bus]

/-- The engine collects; the node sends what it has queued. -/
def collectNext : List Action := [.bus, .bus, .arrive, .bus]

/-- The node is slower than the collects of the first command and answers it while the
second one is collected. -/
def answersLate : List Action :=
  [.cycleMode false, .originate 0 5 70 [], .originate 0 5 71 []] ++ injectNext ++
    (List.replicate cmdCollectTries collectNext).flatten ++ injectNext ++
    .answer (echoCommand 0) [0, 0] :: collectNext

/-- The node answers before the next command. -/
def answersPromptly : List Action :=
  [.cycleMode false, .originate 0 5 70 []] ++ injectNext ++
    .answer (echoCommand 0) [0, 0] :: collectNext

theorem answers_matched_when_one_at_a_time_echo :
    (run step (boot 24 none) answersPromptly).desk.relays.length = 1 ∧
      ∀ r ∈ (run step (boot 24 none) answersPromptly).desk.relays, r.OwnAnswer :=
  ⟨by decide, answers_matched_when_one_at_a_time 24 none _ (by decide) (by decide)⟩

/-- The reply to the first origination is taken for the answer to the second. -/
theorem not_always_answers_matched :
    ¬∀ (room : Nat) (cfg : Option RosterCfg) (as : List Action),
      Along step PerSlot (boot room cfg) as →
        ∀ r ∈ (run step (boot room cfg) as).desk.relays, r.OwnAnswer := by
  intro h
  have hown := h 24 none answersLate (by decide +kernel)
  have hrelays : (run step (boot 24 none) answersLate).desk.relays =
      [{ frame := (echoCommand 0).reply [0, 0]
         route := .collected (echoCommand 1)
         sent := some { dest := busAddrAppcore, opcode := opShellReply, payload := [71, 0, 0, 0] }
         staged := true }] := by
    decide +kernel
  rw [hrelays] at hown
  obtain ⟨-, hanswers⟩ := hown _ List.mem_cons_self (echoCommand 1) rfl
  cases hanswers (echoCommand 0) rfl

end SlowBus.Arbiter
