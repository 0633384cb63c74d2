import SlowBus.Arbiter.Liveness
import SlowBus.Arbiter.Order
import SlowBus.Arbiter.WireSteps

/-!
# One transmission at a time

A node that was granted the bus owes its answer until the answer has arrived or the
master gives up on it. The pair stays free of collisions where every grant of the
master is followed by a wait for the whole answer.
-/

namespace SlowBus.Arbiter

open Runs

variable {s : Master}

/-- The message pass, which waits for nobody, has only unpowered nodes to send to,
and a wait for the first frame does not end before the answer is complete. -/
def HearsOut (s : Master) : Action → Prop
  | .bus =>
      match s.pc with
      | .drain i (some _) =>
          ∀ node ∈ s.nodes[i]?, node.dead = false →
            (s.wire.stations node.addr).powered = false
      | .injectWait cmd _ => s.wire.rx ≠ [] → cmd.slave ∉ s.wire.owing
      | .collectWait c => s.wire.rx ≠ [] → c.command.addr ∉ s.wire.owing
      | _ => True
  | _ => True

/-- At its next step, whatever the bus task is at. -/
instance hearsOut_bus (s : Master) : (pc : Pc) → Decidable (HearsOut { s with pc } .bus)
  | .drain i (some _) => inferInstanceAs (Decidable (∀ node ∈ s.nodes[i]?, _ → _))
  | .injectWait _ _ | .collectWait _ => inferInstanceAs (Decidable (_ → _))
  | .drain _ none
  | .top | .orphans _ | .host | .hostAdd _ | .hostSend | .swap | .pass _ | .release _ _ _
  | .sweep _ | .listen _ _ | .probe | .probeListen _ _ | .count | .emit | .choose
  | .inject _ | .slot _ _ =>
      inferInstanceAs (Decidable True)

instance (s : Master) : (a : Action) → Decidable (HearsOut s a)
  | .bus => hearsOut_bus s s.pc
  | .alarm | .call _ _ _ | .originate _ _ _ _ | .send _ | .busMsg _ _ _ | .clearRoster
  | .registerSlave _ _ | .setPoll _ | .pollEnable _ | .cycleMode _ | .setSlowpoll _
  | .pingPong _ | .uplinkEnter _ _ | .linkRoom _ | .queue _ _ | .answer _ _ | .power _ _
  | .arrive | .garble =>
      inferInstanceAs (Decidable True)

/-- Only the node waited for owes an answer, and no transmission began too early. -/
structure Exclusive (s : Master) : Prop where
  owing : ∀ addr ∈ s.wire.owing, s.awaits = some addr
  clashes : s.wire.clashes = 0

theorem Exclusive.owing_nil (h : Exclusive s) (hawaits : s.awaits = none) : s.wire.owing = [] := by
  rw [List.eq_nil_iff_forall_not_mem]
  intro addr haddr
  cases hawaits.symm.trans (h.owing addr haddr)

theorem owing_send_nil {w : Wire} (h : w.owing = []) (addr : Nat) (g : Grant) :
    ∀ x ∈ (w.send addr g).owing, x = addr := by
  unfold Wire.send
  dsimp only
  split
  · simp [h]
  · simp [h]

theorem clashes_send {w : Wire} (h : w.owing = []) (addr : Nat) (g : Grant) :
    (w.send addr g).clashes = w.clashes := by
  unfold Wire.send
  dsimp only
  split <;> simp [h, Wire.modify]

theorem owing_send_unpowered {w : Wire} {addr : Nat} (h : (w.stations addr).powered = false)
    (g : Grant) : (w.send addr g).owing = w.owing := by
  simp [Wire.send, h]

/-- A grant from outside a wait opens the wait for its node. -/
theorem Exclusive.grant {s' : Master} (h : Exclusive s) (hawaits : s.awaits = none) {addr : Nat}
    {g : Grant} (hwire : s'.wire = s.wire.send addr g) (hawaits' : s'.awaits = some addr) :
    Exclusive s' where
  owing x hx := by
    rw [hwire] at hx
    rw [hawaits', owing_send_nil (h.owing_nil hawaits) addr g x hx]
  clashes := by rw [hwire, clashes_send (h.owing_nil hawaits), h.clashes]

theorem Exclusive.same {s' : Master} (h : Exclusive s) (howing : s'.wire.owing = s.wire.owing)
    (hclashes : s'.wire.clashes = s.wire.clashes) (hawaits : s'.awaits = s.awaits) :
    Exclusive s' where
  owing x hx := hawaits ▸ h.owing x (howing ▸ hx)
  clashes := hclashes.trans h.clashes

/-- The wait is over with nothing owed. -/
theorem Exclusive.leave {s' : Master} (h : Exclusive s) (howing : s'.wire.owing = [])
    (hclashes : s'.wire.clashes = s.wire.clashes) : Exclusive s' where
  owing x hx := by
    rw [howing] at hx
    cases hx
  clashes := hclashes.trans h.clashes

/-- An answer that is complete. -/
theorem Exclusive.answered (h : Exclusive s) {addr : Nat} (hawaits : s.awaits = some addr)
    (hdone : addr ∉ s.wire.owing) : s.wire.owing = [] := by
  rw [List.eq_nil_iff_forall_not_mem]
  intro x hx
  cases hawaits.symm.trans (h.owing x hx)
  exact hdone hx

theorem exclusive_bus (h : Exclusive s) (hhears : HearsOut s .bus) : Exclusive (step s .bus) := by
  have hstep := busStep_cases s
  change Exclusive s.busStep
  generalize s.busStep = s' at hstep ⊢
  cases hstep with
  | hostAdd cmd hpc =>
      refine h.same (by rw [wire_hostAddStep]) (by rw [wire_hostAddStep]) ?_
      simp [Master.awaits, hpc, pc_hostAddStep]
  | hostSend hpc =>
      refine h.same (by rw [wire_busMsgSend]) (by rw [wire_busMsgSend]) ?_
      simp [Master.awaits, hpc, pc_busMsgSend]
  -- nobody has the bus when the pass sends, and a DATA frame asks nobody to answer
  | transmit i b node msg hpc hnode hdead =>
      have howing := h.owing_nil (by simp [Master.awaits, hpc])
      simp only [HearsOut, hpc] at hhears
      have hpowered := hhears node hnode hdead
      exact h.leave ((owing_send_unpowered hpowered _).trans howing) (clashes_send howing _ _)
  | sweepPoll i node hpc hnode =>
      refine h.grant (by simp [Master.awaits, hpc]) rfl ?_
      simp [Master.awaits, Master.pollNode, hnode]
  | probe i node hpc hnode =>
      refine h.grant (by simp [Master.awaits, hpc]) rfl ?_
      simp [Master.awaits, Master.pollNode, hnode]
  | choosePoll c hpc => exact h.grant (by simp [Master.awaits, hpc]) rfl rfl
  | chooseSlot addr cursor hpc => exact h.grant (by simp [Master.awaits, hpc]) rfl rfl
  | inject cmd hpc => exact h.grant (by simp [Master.awaits, hpc]) rfl rfl
  | listen i heard node f rx hpc => exact h.same rfl rfl (by simp [Master.awaits, hpc])
  | probeListen i heard node f rx hpc => exact h.same rfl rfl (by simp [Master.awaits, hpc])
  | slot addr heard f rx hpc => exact h.same rfl rfl (by simp [Master.awaits, hpc])
  -- the addressed station has answered, so the wait is over
  | injectHeard cmd command f rx hpc hrx =>
      simp only [HearsOut, hpc] at hhears
      exact h.leave (h.answered (by simp [Master.awaits, hpc]) (hhears (by simp [hrx]))) rfl
  | injectOther cmd command f rx hpc hrx =>
      simp only [HearsOut, hpc] at hhears
      exact h.leave (h.answered (by simp [Master.awaits, hpc]) (hhears (by simp [hrx]))) rfl
  | collectReply c f rx body hpc hrx =>
      simp only [HearsOut, hpc] at hhears
      exact h.leave (h.answered (by simp [Master.awaits, hpc]) (hhears (by simp [hrx]))) rfl
  | collectHeard c f rx hpc hrx =>
      simp only [HearsOut, hpc] at hhears
      exact h.leave (h.answered (by simp [Master.awaits, hpc]) (hhears (by simp [hrx]))) rfl
  | collectOther c f rx hpc hrx =>
      simp only [HearsOut, hpc] at hhears
      exact h.leave (h.answered (by simp [Master.awaits, hpc]) (hhears (by simp [hrx]))) rfl
  | drainGone => exact h
  | wait => exact h
  | ignore => exact h.same rfl rfl rfl
  | _ => exact h.leave (h.owing_nil (by simp_all [Master.awaits])) rfl

theorem exclusive_alarm (h : Exclusive s) : Exclusive (step s .alarm) := by
  have hstep := waitOver_cases s
  generalize step s .alarm = s' at hstep ⊢
  have hover {addr : Nat} (hawaits : s.awaits = some addr) :
      (s.wire.giveUp addr).owing = [] := by
    simp only [Wire.giveUp, List.filter_eq_nil_iff]
    intro x hx
    cases hawaits.symm.trans (h.owing x hx)
    simp
  cases hstep with
  | none => exact h
  | swept i node hpc _ hnode => exact h.leave (hover (by simp [Master.awaits, hpc, hnode])) rfl
  | missed i node hpc _ hnode => exact h.leave (hover (by simp [Master.awaits, hpc, hnode])) rfl
  | revived i node hpc _ hnode => exact h.leave (hover (by simp [Master.awaits, hpc, hnode])) rfl
  | probed i node hpc _ hnode => exact h.leave (hover (by simp [Master.awaits, hpc, hnode])) rfl
  | inject cmd command hpc => exact h.leave (hover (by simp [Master.awaits, hpc])) rfl
  | collect c hpc => exact h.leave (hover (by simp [Master.awaits, hpc])) rfl
  | slotHeard addr hpc => exact h.leave (hover (by simp [Master.awaits, hpc])) rfl
  | slotMissed addr hpc => exact h.leave (hover (by simp [Master.awaits, hpc])) rfl

theorem awaits_step {a : Action} (hbus : a ≠ .bus) (halarm : a ≠ .alarm) :
    (step s a).awaits = s.awaits := by
  have hpc := pc_step s hbus halarm
  have haddr (i : Nat) : (step s a).nodes[i]?.map (·.addr) = s.nodes[i]?.map (·.addr) := by
    have htable := congrArg (fun l => l[i]?.map (·.addr)) (table_step (s := s) hbus halarm)
    simp only [Master.life, List.getElem?_map, Option.map_map] at htable
    exact htable
  simp only [Master.awaits, hpc, haddr]

theorem owing_queue (w : Wire) (f : Frame) :
    (w.queue f).owing = w.owing ∧ (w.queue f).clashes = w.clashes := by
  unfold Wire.queue
  split <;> exact ⟨rfl, rfl⟩

theorem exclusive_step {a : Action} (h : Exclusive s) (hhears : HearsOut s a) :
    Exclusive (step s a) := by
  by_cases hbus : a = .bus
  · subst hbus
    exact exclusive_bus h hhears
  by_cases halarm : a = .alarm
  · subst halarm
    exact exclusive_alarm h
  have hawaits := awaits_step (s := s) hbus halarm
  cases hwire : a.onWire with
  | false =>
      have hwire := wire_step s hbus halarm hwire
      exact h.same (by rw [hwire]) (by rw [hwire]) hawaits
  | true =>
      cases a with
      | queue addr payload =>
          exact h.same (owing_queue ..).1 (owing_queue ..).2 hawaits
      | answer c body =>
          refine h.same ?_ ?_ hawaits
          · simp only [step, Wire.answer]
            split
            · exact (owing_queue ..).1
            · rfl
          · simp only [step, Wire.answer]
            split
            · exact (owing_queue ..).2
            · rfl
      -- an arrival only takes a frame off the wire
      | arrive =>
          refine ⟨fun x hx => ?_, ?_⟩
          · rw [hawaits]
            apply h.owing
            simp only [step, Wire.arrive] at hx
            split at hx
            · exact hx
            · dsimp only at hx
              split at hx
              · exact List.mem_of_mem_erase hx
              · exact hx
          · simp only [step, Wire.arrive]
            split
            · exact h.clashes
            · exact h.clashes
      | _ => first | exact h.same rfl rfl hawaits | cases hwire

/-- Where every grant is heard out, the master never starts a transmission while a
node it granted still owes its answer. -/
theorem exclusive_when_heard_out (room : Nat) (cfg : Option RosterCfg) (as : List Action)
    (hhears : Along step HearsOut (boot room cfg) as) :
    (run step (boot room cfg) as).wire.clashes = 0 := by
  have hwire : (boot room cfg).wire = {} := by cases cfg <;> rfl
  have hboot : Exclusive (boot room cfg) := by
    refine ⟨fun x hx => ?_, by rw [hwire]⟩
    rw [hwire] at hx
    cases hx
  exact (run_along (P := Exclusive) (fun _ _ h hh => exclusive_step h hh) hhears hboot).clashes

/-- A poll of the sweep that is answered, and the probe after it. -/
def answeredPoll : List Action :=
  List.replicate 7 .bus ++ [.arrive, .bus, .alarm] ++ List.replicate 4 .bus

theorem exclusive_when_heard_out_poll :
    Along step HearsOut (boot 24 oneNode) (answeredPoll ++ answeredPoll) ∧
      (run step (boot 24 oneNode) (answeredPoll ++ answeredPoll)).wire.clashes = 0 :=
  ⟨by decide, exclusive_when_heard_out 24 oneNode _ (by decide)⟩

/-- Two messages for one node in one message pass: the second is sent while the node
still owes the acknowledgement of the first. -/
theorem not_always_exclusive :
    ¬∀ (room : Nat) (cfg : Option RosterCfg) (as : List Action),
      (run step (boot room cfg) as).wire.clashes = 0 := by
  intro h
  have hrun := h 24 oneNode twoMessages
  exact absurd hrun (by decide)

end SlowBus.Arbiter
