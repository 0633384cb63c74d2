import SlowBus.Arbiter.Steps

/-!
# What a step does to the bus

The master transmits, takes a frame from its ring or gives a node up; the nodes and
the air do the rest.
-/

namespace SlowBus.Arbiter

/-- The node the bus task waits for. -/
def Master.awaits (s : Master) : Option Nat :=
  match s.pc with
  | .listen i _ | .probeListen i _ => s.nodes[i]?.map (·.addr)
  | .injectWait cmd _ => some cmd.slave
  | .collectWait c => some c.command.addr
  | .slot addr _ => some addr
  | _ => none

/-- What the bus task transmits, and to whom. -/
inductive Transmits (s : Master) : Nat → Grant → Prop
  | pass (i : Nat) (b : Buf) (node : Node) (msg : Msg) (hpc : s.pc = .drain i (some b))
      (hnode : s.nodes[i]? = some node) (hmsg : s.msgOf b = some msg) :
      Transmits s node.addr (.data (s.pool.mem b).payload msg.command)
  | sweep (i : Nat) (node : Node) (hpc : s.pc = .sweep i) (hnode : s.nodes[i]? = some node) :
      Transmits s node.addr .poll
  | probe (i : Nat) (node : Node) (hpc : s.pc = .probe) (hnode : s.nodes[i]? = some node) :
      Transmits s node.addr .poll
  | collect (c : Collect) (hpc : s.pc = .choose) (hcollect : s.collect = some c) :
      Transmits s c.command.addr .poll
  | slot (addr : Nat) (hpc : s.pc = .choose) (hcollect : s.collect = none) :
      Transmits s addr .poll
  | inject (cmd : HostCmd) (hpc : s.pc = .inject cmd) :
      Transmits s cmd.slave (.data cmd.frame (some (cmd.command s.hist.commands)))

inductive WireStep (s : Master) : Action → Wire → Prop
  | same {a : Action} : WireStep s a s.wire
  | sent (addr : Nat) (g : Grant) (h : Transmits s addr g) :
      WireStep s .bus (s.wire.send addr g)
  /-- The bus task takes a frame from the ring. -/
  | taken (f : Frame) (rx : List Frame) (hpc : s.pc.waiting = true) (hrx : s.wire.rx = f :: rx) :
      WireStep s .bus { s.wire with rx }
  | gaveUp (addr : Nat) (hawaits : s.awaits = some addr) (hrx : s.wire.rx = []) :
      WireStep s .alarm (s.wire.giveUp addr)
  /-- The nodes. -/
  | queue (addr : Nat) (payload : Bytes) :
      WireStep s (.queue addr payload) (s.wire.queue { src := addr, type := .data, payload })
  | answer (c : Command) (body : Bytes) : WireStep s (.answer c body) (s.wire.answer c body)
  | power (addr : Nat) (on : Bool) :
      WireStep s (.power addr on) (s.wire.modify addr fun st => { st with powered := on })
  /-- The air. -/
  | arrive : WireStep s .arrive s.wire.arrive
  | garble : WireStep s .garble s.wire.garble

variable {s : Master}

theorem WireStep.of_eq {a : Action} {w w' : Wire} (h : WireStep s a w) (heq : w' = w) :
    WireStep s a w' :=
  heq ▸ h

theorem wireStep_bus (s : Master) : WireStep s .bus (step s .bus).wire := by
  have hstep := busStep_cases s
  change WireStep s .bus s.busStep.wire
  generalize s.busStep = s' at hstep ⊢
  cases hstep with
  | hostAdd cmd => exact WireStep.same.of_eq (wire_hostAddStep ..)
  | hostSend => exact WireStep.same.of_eq (wire_busMsgSend ..)
  | transmit i b node msg hpc hnode _ hmsg => exact .sent _ _ (.pass i b node msg hpc hnode hmsg)
  | sweepPoll i node hpc hnode => exact .sent _ _ (.sweep i node hpc hnode)
  | probe i node hpc hnode => exact .sent _ _ (.probe i node hpc hnode)
  | choosePoll c hpc hcollect => exact .sent _ _ (.collect c hpc hcollect)
  | chooseSlot addr cursor hpc hcollect => exact .sent _ _ (.slot addr hpc hcollect)
  | inject cmd hpc => exact .sent _ _ (.inject cmd hpc)
  | ignore f rx hpc hrx => exact .taken f rx hpc hrx
  | listen i heard node f rx hpc _ hrx => exact .taken f rx (by rw [hpc]; rfl) hrx
  | probeListen i heard node f rx hpc _ hrx => exact .taken f rx (by rw [hpc]; rfl) hrx
  | slot addr heard f rx hpc hrx => exact .taken f rx (by rw [hpc]; rfl) hrx
  | injectHeard cmd c f rx hpc hrx => exact .taken f rx (by rw [hpc]; rfl) hrx
  | injectOther cmd c f rx hpc hrx => exact .taken f rx (by rw [hpc]; rfl) hrx
  | collectReply c f rx body hpc hrx => exact .taken f rx (by rw [hpc]; rfl) hrx
  | collectHeard c f rx hpc hrx => exact .taken f rx (by rw [hpc]; rfl) hrx
  | collectOther c f rx hpc hrx => exact .taken f rx (by rw [hpc]; rfl) hrx
  | _ => exact .same

theorem wireStep_alarm (s : Master) : WireStep s .alarm (step s .alarm).wire := by
  have hstep := waitOver_cases s
  generalize step s .alarm = s' at hstep ⊢
  cases hstep with
  | none => exact .same
  | swept i node hpc hrx hnode => exact .gaveUp _ (by simp [Master.awaits, hpc, hnode]) hrx
  | missed i node hpc hrx hnode => exact .gaveUp _ (by simp [Master.awaits, hpc, hnode]) hrx
  | revived i node hpc hrx hnode => exact .gaveUp _ (by simp [Master.awaits, hpc, hnode]) hrx
  | probed i node hpc hrx hnode => exact .gaveUp _ (by simp [Master.awaits, hpc, hnode]) hrx
  | inject cmd c hpc hrx => exact .gaveUp _ (by simp [Master.awaits, hpc]) hrx
  | collect c hpc hrx => exact .gaveUp _ (by simp [Master.awaits, hpc]) hrx
  | slotHeard addr hpc hrx => exact .gaveUp _ (by simp [Master.awaits, hpc]) hrx
  | slotMissed addr hpc hrx => exact .gaveUp _ (by simp [Master.awaits, hpc]) hrx

/-- Everything a step can do to the bus. -/
theorem wireStep_step (s : Master) (a : Action) : WireStep s a (step s a).wire := by
  by_cases hbus : a = .bus
  · subst hbus
    exact wireStep_bus s
  by_cases halarm : a = .alarm
  · subst halarm
    exact wireStep_alarm s
  cases hwire : a.onWire with
  | false => exact WireStep.same.of_eq (wire_step s hbus halarm hwire)
  | true =>
      cases a with
      | queue addr payload => exact .queue addr payload
      | answer c body => exact .answer c body
      | power addr on => exact .power addr on
      | arrive => exact .arrive
      | garble => exact .garble
      | _ => cases hwire

/-! ## The replies under way -/

/-- A frame a node has queued or sent, and the master has not taken yet. -/
def Wire.Carries (w : Wire) (f : Frame) : Prop :=
  f ∈ w.air ∨ f ∈ w.rx ∨ f ∈ (w.stations f.src).txq

/-- A node only queues frames of its own. -/
def Wire.OwnFrames (w : Wire) : Prop := ∀ a, ∀ f ∈ (w.stations a).txq, f.src = a

theorem stations_modify (w : Wire) (addr a : Nat) (f : Station → Station) :
    (w.modify addr f).stations a = if a = addr then f (w.stations addr) else w.stations a := by
  simp [Wire.modify, Function.update_apply]

theorem stations_queue (w : Wire) (f : Frame) (a : Nat) :
    (w.queue f).stations a = w.stations a ∨
      (a = f.src ∧ (w.queue f).stations a =
        { w.stations f.src with txq := (w.stations f.src).txq ++ [f] }) := by
  unfold Wire.queue
  split
  · rw [stations_modify]
    by_cases ha : a = f.src
    · exact Or.inr ⟨ha, if_pos ha⟩
    · exact Or.inl (if_neg ha)
  · exact Or.inl rfl

theorem air_queue (w : Wire) (f : Frame) : (w.queue f).air = w.air ∧ (w.queue f).rx = w.rx := by
  unfold Wire.queue
  split <;> exact ⟨rfl, rfl⟩

theorem ownFrames_queue {w : Wire} (h : w.OwnFrames) (f : Frame) : (w.queue f).OwnFrames := by
  intro a g hg
  rcases stations_queue w f a with heq | ⟨rfl, heq⟩
  · exact h a g (heq ▸ hg)
  · rw [heq] at hg
    rcases List.mem_append.mp hg with hg | hg
    · exact h f.src g hg
    · rw [List.mem_singleton.mp hg]

theorem carries_queue {w : Wire} {f g : Frame} (h : (w.queue f).Carries g) :
    w.Carries g ∨ g = f := by
  obtain ⟨hair, hrx⟩ := air_queue w f
  rcases h with h | h | h
  · exact Or.inl (Or.inl (hair ▸ h))
  · exact Or.inl (Or.inr (Or.inl (hrx ▸ h)))
  · rcases stations_queue w f g.src with heq | ⟨hsrc, heq⟩
    · exact Or.inl (Or.inr (Or.inr (heq ▸ h)))
    · rw [heq] at h
      rcases List.mem_append.mp h with h | h
      · exact Or.inl (Or.inr (Or.inr (hsrc ▸ h)))
      · exact Or.inr (List.mem_singleton.mp h)

theorem stations_send (w : Wire) (addr a : Nat) (g : Grant) :
    (w.send addr g).stations a = w.stations a ∨
      (a = addr ∧ (w.send addr g).stations a = (w.stations addr).granted g) := by
  unfold Wire.send
  dsimp only
  split
  · simp only [Wire.modify, Function.update_apply]
    by_cases ha : a = addr
    · exact Or.inr ⟨ha, if_pos ha⟩
    · exact Or.inl (if_neg ha)
  · exact Or.inl rfl

theorem air_send (w : Wire) (addr : Nat) (g : Grant) {f : Frame} (h : f ∈ (w.send addr g).air) :
    f ∈ w.air ∨ f ∈ (w.stations addr).window addr g := by
  unfold Wire.send at h
  dsimp only at h
  split at h
  · exact List.mem_append.mp h
  · exact Or.inl h

theorem rx_send (w : Wire) (addr : Nat) (g : Grant) : (w.send addr g).rx = [] := by
  unfold Wire.send
  dsimp only
  split <;> rfl

theorem txq_granted {st : Station} {g : Grant} {f : Frame} (h : f ∈ (st.granted g).txq) :
    f ∈ st.txq := by
  cases g with
  | data => exact h
  | poll => cases h

theorem ownFrames_send {w : Wire} (h : w.OwnFrames) (addr : Nat) (g : Grant) :
    (w.send addr g).OwnFrames := by
  intro a f hf
  rcases stations_send w addr a g with heq | ⟨rfl, heq⟩
  · exact h a f (heq ▸ hf)
  · rw [heq] at hf
    exact h a f (txq_granted hf)

/-- A grant brings a terminator or an acknowledgement onto the air, no new reply. -/
theorem carries_send {w : Wire} (hown : w.OwnFrames) {addr : Nat} {g : Grant} {f : Frame}
    (h : (w.send addr g).Carries f) : w.Carries f ∨ f.shellReply = none := by
  rcases h with h | h | h
  · rcases air_send w addr g h with h | h
    · exact Or.inl (Or.inl h)
    · cases g with
      | data payload command =>
          right
          rw [List.mem_singleton.mp h]
          rfl
      | poll =>
          rcases List.mem_append.mp h with h | h
          · left; right; right
            rw [hown addr f h]
            exact h
          · right
            rw [List.mem_singleton.mp h]
            rfl
  · rw [rx_send] at h
    cases h
  · left; right; right
    rcases stations_send w addr f.src g with heq | ⟨hsrc, heq⟩
    · exact heq ▸ h
    · rw [heq] at h
      exact hsrc ▸ txq_granted h

theorem todo_send {w : Wire} {addr a : Nat} {g : Grant} {c : Command}
    (h : c ∈ ((w.send addr g).stations a).todo) :
    c ∈ (w.stations a).todo ∨ (a = addr ∧ ∃ payload, g = .data payload (some c)) := by
  rcases stations_send w addr a g with heq | ⟨rfl, heq⟩
  · exact Or.inl (heq ▸ h)
  · rw [heq] at h
    cases g with
    | data payload command =>
        rcases List.mem_append.mp h with h | h
        · exact Or.inl h
        · exact Or.inr ⟨rfl, payload, by rw [Option.mem_toList.mp h]⟩
    | poll => exact Or.inl h

theorem stations_answer (w : Wire) (c : Command) (body : Bytes) (a : Nat) :
    ∀ c' ∈ ((w.answer c body).stations a).todo, c' ∈ (w.stations a).todo := by
  have hqueue {w : Wire} {f : Frame} {c' : Command} (h : c' ∈ ((w.queue f).stations a).todo) :
      c' ∈ (w.stations a).todo := by
    rcases stations_queue w f a with heq | ⟨rfl, heq⟩
    · exact heq ▸ h
    · rw [heq] at h
      exact h
  intro c' h
  unfold Wire.answer at h
  split at h
  · have h := hqueue h
    rw [stations_modify] at h
    split at h
    · next ha => exact ha ▸ List.mem_of_mem_erase h
    · exact h
  · exact h

theorem carries_answer {w : Wire} {c : Command} {body : Bytes} {f : Frame}
    (h : (w.answer c body).Carries f) :
    w.Carries f ∨ (c ∈ (w.stations c.addr).todo ∧ f = c.reply body) := by
  unfold Wire.answer at h
  split at h
  · next hc =>
      rcases carries_queue h with h | h
      · left
        rcases h with h | h | h
        · exact Or.inl h
        · exact Or.inr (Or.inl h)
        · refine Or.inr (Or.inr ?_)
          rw [stations_modify] at h
          split at h
          · next ha => exact ha ▸ h
          · exact h
      · exact Or.inr ⟨hc, h⟩
  · exact Or.inl h

theorem ownFrames_answer {w : Wire} (h : w.OwnFrames) (c : Command) (body : Bytes) :
    (w.answer c body).OwnFrames := by
  unfold Wire.answer
  split
  · apply ownFrames_queue
    intro a f hf
    rw [stations_modify] at hf
    split at hf
    · next ha => exact ha ▸ h c.addr f hf
    · exact h a f hf
  · exact h

/-- Nodes queue their own frames. -/
theorem ownFrames_step (s : Master) (h : s.wire.OwnFrames) (a : Action) :
    (step s a).wire.OwnFrames := by
  have hwire := wireStep_step s a
  generalize (step s a).wire = w at hwire ⊢
  cases hwire with
  | sent addr g => exact ownFrames_send h addr g
  | queue addr payload => exact ownFrames_queue h _
  | answer c body => exact ownFrames_answer h c body
  | power addr on =>
      intro a f hf
      rw [stations_modify] at hf
      split at hf
      · next ha => exact ha ▸ h addr f hf
      · exact h a f hf
  | arrive =>
      unfold Wire.arrive
      split
      · exact h
      · exact h
  | _ => exact h

/-- A reply under way was under way before, or a node has just queued it. -/
theorem carries_step {a : Action} {f : Frame} (hown : s.wire.OwnFrames)
    (h : (step s a).wire.Carries f) (hreply : f.shellReply ≠ none) :
    s.wire.Carries f ∨ (∃ addr payload, a = .queue addr payload ∧
      f = { src := addr, type := .data, payload }) ∨
      ∃ c body, a = .answer c body ∧ c ∈ (s.wire.stations c.addr).todo ∧ f = c.reply body := by
  have hwire := wireStep_step s a
  generalize (step s a).wire = w at hwire h
  cases hwire with
  | same => exact Or.inl h
  | sent addr g => exact Or.inl ((carries_send hown h).resolve_right hreply)
  | taken g rx _ hrx =>
      refine Or.inl (h.imp_right fun h => h.imp_left fun h => ?_)
      rw [hrx]
      exact List.mem_cons_of_mem g h
  | gaveUp => exact Or.inl h
  | queue addr payload =>
      exact (carries_queue h).imp_right fun heq => Or.inl ⟨addr, payload, rfl, heq⟩
  | answer c body =>
      exact (carries_answer h).imp_right fun hc => Or.inr ⟨c, body, rfl, hc⟩
  | power addr on =>
      refine Or.inl (h.imp_right fun h => h.imp_right fun h => ?_)
      rw [stations_modify] at h
      split at h
      · next ha => exact ha ▸ h
      · exact h
  | arrive =>
      left
      unfold Wire.arrive at h
      split at h
      · exact h
      · next g air hair =>
          rcases h with h | h | h
          · exact Or.inl (hair ▸ List.mem_cons_of_mem g h)
          · rcases List.mem_append.mp h with h | h
            · exact Or.inr (Or.inl h)
            · exact Or.inl (hair ▸ List.mem_singleton.mp h ▸ List.mem_cons_self)
          · exact Or.inr (Or.inr h)
  | garble => exact Or.inl (h.imp_left List.mem_of_mem_tail)

/-- The commands a node still has to answer. -/
theorem todo_step {a : Action} {addr : Nat} {c : Command}
    (h : c ∈ ((step s a).wire.stations addr).todo) :
    c ∈ (s.wire.stations addr).todo ∨
      ∃ payload, a = .bus ∧ Transmits s addr (.data payload (some c)) := by
  have hwire := wireStep_step s a
  generalize (step s a).wire = w at hwire h
  cases hwire with
  | sent addr' g htransmits =>
      rcases todo_send h with h | ⟨rfl, payload, rfl⟩
      · exact Or.inl h
      · exact Or.inr ⟨payload, rfl, htransmits⟩
  | queue addr' payload =>
      left
      rcases stations_queue s.wire { src := addr', type := .data, payload } addr with heq | ⟨rfl, heq⟩
      · exact heq ▸ h
      · rw [heq] at h
        exact h
  | answer c' body => exact Or.inl (stations_answer _ _ _ _ c h)
  | power addr' on =>
      rw [stations_modify] at h
      split at h
      · next ha => exact Or.inl (ha ▸ h)
      · exact Or.inl h
  | arrive =>
      unfold Wire.arrive at h
      split at h
      · exact Or.inl h
      · exact Or.inl h
  | _ => exact Or.inl h

end SlowBus.Arbiter
