import SlowBus.Arbiter.Mail

/-!
# Conservation and delivery

Along every run each buffer stays in exactly one place, and every message that
`bus_msg_send` accepted is sent once to its node, or recovered unsent because the
node is dead or the table was rebuilt.
-/

namespace SlowBus.Arbiter

open Linked Placement Runs

variable {n : Nat} {s : Master} {placed : Place → List Buf}

/-! ## The accounts are kept -/

/-- Outside `bus_run_cycle`'s own call of `bus_msg_send` the bus task is in none. -/
theorem flights_busStep (s : Master) (hsend : s.pc ≠ .hostSend) (hadd : ∀ c, s.pc ≠ .hostAdd c) :
    s.busStep.flights = s.flights := by
  have hstep := busStep_cases s
  generalize s.busStep = s' at hstep ⊢
  cases hstep with
  | hostAdd cmd hpc => exact absurd hpc (hadd cmd)
  | hostSend hpc => exact absurd hpc hsend
  | _ => rfl

theorem flights_busMsgSend_of_ne (s : Master) {t u : Task} (hu : u ≠ t) :
    (s.busMsgSend t).flights u = s.flights u := by
  unfold Master.busMsgSend
  split
  · rfl
  · split <;> simp [Master.endSend, Master.stage, Master.forget, hu]
  · simp [Master.stage, hu]
  · split
    · simp [Master.stage, hu]
    · unfold Master.endSend Master.attach
      dsimp only
      split <;> simp [hu]
  · simp [Master.endSend, Master.forget, hu]

theorem flights_beginSend_of_ne (s : Master) {t u : Task} (hu : u ≠ t) (dest : Nat)
    (payload : Bytes) (command : Option Command) :
    (s.beginSend t dest payload command).flights u = s.flights u := by
  simp [Master.beginSend, hu]

theorem flights_issue_of_ne (s : Master) {t u : Task} (hu : u ≠ t) (c : Command)
    (payload : Bytes) : (s.issue t c payload).flights u = s.flights u := by
  simp only [Master.issue, Master.beginSend, Master.corrAdd, Function.update_of_ne hu]
  split <;> rfl

theorem flights_kbapp_of_ne (s : Master) {t u : Task} (hu : u ≠ t) (addr hostReqId : Nat)
    (bytes : Bytes) : (s.kbappOnEchoTo t addr hostReqId bytes).flights u = s.flights u := by
  unfold Master.kbappOnEchoTo
  split
  · exact flights_issue_of_ne _ hu _ _
  · split <;> rfl

theorem busIdle_step (h : BusIdle s) (a : Action) : BusIdle (step s a) := by
  have hproducer {k : Nat} : Task.bus ≠ .producer k := by simp
  cases a
  case bus =>
    change BusIdle s.busStep
    -- only a request of the host makes the engine itself a producer
    by_cases hsend : s.pc = .hostSend
    · have hstep : s.busStep = s.hostSendStep := by simp only [Master.busStep, hsend]
      rw [hstep, Master.hostSendStep]
      split
      · next hbus => exact Or.inr hbus
      · exact Or.inl ((pc_busMsgSend s .bus).trans hsend)
    · by_cases hadd : ∃ c, s.pc = .hostAdd c
      · obtain ⟨c, hadd⟩ := hadd
        have hstep : s.busStep = s.hostAddStep c := by simp only [Master.busStep, hadd]
        rw [hstep]
        exact Or.inl (pc_hostAddStep s c)
      · refine Or.inr ?_
        rw [flights_busStep s hsend (not_exists.mp hadd)]
        exact h.resolve_left hsend
  case alarm =>
    have hover := waitOver_cases s
    generalize step s .alarm = s' at hover ⊢
    cases hover with
    | none => exact h
    | _ => exact Or.inr (h.resolve_left (by simp [‹s.pc = _›]))
  case call n dest payload =>
    simp only [step]
    split
    · exact h.imp_right fun hbus => (flights_beginSend_of_ne s hproducer _ _ _).trans hbus
    · exact h
  case originate n addr hostReqId bytes =>
    simp only [step]
    split
    · exact h.imp (fun hpc => (congrArg Own.pc (own_kbappOnEchoTo ..)).trans hpc) fun hbus =>
        (flights_kbapp_of_ne _ hproducer _ _ _).trans hbus
    · exact h
  case send n =>
    exact h.imp (fun hpc => (pc_busMsgSend ..).trans hpc) fun hbus =>
      (flights_busMsgSend_of_ne _ hproducer).trans hbus
  case busMsg dest opcode body =>
    simp only [step, Master.onBusMsg]
    split <;> exact h
  case registerSlave addr enabled =>
    simp only [step, Master.registerSlave]
    split <;> exact h
  case uplinkEnter active cfg =>
    cases cfg <;> exact h
  all_goals exact h

/-- The accounts of a state can be drawn up. -/
def Kept (n : Nat) (s : Master) : Prop := BusIdle s ∧ ∃ placed, Accounted n s placed

theorem kept_boot (room : Nat) (cfg : Option RosterCfg) :
    Kept (busPoolSize room) (boot room cfg) := by
  have hflights : (boot room cfg).flights = fun _ => none := by cases cfg <;> rfl
  have hpc : (boot room cfg).pc = .top := by cases cfg <;> rfl
  have hhist : (boot room cfg).hist = {} := by cases cfg <;> rfl
  have hpool : (boot room cfg).pool = busPoolInit room := by cases cfg <;> rfl
  have hmsg (b : Buf) : (boot room cfg).msgOf b = none := by
    rw [Master.msgOf, hpool]
    exact (carved_spec _ (busPoolSize_le room)).2.2 b
  refine ⟨Or.inr (by rw [hflights]), unused (busPoolSize room), boot_stored room cfg, ?_, ?_⟩
  · rw [hflights, hhist]
    constructor <;> simp
  · rw [hhist, hpc]
    constructor
    case payload =>
      intro b msg hb
      rw [hmsg] at hb
      cases hb
    case balance => exact ⟨[], List.nodup_nil, fun b => by simp [Waiting, inHand, unused], List.Perm.nil⟩
    case queued =>
      intro i parity b msg hb
      cases hb
    case drawn =>
      intro i b msg hi
      cases hi
    case young =>
      intro i b msg c hb
      cases hb
    case drained => exact fun _ _ => rfl
    case sent => exact fun x hx => by cases hx
    case dead => exact fun x hx => by cases hx

theorem kept_step {room : Nat} (h : Kept (busPoolSize room) s) (a : Action) :
    Kept (busPoolSize room) (step s a) := by
  obtain ⟨hidle, placed, hs⟩ := h
  obtain ⟨-, ⟨placed', hs', -⟩, -⟩ := posted_step hs (busPoolSize_le room) hidle a
  exact ⟨busIdle_step hidle a, placed', hs'⟩

theorem kept_run (room : Nat) (cfg : Option RosterCfg) (as : List Action) :
    Kept (busPoolSize room) (run step (boot room cfg) as) :=
  run_invariant (fun _ a h => kept_step h a) (kept_boot room cfg)

/-! ## Conservation -/

/-- Where a buffer is, read off the state. -/
def InPlace (s : Master) (b : Buf) : Place → Prop
  | .free => ∃ l, Chain s.pool.next s.pool.free l ∧ b ∈ l
  | .queue i parity => ∃ l, Chain s.pool.next (listHead s.nodes i parity) l ∧ b ∈ l
  | .hand => b ∈ s.pc.hand.1 ∨ ∃ l, Chain s.pool.next s.pc.hand.2 l ∧ b ∈ l
  | .held t => heldBy s.flights t = some b

theorem inPlace_iff (h : Stored n s placed) (b : Buf) (p : Place) :
    InPlace s b p ↔ b ∈ placed p := by
  have hchain {head : Option Buf} {l : List Buf} (hl : Chain s.pool.next head l) :
      (∃ l', Chain s.pool.next head l' ∧ b ∈ l') ↔ b ∈ l :=
    ⟨fun ⟨_, hl', hb⟩ => hl'.unique hl ▸ hb, fun hb => ⟨l, hl, hb⟩⟩
  cases p with
  | free => exact hchain h.free
  | queue i parity => exact hchain (h.queue i parity)
  | hand =>
      obtain ⟨l, heq, hl⟩ := h.hand
      rw [InPlace, heq, List.mem_append, hchain hl]
  | held t =>
      rw [InPlace, h.held t, Option.mem_toList]

/-- The free list, and a counter that agrees with it. -/
def Counted (s : Master) : Prop :=
  ∃ l, Chain s.pool.next s.pool.free l ∧ l.Nodup ∧ s.pool.avail = l.length

/-! ## Delivery -/

/-- The message was put on the wire. -/
def Master.WasSent (s : Master) (msg : Msg) : Prop := ∃ x ∈ s.hist.sent, x.msg = msg

/-- The message was recovered unsent: its own node is dead, or the table was rebuilt. -/
def Master.WasDropped (s : Master) (msg : Msg) : Prop :=
  (msg, .dead msg.dest) ∈ s.hist.unsent ∨ (msg, .rebuilt) ∈ s.hist.unsent

/-- `bus_msg_send` returned true for the message in the given cycle. -/
def Master.Accepted (s : Master) (msg : Msg) (cycle : Nat) : Prop :=
  (msg, cycle) ∈ s.hist.accepted

structure DeliveredOnce (s : Master) : Prop where
  /-- No message is transmitted twice. -/
  once : (s.hist.sent.map (·.msg)).Nodup
  /-- What is transmitted was accepted, and goes to its own node as it is. -/
  faithful : ∀ x ∈ s.hist.sent, (∃ c, s.Accepted x.msg c) ∧ x.addr = x.msg.dest ∧
    x.payload = x.msg.payload.take busPayloadMax
  /-- What is dropped is not transmitted. -/
  exclusive : ∀ msg, s.WasDropped msg → ¬s.WasSent msg
  /-- What was accepted before a swap is settled when the message pass is over. -/
  settled : ∀ msg c, s.Accepted msg c → c < s.hist.cycle → s.pc.plain →
    s.WasSent msg ∨ s.WasDropped msg

theorem Accounted.accepted_nodup (h : Accounted n s placed) :
    (s.hist.accepted.map (some ·.1)).Nodup := by
  have hcalls := h.calls.once
  have hmap : s.hist.accepted.map (·.1.call) =
      (s.hist.accepted.map (some ·.1)).map fun m => (m.map (·.call)).getD 0 := by
    rw [List.map_map]
    rfl
  rw [hmap] at hcalls
  exact hcalls.of_map

theorem Accounted.deliveredOnce (h : Accounted n s placed) : DeliveredOnce s := by
  -- an accepted message was sent, was dropped or waits, and only one of these
  obtain ⟨pend, -, hpend, hperm⟩ := h.ledger.balance
  have hnodup := hperm.nodup_iff.mp h.accepted_nodup
  rw [List.nodup_append] at hnodup
  obtain ⟨hresolved, -, -⟩ := hnodup
  rw [List.nodup_append] at hresolved
  obtain ⟨hsent, -, hapart⟩ := hresolved
  have haccepted {msg : Msg} (hmem : some msg ∈ s.hist.accepted.map (some ·.1)) :
      ∃ c, s.Accepted msg c := by
    obtain ⟨x, hx, heq⟩ := List.mem_map.mp hmem
    cases heq
    exact ⟨x.2, hx⟩
  constructor
  · have hmap : s.hist.sent.map (some ·.msg) = (s.hist.sent.map (·.msg)).map some := by
      rw [List.map_map]
      rfl
    rw [hmap] at hsent
    exact hsent.of_map
  · intro x hx
    refine ⟨haccepted (hperm.mem_iff.mpr ?_), h.ledger.sent x hx⟩
    exact List.mem_append_left _ (List.mem_append_left _ (List.mem_map.mpr ⟨x, hx, rfl⟩))
  · rintro msg hdropped ⟨x, hx, rfl⟩
    refine hapart _ (List.mem_map.mpr ⟨x, hx, rfl⟩) (some x.msg) ?_ rfl
    rcases hdropped with hdropped | hdropped
    · exact List.mem_map.mpr ⟨_, hdropped, rfl⟩
    · exact List.mem_map.mpr ⟨_, hdropped, rfl⟩
  · intro msg c hc hcycle hplain
    have hmem := hperm.mem_iff.mp (List.mem_map.mpr ⟨_, hc, rfl⟩)
    rw [List.mem_append, List.mem_append] at hmem
    rcases hmem with (hmem | hmem) | hmem
    · obtain ⟨x, hx, heq⟩ := List.mem_map.mp hmem
      exact Or.inl ⟨x, hx, Option.some.inj heq⟩
    · obtain ⟨⟨m, why⟩, hx, heq⟩ := List.mem_map.mp hmem
      cases heq
      right
      cases why with
      | dead a =>
          obtain rfl : a = msg.dest := h.ledger.dead _ hx a rfl
          exact Or.inl hx
      | rebuilt => exact Or.inr hx
    · -- an unsettled message would wait on a fill list, where only young ones are
      exfalso
      obtain ⟨b, hb, hmsg⟩ := List.mem_map.mp hmem
      obtain ⟨hhand, -, hpassed⟩ := Pc.plain_spec hplain
      rcases (hpend b).mp hb with ⟨i, parity, hq⟩ | hin
      · by_cases hp : parity = s.active
        · rw [hp, h.ledger.drained i (hpassed i)] at hq
          cases hq
        · rw [Bool.eq_not_of_ne hp] at hq
          have := h.ledger.young i b msg c hq hmsg hc
          omega
      · rw [h.inHand_nil (by rw [hhand])] at hin
        cases hin

/-! ## The wire -/

def Grant.isData : Grant → Bool
  | .data _ _ => true
  | .poll => false

/-- The transmission of a message. -/
def Sent.grant (x : Sent) : Nat × Grant := (x.addr, .data x.payload x.msg.command)

/-- The DATA frame of a step that is no message: the command that the per-slot engine injects. -/
def Master.injects (s : Master) (a : Action) : List (Nat × Grant) :=
  match a, s.pc with
  | .bus, .inject cmd => [(cmd.slave, .data cmd.frame (some (cmd.command s.hist.commands)))]
  | _, _ => []

/-- The commands that a run injects. -/
def injections : Master → List Action → List (Nat × Grant)
  | _, [] => []
  | s, a :: as => s.injects a ++ injections (step s a) as

/-- The DATA frames of the master are those of the messages sent and the commands injected. -/
structure OnWire (s : Master) (injected : List (Nat × Grant)) : Prop where
  order : (s.hist.sent.map Sent.grant).Sublist s.wire.grants
  frames : (s.wire.grants.filter (·.2.isData)).Perm (s.hist.sent.map Sent.grant ++ injected)

variable {injected : List (Nat × Grant)}

/-- A step that sends no message transmits what it injects, and polls. -/
theorem OnWire.add {s' : Master} {l : List (Nat × Grant)} (h : OnWire s injected)
    (hgrants : s'.wire.grants = s.wire.grants ++ l) (hsent : s'.hist.sent = s.hist.sent) :
    OnWire s' (injected ++ l.filter (·.2.isData)) := by
  constructor
  · rw [hsent, hgrants]
    exact h.order.trans (List.sublist_append_left _ _)
  · rw [hsent, hgrants, List.filter_append, ← List.append_assoc]
    exact h.frames.append_right _

/-- A step that sends a message transmits it. -/
theorem OnWire.message {s' : Master} {x : Sent} (h : OnWire s injected)
    (hgrants : s'.wire.grants = s.wire.grants ++ [x.grant])
    (hsent : s'.hist.sent = s.hist.sent ++ [x]) : OnWire s' injected := by
  constructor
  · rw [hsent, hgrants, List.map_append]
    exact h.order.append (List.Sublist.refl _)
  · rw [hsent, hgrants, List.filter_append, List.map_append, List.append_assoc]
    refine (h.frames.append_right _).trans ?_
    rw [List.append_assoc]
    exact List.perm_append_comm.append_left _

theorem onWire_bus (h : OnWire s injected) :
    OnWire (step s .bus) (injected ++ s.injects .bus) := by
  by_cases hinject : ∃ cmd, s.pc = .inject cmd
  · obtain ⟨cmd, hpc⟩ := hinject
    have hinjects : s.injects .bus =
        [(cmd.slave, .data cmd.frame (some (cmd.command s.hist.commands)))] := by
      simp only [Master.injects, hpc]
    have hstep : step s .bus = s.injectStep cmd := by simp only [step, Master.busStep, hpc]
    have hgrants : (s.injectStep cmd).wire.grants = s.wire.grants ++ _ := grants_send s.wire _ _
    have hadd := h.add hgrants rfl
    rw [hstep, hinjects]
    exact hadd
  have hinjects : s.injects .bus = [] := by
    unfold Master.injects
    split
    next cmd _ hpc => exact absurd ⟨cmd, hpc⟩ hinject
    next => rfl
  -- the other steps send no DATA
  have hquiet {s' : Master} (hgrants : s'.wire.grants = s.wire.grants)
      (hsent : s'.hist.sent = s.hist.sent) : OnWire s' injected := by
    have hadd := h.add (l := []) (by rw [hgrants, List.append_nil]) hsent
    rwa [List.filter_nil, List.append_nil] at hadd
  have hpoll {s' : Master} (addr : Nat) (hwire : s'.wire = s.wire.send addr .poll)
      (hsent : s'.hist.sent = s.hist.sent) : OnWire s' injected := by
    have hadd := h.add (by rw [hwire, grants_send]) hsent
    rwa [List.filter_singleton, Grant.isData, cond_false, List.append_nil] at hadd
  rw [hinjects, List.append_nil]
  have hstep := busStep_cases s
  change OnWire s.busStep injected
  generalize s.busStep = s' at hstep ⊢
  cases hstep with
  -- the message is on the wire and in the history at once
  | transmit i b node msg => exact h.message (grants_send s.wire _ _) rfl
  | inject cmd hpc => exact absurd ⟨cmd, hpc⟩ hinject
  | sweepPoll i node => exact hpoll node.addr rfl rfl
  | probe i node => exact hpoll node.addr rfl rfl
  | choosePoll c => exact hpoll c.command.addr rfl rfl
  | chooseSlot addr => exact hpoll addr rfl rfl
  | hostAdd cmd =>
      exact hquiet (congrArg Wire.grants (wire_hostAddStep s cmd))
        (congrArg Own.sent (own_hostAddStep s cmd))
  | hostSend =>
      exact hquiet (congrArg Wire.grants (wire_busMsgSend s .bus))
        (congrArg Own.sent (own_busMsgSend s .bus))
  | orphan b => exact hquiet rfl (congrArg Own.sent (own_unsent s b .rebuilt))
  | drainDead i b node => exact hquiet rfl (congrArg Own.sent (own_unsent s b (.dead node.addr)))
  | _ => exact hquiet rfl rfl

theorem onWire_step (h : OnWire s injected) (a : Action) :
    OnWire (step s a) (injected ++ s.injects a) := by
  by_cases hbus : a = .bus
  · subst hbus
    exact onWire_bus h
  have hinjects : s.injects a = [] := by
    unfold Master.injects
    split
    next => exact absurd rfl hbus
    next => rfl
  have hsent : (step s a).hist.sent = s.hist.sent := by
    by_cases halarm : a = .alarm
    · subst halarm
      have hstep := waitOver_cases s
      generalize step s .alarm = s' at hstep ⊢
      cases hstep <;> rfl
    · exact congrArg Own.sent (own_step s hbus halarm)
  have hadd := h.add (l := []) (by rw [grants_step s hbus, List.append_nil]) hsent
  rwa [List.filter_nil, ← hinjects] at hadd

theorem onWire_run (h : OnWire s injected) (as : List Action) :
    OnWire (run step s as) (injected ++ injections s as) := by
  induction as generalizing s injected with
  | nil => exact (List.append_nil injected).symm ▸ h
  | cons a as ih =>
      have hrest := ih (onWire_step h a)
      rwa [List.append_assoc] at hrest

theorem onWire_boot (room : Nat) (cfg : Option RosterCfg) : OnWire (boot room cfg) [] := by
  have hwire : (boot room cfg).wire = {} := by cases cfg <;> rfl
  have hhist : (boot room cfg).hist = {} := by cases cfg <;> rfl
  constructor
  · rw [hhist, hwire]
    exact List.Sublist.refl _
  · rw [hhist, hwire]
    exact List.Perm.refl _

/-- Every buffer is in one place, the counter of free buffers is right, and every
message is delivered once or dropped for a reason, in every state of every run. The DATA
frames of the master are the messages delivered and what the per-slot engine injects. -/
theorem buffers_conserved_and_delivered_once (room : Nat) (cfg : Option RosterCfg)
    (as : List Action) :
    let s := run step (boot room cfg) as
    (∀ b, b < busPoolSize room → ∃! p, InPlace s b p) ∧ Counted s ∧ DeliveredOnce s ∧
      OnWire s (injections (boot room cfg) as) := by
  obtain ⟨-, placed, h⟩ := kept_run room cfg as
  refine ⟨fun b hb => ?_, ⟨placed .free, h.stored.free, h.stored.places.nodup _, h.stored.avail⟩,
    h.deliveredOnce, onWire_run (onWire_boot room cfg) as⟩
  obtain ⟨p, hp, hunique⟩ := h.stored.places.existsUnique hb
  exact ⟨p, (inPlace_iff h.stored b p).mpr hp,
    fun q hq => hunique q ((inPlace_iff h.stored b q).mp hq)⟩

end SlowBus.Arbiter
