import SlowBus.Arbiter.Windows

/-!
# Commands under way

A command of the cyclic engine is in a call of `bus_msg_send`, in a buffer, with its
node, or on its way back as a reply. A new one only comes from whoever issues it.
-/

namespace SlowBus.Arbiter

open Runs

/-- The bus task takes the branch of the cyclic engine. -/
def Cyclic (s : Master) : Action → Prop
  | .bus => s.pc = .top → s.cycleMode = true
  | _ => True

instance (s : Master) (a : Action) : Decidable (Cyclic s a) := by
  unfold Cyclic
  split <;> infer_instance

/-- The program points of the per-slot engine. -/
def Pc.perSlot : Pc → Bool
  | .choose | .inject _ | .injectWait _ _ | .collectWait _ | .slot _ _ => true
  | _ => false

variable {s : Master}

theorem perSlot_step {a : Action} (h : s.pc.perSlot = false) (hcyclic : Cyclic s a) :
    (step s a).pc.perSlot = false := by
  by_cases hbus : a = .bus
  · subst hbus
    have hstep := busStep_cases s
    change s.busStep.pc.perSlot = false
    generalize s.busStep = s' at hstep ⊢
    cases hstep with
    | promote hpc hmode => rw [hcyclic hpc] at hmode; cases hmode
    | hostAdd cmd => rw [pc_hostAddStep]; rfl
    | hostSend hpc => rw [pc_busMsgSend]; exact h
    | drainGone => exact h
    | wait => exact h
    | ignore => exact h
    | _ => first | rfl | simp_all [Pc.perSlot]
  by_cases halarm : a = .alarm
  · subst halarm
    have hstep := waitOver_cases s
    generalize step s .alarm = s' at hstep ⊢
    cases hstep with
    | none => exact h
    | _ => rfl
  rw [pc_step s hbus halarm]
  exact h

/-! ## Messages -/

/-- A task is sending the message, or a buffer carries it. -/
def Master.Holds (s : Master) (msg : Msg) : Prop :=
  (∃ t flight, s.flights t = some flight ∧ flight.msg = msg) ∨ ∃ b, s.msgOf b = some msg

variable {msg : Msg}

/-- Nothing new in the buffers, nor in the calls. -/
theorem Master.Holds.mono {s' : Master} (h : s'.Holds msg)
    (hpool : ∀ b m, s'.msgOf b = some m → s.msgOf b = some m)
    (hflights : ∀ t f, s'.flights t = some f → ∃ f', s.flights t = some f' ∧ f'.msg = f.msg) :
    s.Holds msg := by
  rcases h with ⟨t, f, hf, rfl⟩ | ⟨b, hb⟩
  · obtain ⟨f', hf', heq⟩ := hflights t f hf
    exact Or.inl ⟨t, f', hf', heq⟩
  · exact Or.inr ⟨b, hpool b msg hb⟩

theorem msg_recover {p : Pool} {b c : Buf} {m : Msg} (h : ((poolRecover p b).mem c).msg = some m) :
    (p.mem c).msg = some m := by
  rcases eq_or_ne c b with rfl | hc
  · rw [msg_recover_self] at h
    cases h
  · rwa [mem_recover_of_ne p hc] at h

theorem msg_detachList (fuel : Nat) (head : Option Buf) (acc : Option Buf × Pool) (b : Buf) :
    ((detachList fuel head acc).2.mem b).msg = (acc.2.mem b).msg := by
  induction fuel generalizing head acc with
  | zero => rfl
  | succ fuel ih =>
      cases head with
      | none => rfl
      | some c =>
          rw [detachList, ih]
          exact msg_setNext ..

theorem msg_detachAll (nodes : List Node) (pool : Pool) (b : Buf) :
    ((detachAll nodes pool).2.mem b).msg = (pool.mem b).msg := by
  have hfold (acc : Option Buf × Pool) :
      ((nodes.foldl (fun acc node => detachList busPoolN (node.list true)
        (detachList busPoolN (node.list false) acc)) acc).2.mem b).msg = (acc.2.mem b).msg := by
    induction nodes generalizing acc with
    | nil => rfl
    | cons node nodes ih => rw [List.foldl_cons, ih, msg_detachList, msg_detachList]
  exact hfold (none, pool)

/-- A step of `bus_msg_send` passes the message of the call on, or drops it. -/
theorem holds_busMsgSend {t : Task} (h : (s.busMsgSend t).Holds msg) : s.Holds msg := by
  -- the call of `t` ends, the others are as before
  have hend {s' : Master} (hs : s'.flights = s.flights) (u : Task) (f : Flight)
      (hf : (s'.endSend t).flights u = some f) : ∃ f', s.flights u = some f' ∧ f'.msg = f.msg := by
    simp only [Master.endSend, hs] at hf
    rcases eq_or_ne u t with rfl | hu
    · simp at hf
    · rw [Function.update_of_ne hu] at hf
      exact ⟨f, hf, rfl⟩
  -- the call of `t` goes on with the same message
  have hstage (s' : Master) (stage : Stage) {g : Flight} (hs : s'.flights = s.flights)
      (hg : s.flights t = some g) (u : Task) (f : Flight)
      (hf : (s'.stage t g.msg stage).flights u = some f) :
      ∃ f', s.flights u = some f' ∧ f'.msg = f.msg := by
    simp only [Master.stage, hs] at hf
    rcases eq_or_ne u t with rfl | hu
    · rw [Function.update_self] at hf
      cases hf
      exact ⟨g, hg, rfl⟩
    · rw [Function.update_of_ne hu] at hf
      exact ⟨f, hf, rfl⟩
  unfold Master.busMsgSend at h
  split at h
  · exact h
  · next m hg =>
      split at h
      · exact h.mono (fun _ _ => id) (hend rfl)
      · next b pool hgrab =>
          obtain ⟨-, -, -, hmem⟩ := poolGrab_eq_some hgrab
          refine h.mono (fun c m' hc => ?_) (hstage { s with pool } (.fill b) rfl hg)
          change (pool.mem c).msg = some m' at hc
          rwa [hmem] at hc
  · next m b hg =>
      have hflights := hstage { s with pool := s.pool.fill b m } (.attach b) rfl hg
      rcases h with ⟨u, f, hf, rfl⟩ | ⟨c, hc⟩
      · obtain ⟨f', hf', heq⟩ := hflights u f hf
        exact Or.inl ⟨u, f', hf', heq⟩
      · change ((s.pool.fill b m).mem c).msg = some msg at hc
        rcases eq_or_ne c b with rfl | hcb
        · rw [msg_fill_self] at hc
          cases hc
          exact Or.inl ⟨t, _, hg, rfl⟩
        · rw [mem_fill_of_ne s.pool hcb] at hc
          exact Or.inr ⟨c, hc⟩
  · next m b hg =>
      split at h
      · exact h.mono (fun _ _ => id) (hstage s (.recover b) rfl hg)
      · next i hi =>
          unfold Master.attach at h
          dsimp only at h
          split at h
          · exact h.mono (fun _ _ => id) (hend rfl)
          · refine h.mono (fun c m' hc => ?_) (hend rfl)
            simpa [Master.msgOf, Master.endSend] using hc
  · next m b hg => exact h.mono (fun c m' hc => msg_recover hc) (hend rfl)

/-- A new message is that of the command issued. -/
theorem holds_issue (s' : Master) {t : Task} {c : Command} {payload : Bytes}
    (hpool : s'.pool = s.pool) (hflights : s'.flights = s.flights)
    (h : (s'.issue t c payload).Holds msg) :
    s.Holds msg ∨ msg.command = some c ∧ msg.payload = payload := by
  have hissue : (s'.issue t c payload).pool = s.pool ∧ ∃ call,
      (s'.issue t c payload).flights = Function.update s.flights t
        (some { msg := { call, dest := c.addr, payload, command := some c }, stage := .grab }) := by
    simp only [Master.issue, Master.beginSend, Master.corrAdd]
    split <;> exact ⟨hpool, _, by rw [hflights]⟩
  obtain ⟨hpool', call, hflights'⟩ := hissue
  rcases h with ⟨u, f, hf, rfl⟩ | ⟨b, hb⟩
  · rw [hflights'] at hf
    rcases eq_or_ne u t with rfl | hu
    · rw [Function.update_self] at hf
      cases hf
      exact Or.inr ⟨rfl, rfl⟩
    · rw [Function.update_of_ne hu] at hf
      exact Or.inl (Or.inl ⟨u, f, hf, rfl⟩)
  · rw [Master.msgOf, hpool'] at hb
    exact Or.inl (Or.inr ⟨b, hb⟩)

theorem holds_bus (h : (step s .bus).Holds msg) :
    s.Holds msg ∨ ∃ c, s.issues .bus = some c ∧ msg.command = some c := by
  have hstep := busStep_cases s
  change s.busStep.Holds msg at h
  generalize s.busStep = s' at hstep h
  cases hstep with
  | hostAdd cmd hpc =>
      refine (holds_issue (s := s) { s with pc := .hostSend } rfl rfl h).imp_right
        fun hc => ?_
      exact ⟨_, by simp [Master.issues, hpc], hc.1⟩
  | hostSend => exact Or.inl (holds_busMsgSend h)
  | rebuild =>
      refine Or.inl (h.mono (fun b m hb => ?_) fun t f hf => ⟨f, hf, rfl⟩)
      exact (msg_detachAll s.nodes s.pool b).symm.trans hb
  | orphan b =>
      exact Or.inl (h.mono (fun c m hc => msg_recover hc) fun t f hf => ⟨f, hf, rfl⟩)
  | release i b =>
      exact Or.inl (h.mono (fun c m hc => msg_recover hc) fun t f hf => ⟨f, hf, rfl⟩)
  | _ => exact Or.inl h

/-- A message with a command is held already, or its command is being issued. -/
theorem holds_step {a : Action} {c : Command} (h : (step s a).Holds msg)
    (hc : msg.command = some c) : s.Holds msg ∨ s.issues a = some c := by
  cases a
  case bus =>
    refine (holds_bus h).imp_right fun ⟨c', hissues, hc'⟩ => ?_
    rw [hissues, ← hc', hc]
  case alarm =>
    have hstep := waitOver_cases s
    generalize step s .alarm = s' at hstep h
    cases hstep <;> exact Or.inl h
  case call n dest payload =>
    left
    simp only [step] at h
    split at h
    -- the message of a bare call has no command
    · rcases h with ⟨u, f, hf, rfl⟩ | hb
      · rcases eq_or_ne u (.producer n) with rfl | hu
        · simp only [Master.beginSend, Function.update_self] at hf
          cases hf
          cases hc
        · rw [flights_beginSend_of_ne s hu] at hf
          exact Or.inl ⟨u, f, hf, rfl⟩
      · exact Or.inr hb
    · exact h
  case originate n addr hostReqId bytes =>
    simp only [step, Master.kbappOnEchoTo] at h
    split at h
    · next hidle =>
        split at h
        · next hmode =>
            refine (holds_issue (s := s) { s with origSeq := nextOrigSeq s.origSeq }
              rfl rfl h).imp_right fun hc' => ?_
            rw [← hc, hc'.1]
            exact if_pos ⟨hidle, hmode⟩
        · split at h <;> exact Or.inl h
    · exact Or.inl h
  case send n => exact Or.inl (holds_busMsgSend h)
  case busMsg dest opcode body =>
    simp only [step, Master.onBusMsg] at h
    split at h <;> exact Or.inl h
  case registerSlave addr enabled =>
    simp only [step, Master.registerSlave] at h
    split at h <;> exact Or.inl h
  case uplinkEnter active cfg => cases cfg <;> exact Or.inl h
  all_goals exact Or.inl h

/-! ## Commands -/

/-- The command a step numbers: one that is issued, or one the per-slot engine injects. -/
def Master.numbers (s : Master) (a : Action) : Option Command :=
  match a, s.pc with
  | .bus, .inject cmd => some (cmd.command s.hist.commands)
  | _, _ => s.issues a

theorem numbers_inject {cmd : HostCmd} (h : s.pc = .inject cmd) :
    s.numbers .bus = some (cmd.command s.hist.commands) := by
  simp [Master.numbers, h]

theorem numbers_of_issues {a : Action} {c : Command} (h : s.issues a = some c) :
    s.numbers a = some c := by
  unfold Master.numbers
  split
  · next cmd hpc => simp [Master.issues, hpc] at h
  · exact h

theorem numbers_cyclic (h : s.pc.perSlot = false) (a : Action) : s.numbers a = s.issues a := by
  unfold Master.numbers
  split
  · next cmd hpc => rw [hpc] at h; cases h
  · rfl

/-- A reply to the command can still come. -/
inductive Master.Owes (s : Master) (c : Command) : Prop
  | message (msg : Msg) (h : s.Holds msg) (hc : msg.command = some c)
  | node (addr : Nat) (h : c ∈ (s.wire.stations addr).todo)
  | reply (f : Frame) (h : s.wire.Carries f) (hreply : f.shellReply ≠ none)
      (hc : f.answers = some c)

/-- A command is under way from the moment it is numbered. -/
theorem owed_step {a : Action} {c : Command} (hown : s.wire.OwnFrames)
    (h : (step s a).Owes c) : s.Owes c ∨ s.numbers a = some c := by
  cases h with
  | message msg h hc =>
      exact (holds_step h hc).imp (fun h => .message msg h hc) numbers_of_issues
  | node addr h =>
      rcases todo_step h with h | ⟨payload, rfl, htransmits⟩
      · exact Or.inl (.node addr h)
      · generalize hg : Grant.data payload (some c) = g at htransmits
        cases htransmits with
        | pass i b node msg hdrain hnode hmsg =>
            injection hg with _ hcommand
            exact Or.inl (.message msg (Or.inr ⟨b, hmsg⟩) hcommand.symm)
        | inject cmd hinject =>
            cases hg
            exact Or.inr (numbers_inject hinject)
        | _ => cases hg
  | reply f h hreply hc =>
      left
      rcases carries_step hown h hreply with
        h | ⟨addr, payload, -, rfl⟩ | ⟨c', body, -, htodo, rfl⟩
      · exact .reply f h hreply hc
      · cases hc
      · cases hc
        exact .node c.addr htodo

/-- In the cyclic engine a command is under way from the moment it is issued. -/
theorem owes_step {a : Action} {c : Command} (hown : s.wire.OwnFrames)
    (hpc : s.pc.perSlot = false) (h : (step s a).Owes c) : s.Owes c ∨ s.issues a = some c :=
  numbers_cyclic hpc a ▸ owed_step hown h

/-- A reply under way is what its node made of the command. -/
def Wire.Genuine (w : Wire) : Prop :=
  ∀ f, w.Carries f → f.shellReply ≠ none → ∀ c, f.answers = some c → ∃ rest, f = c.reply rest

theorem genuine_step (a : Action) (hown : s.wire.OwnFrames) (h : s.wire.Genuine) :
    (step s a).wire.Genuine := by
  intro f hf hreply c hc
  rcases carries_step hown hf hreply with
    hf | ⟨addr, payload, -, rfl⟩ | ⟨c', body, -, -, rfl⟩
  · exact h f hf hreply c hc
  · cases hc
  · cases hc
    exact ⟨body, rfl⟩

theorem not_owes_boot (room : Nat) (cfg : Option RosterCfg) (c : Command) :
    ¬(boot room cfg).Owes c := by
  have hwire : (boot room cfg).wire = {} := by cases cfg <;> rfl
  have hflights : (boot room cfg).flights = fun _ => none := by cases cfg <;> rfl
  have hpool : (boot room cfg).pool = busPoolInit room := by cases cfg <;> rfl
  intro h
  cases h with
  | message msg h hc =>
      rcases h with ⟨t, f, hf, -⟩ | ⟨b, hb⟩
      · rw [hflights] at hf
        cases hf
      · rw [Master.msgOf, hpool] at hb
        have hnone := (carved_spec (busPoolSize room) (busPoolSize_le room)).2.2 b
        cases hnone.symm.trans hb
  | node addr h =>
      rw [hwire] at h
      cases h
  | reply f h => simp [Wire.Carries, hwire] at h

end SlowBus.Arbiter
