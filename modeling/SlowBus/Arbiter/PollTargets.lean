import SlowBus.Arbiter.NodesDead

/-!
# Whom the engines poll

The per-slot engine polls enabled roster entries, and only while polling is on.
The cyclic engine goes by its table and looks at neither, so that it polls the
same nodes only while everything on the roster is enabled and polling is on.
-/

namespace SlowBus.Arbiter

open Runs

/-! ## The roster without liveness -/

/-- An address is configured, and not enabled. -/
def Disabled (roster : List Slave) (addr : Nat) : Prop :=
  ∃ e ∈ roster, e.addr = addr ∧ e.enabled = false

/-- No address is configured both enabled and disabled. -/
def Coherent (roster : List Slave) : Prop :=
  ∀ e ∈ roster, e.enabled = true → ¬Disabled roster e.addr

/-- Every entry is enabled, and polling is on unless there is none. -/
def Ready (roster : List Slave) (polling : Bool) : Prop :=
  (∀ e ∈ roster, e.enabled = true) ∧ (roster ≠ [] → polling = true)

/-- Every node of the table is on the roster. -/
def Covers (roster : List Slave) (table : List Node) : Prop :=
  ∀ n ∈ table, ∃ e ∈ roster, e.addr = n.addr

instance (roster : List Slave) (addr : Nat) : Decidable (Disabled roster addr) := by
  unfold Disabled
  infer_instance

instance (roster : List Slave) : Decidable (Coherent roster) := by
  unfold Coherent
  infer_instance

instance (roster : List Slave) (polling : Bool) : Decidable (Ready roster polling) := by
  unfold Ready
  infer_instance

instance (roster : List Slave) (table : List Node) : Decidable (Covers roster table) := by
  unfold Covers
  infer_instance

/-- What configures an entry. -/
def Slave.flags (e : Slave) : Nat × Bool := (e.addr, e.enabled)

variable {roster roster' : List Slave} {table table' : List Node} {polling : Bool} {addr : Nat}

theorem mem_of_flags (h : roster'.map Slave.flags = roster.map Slave.flags) {e : Slave}
    (he : e ∈ roster) : ∃ e' ∈ roster', e'.addr = e.addr ∧ e'.enabled = e.enabled := by
  have hmem : e.flags ∈ roster'.map Slave.flags := h ▸ List.mem_map_of_mem he
  obtain ⟨e', he', heq⟩ := List.mem_map.mp hmem
  simp only [Slave.flags, Prod.mk.injEq] at heq
  exact ⟨e', he', heq.1, heq.2⟩

theorem Disabled.congr (h : roster'.map Slave.flags = roster.map Slave.flags)
    (hd : Disabled roster addr) : Disabled roster' addr := by
  obtain ⟨e, he, haddr, hen⟩ := hd
  obtain ⟨e', he', haddr', hen'⟩ := mem_of_flags h he
  exact ⟨e', he', haddr'.trans haddr, hen'.trans hen⟩

theorem Coherent.congr (h : roster'.map Slave.flags = roster.map Slave.flags)
    (hc : Coherent roster) : Coherent roster' := by
  intro e he hen hd
  obtain ⟨e', he', haddr, hen'⟩ := mem_of_flags h.symm he
  exact hc e' he' (hen'.trans hen) (haddr ▸ hd.congr h.symm)

theorem Ready.congr (h : roster'.map Slave.flags = roster.map Slave.flags)
    (hr : Ready roster polling) : Ready roster' polling := by
  refine ⟨fun e he => ?_, fun hne => hr.2 ?_⟩
  · obtain ⟨e', he', -, hen⟩ := mem_of_flags h.symm he
    exact hen.symm.trans (hr.1 e' he')
  · rintro rfl
    simp at h
    exact hne h

theorem Covers.congr (h : roster'.map Slave.flags = roster.map Slave.flags)
    (htable : table'.map (·.addr) = table.map (·.addr)) (hc : Covers roster table) :
    Covers roster' table' := by
  intro n hn
  have hmem : n.addr ∈ table.map (·.addr) := htable ▸ List.mem_map_of_mem hn
  obtain ⟨m, hm, hmn⟩ := List.mem_map.mp hmem
  obtain ⟨e, he, haddr⟩ := hc m hm
  obtain ⟨e', he', haddr', -⟩ := mem_of_flags h he
  exact ⟨e', he', haddr'.trans (haddr.trans hmn)⟩

theorem flags_rosterModify {f : Slave → Slave} (hf : ∀ e, (f e).flags = e.flags) (addr : Nat)
    (roster : List Slave) :
    (rosterModify addr f roster).map Slave.flags = roster.map Slave.flags := by
  induction roster with
  | nil => rfl
  | cons e roster ih =>
      rw [rosterModify_cons]
      split
      · rw [List.map_cons, List.map_cons, hf]
      · rw [List.map_cons, List.map_cons, ih]

theorem mem_rosterModify {f : Slave → Slave} {e : Slave} (h : e ∈ rosterModify addr f roster) :
    e ∈ roster ∨ ∃ e' ∈ roster, e'.addr = addr ∧ e = f e' := by
  induction roster with
  | nil => cases h
  | cons x roster ih =>
      rw [rosterModify_cons] at h
      split at h
      · next hx =>
          rcases List.mem_cons.mp h with rfl | h
          · exact Or.inr ⟨x, List.mem_cons_self, hx, rfl⟩
          · exact Or.inl (List.mem_cons_of_mem x h)
      · rcases List.mem_cons.mp h with rfl | h
        · exact Or.inl List.mem_cons_self
        · rcases ih h with h | ⟨e', he', haddr, rfl⟩
          · exact Or.inl (List.mem_cons_of_mem x h)
          · exact Or.inr ⟨e', List.mem_cons_of_mem x he', haddr, rfl⟩

/-- The rotation only ever returns enabled entries. -/
theorem nextEnabledAddr_enabled {n cursor : Nat}
    (h : (nextEnabledAddr roster n cursor).1 ≠ noAddr) :
    ∃ e ∈ roster, e.addr = (nextEnabledAddr roster n cursor).1 ∧ e.enabled = true := by
  induction n generalizing cursor with
  | zero => exact absurd rfl h
  | succ n ih =>
      simp only [nextEnabledAddr] at h ⊢
      split at h
      · exact absurd rfl h
      · next e he =>
          split at h
          · next hen =>
              simp only [if_pos hen]
              exact ⟨e, List.mem_of_getElem? he, rfl, hen⟩
          · next hen =>
              simp only [if_neg hen]
              exact ih h

/-! ## When both engines go by the same nodes -/

variable {s : Master}

/-- The node whose slot the per-slot engine waits for. -/
def Pc.slotAddr : Pc → Option Nat
  | .slot addr _ => some addr
  | _ => none

/-- The roster is left coherent; during a cycle it still has the nodes of the
table, all enabled, with polling on; and a node whose slot is open is not disabled. -/
structure EditAllowed (s : Master) (roster : List Slave) (polling : Bool) : Prop where
  coherent : Coherent roster
  cycle : s.pc.cycling = true → Ready roster polling ∧ Covers roster s.nodes
  slot : ∀ addr ∈ s.pc.slotAddr, ¬Disabled roster addr

instance (s : Master) (roster : List Slave) (polling : Bool) :
    Decidable (EditAllowed s roster polling) :=
  decidable_of_iff (Coherent roster ∧
      (s.pc.cycling = true → Ready roster polling ∧ Covers roster s.nodes) ∧
      ∀ addr ∈ s.pc.slotAddr, ¬Disabled roster addr)
    ⟨fun h => ⟨h.1, h.2.1, h.2.2⟩, fun h => ⟨h.coherent, h.cycle, h.slot⟩⟩

/-- A cycle begins with every entry enabled, polling on and a table that is not out
of date; the per-slot engine collects from no disabled node; edits are allowed. -/
def SameNodes (s : Master) : Action → Prop
  | .bus =>
      (s.pc = .top → s.cycleMode = true →
        Ready s.roster s.pollEnabled ∧ (s.dirty = true ∨ Covers s.roster s.nodes)) ∧
      (s.pc = .choose → ∀ c ∈ s.collect, ¬Disabled s.roster c.command.addr)
  | .clearRoster => EditAllowed s [] s.pollEnabled
  | .registerSlave addr enabled =>
      s.roster.length < rosterMax →
        EditAllowed s (s.roster ++ [{ addr, enabled }]) s.pollEnabled
  | .uplinkEnter _ cfg => EditAllowed s (cfgRoster cfg) (decide (cfgRoster cfg ≠ []))
  | .pollEnable on => EditAllowed s s.roster on
  | _ => True

instance (s : Master) : (a : Action) → Decidable (SameNodes s a)
  | .bus => inferInstanceAs (Decidable ((_ → _ → _) ∧ (_ → ∀ c ∈ s.collect, ¬ _)))
  | .registerSlave _ _ => inferInstanceAs (Decidable (_ → _))
  | .clearRoster | .uplinkEnter _ _ | .pollEnable _ =>
      inferInstanceAs (Decidable (EditAllowed ..))
  | .alarm | .call _ _ _ | .originate _ _ _ _ | .send _ | .busMsg _ _ _ | .setPoll _
  | .cycleMode _ | .setSlowpoll _ | .pingPong _ | .linkRoom _ | .queue _ _ | .answer _ _
  | .power _ _ | .arrive | .garble =>
      inferInstanceAs (Decidable True)

/-- Nothing disabled is dead, and what a cycle or a slot is about is enabled. -/
structure Aligned (s : Master) : Prop extends EditAllowed s s.roster s.pollEnabled where
  undead : ∀ e ∈ s.roster, e.enabled = false → e.state ≠ .dead

theorem EditAllowed.congr {s' : Master} {roster roster' : List Slave} {polling polling' : Bool}
    (h : EditAllowed s roster polling)
    (hflags : roster'.map Slave.flags = roster.map Slave.flags)
    (hpolling : polling' = polling) (hnodes : s'.nodes.map (·.addr) = s.nodes.map (·.addr))
    (hcycle : s'.pc.cycling = true → s.pc.cycling = true)
    (hslot : ∀ addr ∈ s'.pc.slotAddr, addr ∈ s.pc.slotAddr) : EditAllowed s' roster' polling' where
  coherent := h.coherent.congr hflags
  cycle hpc := by
    obtain ⟨hready, hcovers⟩ := h.cycle (hcycle hpc)
    exact ⟨hpolling ▸ hready.congr hflags, hcovers.congr hflags hnodes⟩
  slot addr haddr hd := h.slot addr (hslot addr haddr) (hd.congr hflags.symm)

theorem undead_markAlive (h : ∀ e ∈ roster, e.enabled = false → e.state ≠ .dead) (addr : Nat) :
    ∀ e ∈ markAlive addr roster, e.enabled = false → e.state ≠ .dead := by
  intro e he hen
  rcases mem_rosterModify he with he | ⟨e', -, -, rfl⟩
  · exact h e he hen
  · simp

theorem undead_markMiss (h : ∀ e ∈ roster, e.enabled = false → e.state ≠ .dead)
    (hd : ¬Disabled roster addr) (maxMisses : Nat) :
    ∀ e ∈ markMiss maxMisses addr roster, e.enabled = false → e.state ≠ .dead := by
  intro e he hen
  rcases mem_rosterModify he with he | ⟨e', he', haddr, rfl⟩
  · exact h e he hen
  · exact absurd ⟨e', he', haddr, hen⟩ hd

theorem not_disabled_of_ready (h : Ready roster polling) (addr : Nat) : ¬Disabled roster addr := by
  rintro ⟨e, he, -, hen⟩
  rw [h.1 e he] at hen
  cases hen

theorem covers_build (roster : List Slave) : Covers roster (busNodetableBuild roster) := by
  intro n hn
  obtain ⟨e, he, rfl⟩ := mem_busNodetableBuild hn
  exact ⟨e, he, rfl⟩

theorem addrs_of_life {s' : Master} (h : s'.life.table = s.life.table) :
    s'.nodes.map (·.addr) = s.nodes.map (·.addr) := by
  have hmap := congrArg (List.map (·.addr)) h
  simp only [Master.life, List.map_map] at hmap
  exact hmap

/-- A step that leaves the roster, the addresses of the table and polling as they are. -/
theorem Aligned.quiet {s' : Master} (h : Aligned s) (hroster : s'.roster = s.roster)
    (htable : s'.life.table = s.life.table) (hpolling : s'.pollEnabled = s.pollEnabled)
    (hcycle : s'.pc.cycling = true → s.pc.cycling = true)
    (hslot : ∀ addr ∈ s'.pc.slotAddr, addr ∈ s.pc.slotAddr) : Aligned s' where
  toEditAllowed := h.toEditAllowed.congr (by rw [hroster]) hpolling (addrs_of_life htable)
    hcycle hslot
  undead := hroster ▸ h.undead

/-- The roster is only marked. -/
theorem Aligned.marked {s' : Master} (h : Aligned s)
    (hflags : s'.roster.map Slave.flags = s.roster.map Slave.flags)
    (hundead : ∀ e ∈ s'.roster, e.enabled = false → e.state ≠ .dead)
    (hnodes : s'.nodes.map (·.addr) = s.nodes.map (·.addr))
    (hpolling : s'.pollEnabled = s.pollEnabled)
    (hcycle : s'.pc.cycling = true → s.pc.cycling = true)
    (hslot : ∀ addr ∈ s'.pc.slotAddr, addr ∈ s.pc.slotAddr) : Aligned s' where
  toEditAllowed := h.toEditAllowed.congr hflags hpolling hnodes hcycle hslot
  undead := hundead

theorem flags_markAlive (addr : Nat) (roster : List Slave) :
    (markAlive addr roster).map Slave.flags = roster.map Slave.flags := by
  unfold markAlive
  apply flags_rosterModify
  exact fun _ => rfl

theorem flags_markMiss (maxMisses addr : Nat) (roster : List Slave) :
    (markMiss maxMisses addr roster).map Slave.flags = roster.map Slave.flags := by
  unfold markMiss
  apply flags_rosterModify
  exact fun _ => rfl

theorem aligned_bus (h : Aligned s) (hsame : SameNodes s .bus) : Aligned (step s .bus) := by
  have hstep := busStep_cases s
  change Aligned s.busStep
  generalize s.busStep = s' at hstep ⊢
  -- a reply ends the wait and marks its sender
  have halive {s' : Master} {addr : Nat} (hroster : s'.roster = markAlive addr s.roster)
      (hnodes : s'.nodes = s.nodes) (hpolling : s'.pollEnabled = s.pollEnabled)
      (hpc : s'.pc = .top) : Aligned s' := by
    refine h.marked (hroster ▸ flags_markAlive addr s.roster)
      (hroster ▸ undead_markAlive h.undead addr) (by rw [hnodes]) hpolling ?_ ?_
    · simp [hpc, Pc.cycling]
    · simp [hpc, Pc.slotAddr]
  cases hstep with
  | rebuild hpc hmode hdirty =>
      refine ⟨⟨h.coherent, fun _ => ⟨(hsame.1 hpc hmode).1, covers_build s.roster⟩, ?_⟩, h.undead⟩
      simp [Master.rebuild, Pc.slotAddr]
  | begin hpc hmode hdirty =>
      obtain ⟨hready, hcovers⟩ := hsame.1 hpc hmode
      rw [hdirty] at hcovers
      refine ⟨⟨h.coherent, fun _ => ⟨hready, hcovers.resolve_left (by simp)⟩, ?_⟩, h.undead⟩
      simp [Pc.slotAddr]
  | hostAdd cmd hpc =>
      have hconfig := config_issue { s with pc := .hostSend } .bus
        (s.command .host cmd.reqId cmd.reqId cmd.slave) cmd.frame
      have hlife := life_issue { s with pc := .hostSend } .bus
        (s.command .host cmd.reqId cmd.reqId cmd.slave) cmd.frame
      refine h.quiet (congrArg Life.roster hlife) (congrArg Life.table hlife)
        (congrArg Config.pollEnabled hconfig) ?_ ?_
      · simp [hpc, Pc.cycling]
      · simp [pc_hostAddStep, Pc.slotAddr]
  | hostSend hpc =>
      have hlife := life_busMsgSend s .bus
      refine h.quiet (congrArg Life.roster hlife) (congrArg Life.table hlife)
        (congrArg Config.pollEnabled (config_busMsgSend s .bus)) ?_ ?_
      · simp [pc_busMsgSend]
      · simp [pc_busMsgSend]
  | pass i node hpc =>
      refine h.quiet rfl (map_life_setList ..) rfl ?_ ?_
      · simp [hpc, Pc.cycling]
      · simp [Pc.slotAddr]
  -- the scan stops at an enabled entry only
  | chooseSlot addr cursor hpc _ _ _ hnext haddr =>
      refine ⟨⟨h.coherent, ?_, ?_⟩, h.undead⟩
      · simp [Pc.cycling]
      · rintro _ ⟨⟩
        have hne : (nextEnabledAddr s.roster s.roster.length s.cursor).1 ≠ noAddr := by
          rw [hnext]
          exact haddr
        obtain ⟨e, he, heq, hen⟩ := nextEnabledAddr_enabled hne
        rw [hnext] at heq
        have hcoherent := h.coherent e he hen
        rwa [heq] at hcoherent
  | injectHeard => exact halive rfl rfl rfl rfl
  | collectReply => exact halive rfl rfl rfl rfl
  | collectHeard => exact halive rfl rfl rfl rfl
  | slot addr heard f rx hpc =>
      exact h.quiet rfl rfl rfl (fun hcycle => by cases hcycle) fun b hslot => by
        rw [hpc]
        exact hslot
  | inject cmd =>
      exact h.quiet rfl rfl rfl (fun hcycle => by cases hcycle) fun _ hslot => by cases hslot
  | drainGone => exact h
  | wait => exact h
  | ignore => exact h.quiet rfl rfl rfl id fun _ => id
  | _ =>
      refine h.quiet rfl rfl rfl ?_ fun _ hslot => by cases hslot
      simp_all [Pc.cycling]

theorem aligned_alarm (h : Aligned s) : Aligned (step s .alarm) := by
  have hstep := waitOver_cases s
  generalize step s .alarm = s' at hstep ⊢
  cases hstep with
  | none => exact h
  | swept i n hpc =>
      refine h.marked (flags_markAlive ..) (undead_markAlive h.undead _)
        (map_addr_modify (f := Node.heard) (fun _ => rfl) ..) rfl ?_ ?_
      · simp [hpc, Pc.cycling]
      · simp [Pc.slotAddr]
  | missed i n hpc =>
      have hready := (h.cycle (by rw [hpc]; rfl)).1
      refine h.marked (flags_markMiss ..)
        (undead_markMiss h.undead (not_disabled_of_ready hready _) _)
        (map_addr_modify (addr_missed _) ..) rfl ?_ ?_
      · simp [hpc, Pc.cycling]
      · simp [Pc.slotAddr]
  | revived i n hpc =>
      refine h.marked (flags_markAlive ..) (undead_markAlive h.undead _)
        (map_addr_modify (f := Node.revived) (fun _ => rfl) ..) rfl ?_ ?_
      · simp [hpc, Pc.cycling]
      · simp [Pc.slotAddr]
  | probed i n hpc => refine h.quiet rfl rfl rfl ?_ ?_ <;> simp [hpc, Pc.cycling, Pc.slotAddr]
  | inject => refine h.quiet rfl rfl rfl ?_ ?_ <;> simp [Pc.cycling, Pc.slotAddr]
  | collect => refine h.quiet rfl rfl rfl ?_ ?_ <;> simp [Pc.cycling, Pc.slotAddr]
  | slotHeard addr hpc =>
      refine h.marked (flags_markAlive ..) (undead_markAlive h.undead _) rfl rfl ?_ ?_ <;>
        simp [Pc.cycling, Pc.slotAddr]
  | slotMissed addr hpc =>
      have hslot : ¬Disabled s.roster addr := h.slot addr (by rw [hpc]; rfl)
      refine h.marked (flags_markMiss ..) (undead_markMiss h.undead hslot _) rfl rfl ?_ ?_ <;>
        simp [Pc.cycling, Pc.slotAddr]

theorem undead_cfgRoster (cfg : Option RosterCfg) :
    ∀ e ∈ cfgRoster cfg, e.enabled = false → e.state ≠ .dead := by
  intro e he _ hdead
  have := cfgRoster_clean cfg e he
  simp [Slave.clean, hdead] at this

theorem aligned_step {a : Action} (h : Aligned s) (hsame : SameNodes s a) : Aligned (step s a) := by
  -- an edit of the roster or of the polling switch, which the condition allows
  have hedit {s' : Master} {roster : List Slave} {polling : Bool}
      (hallowed : EditAllowed s roster polling) (hroster : s'.roster = roster)
      (hpolling : s'.pollEnabled = polling) (hnodes : s'.nodes = s.nodes) (hpc : s'.pc = s.pc)
      (hundead : ∀ e ∈ roster, e.enabled = false → e.state ≠ .dead) : Aligned s' := by
    refine ⟨hallowed.congr (by rw [hroster]) hpolling (by rw [hnodes]) ?_ ?_, hroster ▸ hundead⟩
    · rw [hpc]
      exact id
    · rw [hpc]
      exact fun _ => id
  cases ha : a.administers with
  | true =>
      cases a with
      | pollEnable on => exact hedit hsame rfl rfl rfl rfl h.undead
      | uplinkEnter active cfg =>
          refine hedit hsame ?_ ?_ ?_ ?_ (undead_cfgRoster cfg)
          · cases cfg <;> rfl
          · cases cfg with
            | none => rfl
            | some rc =>
                change decide (0 < (cfgRoster (some rc)).length) = _
                rw [decide_eq_decide, List.length_pos_iff]
          · cases cfg <;> rfl
          · cases cfg <;> rfl
      | _ => first | exact h.quiet rfl rfl rfl id (fun _ => id) | cases ha
  | false =>
      by_cases hbus : a = .bus
      · subst hbus
        exact aligned_bus h hsame
      by_cases halarm : a = .alarm
      · subst halarm
        exact aligned_alarm h
      have hconfig := congrArg Config.pollEnabled (config_step s ha)
      have hpc := pc_step s hbus halarm
      have htable := table_step (s := s) hbus halarm
      have hquiet (hroster : (step s a).roster = s.roster) : Aligned (step s a) := by
        refine h.quiet hroster htable hconfig ?_ ?_ <;> rw [hpc]
        · exact id
        · exact fun _ => id
      cases a with
      | clearRoster => exact hedit hsame rfl rfl rfl rfl fun e he => by cases he
      | registerSlave addr enabled =>
          simp only [step, Master.registerSlave]
          split
          · next hroom =>
              refine hedit (hsame hroom) rfl rfl rfl rfl fun e he hen => ?_
              rcases List.mem_append.mp he with he | he
              · exact h.undead e he hen
              · obtain rfl := List.mem_singleton.mp he
                simp
          · exact h
      | _ => first | exact hquiet (roster_step rfl hbus halarm) | cases ha

/-! ## Polls -/

/-- The polls of the two engines. -/
theorem polls_cases {addr : Nat} {a : Action}
    (h : (step s a).wire.grants = s.wire.grants ++ [(addr, .poll)]) :
    (s.pc.cycling = true ∧ ∃ n ∈ s.nodes, n.addr = addr) ∨
      (s.pc = .choose ∧ a = .bus ∧ ∃ c ∈ s.collect, c.command.addr = addr) ∨
      (s.pc = .choose ∧ s.pollEnabled = true ∧ ∃ e ∈ s.roster, e.addr = addr ∧ e.enabled = true) := by
  by_cases hbus : a = .bus
  · subst hbus
    have hstep := busStep_cases s
    change s.busStep.wire.grants = _ at h
    generalize s.busStep = s' at hstep h
    -- what the step sends is the grant in question
    have hsent {addr' : Nat} {g : Grant}
        (hg : (s.wire.send addr' g).grants = s.wire.grants ++ [(addr, .poll)]) :
        addr' = addr ∧ g = .poll := by
      rw [grants_send] at hg
      simpa using hg
    cases hstep with
    | hostAdd cmd =>
        rw [wire_hostAddStep] at h
        simp at h
    | hostSend =>
        rw [wire_busMsgSend] at h
        simp at h
    | transmit => exact absurd (hsent h).2 (by simp)
    | inject => exact absurd (hsent h).2 (by simp)
    | sweepPoll i n hpc hnode =>
        left
        exact ⟨by rw [hpc]; rfl, n, List.mem_of_getElem? hnode, (hsent h).1⟩
    | probe i n hpc hnode =>
        left
        exact ⟨by rw [hpc]; rfl, n, List.mem_of_getElem? hnode, (hsent h).1⟩
    | choosePoll c hpc hcollect =>
        right; left
        exact ⟨hpc, rfl, c, hcollect, (hsent h).1⟩
    | chooseSlot addr' cursor hpc _ _ hpoll hnext haddr =>
        right; right
        have hne : (nextEnabledAddr s.roster s.roster.length s.cursor).1 ≠ noAddr := by
          rw [hnext]
          exact haddr
        obtain ⟨e, he, heq, hen⟩ := nextEnabledAddr_enabled hne
        rw [hnext] at heq
        exact ⟨hpc, hpoll, e, he, heq.trans (hsent h).1, hen⟩
    | _ => simp [Master.rebuild, Master.swapStep, Master.countStep, Master.emitStep] at h
  · rw [grants_step s hbus] at h
    simp at h

/-- A step in which the engines go by the same nodes. -/
structure Addresses (s : Master) (a : Action) : Prop where
  /-- The cyclic engine polls enabled roster entries, while polling is on. -/
  cyclic : s.pc.cycling = true → ∀ addr,
    (step s a).wire.grants = s.wire.grants ++ [(addr, .poll)] →
      s.pollEnabled = true ∧ ∃ e ∈ s.roster, e.addr = addr ∧ e.enabled = true
  /-- No engine polls a disabled node. -/
  polled : ∀ addr, (step s a).wire.grants = s.wire.grants ++ [(addr, .poll)] →
    ¬Disabled s.roster addr
  /-- No disabled node is marked dead, neither in the roster nor in the table. -/
  roster : ∀ e ∈ (step s a).roster, e.enabled = false → e.state ≠ .dead
  table : ∀ (i : Nat) (n n' : Node), s.nodes[i]? = some n → (step s a).nodes[i]? = some n' →
    n.dead = false → n'.dead = true → ¬Disabled s.roster n.addr
  /-- None is counted for the interlock. -/
  counted : s.pc = .count → ∀ n ∈ s.nodes, n.dead = true → ¬Disabled s.roster n.addr

/-- Outside a cycle no node of the table becomes dead. -/
theorem dead_of_not_cycling {a : Action} (hcycle : s.pc.cycling = false) {i : Nat} {n n' : Node}
    (hn : s.nodes[i]? = some n) (hn' : (step s a).nodes[i]? = some n') (halive : n.dead = false) :
    n'.dead = false := by
  have hlife := lifeStep_step s a
  have htable := life_getElem? hn'
  generalize (step s a).life = l at hlife htable
  have hsame (h : s.life.table[i]? = some n'.life) : n'.dead = false := by
    have heq := Option.some.inj ((life_getElem? hn).symm.trans h)
    exact (congrArg Node.dead heq).symm.trans halive
  have hbuilt (h : n'.life ∈ busNodetableBuild s.roster) : n'.dead = false := by
    obtain ⟨e, -, heq⟩ := mem_busNodetableBuild h
    exact congrArg Node.dead heq
  cases hlife with
  | rebuild => exact hbuilt (List.mem_of_getElem? htable)
  | swept i n hpc => rw [hpc] at hcycle; cases hcycle
  | missed i n hpc => rw [hpc] at hcycle; cases hcycle
  | revived i n hpc => rw [hpc] at hcycle; cases hcycle
  | _ => exact hsame htable

theorem Aligned.addresses {a : Action} (h : Aligned s) (hsame : SameNodes s a) : Addresses s a where
  cyclic hcycle addr hpoll := by
    obtain ⟨hready, hcovers⟩ := h.cycle hcycle
    rcases polls_cases hpoll with ⟨-, n, hn, rfl⟩ | ⟨hpc, -⟩ | ⟨hpc, -⟩
    · obtain ⟨e, he, haddr⟩ := hcovers n hn
      exact ⟨hready.2 (List.ne_nil_of_mem he), e, he, haddr, hready.1 e he⟩
    · rw [hpc] at hcycle
      cases hcycle
    · rw [hpc] at hcycle
      cases hcycle
  polled addr hpoll := by
    rcases polls_cases hpoll with ⟨hcycle, -⟩ | ⟨hpc, rfl, c, hc, rfl⟩ | ⟨hpc, -, e, he, rfl, hen⟩
    · exact not_disabled_of_ready (h.cycle hcycle).1 addr
    · exact hsame.2 hpc c hc
    · exact h.coherent e he hen
  roster := (aligned_step h hsame).undead
  table i n n' hn hn' halive hdead := by
    by_cases hcycle : s.pc.cycling = true
    · exact not_disabled_of_ready (h.cycle hcycle).1 n.addr
    · have := dead_of_not_cycling (eq_false_of_ne_true hcycle) hn hn' halive
      rw [hdead] at this
      cases this
  counted hpc n _ _ := not_disabled_of_ready (h.cycle (by rw [hpc]; rfl)).1 n.addr

/-- Where cycles run only with polling on and every entry enabled, both engines
poll, mark and count the same nodes at every step of every run. -/
theorem engines_address_same_nodes (room : Nat) (cfg : Option RosterCfg) (as : List Action)
    (a : Action) (hboot : Coherent (cfgRoster cfg))
    (hsame : Along step SameNodes (boot room cfg) (as ++ [a])) :
    Addresses (run step (boot room cfg) as) a := by
  have hroster : (boot room cfg).roster = cfgRoster cfg := by cases cfg <;> rfl
  have hpc : (boot room cfg).pc = .top := by cases cfg <;> rfl
  have hstart : Aligned (boot room cfg) := by
    refine ⟨⟨hroster ▸ hboot, ?_, ?_⟩, hroster ▸ undead_cfgRoster cfg⟩
    · simp [hpc, Pc.cycling]
    · simp [hpc, Pc.slotAddr]
  obtain ⟨hbefore, hlast⟩ := along_concat.mp hsame
  exact (run_along (P := Aligned) (fun _ _ h hs => aligned_step h hs) hbefore hstart).addresses hlast

/-- An enabled node is polled by the sweep of the first cycle. -/
theorem engines_address_same_nodes_enabled :
    Along step SameNodes (boot 24 frailNode) (List.replicate 6 .bus ++ [.bus]) ∧
      Addresses (run step (boot 24 frailNode) (List.replicate 6 .bus)) .bus :=
  ⟨by decide, engines_address_same_nodes 24 frailNode _ .bus (by decide) (by decide)⟩

/-- The node at address 5 is configured, but not enabled. -/
def disabledNode : Option RosterCfg := some { slaves := [(5, false)] }

/-- The sweep polls the disabled node. -/
theorem not_always_same_nodes :
    ¬∀ (room : Nat) (cfg : Option RosterCfg) (as : List Action) (a : Action),
      Addresses (run step (boot room cfg) as) a := by
  intro h
  have hrun := h 24 disabledNode (List.replicate 6 .bus) .bus
  exact absurd (hrun.polled 5 (by decide)) (by decide)

end SlowBus.Arbiter
