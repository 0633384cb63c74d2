import SlowBus.Arbiter.Steps

/-!
# What a step does to the roster and the table

Liveness is kept in the roster and, a second time, in the node table. One lemma
says everything a step can do to either of them and to the flag that asks for a
rebuild.
-/

namespace SlowBus.Arbiter

/-- A table entry without its lists. -/
def Node.life (n : Node) : Node := { n with list := fun _ => none }

/-- The roster, the table without its lists, and the dirty flag. -/
structure Life where
  roster : List Slave
  table : List Node
  dirty : Bool

def Master.life (s : Master) : Life :=
  { roster := s.roster, table := s.nodes.map Node.life, dirty := s.dirty }

/-- The roster as `bc_load_cfg_roster` leaves it. -/
def cfgRoster : Option RosterCfg → List Slave
  | none => []
  | some rc => (rc.slaves.take rosterMax).map fun e => { addr := e.1, enabled := e.2 }

inductive LifeStep (s : Master) : Action → Life → Prop
  | same {a : Action} : LifeStep s a s.life
  /-- The table is rebuilt at the head of a cycle. -/
  | rebuild (hpc : s.pc = .top) (hmode : s.cycleMode) (hdirty : s.dirty) :
      LifeStep s .bus { s.life with table := busNodetableBuild s.roster, dirty := false }
  /-- The sweep's slot of node `i` is over. -/
  | swept (i : Nat) (node : Node) (hpc : s.pc = .listen i true) (hnode : s.nodes[i]? = some node) :
      LifeStep s .alarm { s.life with
        roster := markAlive node.addr s.roster
        table := s.life.table.modify i Node.heard }
  | missed (i : Nat) (node : Node) (hpc : s.pc = .listen i false)
      (hnode : s.nodes[i]? = some node) :
      LifeStep s .alarm { s.life with
        roster := markMiss s.pollMaxMisses node.addr s.roster
        table := s.life.table.modify i (Node.missed s.pollMaxMisses) }
  /-- A dead node answered its probe. -/
  | revived (i : Nat) (node : Node) (hpc : s.pc = .probeListen i true)
      (hnode : s.nodes[i]? = some node) :
      LifeStep s .alarm { s.life with
        roster := markAlive node.addr s.roster
        table := s.life.table.modify i Node.revived }
  /-- The per-slot engine heard a node, or did not. -/
  | slotHeard (addr : Nat) (hpc : s.pc = .slot addr true) :
      LifeStep s .alarm { s.life with roster := markAlive addr s.roster }
  | slotMissed (addr : Nat) (hpc : s.pc = .slot addr false) :
      LifeStep s .alarm { s.life with roster := markMiss s.pollMaxMisses addr s.roster }
  | injectHeard (cmd : HostCmd) (c : Command) (f : Frame) (hpc : s.pc = .injectWait cmd c)
      (hrx : s.wire.rx.head? = some f) (hsrc : f.src = cmd.slave) :
      LifeStep s .bus { s.life with roster := markAlive cmd.slave s.roster }
  | collectHeard (c : Collect) (f : Frame) (hpc : s.pc = .collectWait c)
      (hrx : s.wire.rx.head? = some f) (hsrc : f.src = c.command.addr) :
      LifeStep s .bus { s.life with roster := markAlive c.command.addr s.roster }
  /-- The roster is edited. -/
  | cleared : LifeStep s .clearRoster { s.life with roster := [], dirty := true }
  | registered (addr : Nat) (enabled : Bool) (hroom : s.roster.length < rosterMax) :
      LifeStep s (.registerSlave addr enabled)
        { s.life with roster := s.roster ++ [{ addr, enabled }], dirty := true }
  | loaded (active : Bool) (cfg : Option RosterCfg) :
      LifeStep s (.uplinkEnter active cfg) { s.life with roster := cfgRoster cfg }

/-! ## The table under changes of the lists and of liveness -/

theorem map_life_modify {f : Node → Node} (hf : ∀ n, (f n).life = f n.life) (nodes : List Node)
    (i : Nat) : (nodes.modify i f).map Node.life = (nodes.map Node.life).modify i f := by
  apply List.ext_getElem?
  intro j
  simp only [List.getElem?_map, List.getElem?_modify]
  cases nodes[j]? with
  | none => rfl
  | some n =>
      by_cases hj : i = j
      · simp [hj, hf]
      · simp [hj]

theorem map_addr_modify {f : Node → Node} (hf : ∀ n, (f n).addr = n.addr) (nodes : List Node)
    (i : Nat) : (nodes.modify i f).map (·.addr) = nodes.map (·.addr) := by
  apply List.ext_getElem?
  intro j
  simp only [List.getElem?_map, List.getElem?_modify]
  cases nodes[j]? with
  | none => rfl
  | some n =>
      dsimp only [Option.map_eq_map, Option.map_some]
      split
      · rw [hf]
      · rfl

theorem addr_missed (maxMisses : Nat) (n : Node) : (n.missed maxMisses).addr = n.addr := by
  unfold Node.missed
  split <;> rfl

theorem life_missed (maxMisses : Nat) (n : Node) :
    (n.missed maxMisses).life = n.life.missed maxMisses := by
  unfold Node.missed Node.life
  dsimp only
  split <;> rfl

theorem map_life_setList (nodes : List Node) (i : Nat) (side : Bool) (head : Option Buf) :
    (nodes.modify i (·.setList side head)).map Node.life = nodes.map Node.life := by
  apply List.ext_getElem?
  intro j
  simp only [List.getElem?_map, List.getElem?_modify]
  cases nodes[j]? with
  | none => rfl
  | some n =>
      by_cases hj : i = j
      · simp [hj, Node.life, Node.setList]
      · simp [hj]

theorem map_life_build (roster : List Slave) :
    (busNodetableBuild roster).map Node.life = busNodetableBuild roster := by
  conv_rhs => rw [← List.map_id (busNodetableBuild roster)]
  refine List.map_congr_left fun n hn => ?_
  obtain ⟨e, -, rfl⟩ := mem_busNodetableBuild hn
  rfl

/-! ## Steps -/

variable {s : Master}

theorem life_attach (s : Master) (i : Nat) (b : Buf) (msg : Msg) :
    (s.attach i b msg).life = s.life := by
  unfold Master.attach
  dsimp only
  split
  · rfl
  · simp only [Master.life, map_life_setList]

theorem life_busMsgSend (s : Master) (t : Task) : (s.busMsgSend t).life = s.life := by
  unfold Master.busMsgSend
  split
  · rfl
  · split <;> rfl
  · rfl
  · split
    · rfl
    · exact life_attach ..
  · rfl

theorem life_issue (s : Master) (t : Task) (c : Command) (payload : Bytes) :
    (s.issue t c payload).life = s.life := by
  simp only [Master.issue, Master.beginSend, Master.corrAdd]
  split <;> rfl

theorem life_kbappOnEchoTo (s : Master) (t : Task) (addr hostReqId : Nat) (bytes : Bytes) :
    (s.kbappOnEchoTo t addr hostReqId bytes).life = s.life := by
  unfold Master.kbappOnEchoTo
  split
  · exact life_issue ..
  · split <;> rfl

theorem LifeStep.of_eq {a : Action} {l l' : Life} (h : LifeStep s a l) (heq : l' = l) :
    LifeStep s a l' :=
  heq ▸ h

theorem lifeStep_bus (s : Master) : LifeStep s .bus (step s .bus).life := by
  have hstep := busStep_cases s
  change LifeStep s .bus s.busStep.life
  generalize s.busStep = s' at hstep ⊢
  cases hstep with
  | rebuild hpc hmode hdirty =>
      refine (LifeStep.rebuild hpc hmode hdirty).of_eq ?_
      simp only [Master.life, Master.rebuild, map_life_build]
  | hostAdd cmd => exact LifeStep.same.of_eq (life_issue { s with pc := .hostSend } .bus _ _)
  | hostSend => exact LifeStep.same.of_eq (life_busMsgSend s .bus)
  | pass i node =>
      refine LifeStep.same.of_eq ?_
      simp only [Master.life, map_life_setList]
  | injectHeard cmd c f rx hpc hrx hsrc =>
      exact .injectHeard cmd c f hpc (by rw [hrx, List.head?_cons]) hsrc
  | collectReply c f rx body hpc hrx hsrc =>
      exact .collectHeard c f hpc (by rw [hrx, List.head?_cons]) hsrc
  | collectHeard c f rx hpc hrx hsrc =>
      exact .collectHeard c f hpc (by rw [hrx, List.head?_cons]) hsrc
  | _ => exact .same

theorem lifeStep_alarm (s : Master) : LifeStep s .alarm (step s .alarm).life := by
  have hstep := waitOver_cases s
  generalize step s .alarm = s' at hstep ⊢
  cases hstep with
  | swept i node hpc _ hnode =>
      refine (LifeStep.swept i node hpc hnode).of_eq ?_
      simp only [Master.life, map_life_modify (f := Node.heard) fun _ => rfl]
  | missed i node hpc _ hnode =>
      refine (LifeStep.missed i node hpc hnode).of_eq ?_
      simp only [Master.life, map_life_modify (life_missed s.pollMaxMisses)]
  | revived i node hpc _ hnode =>
      refine (LifeStep.revived i node hpc hnode).of_eq ?_
      simp only [Master.life, map_life_modify (f := Node.revived) fun _ => rfl]
  | slotHeard addr hpc => exact .slotHeard addr hpc
  | slotMissed addr hpc => exact .slotMissed addr hpc
  | _ => exact .same

/-- Everything a step can do to the roster, the table and the dirty flag. -/
theorem lifeStep_step (s : Master) (a : Action) : LifeStep s a (step s a).life := by
  have hsame {l : Life} (hl : l = s.life) : LifeStep s a l := hl ▸ .same
  cases a
  case bus => exact lifeStep_bus s
  case alarm => exact lifeStep_alarm s
  case call n dest payload =>
    simp only [step]
    split <;> exact .same
  case originate n addr hostReqId bytes =>
    simp only [step]
    split
    · exact hsame (life_kbappOnEchoTo ..)
    · exact .same
  case send n => exact hsame (life_busMsgSend ..)
  case busMsg dest opcode body =>
    simp only [step, Master.onBusMsg]
    split <;> exact .same
  case clearRoster => exact .cleared
  case registerSlave addr enabled =>
    simp only [step, Master.registerSlave]
    split
    · next hroom => exact .registered addr enabled hroom
    · exact .same
  case uplinkEnter active cfg =>
    have hlife : (s.uplinkEnter active cfg).life = { s.life with roster := cfgRoster cfg } := by
      cases cfg <;> rfl
    exact hlife ▸ .loaded active cfg
  all_goals exact .same

theorem table_step {a : Action} (hbus : a ≠ .bus) (halarm : a ≠ .alarm) :
    (step s a).life.table = s.life.table := by
  have hlife := lifeStep_step s a
  generalize (step s a).life = l at hlife ⊢
  cases hlife <;> first | rfl | exact absurd rfl hbus | exact absurd rfl halarm

/-- An action that edits the roster. -/
def Action.edits : Action → Bool
  | .clearRoster | .registerSlave _ _ | .uplinkEnter _ _ => true
  | _ => false

theorem roster_step {a : Action} (hedit : a.edits = false) (hbus : a ≠ .bus)
    (halarm : a ≠ .alarm) : (step s a).roster = s.roster := by
  have hlife := lifeStep_step s a
  change (step s a).life.roster = s.life.roster
  generalize (step s a).life = l at hlife ⊢
  cases hlife <;> first | rfl | exact absurd rfl hbus | exact absurd rfl halarm | cases hedit

end SlowBus.Arbiter
