import SlowBus.Arbiter.Order
import SlowBus.Arbiter.Liveness

/-!
# Whom the sweep leaves out

The sweep skips the nodes the message pass of the same cycle sent something to. A
node is followed from the swap that begins a cycle to the end of the sweep: it is
polled if and only if nothing waits for it at the swap.
-/

namespace SlowBus.Arbiter

open Runs

/-! ## One node in a cycle -/

/-- What the cycle knows of a node. -/
structure Status where
  /-- Its address and whether it is dead. -/
  node : Option (Nat × Bool)
  /-- The list the message pass takes. -/
  queued : Option Buf
  marked : Bool
  /-- It was polled in this cycle. -/
  polled : Bool
  /-- The addresses the message pass of this cycle sent to. -/
  sent : List Nat

def Master.status (s : Master) (i : Nat) : Status where
  node := s.nodes[i]?.map fun n => (n.addr, n.dead)
  queued := listHead s.nodes i s.active
  marked := decide (i ∈ s.marked)
  polled := s.hist.polls.any fun p => p.node == i && p.cycle == s.hist.cycle
  sent := (s.hist.sent.filter (·.cycle == s.hist.cycle)).map (·.addr)

/-- A live node at `addr` that was not polled yet. -/
def Status.Live (st : Status) (addr : Nat) : Prop :=
  st.node = some (addr, false) ∧ st.polled = false

/-- The message pass has still to come to the node. -/
def Status.Waiting (st : Status) (addr : Nat) (head : Option Buf) : Prop :=
  st.Live addr ∧ st.queued = head ∧ st.marked = false

/-- A marked node was sent something. -/
def Status.Told (st : Status) (addr : Nat) : Prop := st.marked = true → addr ∈ st.sent

/-- The message pass is through with the node. -/
def Status.Passed (st : Status) (addr : Nat) (head : Option Buf) : Prop :=
  st.Live addr ∧ st.Told addr ∧ st.marked = head.isSome

/-- The sweep is through with the node. -/
def Status.Swept (st : Status) (addr : Nat) (head : Option Buf) : Prop :=
  st.Told addr ∧ st.marked = head.isSome ∧ st.polled = !st.marked

/-- How far the cycle has come with node `i`, live at `addr`, that had the list
`head` waiting at the swap. -/
def Progress (addr : Nat) (head : Option Buf) (i : Nat) (st : Status) : Pc → Prop
  | .pass j => if i < j then st.Passed addr head else st.Waiting addr head
  | .drain j b =>
      if i < j then st.Passed addr head
      else if i = j then
        st.Live addr ∧ st.Told addr ∧ (st.marked || b.isSome) = head.isSome
      else st.Waiting addr head
  | .release j _ _ =>
      if i < j then st.Passed addr head
      else if i = j then
        st.Live addr ∧ st.Told addr ∧ st.marked = true ∧ head.isSome = true
      else st.Waiting addr head
  | .sweep j => if i < j then st.Swept addr head else st.Passed addr head
  | .listen j _ => if i ≤ j then st.Swept addr head else st.Passed addr head
  | .probe => st.Swept addr head
  | _ => True

variable {n : Nat} {s : Master} {addr i : Nat} {head : Option Buf}

section Unfold

variable {st : Status} {j : Nat}

theorem progress_pass : Progress addr head i st (.pass j) ↔
    if i < j then st.Passed addr head else st.Waiting addr head := Iff.rfl

theorem progress_drain {b : Option Buf} : Progress addr head i st (.drain j b) ↔
    if i < j then st.Passed addr head
    else if i = j then st.Live addr ∧ st.Told addr ∧ (st.marked || b.isSome) = head.isSome
    else st.Waiting addr head := Iff.rfl

theorem progress_release {b : Buf} {next : Option Buf} :
    Progress addr head i st (.release j b next) ↔
      if i < j then st.Passed addr head
      else if i = j then st.Live addr ∧ st.Told addr ∧ st.marked = true ∧ head.isSome = true
      else st.Waiting addr head := Iff.rfl

theorem progress_sweep : Progress addr head i st (.sweep j) ↔
    if i < j then st.Swept addr head else st.Passed addr head := Iff.rfl

theorem progress_listen {heard : Bool} : Progress addr head i st (.listen j heard) ↔
    if i ≤ j then st.Swept addr head else st.Passed addr head := Iff.rfl

end Unfold

/-- A producer only writes the lists that are not being drained. -/
theorem listHead_busMsgSend (s : Master) (t : Task) (i : Nat) :
    listHead (s.busMsgSend t).nodes i s.active = listHead s.nodes i s.active := by
  unfold Master.busMsgSend
  split
  · rfl
  · split <;> rfl
  · rfl
  · split
    · rfl
    · unfold Master.endSend Master.attach
      dsimp only
      split
      · rfl
      · next hnode =>
          rw [listHead_setList hnode, if_neg (by simp)]
  · rfl

theorem nodes_issue (s : Master) (t : Task) (c : Command) (payload : Bytes) :
    (s.issue t c payload).nodes = s.nodes := by
  simp only [Master.issue, Master.beginSend, Master.corrAdd]
  split <;> rfl

theorem listHead_step {a : Action} (hbus : a ≠ .bus) (halarm : a ≠ .alarm) (i : Nat) :
    listHead (step s a).nodes i s.active = listHead s.nodes i s.active := by
  cases a
  case bus => exact absurd rfl hbus
  case alarm => exact absurd rfl halarm
  case call n dest payload =>
    simp only [step]
    split <;> rfl
  case originate n addr hostReqId bytes =>
    simp only [step, Master.kbappOnEchoTo]
    split
    · split
      · rw [nodes_issue]
      · split <;> rfl
    · rfl
  case send n => exact listHead_busMsgSend ..
  case busMsg dest opcode body =>
    simp only [step, Master.onBusMsg]
    split <;> rfl
  case registerSlave addr enabled =>
    simp only [step, Master.registerSlave]
    split <;> rfl
  case uplinkEnter active cfg => cases cfg <;> rfl
  all_goals rfl

theorem status_step {a : Action} (hbus : a ≠ .bus) (halarm : a ≠ .alarm) (i : Nat) :
    (step s a).status i = s.status i := by
  have hown := own_step s hbus halarm
  have hnode : (step s a).nodes[i]?.map (fun n => (n.addr, n.dead)) =
      s.nodes[i]?.map fun n => (n.addr, n.dead) := by
    have htable := congrArg (fun l => l[i]?.map fun n => (n.addr, n.dead))
      (table_step (s := s) hbus halarm)
    simp only [Master.life, List.getElem?_map, Option.map_map] at htable
    exact htable
  have hqueued := listHead_step (s := s) hbus halarm i
  have hactive : (step s a).active = s.active := congrArg Own.active hown
  have hmarked : (step s a).marked = s.marked := congrArg Own.marked hown
  have hpolls : (step s a).hist.polls = s.hist.polls := congrArg Own.polls hown
  have hcycle : (step s a).hist.cycle = s.hist.cycle := congrArg Own.cycle hown
  have hsent : (step s a).hist.sent = s.hist.sent := congrArg Own.sent hown
  simp only [Master.status, hnode, hactive, hqueued, hmarked, hpolls, hcycle, hsent]

theorem Status.Live.getElem? (h : (s.status i).Live addr) :
    ∃ node, s.nodes[i]? = some node ∧ node.addr = addr ∧ node.dead = false := by
  obtain ⟨node, hnode, heq⟩ := Option.map_eq_some_iff.mp h.1
  rw [Prod.mk.injEq] at heq
  exact ⟨node, hnode, heq⟩

/-- A node the bus task has come to the end of the table without. -/
theorem not_live_of_le {j : Nat} (hnode : s.nodes[j]? = none) (hj : ¬i < j) :
    ¬(s.status i).Live addr := by
  intro h
  obtain ⟨node, hi, -⟩ := h.getElem?
  rw [List.getElem?_eq_none_iff] at hnode
  have := (List.getElem?_eq_some_iff.mp hi).1
  omega

theorem not_live_of_dead {node : Node} (hnode : s.nodes[i]? = some node) (hdead : node.dead = true) :
    ¬(s.status i).Live addr := by
  intro h
  obtain ⟨node', hi, -, hlive⟩ := h.getElem?
  cases hnode.symm.trans hi
  rw [hdead] at hlive
  cases hlive

/-- The bus task takes the list of node `j`. -/
theorem status_pass {j : Nat} {node : Node} (hnode : s.nodes[j]? = some node) (pc : Pc) :
    ({ s with nodes := s.nodes.modify j (·.setList s.active none), pc } : Master).status i =
      { s.status i with queued := if i = j then none else (s.status i).queued } := by
  have hmap : ((s.nodes.modify j (·.setList s.active none))[i]?).map (fun n => (n.addr, n.dead)) =
      (s.nodes[i]?).map fun n => (n.addr, n.dead) := by
    rw [List.getElem?_modify]
    cases s.nodes[i]? with
    | none => rfl
    | some m =>
        by_cases hj : j = i <;> simp [hj, Node.setList]
  simp only [Master.status, hmap, listHead_setList hnode, and_true]

/-- The message pass transmits to node `j`. -/
theorem status_transmit {j : Nat} {x : Sent} (hx : x.cycle = s.hist.cycle) (wire : Wire) (pc : Pc) :
    ({ s with
        wire
        marked := j :: s.marked
        hist := { s.hist with sent := s.hist.sent ++ [x] }
        pc } : Master).status i =
      { s.status i with
        marked := decide (i = j) || (s.status i).marked
        sent := (s.status i).sent ++ [x.addr] } := by
  simp only [Master.status, List.mem_cons, List.filter_append, List.map_append, Bool.decide_or]
  simp [hx]

/-- A message that is not sent does not count. -/
theorem status_unsent (b : Buf) (why : Unsent) (pc : Pc) :
    ({ s with hist := (s.unsent b why).hist, pc } : Master).status i = s.status i := by
  unfold Master.unsent
  split <;> rfl

/-- A buffer in the hands of the message pass carries a message. -/
theorem Kept.msgOf_ne_none {j : Nat} {b : Buf} (h : Kept n s) (hpc : s.pc = .drain j (some b)) :
    s.msgOf b ≠ none := by
  obtain ⟨-, placed, hacc⟩ := h
  obtain ⟨l, -, hin, -⟩ := hacc.chain_cons (by rw [hpc]; rfl)
  obtain ⟨msg, hmsg⟩ := hacc.waiting_msg (Or.inr (hin ▸ List.mem_cons_self))
  rw [hmsg]
  exact Option.some_ne_none msg

/-- The sweep polls node `j`. -/
theorem status_poll (node : Node) (j : Nat) (pc : Pc) :
    ({ s.pollNode j node with pc } : Master).status i =
      { s.status i with polled := (s.status i).polled || j == i } := by
  simp only [Master.status, Master.pollNode, List.any_append, List.any_cons, List.any_nil,
    beq_self_eq_true, Bool.and_true, Bool.or_false]
  rfl

section Phases

variable {st : Status} {j : Nat}

/-- The message pass takes a list, the node's own one or that of another. -/
theorem Progress.take (h : Progress addr head i st (.pass j)) {taken : Option Buf}
    (htaken : i = j → taken = st.queued) :
    Progress addr head i { st with queued := if i = j then none else st.queued }
      (.drain j taken) := by
  simp only [progress_pass, progress_drain] at h ⊢
  rcases lt_trichotomy i j with hj | rfl | hj
  · rw [if_pos hj] at h ⊢
    exact h
  · rw [if_neg (lt_irrefl i)] at h ⊢
    rw [if_pos rfl]
    obtain ⟨hlive, hqueued, hmarked⟩ := h
    refine ⟨hlive, fun htold => ?_, ?_⟩
    · cases hmarked.symm.trans htold
    · rw [htaken rfl, hqueued, hmarked, Bool.false_or]
  · rw [if_neg hj.not_gt] at h ⊢
    rw [if_neg hj.ne', if_neg hj.ne']
    exact h

theorem Progress.drained (h : Progress addr head i st (.drain j none)) :
    Progress addr head i st (.pass (j + 1)) := by
  simp only [progress_drain, progress_pass] at h ⊢
  rcases lt_trichotomy i j with hj | rfl | hj
  · rw [if_pos hj] at h
    rw [if_pos (by omega)]
    exact h
  · rw [if_neg (lt_irrefl i), if_pos rfl] at h
    rw [if_pos (by omega)]
    exact ⟨h.1, h.2.1, by simpa using h.2.2⟩
  · rw [if_neg hj.not_gt, if_neg hj.ne'] at h
    rw [if_neg (by omega)]
    exact h

/-- Only the list of a dead node is thrown away. -/
theorem Progress.drop {b : Buf} {next : Option Buf}
    (h : Progress addr head i st (.drain j (some b))) (hdead : i = j → ¬st.Live addr) :
    Progress addr head i st (.release j b next) := by
  simp only [progress_drain, progress_release] at h ⊢
  rcases lt_trichotomy i j with hj | rfl | hj
  · rw [if_pos hj] at h ⊢
    exact h
  · rw [if_neg (lt_irrefl i), if_pos rfl] at h
    exact absurd h.1 (hdead rfl)
  · rw [if_neg hj.not_gt, if_neg hj.ne'] at h ⊢
    exact h

/-- A transmission marks the node that it goes to. -/
theorem Progress.transmit {b : Buf} {next : Option Buf} {dest : Nat}
    (h : Progress addr head i st (.drain j (some b)))
    (hdest : i = j → st.Live addr → dest = addr) :
    Progress addr head i
      { st with marked := decide (i = j) || st.marked, sent := st.sent ++ [dest] }
      (.release j b next) := by
  simp only [progress_drain, progress_release] at h ⊢
  rcases lt_trichotomy i j with hj | rfl | hj
  · rw [if_pos hj] at h ⊢
    obtain ⟨hlive, htold, hmarked⟩ := h
    refine ⟨hlive, fun hm => List.mem_append_left _ (htold ?_), ?_⟩
    · simpa [hj.ne] using hm
    · simpa [hj.ne] using hmarked
  · rw [if_neg (lt_irrefl i), if_pos rfl] at h ⊢
    obtain ⟨hlive, -, hhead⟩ := h
    refine ⟨hlive, fun _ => ?_, by simp, by simpa using hhead.symm⟩
    simp [hdest rfl hlive]
  · rw [if_neg hj.not_gt, if_neg hj.ne'] at h ⊢
    refine ⟨h.1, h.2.1, ?_⟩
    simpa [hj.ne'] using h.2.2

theorem Progress.release {b : Buf} {next : Option Buf}
    (h : Progress addr head i st (.release j b next)) :
    Progress addr head i st (.drain j next) := by
  simp only [progress_release, progress_drain] at h ⊢
  rcases lt_trichotomy i j with hj | rfl | hj
  · rw [if_pos hj] at h ⊢
    exact h
  · rw [if_neg (lt_irrefl i), if_pos rfl] at h ⊢
    refine ⟨h.1, h.2.1, ?_⟩
    rw [h.2.2.1, h.2.2.2, Bool.true_or]
  · rw [if_neg hj.not_gt, if_neg hj.ne'] at h ⊢
    exact h

/-- The sweep passes a live node over only if it is marked. -/
theorem Progress.skip (h : Progress addr head i st (.sweep j))
    (hskip : i = j → st.Live addr → st.marked = true) :
    Progress addr head i st (.sweep (j + 1)) := by
  simp only [progress_sweep] at h ⊢
  rcases lt_trichotomy i j with hj | rfl | hj
  · rw [if_pos hj] at h
    rw [if_pos (by omega)]
    exact h
  · rw [if_neg (lt_irrefl i)] at h
    rw [if_pos (by omega)]
    obtain ⟨hlive, htold, hmarked⟩ := h
    exact ⟨htold, hmarked, by rw [hlive.2, hskip rfl hlive]; rfl⟩
  · rw [if_neg hj.not_gt] at h
    rw [if_neg (by omega)]
    exact h

theorem Progress.poll {heard : Bool} (h : Progress addr head i st (.sweep j))
    (hfree : i = j → st.marked = false) :
    Progress addr head i { st with polled := st.polled || j == i } (.listen j heard) := by
  simp only [progress_sweep, progress_listen] at h ⊢
  rcases lt_trichotomy i j with hj | rfl | hj
  · rw [if_pos hj] at h
    rw [if_pos hj.le]
    exact ⟨h.1, h.2.1, by simpa [beq_eq_false_iff_ne.mpr hj.ne'] using h.2.2⟩
  · rw [if_neg (lt_irrefl i)] at h
    rw [if_pos le_rfl]
    exact ⟨h.2.1, h.2.2, by simp [hfree rfl]⟩
  · rw [if_neg hj.not_gt] at h
    rw [if_neg hj.not_ge]
    exact ⟨⟨h.1.1, by simpa [hj.ne] using h.1.2⟩, h.2⟩

end Phases

theorem progress_bus (hkept : Kept n s) (h : Progress addr head i (s.status i) s.pc)
    (hcycle : (step s .bus).hist.cycle = s.hist.cycle) :
    Progress addr head i ((step s .bus).status i) (step s .bus).pc := by
  have hstep := busStep_cases s
  change s.busStep.hist.cycle = _ at hcycle
  change Progress addr head i (s.busStep.status i) s.busStep.pc
  generalize s.busStep = s' at hstep hcycle ⊢
  cases hstep with
  | hostAdd cmd =>
      rw [pc_hostAddStep]
      trivial
  | hostSend hpc =>
      rw [pc_busMsgSend, hpc]
      trivial
  | swap =>
      -- the swap begins the next cycle
      change s.hist.cycle + 1 = s.hist.cycle at hcycle
      omega
  | passOver j hpc hnode =>
      rw [hpc] at h
      by_cases hj : i < j
      · exact (if_pos hj).mp h
      · exact absurd ((if_neg hj).mp h).1 (not_live_of_le hnode hj)
  | pass j node hpc hnode =>
      rw [hpc] at h
      rw [status_pass hnode]
      apply h.take
      rintro rfl
      rw [Master.status, listHead, hnode]
      rfl
  | drained j hpc =>
      rw [hpc] at h
      exact h.drained
  -- the live node `i` is another one than `j`
  | drainDead j b node hpc hnode hdead =>
      rw [hpc] at h
      rw [status_unsent]
      apply h.drop
      rintro rfl
      exact not_live_of_dead hnode hdead
  | drainBlank j b node hpc hnode hdead hmsg => exact absurd hmsg (hkept.msgOf_ne_none hpc)
  | transmit j b node msg hpc hnode hdead hmsg =>
      rw [hpc] at h
      rw [status_transmit rfl]
      apply h.transmit
      rintro rfl hlive
      obtain ⟨node', hnode', haddr, -⟩ := hlive.getElem?
      cases hnode.symm.trans hnode'
      exact haddr
  | release j b next hpc =>
      rw [hpc] at h
      exact h.release
  | sweepOver j hpc hnode =>
      rw [hpc] at h
      by_cases hj : i < j
      · exact (if_pos hj).mp h
      · exact absurd ((if_neg hj).mp h).1 (not_live_of_le hnode hj)
  | sweepSkip j node hpc hnode hskip =>
      rw [hpc] at h
      apply h.skip
      rintro rfl hlive
      have hmem : i ∈ s.marked :=
        hskip.resolve_left fun hdead => not_live_of_dead hnode hdead hlive
      exact decide_eq_true hmem
  | sweepPoll j node hpc hnode hdead hmarked =>
      rw [hpc] at h
      rw [status_poll]
      apply h.poll
      rintro rfl
      exact decide_eq_false hmarked
  | listen j heard node f rx hpc =>
      rw [hpc] at h
      exact h
  | drainGone => exact h
  | wait => exact h
  | ignore => exact h
  -- before the swap nothing is claimed
  | _ => trivial

/-- A verdict on another node. -/
theorem status_modifyNode {f : Node → Node} (hlist : ∀ node, (f node).list = node.list) {j : Nat}
    (hne : i ≠ j) (roster : List Slave) (wire : Wire) (pc : Pc) :
    ({ s with nodes := s.nodes.modify j f, roster, wire, pc } : Master).status i = s.status i := by
  have hmap : ((s.nodes.modify j f)[i]?).map (fun n => (n.addr, n.dead)) =
      (s.nodes[i]?).map fun n => (n.addr, n.dead) := by
    rw [List.getElem?_modify]
    cases s.nodes[i]? with
    | none => rfl
    | some m => simp [Ne.symm hne]
  simp only [Master.status, hmap, listHead_modify hlist]

theorem progress_alarm (h : Progress addr head i (s.status i) s.pc) :
    Progress addr head i ((step s .alarm).status i) (step s .alarm).pc := by
  have hstep := waitOver_cases s
  generalize step s .alarm = s' at hstep ⊢
  have hverdict {j : Nat} {heard : Bool} {f : Node → Node} (hpc : s.pc = .listen j heard)
      (hlist : ∀ node, (f node).list = node.list) (roster : List Slave) (wire : Wire) :
      Progress addr head i
        (({ s with nodes := s.nodes.modify j f, roster, wire, pc := .sweep (j + 1) } :
          Master).status i) (.sweep (j + 1)) := by
    rw [hpc] at h
    simp only [progress_listen, progress_sweep] at h ⊢
    by_cases hj : i ≤ j
    · rw [if_pos hj] at h
      rw [if_pos (by omega)]
      exact h
    · rw [if_neg hj] at h
      rw [if_neg (by omega), status_modifyNode hlist (by omega)]
      exact h
  cases hstep with
  | none => exact h
  | swept j node hpc => exact hverdict (f := Node.heard) hpc (fun _ => rfl) _ _
  | missed j node hpc => exact hverdict hpc (fun node => (missed_addr _ node).2) _ _
  | _ => trivial

theorem progress_step (hkept : Kept n s) (h : Progress addr head i (s.status i) s.pc) (a : Action)
    (hcycle : (step s a).hist.cycle = s.hist.cycle) :
    Progress addr head i ((step s a).status i) (step s a).pc := by
  by_cases hbus : a = .bus
  · subst hbus
    exact progress_bus hkept h hcycle
  by_cases halarm : a = .alarm
  · subst halarm
    exact progress_alarm h
  rw [status_step hbus halarm, pc_step s hbus halarm]
  exact h

/-! ## Cycles -/

theorem cycle_le_step (s : Master) (a : Action) : s.hist.cycle ≤ (step s a).hist.cycle := by
  by_cases hbus : a = .bus
  · subst hbus
    have hstep := busStep_cases s
    change s.hist.cycle ≤ s.busStep.hist.cycle
    generalize s.busStep = s' at hstep ⊢
    cases hstep with
    | swap => exact Nat.le_succ _
    | hostAdd cmd => exact (congrArg Own.cycle (own_hostAddStep s cmd)).ge
    | hostSend => exact (congrArg Own.cycle (own_busMsgSend s .bus)).ge
    | orphan b => exact (congrArg Own.cycle (own_unsent s b .rebuilt)).ge
    | drainDead i b node => exact (congrArg Own.cycle (own_unsent s b (.dead node.addr))).ge
    | _ => exact le_rfl
  by_cases halarm : a = .alarm
  · subst halarm
    have hstep := waitOver_cases s
    generalize step s .alarm = s' at hstep ⊢
    cases hstep <;> exact le_rfl
  exact (congrArg Own.cycle (own_step s hbus halarm)).ge

/-- A step records at most one poll, in the running cycle. -/
theorem polls_step (s : Master) (a : Action) {p : Poll} (h : p ∈ (step s a).hist.polls) :
    p ∈ s.hist.polls ∨ p.cycle = s.hist.cycle := by
  have hsame {polls : List Poll} (hp : p ∈ polls) (heq : polls = s.own.polls) :
      p ∈ s.hist.polls ∨ p.cycle = s.hist.cycle := by
    rw [heq] at hp
    exact Or.inl hp
  by_cases hbus : a = .bus
  · subst hbus
    have hstep := busStep_cases s
    change p ∈ s.busStep.hist.polls at h
    generalize s.busStep = s' at hstep h
    have hpolled {x : Poll} (hx : x.cycle = s.hist.cycle) (hp : p ∈ s.hist.polls ++ [x]) :
        p ∈ s.hist.polls ∨ p.cycle = s.hist.cycle := by
      rcases List.mem_append.mp hp with hp | hp
      · exact Or.inl hp
      · exact Or.inr (List.mem_singleton.mp hp ▸ hx)
    cases hstep with
    | sweepPoll i node => exact hpolled rfl h
    | probe i node => exact hpolled rfl h
    | hostAdd cmd => exact hsame h (congrArg Own.polls (own_hostAddStep s cmd))
    | hostSend => exact hsame h (congrArg Own.polls (own_busMsgSend s .bus))
    | orphan b => exact hsame h (congrArg Own.polls (own_unsent s b .rebuilt))
    | drainDead i b node => exact hsame h (congrArg Own.polls (own_unsent s b (.dead node.addr)))
    | _ => exact Or.inl h
  by_cases halarm : a = .alarm
  · subst halarm
    have hstep := waitOver_cases s
    generalize step s .alarm = s' at hstep h
    cases hstep <;> exact Or.inl h
  exact hsame h (congrArg Own.polls (own_step s hbus halarm))

/-- No poll is younger than the running cycle. -/
theorem poll_cycle_le (room : Nat) (cfg : Option RosterCfg) (as : List Action) :
    ∀ p ∈ (run step (boot room cfg) as).hist.polls,
      p.cycle ≤ (run step (boot room cfg) as).hist.cycle := by
  refine run_invariant (P := fun s : Master => ∀ p ∈ s.hist.polls, p.cycle ≤ s.hist.cycle)
    (fun s a h p hp => ?_) ?_
  · rcases polls_step s a hp with hp | hp
    · exact (h p hp).trans (cycle_le_step s a)
    · exact hp.le.trans (cycle_le_step s a)
  · have hhist : (boot room cfg).hist = {} := by cases cfg <;> rfl
    rw [hhist]
    intro p hp
    cases hp

/-- A node of the table was sent something by the message pass of the running cycle. -/
def Master.Commanded (s : Master) (addr : Nat) : Prop :=
  ∃ x ∈ s.hist.sent, x.addr = addr ∧ x.cycle = s.hist.cycle

instance (s : Master) (addr : Nat) : Decidable (s.Commanded addr) := by
  unfold Master.Commanded
  infer_instance

/-- Node `i` was polled in the running cycle. -/
def Master.Polled (s : Master) (i : Nat) : Prop :=
  ∃ p ∈ s.hist.polls, p.node = i ∧ p.cycle = s.hist.cycle

instance (s : Master) (i : Nat) : Decidable (s.Polled i) := by
  unfold Master.Polled
  infer_instance

theorem polled_iff (s : Master) (i : Nat) : s.Polled i ↔ (s.status i).polled = true := by
  simp [Master.Polled, Master.status, List.any_eq_true]

theorem commanded_iff (s : Master) (i addr : Nat) :
    s.Commanded addr ↔ addr ∈ (s.status i).sent := by
  simp only [Master.Commanded, Master.status, List.mem_map, List.mem_filter, beq_iff_eq]
  exact ⟨fun ⟨x, hx, haddr, hcycle⟩ => ⟨x, ⟨hx, hcycle⟩, haddr⟩,
    fun ⟨x, ⟨hx, hcycle⟩, haddr⟩ => ⟨x, hx, haddr, hcycle⟩⟩

/-- `as` ends before the swap of a cycle, and `as'` goes from there to the end of
the sweep of that cycle. -/
structure OneCycle (s : Master) (as' : List Action) : Prop where
  swap : s.pc = .swap
  sweep : (run step (step s .bus) as').pc = .probe
  cycle : (run step (step s .bus) as').hist.cycle = s.hist.cycle + 1

/-- The status of a live node at the end of the sweep. -/
theorem swept_at_end {as' : List Action} {node : Node} (hreached : Reached s) (h : OneCycle s as')
    (hnode : s.nodes[i]? = some node) (hlive : node.dead = false) :
    ((run step (step s .bus) as').status i).Swept node.addr
      (listHead s.nodes i !s.active) := by
  obtain ⟨room, cfg, as, hs⟩ := hreached
  have hkept := kept_run room cfg as
  have haged := poll_cycle_le room cfg as
  rw [← hs] at hkept haged
  clear hs
  have hswap : step s .bus = s.swapStep := by simp only [step, Master.busStep, h.swap]
  -- no poll of the cycle that begins is recorded yet
  have hfresh : (s.swapStep.hist.polls.any
      fun p => p.node == i && p.cycle == s.swapStep.hist.cycle) = false := by
    rw [List.any_eq_false]
    intro p hp heq
    rw [Bool.and_eq_true, beq_iff_eq, beq_iff_eq] at heq
    have hle := haged p hp
    have hcycle : p.cycle = s.hist.cycle + 1 := heq.2
    omega
  have hstart : Progress node.addr (listHead s.nodes i !s.active) i (s.swapStep.status i)
      s.swapStep.pc := by
    change Progress _ _ i (s.swapStep.status i) (.pass 0)
    rw [progress_pass, if_neg (Nat.not_lt_zero i)]
    refine ⟨⟨?_, hfresh⟩, rfl, rfl⟩
    change s.nodes[i]?.map _ = _
    rw [hnode, Option.map_some, hlive]
  have hkept' : Kept (busPoolSize room) s.swapStep := hswap ▸ kept_step hkept .bus
  -- while the cycle lasts, what is owed to the node follows the program counter
  let P (x : Master) : Prop := Kept (busPoolSize room) x ∧ s.hist.cycle + 1 ≤ x.hist.cycle ∧
    (x.hist.cycle = s.hist.cycle + 1 →
      Progress node.addr (listHead s.nodes i !s.active) i (x.status i) x.pc)
  have hrun : P (run step s.swapStep as') := run_invariant (P := P) ?_
    ⟨hkept', le_rfl, fun _ => hstart⟩
  · rw [← hswap] at hrun
    have hend := hrun.2.2 h.cycle
    rw [h.sweep] at hend
    exact hend
  · rintro x a ⟨hx, hle, hprogress⟩
    have hmono := cycle_le_step x a
    refine ⟨kept_step hx a, hle.trans hmono, fun heq => ?_⟩
    have hsame : x.hist.cycle = s.hist.cycle + 1 := by omega
    exact progress_step hx (hprogress hsame) a (heq.trans hsame.symm)

/-- Every live node that was commanded in the last cycle is polled in this one. -/
def CommandedPolledNext (s s' : Master) : Prop :=
  ∀ (i : Nat) (node : Node), s.nodes[i]? = some node → node.dead = false →
    s.Commanded node.addr → s'.Polled i

/-- From one cycle to the next: the commanded live nodes are polled exactly when no
message waits for any of them at the swap, and a live node that is not polled is
commanded again. -/
theorem commanded_polled_next_iff (s : Master) (as' : List Action) (hreached : Reached s)
    (h : OneCycle s as') :
    (CommandedPolledNext s (run step (step s .bus) as') ↔
      ∀ (i : Nat) (node : Node), s.nodes[i]? = some node → node.dead = false →
        s.Commanded node.addr → listHead s.nodes i (!s.active) = none) ∧
    ∀ (i : Nat) (node : Node), s.nodes[i]? = some node → node.dead = false →
      (run step (step s .bus) as').Polled i ∨
        (run step (step s .bus) as').Commanded node.addr := by
  have hpolled {i : Nat} {node : Node} (hnode : s.nodes[i]? = some node)
      (hlive : node.dead = false) :
      (run step (step s .bus) as').Polled i ↔ listHead s.nodes i (!s.active) = none := by
    obtain ⟨-, hmarked, hpoll⟩ := swept_at_end hreached h hnode hlive
    rw [polled_iff, hpoll, hmarked]
    cases listHead s.nodes i !s.active <;> simp
  refine ⟨⟨?_, ?_⟩, ?_⟩
  · intro hnext i node hnode hlive hcommanded
    exact (hpolled hnode hlive).mp (hnext i node hnode hlive hcommanded)
  · intro hempty i node hnode hlive hcommanded
    exact (hpolled hnode hlive).mpr (hempty i node hnode hlive hcommanded)
  · intro i node hnode hlive
    obtain ⟨htold, -, hpoll⟩ := swept_at_end hreached h hnode hlive
    rw [polled_iff, commanded_iff _ i, hpoll]
    cases hmarked : ((run step (step s .bus) as').status i).marked with
    | true => exact Or.inr (htold hmarked)
    | false => exact Or.inl rfl

/-- A message for the node at address 5, and the bus task up to the swap of the
cycle after the one that sends it. -/
def commandedOnce : List Action := sendAll 0 5 [1] ++ List.replicate 15 .bus

/-- Another message comes in before the swap. -/
def commandedTwice : List Action := commandedOnce.dropLast ++ sendAll 0 5 [2] ++ [.bus]

/-- Without another message the next cycle polls the node. -/
theorem commanded_polled_next_iff_once :
    CommandedPolledNext (run step (boot 24 oneNode) commandedOnce)
      (run step (step (run step (boot 24 oneNode) commandedOnce) .bus)
        (List.replicate 4 .bus ++ [.alarm, .bus])) := by
  have hcycle : OneCycle (run step (boot 24 oneNode) commandedOnce)
      (List.replicate 4 .bus ++ [.alarm, .bus]) :=
    ⟨by decide, by decide, by decide⟩
  have hempty : ∀ i < (run step (boot 24 oneNode) commandedOnce).nodes.length,
      listHead (run step (boot 24 oneNode) commandedOnce).nodes i
        (!(run step (boot 24 oneNode) commandedOnce).active) = none := by
    decide
  have hiff := commanded_polled_next_iff (run step (boot 24 oneNode) commandedOnce)
    (List.replicate 4 .bus ++ [.alarm, .bus]) ⟨24, oneNode, commandedOnce, rfl⟩ hcycle
  exact hiff.1.mpr fun i node hnode _ _ => hempty i (List.getElem?_eq_some_iff.mp hnode).1

/-- With it, the node is not polled. -/
theorem not_always_commanded_polled_next :
    ¬∀ (s : Master) (as' : List Action), Reached s → OneCycle s as' →
      CommandedPolledNext s (run step (step s .bus) as') := by
  intro h
  have hcycle : OneCycle (run step (boot 24 oneNode) commandedTwice) (List.replicate 7 .bus) :=
    ⟨by decide, by decide, by decide⟩
  have hnext := h (run step (boot 24 oneNode) commandedTwice) (List.replicate 7 .bus)
    ⟨24, oneNode, commandedTwice, rfl⟩ hcycle
  have hnode : (run step (boot 24 oneNode) commandedTwice).nodes[0]?.map
      (fun n => (n.addr, n.dead)) = some (5, false) := by
    decide
  obtain ⟨node, hnode, heq⟩ := Option.map_eq_some_iff.mp hnode
  rw [Prod.mk.injEq] at heq
  have hcommanded : (run step (boot 24 oneNode) commandedTwice).Commanded 5 := by decide
  have hpolled := hnext 0 node hnode heq.2 (heq.1 ▸ hcommanded)
  exact absurd hpolled (by decide)

end SlowBus.Arbiter
