import SlowBus.Arbiter.Liveness

/-!
# The count of dead nodes

The interlock is told how many nodes of the table are dead. Liveness is kept a
second time in the roster; the count is right as long as the two copies agree,
address by address.
-/

namespace SlowBus.Arbiter

open Runs

/-! ## Two copies of the liveness of an address -/

/-- No poll was missed since the node was last heard of, and it is not dead. -/
def Slave.clean (e : Slave) : Bool := e.misses == 0 && e.state != .dead

def Node.clean (n : Node) : Bool := n.miss == 0 && !n.dead

/-- An enabled roster entry that counts as dead. -/
def Slave.deadEnabled (e : Slave) : Bool := e.enabled && e.state == .dead

/-- What `mark_alive` writes. -/
def Slave.heard (e : Slave) : Slave := { e with misses := 0, state := .alive }

/-- An enabled entry and a node that tell the same. -/
structure Twins (e : Slave) (n : Node) : Prop where
  enabled : e.enabled = true
  miss : n.miss = e.misses
  dead : n.dead = (e.state == .dead)
  /-- A counter that stopped belongs to a dead node. -/
  full : 0xFF ≤ e.misses → e.state = .dead

/-- The entries and the nodes of one address are all clean, or there is one of
each and they are twins. -/
def AgreeOn (entries : List Slave) (nodes : List Node) : Prop :=
  ((∀ e ∈ entries, e.clean = true) ∧ ∀ n ∈ nodes, n.clean = true) ∨
    ∃ e n, entries = [e] ∧ nodes = [n] ∧ Twins e n

variable {entries : List Slave} {nodes : List Node} {j : Nat} {n : Node} {maxMisses : Nat}

theorem AgreeOn.count (h : AgreeOn entries nodes) :
    nodes.countP (·.dead) = entries.countP (·.deadEnabled) := by
  rcases h with ⟨hentries, hnodes⟩ | ⟨e, n, rfl, rfl, htwins⟩
  · rw [List.countP_eq_zero.mpr, List.countP_eq_zero.mpr]
    · intro e he
      have := hentries e he
      simp only [Slave.clean, Bool.and_eq_true, bne_iff_ne] at this
      simp [Slave.deadEnabled, this.2]
    · intro n hn
      have := hnodes n hn
      simp only [Node.clean, Bool.and_eq_true, Bool.not_eq_true'] at this
      simp [this.2]
  · simp [List.countP_cons, Slave.deadEnabled, htwins.enabled, htwins.dead]

/-- The one node of an address is at the head. -/
theorem singleton_getElem? {m : Node} (h : [m][j]? = some n) : j = 0 ∧ m = n := by
  cases j with
  | zero => exact ⟨rfl, by simpa using h⟩
  | succ j => simp at h

theorem clean_modifyHead (hentries : ∀ e ∈ entries, e.clean = true) :
    ∀ e ∈ entries.modifyHead Slave.heard, e.clean = true := by
  cases entries with
  | nil => exact hentries
  | cons e entries =>
      intro e' he'
      rcases List.mem_cons.mp he' with rfl | he'
      · rfl
      · exact hentries e' (List.mem_cons_of_mem e he')

theorem clean_modify {f : Node → Node} (hf : ∀ n, n.clean = true → (f n).clean = true)
    (hnodes : ∀ n ∈ nodes, n.clean = true) : ∀ n ∈ nodes.modify j f, n.clean = true := by
  intro n hn
  obtain ⟨k, hk⟩ := List.mem_iff_getElem?.mp hn
  rw [List.getElem?_modify] at hk
  obtain ⟨m, hm, rfl⟩ := Option.map_eq_some_iff.mp hk
  have hclean := hnodes m (List.mem_of_getElem? hm)
  split
  · exact hf m hclean
  · exact hclean

/-- The cyclic engine heard from a live node. -/
theorem AgreeOn.heard (h : AgreeOn entries nodes) (hn : nodes[j]? = some n)
    (halive : n.dead = false) :
    AgreeOn (entries.modifyHead Slave.heard) (nodes.modify j Node.heard) := by
  rcases h with ⟨hentries, hnodes⟩ | ⟨e, m, rfl, rfl, htwins⟩
  · left
    refine ⟨clean_modifyHead hentries, clean_modify (fun m hm => ?_) hnodes⟩
    simp only [Node.clean, Bool.and_eq_true] at hm
    simp [Node.clean, Node.heard, hm.2]
  · obtain ⟨rfl, rfl⟩ := singleton_getElem? hn
    right
    exact ⟨_, _, rfl, rfl, htwins.enabled, rfl, halive, fun hfull => by simp [Slave.heard] at hfull⟩

/-- A dead node answered its probe. -/
theorem AgreeOn.revived (h : AgreeOn entries nodes) (hn : nodes[j]? = some n) :
    AgreeOn (entries.modifyHead Slave.heard) (nodes.modify j Node.revived) := by
  rcases h with ⟨hentries, hnodes⟩ | ⟨e, m, rfl, rfl, htwins⟩
  · left
    exact ⟨clean_modifyHead hentries, clean_modify (fun _ _ => rfl) hnodes⟩
  · obtain ⟨rfl, rfl⟩ := singleton_getElem? hn
    right
    exact ⟨_, _, rfl, rfl, htwins.enabled, rfl, rfl, fun hfull => by simp [Slave.heard] at hfull⟩

/-- The per-slot engine writes the roster only. -/
theorem AgreeOn.slotHeard (h : AgreeOn entries nodes) (hclean : ∀ e ∈ entries, e.clean = true) :
    AgreeOn (entries.modifyHead Slave.heard) nodes := by
  left
  refine ⟨clean_modifyHead hclean, ?_⟩
  rcases h with ⟨-, hnodes⟩ | ⟨e, n, rfl, rfl, htwins⟩
  · exact hnodes
  · have he := hclean e (List.mem_singleton_self e)
    simp only [Slave.clean, Bool.and_eq_true, beq_iff_eq, bne_iff_ne] at he
    simp [Node.clean, htwins.miss, htwins.dead, he.1, he.2]

theorem Twins.missed {e : Slave} (h : Twins e n) (halive : n.dead = false)
    (hmax : maxMisses ≤ 0xFF) : Twins (e.miss maxMisses) (n.missed maxMisses) := by
  have hstate : e.state ≠ .dead := by
    intro hdead
    rw [h.dead, hdead] at halive
    cases halive
  have hlt : e.misses < 0xFF := by
    by_contra hfull
    exact hstate (h.full (by omega))
  have hlt' : n.miss < 0xFF := h.miss ▸ hlt
  simp only [Slave.miss, Node.missed, if_pos hlt, if_pos hlt']
  refine ⟨h.enabled, by simp [h.miss], ?_, fun hfull => ?_⟩
  · by_cases hle : maxMisses ≤ e.misses + 1
    · simp [hstate, hle, h.miss]
    · simp [hstate, hle, h.miss, halive]
  · have hle : maxMisses ≤ e.misses + 1 := hmax.trans hfull
    simp [hstate, hle]

/-- A live node configured once, and enabled, did not answer. -/
theorem AgreeOn.missed (h : AgreeOn entries nodes) (hn : nodes[j]? = some n)
    (halive : n.dead = false) (honce : entries.map (·.enabled) = [true])
    (hone : nodes.length = 1) (hmax : maxMisses ≤ 0xFF) :
    AgreeOn (entries.modifyHead (Slave.miss maxMisses)) (nodes.modify j (Node.missed maxMisses)) := by
  right
  rcases h with ⟨hentries, hnodes⟩ | ⟨e, m, rfl, rfl, htwins⟩
  · obtain ⟨e, rfl⟩ := List.length_eq_one_iff.mp (by simpa using congrArg List.length honce)
    obtain ⟨m, rfl⟩ := List.length_eq_one_iff.mp hone
    obtain ⟨rfl, rfl⟩ := singleton_getElem? hn
    have he := hentries e (List.mem_singleton_self e)
    have hm := hnodes m (List.mem_singleton_self m)
    simp only [Slave.clean, Node.clean, Bool.and_eq_true, beq_iff_eq, bne_iff_ne,
      Bool.not_eq_true'] at he hm
    have htwins : Twins e m := by
      refine ⟨by simpa using honce, by rw [he.1, hm.1], by simp [hm.2, he.2], fun hfull => ?_⟩
      rw [he.1] at hfull
      omega
    exact ⟨_, _, rfl, rfl, htwins.missed halive hmax⟩
  · obtain ⟨rfl, rfl⟩ := singleton_getElem? hn
    exact ⟨_, _, rfl, rfl, htwins.missed halive hmax⟩

/-! ## Roster and table by address -/

theorem rosterModify_cons (addr : Nat) (f : Slave → Slave) (e : Slave) (roster : List Slave) :
    rosterModify addr f (e :: roster) =
      if e.addr = addr then f e :: roster else e :: rosterModify addr f roster := by
  unfold rosterModify
  rw [List.findIdx?_cons]
  by_cases haddr : e.addr = addr
  · simp [haddr]
  · cases hfind : roster.findIdx? (·.addr == addr) <;> simp [haddr]

theorem filter_rosterModify {f : Slave → Slave} (hf : ∀ e, (f e).addr = e.addr) (addr b : Nat)
    (roster : List Slave) :
    (rosterModify addr f roster).filter (·.addr == b) =
      if b = addr then (roster.filter (·.addr == b)).modifyHead f
      else roster.filter (·.addr == b) := by
  induction roster with
  | nil => simp [rosterModify]
  | cons e roster ih =>
      rw [rosterModify_cons]
      by_cases haddr : e.addr = addr
      · rw [if_pos haddr]
        by_cases hb : b = addr
        · simp [hf, haddr, hb]
        · have hne : addr ≠ b := fun h => hb h.symm
          simp [hf, haddr, hb, hne]
      · rw [if_neg haddr, List.filter_cons, ih]
        by_cases hb : b = addr
        · have hne : e.addr ≠ b := hb ▸ haddr
          simp [hb, haddr]
        · by_cases heb : e.addr = b <;> simp [hb, heb]

theorem filter_modify {f : Node → Node} (hf : ∀ n, (f n).addr = n.addr) {table : List Node}
    {i : Nat} (hn : table[i]? = some n) :
    ∃ j, (table.filter (·.addr == n.addr))[j]? = some n ∧ ∀ b,
      (table.modify i f).filter (·.addr == b) =
        if b = n.addr then (table.filter (·.addr == b)).modify j f
        else table.filter (·.addr == b) := by
  induction table generalizing i with
  | nil => simp at hn
  | cons m table ih =>
      cases i with
      | zero =>
          obtain rfl : m = n := by simpa using hn
          refine ⟨0, by simp, fun b => ?_⟩
          by_cases hb : b = m.addr
          · simp [hf, hb]
          · have hne : m.addr ≠ b := fun h => hb h.symm
            simp [hf, hb, hne]
      | succ i =>
          obtain ⟨j, hj, hfilter⟩ := ih (by simpa using hn)
          by_cases hm : m.addr = n.addr
          · refine ⟨j + 1, by simp [hm, hj], fun b => ?_⟩
            rw [List.modify_succ_cons, List.filter_cons, hfilter]
            by_cases hb : b = n.addr
            · simp [hb, hm]
            · have hne : n.addr ≠ b := fun h => hb h.symm
              simp [hb, hm, hne]
          · refine ⟨j, by simp [hm, hj], fun b => ?_⟩
            rw [List.modify_succ_cons, List.filter_cons, hfilter]
            by_cases hb : b = n.addr
            · simp [hb, hm]
            · by_cases hmb : m.addr = b <;> simp [hb, hmb]

def Life.entriesAt (l : Life) (b : Nat) : List Slave := l.roster.filter (·.addr == b)

def Life.nodesAt (l : Life) (b : Nat) : List Node := l.table.filter (·.addr == b)

/-- The roster and the table agree on every address. -/
def Life.Agrees (l : Life) : Prop := ∀ b, AgreeOn (l.entriesAt b) (l.nodesAt b)

/-- Two lists with as many hits for every key have as many hits. -/
theorem countP_eq_of_keys {α β κ : Type} [DecidableEq κ] {p : α → Bool} {q : β → Bool}
    {key : α → κ} {key' : β → κ} {l : List α} {l' : List β}
    (h : ∀ k, (l.filter (key · == k)).countP p = (l'.filter (key' · == k)).countP q) :
    l.countP p = l'.countP q := by
  have hperm : ((l.filter p).map key).Perm ((l'.filter q).map key') := by
    rw [List.perm_iff_count]
    intro k
    have hk := h k
    rw [List.countP_filter, List.countP_filter] at hk
    rw [List.count_eq_countP, List.count_eq_countP, List.countP_map, List.countP_map,
      List.countP_filter, List.countP_filter]
    simp only [Function.comp_def, Bool.and_comm (key _ == k), Bool.and_comm (key' _ == k)]
    exact hk
  rw [List.countP_eq_length_filter, List.countP_eq_length_filter]
  simpa using hperm.length_eq

theorem Life.Agrees.count {l : Life} (h : l.Agrees) :
    l.table.countP (·.dead) = l.roster.countP (·.deadEnabled) :=
  countP_eq_of_keys fun b => (h b).count

/-! ## When the copies keep agreeing -/

/-- The bus task is inside `bus_run_cycle`. -/
def Pc.cycling : Pc → Bool
  | .top | .choose | .inject _ | .injectWait _ _ | .collectWait _ | .slot _ _ => false
  | _ => true

/-- The table will be rebuilt before it is used again. -/
def Master.pending (s : Master) : Bool := s.dirty && !s.pc.cycling

/-- The address the per-slot engine takes for alive when it gets its next frame. -/
def Master.hears (s : Master) : Option Nat :=
  match s.pc, s.wire.rx.head? with
  | .injectWait cmd _, some f => if f.src = cmd.slave then some cmd.slave else none
  | .collectWait c, some f => if f.src = c.command.addr then some c.command.addr else none
  | _, _ => none

/-- Every entry of the address is clean. -/
def Master.CleanAt (s : Master) (addr : Nat) : Prop := ∀ e ∈ s.roster, e.addr = addr → e.clean = true

instance (s : Master) (addr : Nat) : Decidable (s.CleanAt addr) := by
  unfold Master.CleanAt
  infer_instance

/-- The end of a wait writes both copies alike: an unanswered poll of the sweep was
for a node configured once and enabled, and the per-slot engine, which writes the
roster only, has nothing to write. -/
def WaitKeeps (s : Master) : Pc → Prop
  | .listen i false =>
      ∀ n ∈ s.nodes[i]?,
        (s.roster.filter (·.addr == n.addr)).map (·.enabled) = [true] ∧
          (s.nodes.filter (·.addr == n.addr)).length = 1
  | .slot addr true => s.pending = false → s.CleanAt addr
  | .slot addr false => s.pending = false → ∀ e ∈ s.roster, e.addr ≠ addr
  | _ => True

/-- Neither copy is written without the other, and none forgets what the other
knows. -/
def KeepsCopies (s : Master) : Action → Prop
  | .bus =>
      (s.pc = .top → s.cycleMode = true → s.dirty = true → ∀ e ∈ s.roster, e.clean = true) ∧
        (s.pending = false → ∀ addr ∈ s.hears, s.CleanAt addr)
  | .alarm => WaitKeeps s s.pc
  | .clearRoster => s.pc.cycling = true → ∀ n ∈ s.nodes, n.clean = true
  | .registerSlave addr _ =>
      s.pc.cycling = true → s.CleanAt addr ∧ ∀ n ∈ s.nodes, n.addr = addr → n.clean = true
  | .uplinkEnter _ _ => s.pending = false → ∀ n ∈ s.nodes, n.clean = true
  | _ => True

instance (s : Master) (a : Action) : Decidable (KeepsCopies s a) := by
  unfold KeepsCopies WaitKeeps
  split
  · infer_instance
  · split <;> infer_instance
  all_goals infer_instance

variable {s : Master}

/-- A pending rebuild stays pending until it is done. -/
theorem pending_step (h : s.pending = true) (a : Action) :
    (step s a).pending = true ∨ (a = .bus ∧ s.pc = .top ∧ s.cycleMode = true) := by
  simp only [Master.pending, Bool.and_eq_true, Bool.not_eq_true'] at h ⊢
  obtain ⟨hdirty, hpc⟩ := h
  by_cases hbus : a = .bus
  · subst hbus
    have hstep := busStep_cases s
    change ((s.busStep.dirty = true ∧ s.busStep.pc.cycling = false) ∨ _)
    generalize s.busStep = s' at hstep ⊢
    cases hstep with
    | rebuild htop hmode => exact Or.inr ⟨rfl, htop, hmode⟩
    | begin htop hmode => exact Or.inr ⟨rfl, htop, hmode⟩
    | wait => exact Or.inl ⟨hdirty, hpc⟩
    | ignore => exact Or.inl ⟨hdirty, hpc⟩
    | _ => first | exact Or.inl ⟨hdirty, rfl⟩ | simp_all [Pc.cycling]
  · left
    by_cases halarm : a = .alarm
    · subst halarm
      have hstep := waitOver_cases s
      generalize step s .alarm = s' at hstep ⊢
      cases hstep with
      | none => exact ⟨hdirty, hpc⟩
      | _ => first | exact ⟨hdirty, rfl⟩ | simp_all [Pc.cycling]
    · refine ⟨?_, (congrArg Pc.cycling (pc_step s hbus halarm)).trans hpc⟩
      have hlife := lifeStep_step s a
      change (step s a).life.dirty = true
      generalize (step s a).life = l at hlife ⊢
      cases hlife <;> first | exact hdirty | rfl | exact absurd rfl hbus

/-- The node a sweep listens to is alive. -/
def Master.Listening (s : Master) : Prop :=
  ∀ i heard, s.pc = .listen i heard → ∀ n, s.nodes[i]? = some n → n.dead = false

theorem agrees_of_fresh {l : Life} (hroster : ∀ e ∈ l.roster, e.clean = true)
    (htable : ∀ n ∈ l.table, n.clean = true) : l.Agrees := fun _ =>
  Or.inl ⟨fun e he => hroster e (List.mem_filter.mp he).1,
    fun n hn => htable n (List.mem_filter.mp hn).1⟩

theorem agrees_rebuild (hroster : ∀ e ∈ s.roster, e.clean = true) :
    Life.Agrees { s.life with table := busNodetableBuild s.roster, dirty := false } := by
  apply agrees_of_fresh hroster
  intro n hn
  obtain ⟨e, -, rfl⟩ := mem_busNodetableBuild hn
  rfl

theorem cfgRoster_clean (cfg : Option RosterCfg) : ∀ e ∈ cfgRoster cfg, e.clean = true := by
  intro e he
  cases cfg with
  | none => cases he
  | some rc =>
      obtain ⟨x, -, rfl⟩ := List.mem_map.mp he
      rfl

theorem mem_life_table {n : Node} (h : n ∈ s.life.table) :
    ∃ m ∈ s.nodes, n.addr = m.addr ∧ n.clean = m.clean := by
  obtain ⟨m, hm, rfl⟩ := List.mem_map.mp h
  exact ⟨m, hm, rfl, rfl⟩

/-- Both copies are written for one node of the table. -/
theorem Life.Agrees.write {l : Life} (h : l.Agrees) {f : Slave → Slave} {g : Node → Node}
    (hf : ∀ e, (f e).addr = e.addr) (hg : ∀ n, (g n).addr = n.addr) {i : Nat} {n : Node}
    (hn : l.table[i]? = some n)
    (hwrite : ∀ j, (l.nodesAt n.addr)[j]? = some n →
      AgreeOn ((l.entriesAt n.addr).modifyHead f) ((l.nodesAt n.addr).modify j g)) :
    Life.Agrees { l with roster := rosterModify n.addr f l.roster, table := l.table.modify i g } := by
  intro b
  obtain ⟨j, hj, hfilter⟩ := filter_modify hg hn
  simp only [Life.entriesAt, Life.nodesAt, filter_rosterModify hf, hfilter]
  by_cases hb : b = n.addr
  · subst hb
    simpa [Life.entriesAt, Life.nodesAt] using hwrite j hj
  · simpa [hb, Life.entriesAt, Life.nodesAt] using h b

theorem Life.Agrees.slotHeard {l : Life} (h : l.Agrees) (addr : Nat)
    (hclean : ∀ e ∈ l.roster, e.addr = addr → e.clean = true) :
    Life.Agrees { l with roster := markAlive addr l.roster } := by
  intro b
  have hfilter := filter_rosterModify (f := Slave.heard) (fun _ => rfl) addr b l.roster
  change AgreeOn ((rosterModify addr Slave.heard l.roster).filter (·.addr == b)) (l.nodesAt b)
  rw [hfilter]
  split
  · next hb =>
      apply (h b).slotHeard
      intro e he
      obtain ⟨he, haddr⟩ := List.mem_filter.mp he
      exact hclean e he ((beq_iff_eq.mp haddr).trans hb)
  · exact h b

theorem rosterModify_absent {f : Slave → Slave} {addr : Nat} {roster : List Slave}
    (h : ∀ e ∈ roster, e.addr ≠ addr) : rosterModify addr f roster = roster := by
  induction roster with
  | nil => rfl
  | cons e roster ih =>
      rw [rosterModify_cons, if_neg (h e List.mem_cons_self),
        ih fun x hx => h x (List.mem_cons_of_mem e hx)]

theorem life_getElem? {i : Nat} {n : Node} (h : s.nodes[i]? = some n) :
    s.life.table[i]? = some n.life := by
  rw [Master.life, List.getElem?_map, h]
  rfl

theorem length_nodesAt (s : Master) (addr : Nat) :
    (s.life.nodesAt addr).length = (s.nodes.filter (·.addr == addr)).length := by
  rw [Life.nodesAt, Master.life, List.filter_map, List.length_map]
  rfl

/-- A node is registered while its address is clean. -/
theorem Life.Agrees.register {l : Life} (h : l.Agrees) {addr : Nat} {enabled dirty : Bool}
    (hentries : ∀ e ∈ l.roster, e.addr = addr → e.clean = true)
    (hnodes : ∀ n ∈ l.table, n.addr = addr → n.clean = true) :
    Life.Agrees { l with roster := l.roster ++ [{ addr, enabled }], dirty } := by
  intro b
  by_cases hb : addr = b
  · left
    subst hb
    refine ⟨fun e he => ?_, fun n hn => ?_⟩
    · obtain ⟨he, haddr⟩ := List.mem_filter.mp he
      rcases List.mem_append.mp he with he | he
      · exact hentries e he (beq_iff_eq.mp haddr)
      · obtain rfl := List.mem_singleton.mp he
        rfl
    · obtain ⟨hn, haddr⟩ := List.mem_filter.mp hn
      exact hnodes n hn (beq_iff_eq.mp haddr)
  · have hentries : Life.entriesAt { l with roster := l.roster ++ [{ addr, enabled }], dirty } b =
        l.entriesAt b := by
      simp [Life.entriesAt, List.filter_append, hb]
    rw [hentries]
    exact h b

theorem mem_hears_inject {cmd : HostCmd} {c : Command} {f : Frame}
    (hpc : s.pc = .injectWait cmd c) (hrx : s.wire.rx.head? = some f) (hsrc : f.src = cmd.slave) :
    cmd.slave ∈ s.hears := by
  simp [Master.hears, hpc, hrx, hsrc]

theorem mem_hears_collect {c : Collect} {f : Frame} (hpc : s.pc = .collectWait c)
    (hrx : s.wire.rx.head? = some f) (hsrc : f.src = c.command.addr) :
    c.command.addr ∈ s.hears := by
  simp [Master.hears, hpc, hrx, hsrc]

/-- While the table is about to be rebuilt nothing is asked of it, and the rebuild makes it
agree. -/
theorem agrees_pending {a : Action} (hpend : s.pending = true) (hkeep : KeepsCopies s a) :
    (step s a).pending = true ∨ (step s a).life.Agrees := by
  refine (pending_step hpend a).imp_right ?_
  rintro ⟨rfl, hpc, hmode⟩
  have hdirty : s.dirty = true := by
    rw [Master.pending, Bool.and_eq_true] at hpend
    exact hpend.1
  have hstep : (step s .bus).life =
      { s.life with table := busNodetableBuild s.roster, dirty := false } := by
    simp only [step, Master.busStep, hpc, hmode, if_true, hdirty, Master.life, Master.rebuild,
      map_life_build]
  rw [hstep]
  exact agrees_rebuild (hkeep.1 hpc hmode hdirty)

/-- Copies that agree still do after a step that leaves no rebuild to be made. -/
theorem agrees_kept {a : Action} (h : s.life.Agrees) (hpend : s.pending = false)
    (hlisten : s.Listening) (hmax : s.pollMaxMisses ≤ 0xFF) (hkeep : KeepsCopies s a)
    (hedit : (step s a).dirty = true → (step s a).pc.cycling = true) :
    (step s a).life.Agrees := by
  have hlife := lifeStep_step s a
  generalize hl : (step s a).life = l at hlife ⊢
  have hcycling (hdirty : l.dirty = true) (hpc : (step s a).pc = s.pc) :
      s.pc.cycling = true := by
    rw [← hl] at hdirty
    rw [← hpc]
    exact hedit hdirty
  cases hlife with
  | same => exact h
  | rebuild hpc hmode hdirty => exact agrees_rebuild (hkeep.1 hpc hmode hdirty)
  | swept i n hpc hnode =>
      exact h.write (n := n.life) (f := Slave.heard) (g := Node.heard) (fun _ => rfl)
        (fun _ => rfl)
        (life_getElem? hnode) fun j hj => (h _).heard hj (hlisten i true hpc n hnode)
  | missed i n hpc hnode =>
      simp only [KeepsCopies, hpc, WaitKeeps] at hkeep
      obtain ⟨honce, hone⟩ := hkeep n hnode
      exact h.write (n := n.life) (f := Slave.miss s.pollMaxMisses) (fun _ => rfl) (addr_missed _)
        (life_getElem? hnode) fun j hj => (h _).missed hj (hlisten i false hpc n hnode) honce
          ((length_nodesAt s n.addr).trans hone) hmax
  | revived i n hpc hnode =>
      exact h.write (n := n.life) (f := Slave.heard) (g := Node.revived) (fun _ => rfl)
        (fun _ => rfl)
        (life_getElem? hnode) fun j hj => (h _).revived hj
  -- every copy with the address is written, and both tables have it once
  | slotHeard addr hpc =>
      simp only [KeepsCopies, hpc, WaitKeeps] at hkeep
      exact h.slotHeard addr (hkeep hpend)
  | slotMissed addr hpc =>
      -- the address polled is not in the roster
      simp only [KeepsCopies, hpc, WaitKeeps] at hkeep
      have habsent : markMiss s.pollMaxMisses addr s.roster = s.roster :=
        rosterModify_absent (hkeep hpend)
      rw [habsent]
      exact h
  | injectHeard cmd c f hpc hrx hsrc =>
      exact h.slotHeard _ (hkeep.2 hpend _ (mem_hears_inject hpc hrx hsrc))
  | collectHeard c f hpc hrx hsrc =>
      exact h.slotHeard _ (hkeep.2 hpend _ (mem_hears_collect hpc hrx hsrc))
  | cleared =>
      apply agrees_of_fresh (fun e he => by cases he)
      intro n hn
      obtain ⟨m, hm, -, hclean⟩ := mem_life_table hn
      rw [hclean]
      exact hkeep (hcycling rfl (pc_step s (by simp) (by simp))) m hm
  | registered addr enabled =>
      obtain ⟨hentries, hnodes⟩ := hkeep (hcycling rfl (pc_step s (by simp) (by simp)))
      apply h.register hentries
      intro n hn haddr
      obtain ⟨m, hm, haddr', hclean⟩ := mem_life_table hn
      rw [hclean]
      exact hnodes m hm (haddr'.symm.trans haddr)
  -- a roster that is read has no history
  | loaded active cfg =>
      apply agrees_of_fresh (cfgRoster_clean cfg)
      intro n hn
      obtain ⟨m, hm, -, hclean⟩ := mem_life_table hn
      rw [hclean]
      exact hkeep hpend m hm

/-- The copies agree, or the table is about to be rebuilt. -/
theorem agrees_step {a : Action} (h : s.pending = true ∨ s.life.Agrees) (hlisten : s.Listening)
    (hmax : s.pollMaxMisses ≤ 0xFF) (hkeep : KeepsCopies s a) :
    (step s a).pending = true ∨ (step s a).life.Agrees := by
  by_cases hpend : s.pending = true
  · exact agrees_pending hpend hkeep
  · refine Classical.or_iff_not_imp_left.mpr fun hnot => ?_
    apply agrees_kept (h.resolve_left hpend) (eq_false_of_ne_true hpend) hlisten hmax hkeep
    intro hdirty
    by_contra hcycling
    rw [Master.pending, hdirty, eq_false_of_ne_true hcycling] at hnot
    exact hnot rfl

/-! ## The count -/

theorem listening_step (h : s.Listening) (a : Action) : (step s a).Listening := by
  by_cases hbus : a = .bus
  · subst hbus
    have hstep := busStep_cases s
    change s.busStep.Listening
    generalize s.busStep = s' at hstep ⊢
    intro j heard hpc n hn
    cases hstep with
    | hostAdd cmd =>
        rw [pc_hostAddStep] at hpc
        cases hpc
    | hostSend hsend =>
        rw [pc_busMsgSend] at hpc
        cases hsend.symm.trans hpc
    | sweepPoll i node hsweep hnode hdead =>
        cases hpc
        exact Option.some.inj (hnode.symm.trans hn) ▸ hdead
    | listen i heard' node f rx hlisten =>
        cases hpc
        exact h j heard' hlisten n hn
    | drainGone => exact h j heard hpc n hn
    | wait => exact h j heard hpc n hn
    | ignore => exact h j heard hpc n hn
    | _ => cases hpc
  · by_cases halarm : a = .alarm
    · subst halarm
      have hstep := waitOver_cases s
      generalize step s .alarm = s' at hstep ⊢
      intro j heard hpc n hn
      cases hstep with
      | none => exact h j heard hpc n hn
      | _ => cases hpc
    · intro j heard hpc n hn
      rw [pc_step s hbus halarm] at hpc
      have hn' := life_getElem? hn
      rw [table_step hbus halarm, Master.life, List.getElem?_map] at hn'
      obtain ⟨m, hm, hlife⟩ := Option.map_eq_some_iff.mp hn'
      have hdead : m.life.dead = n.life.dead := congrArg Node.dead hlife
      exact hdead.symm.trans (h j heard hpc m hm)

/-- At the end of a cycle the count is that of the table. -/
def Master.Counts (s : Master) : Prop :=
  s.pc = .emit → s.ilNodesDead = s.life.table.countP (·.dead)

theorem counts_step (h : s.Counts) (a : Action) : (step s a).Counts := by
  by_cases hbus : a = .bus
  · subst hbus
    have hstep := busStep_cases s
    change s.busStep.Counts
    generalize s.busStep = s' at hstep ⊢
    intro hpc
    cases hstep with
    | hostAdd cmd =>
        rw [pc_hostAddStep] at hpc
        cases hpc
    | hostSend hsend =>
        rw [pc_busMsgSend] at hpc
        cases hsend.symm.trans hpc
    | count =>
        rw [Master.life, List.countP_map]
        rfl
    | drainGone => exact h hpc
    | wait => exact h hpc
    | ignore => exact h hpc
    | _ => cases hpc
  · by_cases halarm : a = .alarm
    · subst halarm
      have hstep := waitOver_cases s
      generalize step s .alarm = s' at hstep ⊢
      intro hpc
      cases hstep with
      | none => exact h hpc
      | _ => cases hpc
    · intro hpc
      have hown := own_step s hbus halarm
      rw [pc_step s hbus halarm] at hpc
      rw [table_step hbus halarm]
      exact (congrArg Own.ilNodesDead hown).trans (h hpc)

theorem pollMaxMisses_step (h : s.pollMaxMisses ≤ 0xFF) (a : Action) :
    (step s a).pollMaxMisses ≤ 0xFF := by
  cases ha : a.administers with
  | false =>
      have hconfig := congrArg Config.pollMaxMisses (config_step s ha)
      exact (hconfig ▸ h : (step s a).config.pollMaxMisses ≤ 0xFF)
  | true =>
      cases a with
      | setPoll maxMisses =>
          change maxMisses % 256 ≤ 255
          omega
      | uplinkEnter active cfg =>
          cases cfg with
          | none => exact h
          | some rc =>
              change (if rc.maxMisses = 0 then s.pollMaxMisses else rc.maxMisses.toNat) ≤ 255
              have := rc.maxMisses.toNat_lt
              split <;> omega
      | _ => first | exact h | cases ha

/-- What keeps the count truthful. -/
structure Truthful (s : Master) : Prop where
  agrees : s.pending = true ∨ s.life.Agrees
  listening : s.Listening
  counts : s.Counts
  bound : s.pollMaxMisses ≤ 0xFF

theorem truthful_step {a : Action} (h : Truthful s) (hkeep : KeepsCopies s a) :
    Truthful (step s a) where
  agrees := agrees_step h.agrees h.listening h.bound hkeep
  listening := listening_step h.listening a
  counts := counts_step h.counts a
  bound := pollMaxMisses_step h.bound a

theorem truthful_boot (room : Nat) (cfg : Option RosterCfg) : Truthful (boot room cfg) := by
  have hpc : (boot room cfg).pc = .top := by cases cfg <;> rfl
  refine ⟨Or.inr ?_, ?_, ?_, ?_⟩
  · have hroster : (boot room cfg).roster = cfgRoster cfg := by cases cfg <;> rfl
    apply agrees_of_fresh
    · exact fun e he => cfgRoster_clean cfg e (hroster ▸ he)
    · intro n hn
      obtain ⟨m, hm, -, hclean⟩ := mem_life_table hn
      have hnodes : m ∈ busNodetableBuild (cfgRoster cfg) := by
        rw [← hroster]
        exact hm
      obtain ⟨e, -, rfl⟩ := mem_busNodetableBuild hnodes
      exact hclean
  · intro i heard h
    cases hpc.symm.trans h
  · intro h
    cases hpc.symm.trans h
  · cases cfg with
    | none =>
        change 3 ≤ 255
        decide
    | some rc =>
        change (if rc.maxMisses = 0 then 3 else rc.maxMisses.toNat) ≤ 255
        have := rc.maxMisses.toNat_lt
        split <;> omega

/-- The enabled roster entries whose state is `ST_DEAD`. -/
def Master.rosterDead (s : Master) : Nat := s.roster.countP (·.deadEnabled)

/-- Where neither copy is written without the other, the interlock is told the
number of dead enabled roster entries at the end of every cycle. -/
theorem nodes_dead_truthful_when_copies_kept (room : Nat) (cfg : Option RosterCfg)
    (as : List Action) (hkeep : Along step KeepsCopies (boot room cfg) as)
    (hend : (run step (boot room cfg) as).pc = .emit) :
    (step (run step (boot room cfg) as) .bus).ilNodesDead =
      (step (run step (boot room cfg) as) .bus).rosterDead := by
  have h := run_along (P := Truthful) (fun _ _ h hk => truthful_step h hk) hkeep
    (truthful_boot room cfg)
  generalize run step (boot room cfg) as = s at h hend
  have hemit : step s .bus = s.emitStep := by simp only [step, Master.busStep, hend]
  have hcount : s.ilNodesDead = s.rosterDead := by
    have hpending : s.pending ≠ true := by simp [Master.pending, hend, Pc.cycling]
    exact (h.counts hend).trans (h.agrees.resolve_left hpending).count
  rw [hemit]
  exact hcount

/-- A cycle in which the node is polled and does not answer, up to its end. -/
def missedCycle : List Action :=
  List.replicate 7 .bus ++ [.alarm] ++ List.replicate 3 .bus

/-- A node at address 5 that counts as dead after two missed polls. -/
def frailNode : Option RosterCfg := some { slaves := [(5, true)], maxMisses := 2 }

/-- The node stays away for two cycles and counts as dead. -/
theorem nodes_dead_truthful_when_copies_kept_twice :
    Along step KeepsCopies (boot 24 frailNode) (missedCycle ++ .bus :: missedCycle) ∧
      (step (run step (boot 24 frailNode) (missedCycle ++ .bus :: missedCycle)) .bus).ilNodesDead =
        (step (run step (boot 24 frailNode) (missedCycle ++ .bus :: missedCycle)) .bus).rosterDead :=
  ⟨by decide, nodes_dead_truthful_when_copies_kept 24 frailNode _ (by decide) (by decide)⟩

/-- Another node is registered: the rebuilt table takes the dead one for alive. -/
theorem not_always_nodes_dead_truthful :
    ¬∀ (room : Nat) (cfg : Option RosterCfg) (as : List Action),
      (run step (boot room cfg) as).pc = .emit →
        (step (run step (boot room cfg) as) .bus).ilNodesDead =
          (step (run step (boot room cfg) as) .bus).rosterDead := by
  intro h
  have hrun := h 24 frailNode
    (missedCycle ++ .bus :: missedCycle ++ [.bus, .registerSlave 6 true] ++
      List.replicate 10 .bus ++ [.alarm, .bus, .alarm] ++ List.replicate 3 .bus) (by decide)
  exact absurd hrun (by decide)

end SlowBus.Arbiter
