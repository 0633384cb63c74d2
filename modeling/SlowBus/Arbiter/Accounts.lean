import SlowBus.Arbiter.Ledger

/-!
# The accounts along a run

The placement of the buffers, the numbering of the calls and the ledger of the
messages hold together at the start and after every step.
-/

namespace SlowBus.Arbiter

open Linked Placement Runs

/-! ## What the pool's operations do to the messages in it -/

@[simp] theorem msg_setNext (p : Pool) (b c : Buf) (x : Option Buf) :
    ((p.setNext b x).mem c).msg = (p.mem c).msg := by
  rcases eq_or_ne c b with rfl | hc
  · simp [Pool.setNext]
  · simp [Pool.setNext, hc]

@[simp] theorem payload_setNext (p : Pool) (b c : Buf) (x : Option Buf) :
    ((p.setNext b x).mem c).payload = (p.mem c).payload := by
  rcases eq_or_ne c b with rfl | hc
  · simp [Pool.setNext]
  · simp [Pool.setNext, hc]

@[simp] theorem msg_fill_self (p : Pool) (b : Buf) (msg : Msg) :
    ((p.fill b msg).mem b).msg = some msg := by
  simp [Pool.fill]

@[simp] theorem payload_fill_self (p : Pool) (b : Buf) (msg : Msg) :
    ((p.fill b msg).mem b).payload = msg.payload.take busPayloadMax := by
  simp [Pool.fill]

theorem mem_fill_of_ne (p : Pool) {b c : Buf} (hc : c ≠ b) (msg : Msg) :
    (p.fill b msg).mem c = p.mem c := by
  simp [Pool.fill, hc]

@[simp] theorem msg_recover_self (p : Pool) (b : Buf) : ((poolRecover p b).mem b).msg = none := by
  simp [poolRecover]

theorem mem_recover_of_ne (p : Pool) {b c : Buf} (hc : c ≠ b) :
    (poolRecover p b).mem c = p.mem c := by
  simp [poolRecover, hc]

theorem poolGrab_eq_some {p p' : Pool} {b : Buf} (h : poolGrab p = (some b, p')) :
    p.free = some b ∧ p'.free = p.next b ∧ p'.avail = (p.avail + (2 ^ 16 - 1)) % 2 ^ 16 ∧
      p'.mem = p.mem := by
  unfold poolGrab at h
  split at h
  · cases h
  · next c hc =>
      simp only [Prod.mk.injEq, Option.some_inj] at h
      obtain ⟨rfl, rfl⟩ := h
      exact ⟨hc, rfl, rfl, rfl⟩

/-! ## The accounts -/

def nodeAddr (nodes : List Node) (i : Nat) : Option Nat := nodes[i]?.map (·.addr)

def Master.payloadOf (s : Master) (b : Buf) : Bytes := (s.pool.mem b).payload

/-- The accounts of a state, given where its `n` buffers are. -/
structure Accounted (n : Nat) (s : Master) (placed : Place → List Buf) : Prop where
  stored : Stored n s placed
  calls : Calls s.msgOf s.flights s.hist
  ledger : Ledger s.msgOf s.payloadOf (nodeAddr s.nodes) s.active s.pc s.hist placed

variable {n : Nat} {s s' : Master} {placed : Place → List Buf} {t : Task} {msg : Msg} {b : Buf}

theorem msgOf_congr (hpool : s'.pool = s.pool) : s'.msgOf = s.msgOf := by
  funext c
  rw [Master.msgOf, Master.msgOf, hpool]

theorem payloadOf_congr (hpool : s'.pool = s.pool) : s'.payloadOf = s.payloadOf := by
  funext c
  rw [Master.payloadOf, Master.payloadOf, hpool]

/-- A buffer a task holds is not waiting. -/
theorem Accounted.held_not_waiting (h : Accounted n s placed) (ht : heldBy s.flights t = some b) :
    ¬Waiting s.pc placed b := by
  have hb : b ∈ placed (.held t) := by rw [h.stored.held t, ht]; exact List.mem_singleton_self b
  rintro (⟨i, parity, hq⟩ | hq)
  · exact h.stored.places.not_mem hb (by simp) hq
  · exact h.stored.places.not_mem hb (by simp) (List.mem_of_mem_drop hq)

/-- Two tasks do not hold the same buffer. -/
theorem Accounted.held_unique (h : Accounted n s placed) {u : Task}
    (ht : heldBy s.flights t = some b) (hu : heldBy s.flights u = some b) : t = u := by
  have hmem {v : Task} (hv : heldBy s.flights v = some b) : b ∈ placed (.held v) := by
    rw [h.stored.held v, hv]
    exact List.mem_singleton_self b
  exact Place.held.inj (h.stored.places.unique _ _ b (hmem ht) (hmem hu))

theorem Accounted.inHand_nodup (h : Accounted n s placed) : (inHand s.pc placed).Nodup :=
  (h.stored.places.nodup .hand).sublist (List.drop_sublist ..)

/-- The bus task has nothing in hand where its place in the program says so. -/
theorem Accounted.inHand_nil (h : Accounted n s placed) (hhand : s.pc.hand.2 = none) :
    inHand s.pc placed = [] := by
  obtain ⟨l, hl, hchain⟩ := h.stored.hand
  rw [hhand] at hchain
  rw [inHand, hl, chain_none.mp hchain]
  simp

/-- What the accounts depend on, the place of the bus task apart. -/
structure View where
  pool : Pool
  lists : Nat → Bool → Option Buf
  addrs : Nat → Option Nat
  active : Bool
  flights : Task → Option Flight
  calls : Nat
  accepted : List (Msg × Nat)
  sent : List Sent
  unsent : List (Msg × Unsent)
  cycle : Nat

def Master.view (s : Master) : View :=
  { pool := s.pool
    lists := listHead s.nodes
    addrs := nodeAddr s.nodes
    active := s.active
    flights := s.flights
    calls := s.hist.calls
    accepted := s.hist.accepted
    sent := s.hist.sent
    unsent := s.hist.unsent
    cycle := s.hist.cycle }

/-- Steps that move the bus task on and touch neither buffers nor messages. -/
theorem Accounted.walk (h : Accounted n s placed) (hview : s'.view = s.view)
    (hhand : s'.pc.hand = s.pc.hand)
    (hdrain : ∀ i, s'.pc.draining = some i → s.pc.draining = some i ∨ inHand s.pc placed = [])
    (hpassed : ∀ i, s'.pc.passed i → s.pc.passed i ∨ placed (.queue i s.active) = []) :
    Accounted n s' placed := by
  simp only [Master.view, View.mk.injEq] at hview
  obtain ⟨hpool, hlist, haddr, hactive, hflights, hcalls, haccepted, hsent, hunsent, hcycle⟩ := hview
  have hmsg : s'.msgOf = s.msgOf := msgOf_congr hpool
  have hpayload : s'.payloadOf = s.payloadOf := payloadOf_congr hpool
  constructor
  · have := h.stored
    rw [Stored] at this ⊢
    rwa [hpool, hlist, hflights, hhand]
  · rw [hmsg, hflights]
    exact h.calls.same hcalls haccepted fun _ _ _ _ => rfl
  · rw [hmsg, hpayload, haddr, hactive]
    exact h.ledger.same (fun _ _ => rfl) h.ledger.payload (fun _ => rfl) (fun _ _ => rfl)
      (by rw [inHand, inHand, hhand]) hdrain hpassed ⟨haccepted, hsent, hunsent, hcycle⟩

/-! ## `bus_msg_send` -/

/-- A call of `bus_msg_send` begins. -/
theorem Accounted.beginSend (h : Accounted n s placed) (ht : s.flights t = none) (dest : Nat)
    (payload : Bytes) (command : Option Command) :
    Accounted n (s.beginSend t dest payload command) placed := by
  constructor
  · have := h.stored
    rw [Stored] at this ⊢
    have hheld : heldBy (s.beginSend t dest payload command).flights = heldBy s.flights := by
      rw [Master.beginSend, heldBy_update, Function.update_eq_self_iff, heldBy, ht]
      rfl
    rw [hheld]
    exact this
  · exact h.calls.begin t rfl rfl rfl rfl
  · exact h.ledger.same (fun _ _ => rfl) h.ledger.payload (fun _ => rfl) (fun _ _ => rfl) rfl
      (fun _ => Or.inl) (fun _ => Or.inl) ⟨rfl, rfl, rfl, rfl⟩

/-- A call without a buffer returns. -/
theorem Accounted.giveUp (h : Accounted n s placed) (hf : s.flights t = some ⟨msg, .grab⟩) :
    Accounted n ((s.forget msg).endSend t) placed := by
  constructor
  · have := h.stored
    rw [Stored] at this ⊢
    have hheld : heldBy ((s.forget msg).endSend t).flights = heldBy s.flights := by
      change heldBy (Function.update s.flights t none) = heldBy s.flights
      rw [heldBy_update, Function.update_eq_self_iff, heldBy, hf]
      rfl
    rw [hheld]
    exact this
  · exact h.calls.finish hf rfl (Or.inl rfl) fun u m c _ hu => h.calls.filled u m c hu
  · exact h.ledger.same (fun _ _ => rfl) h.ledger.payload (fun _ => rfl) (fun _ _ => rfl) rfl
      (fun _ => Or.inl) (fun _ => Or.inl) ⟨rfl, rfl, rfl, rfl⟩

theorem Accounted.grab (h : Accounted n s placed) (hn : n ≤ busPoolN)
    (hf : s.flights t = some ⟨msg, .grab⟩) {pool : Pool}
    (hpool : poolGrab s.pool = (some b, pool)) :
    Accounted n ({ s with pool }.stage t msg (.fill b)) (move placed .free (.held t) b) := by
  obtain ⟨hfree, hfree', havail', hmem'⟩ := poolGrab_eq_some hpool
  have hmsg : Master.msgOf ({ s with pool }.stage t msg (.fill b)) = s.msgOf := by
    funext c
    simp only [Master.msgOf, Master.stage, hmem']
  have hpayload : Master.payloadOf ({ s with pool }.stage t msg (.fill b)) = s.payloadOf := by
    funext c
    simp only [Master.payloadOf, Master.stage, hmem']
  have hnext : pool.next = s.pool.next := by
    funext c
    simp only [Pool.next, hmem']
  constructor
  · have hheld : heldBy s.flights t = none := by rw [heldBy, hf]; rfl
    have := h.stored.grab hn hfree hheld
    simp only [Stored, Master.stage, heldBy_update, hfree', havail', hnext]
    exact this
  · rw [hmsg]
    exact h.calls.stage hf (by simp) fun u m c _ hu => h.calls.filled u m c hu
  · rw [hmsg, hpayload]
    exact h.ledger.same (fun _ _ => rfl) h.ledger.payload (fun _ => rfl)
      (fun i parity => move_other (by simp) (by simp))
      (by rw [inHand, move_other (by simp) (by simp)]; rfl)
      (fun _ => Or.inl) (fun _ => Or.inl) ⟨rfl, rfl, rfl, rfl⟩

theorem Accounted.fill (h : Accounted n s placed) (hf : s.flights t = some ⟨msg, .fill b⟩) :
    Accounted n ({ s with pool := s.pool.fill b msg }.stage t msg (.attach b)) placed := by
  have hheld : heldBy s.flights t = some b := by rw [heldBy, hf]; rfl
  constructor
  · have := h.stored
    rw [Stored] at this ⊢
    have hsame : heldBy ({ s with pool := s.pool.fill b msg }.stage t msg (.attach b)).flights =
        heldBy s.flights := by
      rw [Master.stage, heldBy_update, Function.update_eq_self_iff, hheld]
      rfl
    rw [hsame]
    simp only [Master.stage, Pool.next_fill]
    exact this
  · apply h.calls.stage hf
    · intro c hc
      cases hc
      exact msg_fill_self ..
    · intro u m c hu hm
      have hc : c ≠ b := by
        rintro rfl
        exact hu (h.held_unique (by rw [heldBy, hm]; rfl) hheld)
      rw [Master.msgOf, Master.stage, mem_fill_of_ne _ hc]
      exact h.calls.filled u m c hm
  · refine h.ledger.same (fun c hc => ?_) (fun c m hm => ?_) (fun _ => rfl) (fun _ _ => rfl) rfl
      (fun _ => Or.inl) (fun _ => Or.inl) ⟨rfl, rfl, rfl, rfl⟩
    · have hcb : c ≠ b := by
        rintro rfl
        exact h.held_not_waiting hheld hc
      simp only [Master.msgOf, Master.stage, mem_fill_of_ne _ hcb]
    · rcases eq_or_ne c b with rfl | hcb
      · simp only [Master.msgOf, Master.stage, msg_fill_self, Option.some_inj] at hm
        simp only [Master.payloadOf, Master.stage, payload_fill_self, hm]
      · simp only [Master.msgOf, Master.stage, mem_fill_of_ne _ hcb] at hm
        simp only [Master.payloadOf, Master.stage, mem_fill_of_ne _ hcb]
        exact h.ledger.payload c m hm

/-- The node is not in the table: the buffer will be given back. -/
theorem Accounted.unknown (h : Accounted n s placed) (hf : s.flights t = some ⟨msg, .attach b⟩) :
    Accounted n (s.stage t msg (.recover b)) placed := by
  constructor
  · have := h.stored
    rw [Stored] at this ⊢
    have hsame : heldBy (s.stage t msg (.recover b)).flights = heldBy s.flights := by
      rw [Master.stage, heldBy_update, Function.update_eq_self_iff, heldBy, hf]
      rfl
    rw [hsame]
    exact this
  · exact h.calls.stage hf (by simp) fun u m c _ hu => h.calls.filled u m c hu
  · exact h.ledger.same (fun _ _ => rfl) h.ledger.payload (fun _ => rfl) (fun _ _ => rfl) rfl
      (fun _ => Or.inl) (fun _ => Or.inl) ⟨rfl, rfl, rfl, rfl⟩

theorem nodeIndexOf_eq_some {nodes : List Node} {addr i : Nat}
    (h : nodeIndexOf nodes addr = some i) : ∃ node, nodes[i]? = some node ∧ node.addr = addr := by
  obtain ⟨hlt, hp, -⟩ := List.findIdx?_eq_some_iff_getElem.mp h
  exact ⟨nodes[i], List.getElem?_eq_getElem hlt, by simpa using hp⟩

theorem nodeAddr_setList (nodes : List Node) (i : Nat) (parity : Bool) (head : Option Buf) :
    nodeAddr (nodes.modify i (·.setList parity head)) = nodeAddr nodes := by
  funext j
  rw [nodeAddr, nodeAddr, List.getElem?_modify]
  cases nodes[j]? with
  | none => rfl
  | some node =>
      by_cases hj : i = j
      · simp [hj, Node.setList]
      · simp [hj]

theorem Accounted.attach (h : Accounted n s placed) (hf : s.flights t = some ⟨msg, .attach b⟩)
    {i : Nat} (hi : nodeIndexOf s.nodes msg.dest = some i) :
    Accounted n ((s.attach i b msg).endSend t)
      (move placed (.held t) (.queue i !s.active) b) := by
  obtain ⟨node, hnode, hdest⟩ := nodeIndexOf_eq_some hi
  have hheld : heldBy s.flights t = some b := by rw [heldBy, hf]; rfl
  have hmsg : ((s.attach i b msg).endSend t).msgOf = s.msgOf := by
    funext c
    simp only [Master.msgOf, Master.endSend, Master.attach, hnode, msg_setNext]
  have hpayload : ((s.attach i b msg).endSend t).payloadOf = s.payloadOf := by
    funext c
    simp only [Master.payloadOf, Master.endSend, Master.attach, hnode, payload_setNext]
  constructor
  -- the buffer becomes the head of the fill list
  · have := h.stored.attach hheld i (!s.active) (listHead_setList hnode)
    have hhead : listHead s.nodes i (!s.active) = node.list !s.active := by
      rw [listHead, hnode]
      rfl
    rw [hhead] at this
    simp only [Stored, Master.endSend, Master.attach, hnode, heldBy_update, Pool.next_setNext]
    exact this
  · rw [hmsg]
    simp only [Master.endSend, Master.attach, hnode]
    exact h.calls.finish hf rfl (Or.inr ⟨s.hist.cycle, rfl⟩) fun u m c _ hu =>
      h.calls.filled u m c hu
  · rw [hmsg, hpayload]
    have haddr : nodeAddr ((s.attach i b msg).endSend t).nodes = nodeAddr s.nodes := by
      simp only [Master.endSend, Master.attach, hnode]
      exact nodeAddr_setList ..
    rw [haddr]
    simp only [Master.endSend, Master.attach, hnode]
    apply h.ledger.accept (h.calls.filled t msg b hf) (h.held_not_waiting hheld)
      (fun x hx heq => (h.calls.underway t _ hf).2 x hx (by rw [heq])) (i := i)
    -- the list is that of the node the message is for
    · rw [nodeAddr, hnode, ← hdest]
      rfl
    · exact move_to
    · intro j parity hj
      exact move_other (by simp) (by simpa using hj)
    · rw [inHand, move_other (by simp) (by simp)]
      rfl
    · exact ⟨rfl, rfl, rfl, rfl⟩

/-- The buffer of a message without a node goes back. -/
theorem Accounted.recover (h : Accounted n s placed) (hn : n ≤ busPoolN)
    (hf : s.flights t = some ⟨msg, .recover b⟩) :
    Accounted n ({ s.forget msg with pool := poolRecover s.pool b }.endSend t)
      (move placed (.held t) .free b) := by
  have hheld : heldBy s.flights t = some b := by rw [heldBy, hf]; rfl
  constructor
  · have := h.stored.recover_held hn hheld
    simp only [Stored, Master.endSend, Master.forget, heldBy_update, Pool.next_poolRecover]
    exact this
  · apply h.calls.finish hf (rfl : (s.forget msg).hist.calls = s.hist.calls) (Or.inl rfl)
    intro u m c hu hm
    have hc : c ≠ b := by
      rintro rfl
      exact hu (h.held_unique (by rw [heldBy, hm]; rfl) hheld)
    simp only [Master.msgOf, Master.endSend, mem_recover_of_ne _ hc]
    exact h.calls.filled u m c hm
  · refine h.ledger.same (fun c hc => ?_) (fun c m hm => ?_) (fun _ => rfl)
      (fun i parity => move_other (by simp) (by simp))
      (by rw [inHand, move_other (by simp) (by simp)]; rfl)
      (fun _ => Or.inl) (fun _ => Or.inl) ⟨rfl, rfl, rfl, rfl⟩
    · have hcb : c ≠ b := by
        rintro rfl
        exact h.held_not_waiting hheld hc
      simp only [Master.msgOf, Master.endSend, mem_recover_of_ne _ hcb]
    · rcases eq_or_ne c b with rfl | hcb
      · simp only [Master.msgOf, Master.endSend, msg_recover_self] at hm
        cases hm
      · simp only [Master.msgOf, Master.endSend, mem_recover_of_ne _ hcb] at hm
        simp only [Master.payloadOf, Master.endSend, mem_recover_of_ne _ hcb]
        exact h.ledger.payload c m hm

/-! ## `bus_run_cycle` -/

def Place.queued : Place → Bool
  | .queue _ _ => true
  | _ => false

theorem Place.queued_iff {p : Place} : p.queued ↔ ∃ i parity, p = .queue i parity := by
  cases p <;> simp [Place.queued]

theorem nodeAddr_modify {f : Node → Node} (hf : ∀ node, (f node).addr = node.addr)
    (nodes : List Node) (i : Nat) : nodeAddr (nodes.modify i f) = nodeAddr nodes := by
  funext j
  rw [nodeAddr, nodeAddr, List.getElem?_modify]
  cases nodes[j]? with
  | none => rfl
  | some node =>
      by_cases hj : i = j
      · simp [hj, hf]
      · simp [hj]

theorem listHead_modify {f : Node → Node} (hf : ∀ node, (f node).list = node.list)
    (nodes : List Node) (i : Nat) : listHead (nodes.modify i f) = listHead nodes := by
  funext j parity
  rw [listHead, listHead, List.getElem?_modify]
  cases nodes[j]? with
  | none => rfl
  | some node =>
      by_cases hj : i = j
      · simp [hj, hf]
      · simp [hj]

/-- A waiting buffer carries an accepted message. -/
theorem Accounted.waiting_msg (h : Accounted n s placed) (hb : Waiting s.pc placed b) :
    ∃ msg, s.msgOf b = some msg := by
  obtain ⟨pend, -, hpend, hperm⟩ := h.ledger.balance
  have hmem : s.msgOf b ∈ s.hist.accepted.map (some ·.1) :=
    hperm.mem_iff.mpr (List.mem_append_right _ (List.mem_map_of_mem ((hpend b).mpr hb)))
  obtain ⟨x, -, hx⟩ := List.mem_map.mp hmem
  exact ⟨x.1, hx.symm⟩

/-- The table is rebuilt and every queued buffer becomes an orphan. -/
theorem Accounted.rebuild (h : Accounted n s placed) (hn : n ≤ busPoolN) (hpc : s.pc = .top) :
    ∃ placed', Accounted n s.rebuild placed' := by
  have hhand : s.pc.hand = ([], none) := by rw [hpc]; rfl
  have hempty : inHand s.pc placed = [] := h.inHand_nil (by rw [hhand])
  obtain ⟨os, hos, hmem⟩ := gathered_detachAll (p := s.pool) s.nodes (none, s.pool)
    (q := fun i parity => placed (.queue i parity))
    ⟨⟨rfl, rfl, fun _ => rfl, fun _ => rfl⟩, chain_nil.mpr rfl, List.nodup_nil, fun _ _ => rfl⟩
    h.stored.queue
    ⟨fun i parity => h.stored.places.nodup _,
      fun i parity j r c hc hc' => by
        simpa using h.stored.places.unique _ _ c hc hc',
      fun i parity => (h.stored.places.length_le _).trans hn⟩
    (fun _ _ _ _ => List.not_mem_nil)
  change Gathered s.pool (detachAll s.nodes s.pool) os at hos
  -- the orphans are the buffers of all lists, each once
  have hl (c : Buf) : c ∈ os ↔ ∃ p, Place.queued p ∧ c ∈ placed p := by
    rw [hmem c]
    constructor
    · rintro (hc | ⟨i, parity, hc⟩)
      · cases hc
      · exact ⟨_, rfl, hc⟩
    · rintro ⟨p, hp, hc⟩
      obtain ⟨i, parity, rfl⟩ := Place.queued_iff.mp hp
      exact Or.inr ⟨i, parity, hc⟩
  have hS : ∀ p : Place, p.queued → ∃ i parity, p = .queue i parity := fun p => Place.queued_iff.mp
  have hmsg (c : Buf) : s.rebuild.msgOf c = s.msgOf c := hos.relinked.msg c
  -- they are taken in hand, and the lists of the new table are empty
  refine ⟨gather placed (·.queued) .hand os, ?_, ?_, ?_⟩
  · have := h.stored
    rw [Stored, hhand] at this
    rw [Stored]
    have hdetach := this.detach hS hos.nodup hl (fun c hc => hos.others c hc) hos.chain
      (listHead (busNodetableBuild s.roster))
      (fun i parity => (listHead_build ..).trans (if_pos rfl).symm)
    rwa [← hos.relinked.free, ← hos.relinked.avail] at hdetach
  · exact h.calls.same rfl rfl fun _ _ c _ => hmsg c
  · apply h.ledger.detach hS hl hempty (by rw [inHand, gather_to]; rfl) hmsg
    · intro c m hm
      rw [hmsg] at hm
      exact (hos.relinked.payload c).trans (h.ledger.payload c m hm)
    · exact fun _ _ hp => absurd rfl hp
    · intro i c m hi
      cases hi
    · exact fun _ _ => Or.inl rfl
    · exact ⟨rfl, rfl, rfl, rfl⟩

/-- What the bus task has in hand when it holds a chain with `b` at its head. -/
theorem Accounted.chain_cons (h : Accounted n s placed) (hhand : s.pc.hand = ([], some b)) :
    ∃ l, placed .hand = b :: l ∧ inHand s.pc placed = b :: l ∧
      Chain s.pool.next (s.pool.next b) l := by
  obtain ⟨l, hl, hchain⟩ := h.stored.hand
  rw [hhand] at hl hchain
  obtain ⟨l', rfl, htail⟩ := chain_some.mp hchain
  refine ⟨l', hl, ?_, htail⟩
  rw [inHand, hl, hhand]
  rfl

/-- Recovering a buffer without a message that waits leaves the other messages alone. -/
theorem Accounted.filled_of_hand (h : Accounted n s placed) (hb : b ∈ placed .hand) (u : Task)
    (m : Msg) (c : Buf) (hm : s.flights u = some ⟨m, .attach c⟩) : c ≠ b := by
  rintro rfl
  have hc : c ∈ placed (.held u) := by
    rw [h.stored.held u, heldBy, hm]
    exact List.mem_singleton_self c
  exact h.stored.places.not_mem hb (by simp) hc

/-- An orphan is recovered. -/
theorem Accounted.orphan (h : Accounted n s placed) (hn : n ≤ busPoolN)
    (hpc : s.pc = .orphans (some b)) :
    Accounted n (s.orphansStep (some b)) (move placed .hand .free b) := by
  obtain ⟨l, hl, hin, hchain⟩ := h.chain_cons (by rw [hpc]; rfl)
  have hb : b ∈ placed .hand := hl ▸ List.mem_cons_self
  obtain ⟨msg, hmsg⟩ := h.waiting_msg (Or.inr (hin ▸ List.mem_cons_self))
  have hmsgOf {c : Buf} (hc : c ≠ b) : (s.orphansStep (some b)).msgOf c = s.msgOf c := by
    simp only [Master.msgOf, Master.orphansStep, mem_recover_of_ne _ hc]
  -- the message is recorded as not sent, so it is settled
  have hhist : (s.orphansStep (some b)).hist = { (s.forget msg).hist with
      unsent := s.hist.unsent ++ [(msg, .rebuilt)] } := by
    simp only [Master.orphansStep, Master.unsent, hmsg]
  have hrest : (s.orphansStep (some b)).nodes = s.nodes ∧
      (s.orphansStep (some b)).flights = s.flights ∧
      (s.orphansStep (some b)).active = s.active := by
    simp only [Master.orphansStep, Master.unsent, hmsg]
    exact ⟨rfl, rfl, rfl⟩
  constructor
  · have := h.stored.recover_hand hn hl hchain
    rw [Stored, hrest.1, hrest.2.1]
    simp only [Master.orphansStep, Pool.next_poolRecover]
    exact this
  · rw [hrest.2.1, hhist]
    exact h.calls.same rfl rfl fun u m c hm => hmsgOf (h.filled_of_hand hb u m c hm)
  · rw [hrest.1, hrest.2.2, hhist]
    apply h.ledger.resolve (b := b) (l := l)
    · exact fun i parity => h.stored.places.not_mem hb (by simp)
    · exact h.inHand_nodup
    · exact hin
    · rw [inHand, move_from (by simp), hl]
      rfl
    · exact fun c => hmsgOf
    · intro c m hm
      rcases eq_or_ne c b with rfl | hc
      · simp only [Master.msgOf, Master.orphansStep, msg_recover_self] at hm
        cases hm
      · rw [hmsgOf hc] at hm
        simp only [Master.payloadOf, Master.orphansStep, mem_recover_of_ne _ hc]
        exact h.ledger.payload c m hm
    · exact fun i parity => move_other (by simp) (by simp)
    · intro i hi
      cases hi
    · intro i _
      rw [hpc]
      trivial
    · rfl
    · rfl
    -- it moves from those that wait to those not sent
    · rw [hmsg, List.map_append, ← List.append_assoc]
      exact (List.perm_append_singleton ..).symm
    · exact h.ledger.sent
    · intro x hx a ha
      rw [List.mem_append, List.mem_singleton] at hx
      rcases hx with hx | rfl
      · exact h.ledger.dead x hx a ha
      · cases ha

/-- A buffer whose message was dealt with is recovered. -/
theorem Accounted.release (h : Accounted n s placed) (hn : n ≤ busPoolN) {i : Nat}
    {next : Option Buf} (hpc : s.pc = .release i b next) :
    Accounted n (s.releaseStep i b next) (move placed .hand .free b) := by
  obtain ⟨l, hl, hchain⟩ := h.stored.hand
  rw [hpc] at hl hchain
  replace hl : placed .hand = b :: l := hl
  have hb : b ∈ placed .hand := hl ▸ List.mem_cons_self
  have hin : inHand s.pc placed = l := by rw [inHand, hl, hpc]; rfl
  have hmsgOf {c : Buf} (hc : c ≠ b) : (s.releaseStep i b next).msgOf c = s.msgOf c := by
    simp only [Master.msgOf, Master.releaseStep, mem_recover_of_ne _ hc]
  have hnodup := h.stored.places.nodup .hand
  rw [hl, List.nodup_cons] at hnodup
  constructor
  · have := h.stored.recover_hand hn hl hchain
    simp only [Stored, Master.releaseStep, Pool.next_poolRecover]
    exact this
  · exact h.calls.same rfl rfl fun u m c hm => hmsgOf (h.filled_of_hand hb u m c hm)
  · apply h.ledger.same
    -- the buffer holds no message that waits, as it is in one place only
    · intro c hc
      apply hmsgOf
      rintro rfl
      rcases hc with ⟨j, parity, hc⟩ | hc
      · exact h.stored.places.not_mem hb (by simp) hc
      · rw [hin] at hc
        exact hnodup.1 hc
    · intro c m hm
      rcases eq_or_ne c b with rfl | hc
      · simp only [Master.msgOf, Master.releaseStep, msg_recover_self] at hm
        cases hm
      · rw [hmsgOf hc] at hm
        simp only [Master.payloadOf, Master.releaseStep, mem_recover_of_ne _ hc]
        exact h.ledger.payload c m hm
    · exact fun _ => rfl
    · exact fun j parity => move_other (by simp) (by simp)
    · rw [hin, inHand, move_from (by simp), hl]
      rfl
    · intro j hj
      rw [hpc]
      exact Or.inl hj
    · intro j hj
      rw [hpc]
      exact Or.inl hj
    · exact ⟨rfl, rfl, rfl, rfl⟩

/-- The list of node `i` is detached. -/
theorem Accounted.pass (h : Accounted n s placed) {i : Nat} {node : Node} (hpc : s.pc = .pass i)
    (hnode : s.nodes[i]? = some node) :
    Accounted n (s.passStep i)
      (gather placed (· = .queue i s.active) .hand (placed (.queue i s.active))) := by
  have hhand : s.pc.hand = ([], none) := by rw [hpc]; rfl
  have hhead : listHead s.nodes i s.active = node.list s.active := by
    rw [listHead, hnode]
    rfl
  have hS : ∀ p : Place, p = .queue i s.active → ∃ j parity, p = .queue j parity :=
    fun p hp => ⟨i, s.active, hp⟩
  have hl (c : Buf) : c ∈ placed (.queue i s.active) ↔ ∃ p, p = .queue i s.active ∧ c ∈ placed p := by
    simp
  constructor
  · have := h.stored
    rw [Stored, hhand] at this
    have hdetach := this.detach hS (h.stored.places.nodup _) hl (fun _ _ => rfl)
      (hhead ▸ h.stored.queue i s.active)
      (listHead (s.nodes.modify i (·.setList s.active none)))
      (fun j parity => by
        rw [listHead_setList hnode]
        simp)
    simp only [Stored, Master.passStep, hnode]
    exact hdetach
  · simp only [Master.passStep, hnode]
    exact h.calls
  · simp only [Master.passStep, hnode]
    apply h.ledger.detach hS hl (h.inHand_nil (by rw [hhand])) (by rw [inHand, gather_to]; rfl)
      (fun _ => rfl) h.ledger.payload
    · intro j parity _
      exact congrFun (nodeAddr_setList ..) j
    · intro j c m hj hc hm
      cases hj
      exact (congrFun (nodeAddr_setList ..) i).trans (h.ledger.queued i s.active c m hc hm)
    -- the lists of the nodes before it are drained already
    · intro j hj
      rcases Nat.lt_or_ge j i with hlt | hge
      · refine Or.inr (h.ledger.drained j ?_)
        rw [hpc]
        exact hlt
      · left
        rw [Nat.le_antisymm hj hge]
    · exact ⟨rfl, rfl, rfl, rfl⟩

/-- There is no further node in the table. -/
theorem Accounted.pass_end (h : Accounted n s placed) {i : Nat} (hpc : s.pc = .pass i)
    (hnode : s.nodes[i]? = none) : Accounted n (s.passStep i) placed := by
  simp only [Master.passStep, hnode]
  refine h.walk rfl ?_ ?_ ?_
  · rw [hpc]
    rfl
  · intro j hj
    cases hj
  · intro j _
    rcases Nat.lt_or_ge j i with hlt | hge
    · left
      rw [hpc]
      exact hlt
    · right
      rw [List.getElem?_eq_none_iff] at hnode
      have hhead : listHead s.nodes j s.active = none := by
        rw [listHead, List.getElem?_eq_none (by omega)]
        rfl
      exact chain_none.mp (hhead ▸ h.stored.queue j s.active)

/-- The next buffer is dealt with: its message is sent, or not sent to a dead node. -/
theorem Accounted.drain (h : Accounted n s placed) {i : Nat} (hpc : s.pc = .drain i (some b)) :
    Accounted n (s.drainStep i (some b)) placed := by
  obtain ⟨l, hl, hin, hchain⟩ := h.chain_cons (by rw [hpc]; rfl)
  have hb : b ∈ placed .hand := hl ▸ List.mem_cons_self
  have hwaiting : b ∈ inHand s.pc placed := hin ▸ List.mem_cons_self
  obtain ⟨msg, hmsg⟩ := h.waiting_msg (Or.inr hwaiting)
  have haddr := h.ledger.drawn i b msg (by rw [hpc]; rfl) hwaiting hmsg
  cases hnode : s.nodes[i]? with
  | none =>
      rw [nodeAddr, hnode] at haddr
      cases haddr
  | some node =>
      rw [nodeAddr, hnode, Option.map_some, Option.some_inj] at haddr
      -- what both outcomes have in common
      have hresolve {s' : Master} (hpool : s'.pool = s.pool) (hnodes : s'.nodes = s.nodes)
          (hactive : s'.active = s.active) (hflights : s'.flights = s.flights)
          (hpc' : s'.pc = .release i b (s.pool.next b)) (hcalls : s'.hist.calls = s.hist.calls)
          (haccepted : s'.hist.accepted = s.hist.accepted)
          (hcycle : s'.hist.cycle = s.hist.cycle)
          (hresolved : (some msg :: (s.hist.sent.map (some ·.msg) ++
            s.hist.unsent.map (some ·.1))).Perm
            (s'.hist.sent.map (some ·.msg) ++ s'.hist.unsent.map (some ·.1)))
          (hsent : ∀ x ∈ s'.hist.sent,
            x.addr = x.msg.dest ∧ x.payload = x.msg.payload.take busPayloadMax)
          (hdead : ∀ x ∈ s'.hist.unsent, ∀ a, x.2 = .dead a → a = x.1.dest) :
          Accounted n s' placed := by
        have hmsgOf : s'.msgOf = s.msgOf := msgOf_congr hpool
        have hpayload : s'.payloadOf = s.payloadOf := payloadOf_congr hpool
        constructor
        · have := h.stored
          rw [Stored] at this ⊢
          rw [hpool, hnodes, hflights, hpc']
          exact ⟨this.places, this.free, this.avail, this.queue, ⟨l, hl, hchain⟩, this.held⟩
        · rw [hmsgOf, hflights]
          exact h.calls.same hcalls haccepted fun _ _ _ _ => rfl
        · rw [hmsgOf, hpayload, hnodes, hactive]
          apply h.ledger.resolve (b := b) (l := l)
            (fun j parity => h.stored.places.not_mem hb (by simp)) h.inHand_nodup hin
            (by rw [inHand, hl, hpc']; rfl) (fun _ _ => rfl) h.ledger.payload (fun _ _ => rfl)
            _ _ haccepted hcycle (hmsg ▸ hresolved) hsent hdead
          · rw [hpc, hpc']
            exact fun _ => id
          · rw [hpc, hpc']
            exact fun _ => id
      -- a dead node is skipped, which is recorded under its address
      by_cases hdead : node.dead
      · simp only [Master.drainStep, hnode, if_pos hdead, Master.unsent, hmsg]
        refine hresolve rfl rfl rfl rfl rfl rfl rfl rfl ?_ ?_ ?_
        · rw [List.map_append, ← List.append_assoc]
          exact (List.perm_append_singleton ..).symm
        · exact h.ledger.sent
        · intro x hx a ha
          simp only [List.mem_append, List.mem_singleton] at hx
          rcases hx with hx | rfl
          · exact h.ledger.dead x hx a ha
          · cases ha
            exact haddr
      · simp only [Master.drainStep, hnode]
        rw [if_neg hdead]
        simp only [Master.transmit, hmsg]
        refine hresolve rfl rfl rfl rfl rfl rfl rfl rfl ?_ ?_ ?_
        · rw [List.map_append, List.append_assoc]
          exact List.perm_middle.symm
        · intro x hx
          simp only [List.mem_append, List.mem_singleton] at hx
          rcases hx with hx | rfl
          · exact h.ledger.sent x hx
          · exact ⟨haddr, h.ledger.payload b msg hmsg⟩
        · exact h.ledger.dead

/-- The lists change roles. -/
theorem Accounted.swap (h : Accounted n s placed) (hpc : s.pc = .swap) :
    Accounted n s.swapStep placed := by
  have hhand : s.swapStep.pc.hand = s.pc.hand := by rw [hpc]; rfl
  constructor
  · have := h.stored
    rw [Stored] at this ⊢
    rw [hhand]
    exact this
  · exact h.calls.same rfl rfl fun _ _ _ _ => rfl
  · apply h.ledger.swap
    · rw [hpc]
      exact fun _ => trivial
    · rw [inHand, inHand, hhand]
    · rfl
    · exact fun i hi => absurd hi (Nat.not_lt_zero i)
    · exact ⟨rfl, rfl, rfl⟩

/-! ## Everything else -/

/-- Outside the message pass and the recovery of orphans. -/
def Pc.plain : Pc → Bool
  | .orphans _ | .pass _ | .drain _ _ | .release _ _ _ => false
  | _ => true

theorem Pc.plain_spec {pc : Pc} (h : pc.plain) :
    pc.hand = ([], none) ∧ pc.draining = none ∧ ∀ i, pc.passed i := by
  cases pc <;> first | exact ⟨rfl, rfl, fun _ => trivial⟩ | cases h

theorem Accounted.aside (h : Accounted n s placed) (hview : s'.view = s.view)
    (hpc : s'.pc = s.pc) : Accounted n s' placed :=
  h.walk hview (by rw [hpc]) (fun i hi => Or.inl (hpc ▸ hi)) (fun i hi => Or.inl (hpc ▸ hi))

theorem Accounted.aside_plain (h : Accounted n s placed) (hview : s'.view = s.view)
    (hpc : s.pc.plain) (hpc' : s'.pc.plain) : Accounted n s' placed := by
  obtain ⟨hhand, -, hpassed⟩ := Pc.plain_spec hpc
  obtain ⟨hhand', hdrain', -⟩ := Pc.plain_spec hpc'
  refine h.walk hview (hhand'.trans hhand.symm) (fun i hi => ?_) (fun i _ => Or.inl (hpassed i))
  rw [hdrain'] at hi
  cases hi

/-- A node's liveness changes, not its lists. -/
theorem view_modifyNode {f : Node → Node} (haddr : ∀ node, (f node).addr = node.addr)
    (hlist : ∀ node, (f node).list = node.list) (s : Master) (i : Nat) :
    (s.modifyNode i f).view = s.view := by
  simp only [Master.view, Master.modifyNode, listHead_modify hlist, nodeAddr_modify haddr]

theorem missed_addr (maxMisses : Nat) (node : Node) :
    (node.missed maxMisses).addr = node.addr ∧ (node.missed maxMisses).list = node.list := by
  unfold Node.missed
  split <;> exact ⟨rfl, rfl⟩

/-- A wait begins and ends outside the message pass. -/
theorem plain_of_waiting {pc : Pc} (h : pc.waiting) : pc.plain := by
  cases pc <;> first | rfl | cases h

/-- The end of a wait changes nothing in the accounts. -/
theorem WaitOver.aside (h : WaitOver s s') :
    s' = s ∨ s'.view = s.view ∧ s.pc.plain ∧ s'.pc.plain := by
  have hplain {pc : Pc} (hpc : s.pc = pc) (hwait : pc.waiting = true) : s.pc.plain :=
    plain_of_waiting (hpc ▸ hwait)
  cases h with
  | none => exact Or.inl rfl
  | swept i node hpc =>
      have hview := view_modifyNode (f := Node.heard) (fun _ => rfl) (fun _ => rfl) s i
      exact Or.inr ⟨hview, hplain hpc rfl, rfl⟩
  | missed i node hpc =>
      have hview := view_modifyNode (fun node => (missed_addr s.pollMaxMisses node).1)
        (fun node => (missed_addr s.pollMaxMisses node).2) s i
      exact Or.inr ⟨hview, hplain hpc rfl, rfl⟩
  | revived i node hpc =>
      have hview := view_modifyNode (f := Node.revived) (fun _ => rfl) (fun _ => rfl) s i
      exact Or.inr ⟨hview, hplain hpc rfl, rfl⟩
  | probed i node hpc => exact Or.inr ⟨rfl, hplain hpc rfl, rfl⟩
  | inject cmd c hpc => exact Or.inr ⟨rfl, hplain hpc rfl, rfl⟩
  | collect c hpc => exact Or.inr ⟨rfl, hplain hpc rfl, rfl⟩
  | slotHeard addr hpc => exact Or.inr ⟨rfl, hplain hpc rfl, rfl⟩
  | slotMissed addr hpc => exact Or.inr ⟨rfl, hplain hpc rfl, rfl⟩

/-- A command is registered and begins to be sent. -/
theorem Accounted.issue (h : Accounted n s placed) (ht : s.flights t = none) (c : Command)
    (payload : Bytes) : Accounted n (s.issue t c payload) placed := by
  have hadd : Accounted n
      ({ s with hist := { s.hist with commands := s.hist.commands + 1 } }.corrAdd c) placed ∧
      ({ s with hist := { s.hist with commands := s.hist.commands + 1 } }.corrAdd c).flights =
        s.flights := by
    unfold Master.corrAdd
    split
    · exact ⟨h.aside rfl rfl, rfl⟩
    · exact ⟨h.aside rfl rfl, rfl⟩
  exact hadd.1.beginSend ((congrFun hadd.2 t).trans ht) c.addr payload (some c)

end SlowBus.Arbiter
