import SlowBus.Arbiter.Accounts
import SlowBus.Lib.PingPong

/-!
# The mail of the master

Seen from outside the message lists are pairs of boxes, one pair a node. Every
step of the master keeps the accounts and is one move of the boxes, or none.
-/

namespace SlowBus.Arbiter

open Linked Placement PingPong

variable {n : Nat} {s s' : Master} {placed placed' : Place → List Buf} {t : Task} {msg : Msg}
  {b : Buf}

/-- The boxes of a state, given where its buffers are. -/
def Master.mail (s : Master) (placed : Place → List Buf) : Boxes Nat Msg where
  home := nodeIndexOf s.nodes
  box i side := (placed (.queue i side)).filterMap s.msgOf
  active := s.active
  hand := (inHand s.pc placed).filterMap s.msgOf
  serving := s.pc.draining
  accepted := s.hist.accepted.map (·.1)
  sent := s.hist.sent.map (·.msg)

theorem nodeIndexOf_congr {nodes nodes' : List Node} (h : nodeAddr nodes' = nodeAddr nodes) :
    nodeIndexOf nodes' = nodeIndexOf nodes := by
  have hmap : nodes'.map (·.addr) = nodes.map (·.addr) := by
    apply List.ext_getElem?
    intro i
    rw [List.getElem?_map, List.getElem?_map]
    exact congrFun h i
  funext addr
  have hof (l : List Node) : nodeIndexOf l addr = (l.map (·.addr)).findIdx? (· == addr) := by
    rw [nodeIndexOf, List.findIdx?_map]
    rfl
  rw [hof, hof, hmap]

theorem filterMap_congr_mem {f g : Buf → Option Msg} {l : List Buf} (h : ∀ b ∈ l, f b = g b) :
    l.filterMap f = l.filterMap g := by
  induction l with
  | nil => rfl
  | cons b l ih =>
      rw [List.filterMap_cons, List.filterMap_cons, h b List.mem_cons_self,
        ih fun c hc => h c (List.mem_cons_of_mem b hc)]

/-- Two states with the same lists and the same messages in them have the same mail. -/
theorem mail_same (haddr : nodeAddr s'.nodes = nodeAddr s.nodes)
    (hqueue : ∀ i side, placed' (.queue i side) = placed (.queue i side))
    (hhand : inHand s'.pc placed' = inHand s.pc placed)
    (hmsg : ∀ b, Waiting s.pc placed b → s'.msgOf b = s.msgOf b) (hactive : s'.active = s.active)
    (hdraining : s'.pc.draining = s.pc.draining) (haccepted : s'.hist.accepted = s.hist.accepted)
    (hsent : s'.hist.sent = s.hist.sent) : s'.mail placed' = s.mail placed := by
  simp only [Master.mail, Boxes.mk.injEq]
  refine ⟨nodeIndexOf_congr haddr, ?_, hactive, ?_, hdraining, by rw [haccepted], by rw [hsent]⟩
  · funext i side
    rw [hqueue]
    exact filterMap_congr_mem fun b hb => hmsg b (Or.inl ⟨i, side, hb⟩)
  · rw [hhand]
    exact filterMap_congr_mem fun b hb => hmsg b (Or.inr hb)

theorem mail_of_view (hview : s'.view = s.view) (hhand : s'.pc.hand = s.pc.hand)
    (hdraining : s'.pc.draining = s.pc.draining) : s'.mail placed = s.mail placed := by
  simp only [Master.view, View.mk.injEq] at hview
  obtain ⟨hpool, -, haddr, hactive, -, -, haccepted, hsent, -, -⟩ := hview
  exact mail_same haddr (fun _ _ => rfl) (by rw [inHand, inHand, hhand])
    (fun c _ => congrFun (msgOf_congr hpool) c) hactive hdraining haccepted hsent

/-! ## One step of the mail -/

/-- The accounts are kept, and the mail makes the move `label` or none. -/
def Posted (n : Nat) (s : Master) (placed : Place → List Buf) (label : Option Nat) (s' : Master) :
    Prop :=
  ∃ placed', Accounted n s' placed' ∧
    (s'.mail placed' = s.mail placed ∨
      Move Msg.dest label (s.mail placed) (s'.mail placed'))

theorem posted_refl (h : Accounted n s placed) : Posted n s placed none s :=
  ⟨placed, h, Or.inl rfl⟩

/-- The pair of boxes a task is about to push onto. -/
def Master.attachesTo (s : Master) (t : Task) : Option Nat :=
  match s.flights t with
  | some { msg, stage := .attach _ } => nodeIndexOf s.nodes msg.dest
  | _ => none

theorem posted_beginSend (h : Accounted n s placed) (ht : s.flights t = none) (dest : Nat)
    (payload : Bytes) (command : Option Command) :
    Posted n s placed none (s.beginSend t dest payload command) :=
  ⟨placed, h.beginSend ht dest payload command, Or.inl rfl⟩

theorem posted_grab (h : Accounted n s placed) (hn : n ≤ busPoolN)
    (hf : s.flights t = some ⟨msg, .grab⟩) {pool : Pool}
    (hpool : poolGrab s.pool = (some b, pool)) :
    Posted n s placed none ({ s with pool }.stage t msg (.fill b)) := by
  refine ⟨_, h.grab hn hf hpool, Or.inl (mail_same rfl ?_ ?_ ?_ rfl rfl rfl rfl)⟩
  · exact fun i side => move_other (by simp) (by simp)
  · rw [inHand, move_other (by simp) (by simp)]
    rfl
  · intro c _
    simp only [Master.msgOf, Master.stage, (poolGrab_eq_some hpool).2.2.2]

theorem posted_fill (h : Accounted n s placed) (hf : s.flights t = some ⟨msg, .fill b⟩) :
    Posted n s placed none ({ s with pool := s.pool.fill b msg }.stage t msg (.attach b)) := by
  refine ⟨_, h.fill hf, Or.inl (mail_same rfl (fun _ _ => rfl) rfl (fun c hc => ?_) rfl rfl rfl rfl)⟩
  have hne : c ≠ b := by
    rintro rfl
    exact h.held_not_waiting (by rw [heldBy, hf]; rfl) hc
  simp only [Master.msgOf, Master.stage, mem_fill_of_ne _ hne]

theorem posted_recover (h : Accounted n s placed) (hn : n ≤ busPoolN)
    (hf : s.flights t = some ⟨msg, .recover b⟩) :
    Posted n s placed none
      ({ s.forget msg with pool := poolRecover s.pool b }.endSend t) := by
  refine ⟨_, h.recover hn hf, Or.inl (mail_same rfl ?_ ?_ (fun c hc => ?_) rfl rfl rfl rfl)⟩
  · exact fun i side => move_other (by simp) (by simp)
  · rw [inHand, move_other (by simp) (by simp)]
    rfl
  · have hne : c ≠ b := by
      rintro rfl
      exact h.held_not_waiting (by rw [heldBy, hf]; rfl) hc
    simp only [Master.msgOf, Master.endSend, mem_recover_of_ne _ hne]

/-- Attaching a buffer is accepting its message. -/
theorem posted_attach (h : Accounted n s placed) (hf : s.flights t = some ⟨msg, .attach b⟩)
    {i : Nat} (hi : nodeIndexOf s.nodes msg.dest = some i) :
    Posted n s placed (some i) ((s.attach i b msg).endSend t) := by
  refine ⟨_, h.attach hf hi, Or.inr ?_⟩
  obtain ⟨node, hnode, -⟩ := nodeIndexOf_eq_some hi
  have hmail : ((s.attach i b msg).endSend t).mail (move placed (.held t) (.queue i !s.active) b) =
      { s.mail placed with
        box := setBox (s.mail placed).box i (!s.active) (msg :: (s.mail placed).box i !s.active)
        accepted := (s.mail placed).accepted ++ [msg] } := by
    have hmsg : ((s.attach i b msg).endSend t).msgOf = s.msgOf := by
      funext c
      simp only [Master.msgOf, Master.endSend, Master.attach, hnode, msg_setNext]
    rw [Master.mail, hmsg]
    simp only [Master.endSend, Master.attach, hnode, Master.mail, Boxes.mk.injEq]
    refine ⟨nodeIndexOf_congr (nodeAddr_setList ..), ?_, trivial, ?_, trivial, ?_, trivial⟩
    · funext j side
      by_cases hj : j = i ∧ side = !s.active
      · obtain ⟨rfl, rfl⟩ := hj
        rw [setBox_self, move_to, List.filterMap_cons, h.calls.filled t msg b hf]
      · rw [setBox_other hj, move_other (by simp) (by simpa using hj)]
    · rw [inHand, move_other (by simp) (by simp)]
      rfl
    · rw [List.map_append, List.map_singleton]
  rw [hmail]
  exact Move.accept (s.mail placed) i msg hi

theorem posted_busMsgSend (h : Accounted n s placed) (hn : n ≤ busPoolN) (t : Task) :
    ∃ label, Posted n s placed label (s.busMsgSend t) ∧
      ∀ i, label = some i → s.attachesTo t = some i := by
  have hquiet {s' : Master} (hp : Posted n s placed none s') :
      ∃ label, Posted n s placed label s' ∧ ∀ i, label = some i → s.attachesTo t = some i :=
    ⟨none, hp, fun i hi => nomatch hi⟩
  unfold Master.busMsgSend
  split
  · exact hquiet (posted_refl h)
  · next msg hf =>
      split
      · exact hquiet ⟨placed, h.giveUp hf, Or.inl rfl⟩
      · next hpool => exact hquiet (posted_grab h hn hf hpool)
  · next hf => exact hquiet (posted_fill h hf)
  · next hf =>
      split
      · exact hquiet ⟨placed, h.unknown hf, Or.inl rfl⟩
      · next i hi =>
          refine ⟨some i, posted_attach h hf hi, fun j hj => ?_⟩
          rw [Master.attachesTo, hf]
          exact hi.trans hj
  · next hf => exact hquiet (posted_recover h hn hf)

/-! ## The message pass and the rebuild as moves -/

theorem posted_rebuild (h : Accounted n s placed) (hn : n ≤ busPoolN) (hpc : s.pc = .top) :
    Posted n s placed none s.rebuild := by
  obtain ⟨placed', h'⟩ := h.rebuild hn hpc
  refine ⟨placed', h', Or.inr ?_⟩
  have hbox (i : Nat) (side : Bool) : placed' (.queue i side) = [] := by
    have hchain := h'.stored.queue i side
    simp only [Master.rebuild, listHead_build] at hchain
    exact chain_none.mp hchain
  have hmail : s.rebuild.mail placed' = { s.mail placed with
      home := nodeIndexOf s.rebuild.nodes
      box := fun _ _ => []
      hand := (s.rebuild.mail placed').hand
      serving := none } := by
    simp only [Master.mail, Boxes.mk.injEq]
    refine ⟨trivial, ?_, rfl, trivial, rfl, rfl, rfl⟩
    funext i side
    rw [hbox]
    rfl
  rw [hmail]
  exact Move.reset (s.mail placed) _ _

/-- A buffer in hand whose message leaves the hand. -/
theorem filterMap_inHand_cons {l : List Buf} (hmsg : s.msgOf b = some msg)
    (hin : inHand s.pc placed = b :: l) :
    (s.mail placed).hand = msg :: l.filterMap s.msgOf := by
  rw [Master.mail, hin, List.filterMap_cons, hmsg]

theorem posted_orphan (h : Accounted n s placed) (hn : n ≤ busPoolN)
    (hpc : s.pc = .orphans (some b)) : Posted n s placed none (s.orphansStep (some b)) := by
  refine ⟨_, h.orphan hn hpc, Or.inr ?_⟩
  obtain ⟨l, hl, hin, -⟩ := h.chain_cons (by rw [hpc]; rfl)
  obtain ⟨msg, hmsg⟩ := h.waiting_msg (Or.inr (hin ▸ List.mem_cons_self))
  have hmsgOf {c : Buf} (hc : c ≠ b) : (s.orphansStep (some b)).msgOf c = s.msgOf c := by
    simp only [Master.msgOf, Master.orphansStep, mem_recover_of_ne _ hc]
  have hb : b ∈ placed .hand := hl ▸ List.mem_cons_self
  have hnodup := h.stored.places.nodup .hand
  rw [hl, List.nodup_cons] at hnodup
  have hmail : (s.orphansStep (some b)).mail (move placed .hand .free b) =
      { s.mail placed with hand := l.filterMap s.msgOf } := by
    have hhand : inHand (s.orphansStep (some b)).pc (move placed .hand .free b) = l := by
      rw [inHand, move_from (by simp), hl]
      rfl
    have hbox (i : Nat) (side : Bool) :
        (placed (.queue i side)).filterMap (s.orphansStep (some b)).msgOf =
          (placed (.queue i side)).filterMap s.msgOf := by
      refine filterMap_congr_mem fun c hc => hmsgOf ?_
      rintro rfl
      exact h.stored.places.not_mem hb (by simp) hc
    have hrest : l.filterMap (s.orphansStep (some b)).msgOf = l.filterMap s.msgOf :=
      filterMap_congr_mem fun c hc => hmsgOf fun hcb => hnodup.1 (hcb ▸ hc)
    have hqueue (i : Nat) (side : Bool) :
        move placed .hand .free b (.queue i side) = placed (.queue i side) :=
      move_other (by simp) (by simp)
    rw [Master.mail, hhand, hrest]
    simp only [hqueue, hbox]
    simp only [Master.orphansStep, Master.unsent, hmsg, Master.mail, hpc, Pc.draining,
      Master.forget]
  rw [hmail]
  exact Move.drop (s.mail placed) msg _ (filterMap_inHand_cons hmsg hin)

theorem posted_release (h : Accounted n s placed) (hn : n ≤ busPoolN) {i : Nat}
    {next : Option Buf} (hpc : s.pc = .release i b next) :
    Posted n s placed none (s.releaseStep i b next) := by
  obtain ⟨l, hl, -⟩ := h.stored.hand
  rw [hpc] at hl
  replace hl : placed .hand = b :: l := hl
  have hb : b ∈ placed .hand := hl ▸ List.mem_cons_self
  have hin : inHand s.pc placed = l := by rw [inHand, hl, hpc]; rfl
  have hnodup := h.stored.places.nodup .hand
  rw [hl, List.nodup_cons] at hnodup
  refine ⟨_, h.release hn hpc, Or.inl (mail_same rfl ?_ ?_ (fun c hc => ?_) rfl ?_ rfl rfl)⟩
  · exact fun j side => move_other (by simp) (by simp)
  · rw [hin, inHand, move_from (by simp), hl]
    rfl
  · have hne : c ≠ b := by
      rintro rfl
      rcases hc with ⟨j, side, hc⟩ | hc
      · exact h.stored.places.not_mem hb (by simp) hc
      · exact hnodup.1 (hin ▸ hc)
    simp only [Master.msgOf, Master.releaseStep, mem_recover_of_ne _ hne]
  · rw [hpc]
    rfl

theorem posted_pass (h : Accounted n s placed) {i : Nat} {node : Node} (hpc : s.pc = .pass i)
    (hnode : s.nodes[i]? = some node) : Posted n s placed none (s.passStep i) := by
  refine ⟨_, h.pass hpc hnode, Or.inr ?_⟩
  have hgather (j : Nat) (side : Bool) :
      gather placed (· = .queue i s.active) .hand (placed (.queue i s.active)) (.queue j side) =
        if j = i ∧ side = s.active then [] else placed (.queue j side) := by
    rw [gather, if_neg (by simp)]
    by_cases hj : j = i ∧ side = s.active <;> simp [hj]
  have hmail : (s.passStep i).mail
        (gather placed (· = .queue i s.active) .hand (placed (.queue i s.active))) =
      { s.mail placed with
        box := setBox (s.mail placed).box i s.active []
        hand := (s.mail placed).box i s.active
        serving := some i } := by
    simp only [Master.passStep, hnode, Master.mail, Boxes.mk.injEq]
    refine ⟨nodeIndexOf_congr (nodeAddr_setList ..), ?_, rfl, ?_, rfl, rfl, rfl⟩
    · funext j side
      rw [hgather, setBox]
      by_cases hj : j = i ∧ side = s.active
      · rw [if_pos hj, if_pos hj]
        rfl
      · rw [if_neg hj, if_neg hj]
        rfl
    · rw [inHand, gather_to]
      rfl
  rw [hmail]
  apply Move.take (s.mail placed) i
  rw [Master.mail, h.inHand_nil (by rw [hpc]; rfl)]
  rfl

theorem posted_drain (h : Accounted n s placed) {i : Nat} (hpc : s.pc = .drain i (some b)) :
    Posted n s placed none (s.drainStep i (some b)) := by
  refine ⟨placed, h.drain hpc, Or.inr ?_⟩
  obtain ⟨l, hl, hin, -⟩ := h.chain_cons (by rw [hpc]; rfl)
  have hwaiting : b ∈ inHand s.pc placed := hin ▸ List.mem_cons_self
  obtain ⟨msg, hmsg⟩ := h.waiting_msg (Or.inr hwaiting)
  have haddr := h.ledger.drawn i b msg (by rw [hpc]; rfl) hwaiting hmsg
  have hhand := filterMap_inHand_cons hmsg hin
  cases hnode : s.nodes[i]? with
  | none =>
      rw [nodeAddr, hnode] at haddr
      cases haddr
  | some node =>
      have hrelease {pc : Pc} {c : Option Buf} (hp : pc = .release i b c) :
          inHand pc placed = l := by
        rw [inHand, hl, hp]
        rfl
      by_cases hdead : node.dead
      · have hmail : (s.drainStep i (some b)).mail placed =
            { s.mail placed with hand := l.filterMap s.msgOf } := by
          simp only [Master.drainStep, hnode, if_pos hdead, Master.unsent, hmsg, Master.mail,
            hrelease rfl, hpc]
          rfl
        rw [hmail]
        exact Move.drop (s.mail placed) msg _ hhand
      · have hmail : (s.drainStep i (some b)).mail placed =
            { s.mail placed with
              hand := l.filterMap s.msgOf
              sent := (s.mail placed).sent ++ [msg] } := by
          simp only [Master.drainStep, hnode]
          rw [if_neg hdead]
          simp only [Master.transmit, hmsg, Master.mail, hrelease rfl, hpc, List.map_append,
            List.map_singleton]
          rfl
        rw [hmail]
        apply Move.send (s.mail placed) i msg _ hhand
        rw [Master.mail, hpc]
        rfl

theorem posted_swap (h : Accounted n s placed) (hpc : s.pc = .swap) :
    Posted n s placed none s.swapStep := by
  refine ⟨placed, h.swap hpc, Or.inr ?_⟩
  have hmail : s.swapStep.mail placed = { s.mail placed with active := !(s.mail placed).active } := by
    simp only [Master.swapStep, Master.mail, hpc]
    rfl
  rw [hmail]
  apply Move.swap
  intro i
  change (placed (.queue i s.active)).filterMap s.msgOf = []
  rw [h.ledger.drained i (by rw [hpc]; trivial)]
  rfl

/-- The message pass goes on to the next node, or is over. -/
theorem posted_leave (h : Accounted n s placed) {i : Nat} (hpc : s.pc = .drain i none) :
    Posted n s placed none (s.drainStep i none) := by
  refine ⟨placed, h.walk rfl ?_ ?_ ?_, Or.inr ?_⟩
  · rw [hpc]
    rfl
  · intro j hj
    cases hj
  · rw [hpc]
    exact fun j hj => Or.inl (Nat.lt_succ_iff.mp hj)
  · have hempty : inHand s.pc placed = [] := h.inHand_nil (by rw [hpc]; rfl)
    have hmail : (s.drainStep i none).mail placed = { s.mail placed with serving := none } := by
      have hhand : inHand (s.drainStep i none).pc placed = inHand s.pc placed := by
        rw [inHand, inHand, hpc]
        rfl
      rw [Master.mail, hhand]
      rfl
    rw [hmail]
    apply Move.leave (s.mail placed)
    rw [Master.mail, hempty]
    rfl

/-! ## Steps -/

/-- Before its own call of `bus_msg_send` the bus task holds nothing. -/
def BusIdle (s : Master) : Prop := s.pc = .hostSend ∨ s.flights .bus = none

theorem posted_plain (h : Accounted n s placed) (hview : s'.view = s.view) (hpc : s.pc.plain)
    (hpc' : s'.pc.plain) : Posted n s placed none s' := by
  obtain ⟨hhand, hdraining, -⟩ := Pc.plain_spec hpc
  obtain ⟨hhand', hdraining', -⟩ := Pc.plain_spec hpc'
  exact ⟨placed, h.aside_plain hview hpc hpc', Or.inl (mail_of_view hview
    (hhand'.trans hhand.symm) (hdraining'.trans hdraining.symm))⟩

theorem posted_aside (h : Accounted n s placed) (hview : s'.view = s.view) (hpc : s'.pc = s.pc) :
    Posted n s placed none s' :=
  ⟨placed, h.aside hview hpc, Or.inl (mail_of_view hview (by rw [hpc]) (by rw [hpc]))⟩

theorem issue_mail (s : Master) (t : Task) (c : Command) (payload : Bytes) :
    (s.issue t c payload).mail placed = s.mail placed := by
  simp only [Master.issue, Master.beginSend, Master.corrAdd]
  split <;> rfl

theorem posted_issue (h : Accounted n s placed) (ht : s.flights t = none) (c : Command)
    (payload : Bytes) : Posted n s placed none (s.issue t c payload) :=
  ⟨placed, h.issue ht c payload, Or.inl (issue_mail ..)⟩

/-- The task that a step moves on inside `bus_msg_send`. -/
def Master.sender (s : Master) : Action → Option Task
  | .bus => if s.pc = .hostSend then some .bus else none
  | .send n => some (.producer n)
  | _ => none

/-- A step of the bus task outside its own call of `bus_msg_send`. -/
theorem posted_busStep_quiet (h : Accounted n s placed) (hn : n ≤ busPoolN) (hidle : BusIdle s)
    (hsend : s.pc ≠ .hostSend) : Posted n s placed none s.busStep := by
  have hdrain {i : Nat} {b : Buf} (hpc : s.pc = .drain i (some b)) :
      Posted n s placed none s.busStep := by
    simp only [Master.busStep, hpc]
    exact posted_drain h hpc
  have hstep := busStep_cases s
  generalize hs : s.busStep = s' at hstep hdrain ⊢
  cases hstep with
  | rebuild hpc => exact posted_rebuild h hn hpc
  | orphansOver hpc =>
      have hhand : ({ s with pc := .host } : Master).pc.hand = s.pc.hand := by rw [hpc]; rfl
      refine ⟨placed, h.walk rfl hhand (fun i hi => nomatch hi) ?_, Or.inl ?_⟩
      · rw [hpc]
        exact fun _ _ => Or.inl trivial
      · exact mail_of_view rfl hhand (by rw [hpc]; rfl)
  | orphan b hpc =>
      rw [← hs]
      simp only [Master.busStep, hpc]
      exact posted_orphan h hn hpc
  | hostAdd cmd hpc =>
      have hbus : s.flights .bus = none := hidle.resolve_left hsend
      have hadd : Accounted n { s with pc := .hostSend } placed :=
        h.aside_plain rfl (by rw [hpc]; rfl) rfl
      refine ⟨placed, hadd.issue hbus _ _, Or.inl ?_⟩
      refine (issue_mail { s with pc := .hostSend } .bus _ _).trans (mail_of_view rfl ?_ ?_)
      · rw [hpc]
        rfl
      · rw [hpc]
        rfl
  | hostSend hpc => exact absurd hpc hsend
  | hostSent hpc => exact absurd hpc hsend
  | swap hpc => exact posted_swap h hpc
  -- behind the last node the pass is over
  | passOver i hpc hnode =>
      have hpass := h.pass_end hpc hnode
      simp only [Master.passStep, hnode] at hpass
      refine ⟨placed, hpass, Or.inl (mail_of_view rfl ?_ ?_)⟩
      · rw [hpc]
        rfl
      · rw [hpc]
        rfl
  | pass i node hpc hnode =>
      have hpass := posted_pass h hpc hnode
      simp only [Master.passStep, hnode] at hpass
      exact hpass
  | drained i hpc => exact posted_leave h hpc
  | drainGone i b hpc => exact hdrain hpc
  | drainDead i b node hpc => exact hdrain hpc
  | drainBlank i b node hpc => exact hdrain hpc
  | transmit i b node msg hpc => exact hdrain hpc
  | release i b next hpc => exact posted_release h hn hpc
  | wait => exact posted_refl h
  | ignore f rx hpc => exact posted_plain h rfl (plain_of_waiting hpc) (plain_of_waiting hpc)
  -- what is left touches neither the pool nor the lists
  | _ => exact posted_plain h rfl (by rw [‹s.pc = _›]; rfl) rfl

/-- Every step of the master keeps the accounts and moves the mail once at most;
a message is accepted where a task attaches its buffer. -/
theorem posted_step (h : Accounted n s placed) (hn : n ≤ busPoolN) (hidle : BusIdle s)
    (a : Action) :
    ∃ label, Posted n s placed label (step s a) ∧
      ∀ i, label = some i → ∃ t, s.sender a = some t ∧ s.attachesTo t = some i := by
  have hquiet {s' : Master} (hp : Posted n s placed none s') :
      ∃ label, Posted n s placed label s' ∧
        ∀ i, label = some i → ∃ t, s.sender a = some t ∧ s.attachesTo t = some i :=
    ⟨none, hp, fun i hi => nomatch hi⟩
  cases a
  case bus =>
    by_cases hsend : s.pc = .hostSend
    · have hstep : step s .bus = s.hostSendStep := by simp only [step, Master.busStep, hsend]
      rw [hstep, Master.hostSendStep]
      split
      · exact hquiet (posted_plain h rfl (by rw [hsend]; rfl) rfl)
      · obtain ⟨label, hp, hlabel⟩ := posted_busMsgSend h hn .bus
        exact ⟨label, hp, fun i hi => ⟨.bus, if_pos hsend, hlabel i hi⟩⟩
    · exact hquiet (posted_busStep_quiet h hn hidle hsend)
  case alarm =>
    apply hquiet
    obtain heq | ⟨hview, hplain, hplain'⟩ := (waitOver_cases s).aside
    · rw [heq]
      exact posted_refl h
    · exact posted_plain h hview hplain hplain'
  -- a call only begins here, so nothing is attached
  case call n dest payload =>
    apply hquiet
    simp only [step]
    split
    · next hfree => exact posted_beginSend h (by simpa [Master.idle] using hfree) _ _ _
    · exact posted_refl h
  case originate n addr hostReqId bytes =>
    apply hquiet
    simp only [step, Master.kbappOnEchoTo]
    split
    · next hfree =>
        have hfree : s.flights (.producer n) = none := by simpa [Master.idle] using hfree
        split
        · have hs : Accounted _ { s with origSeq := nextOrigSeq s.origSeq } placed :=
            h.aside rfl rfl
          exact posted_issue hs hfree _ _
        · split
          · exact posted_aside h rfl rfl
          · exact posted_refl h
    · exact posted_refl h
  case send n =>
    obtain ⟨label, hp, hlabel⟩ := posted_busMsgSend h hn (.producer n)
    exact ⟨label, hp, fun i hi => ⟨_, rfl, hlabel i hi⟩⟩
  case busMsg dest opcode body =>
    apply hquiet
    simp only [step, Master.onBusMsg]
    split
    · exact posted_refl h
    · exact posted_aside h rfl rfl
  case registerSlave addr enabled =>
    apply hquiet
    simp only [step, Master.registerSlave]
    split
    · exact posted_aside h rfl rfl
    · exact posted_refl h
  case uplinkEnter active cfg =>
    apply hquiet
    cases cfg <;> exact posted_aside h rfl rfl
  all_goals exact hquiet (posted_aside h rfl rfl)

end SlowBus.Arbiter
