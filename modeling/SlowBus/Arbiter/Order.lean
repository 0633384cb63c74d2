import SlowBus.Arbiter.Delivery

/-!
# The order of the messages of a node

A producer pushes in front of the messages already on the fill list and the
message pass sends from the front, so messages of one cycle come out in the
reverse order. They keep their order when each finds the fill list empty.
-/

namespace SlowBus.Arbiter

open Linked PingPong Runs

/-- The messages put on the wire for a node, in that order. -/
def Master.sentTo (s : Master) (addr : Nat) : List Msg :=
  (s.hist.sent.filter fun x => x.addr = addr).map (·.msg)

/-- The messages accepted for a node, in that order. -/
def Master.acceptedFor (s : Master) (addr : Nat) : List Msg :=
  (s.hist.accepted.map (·.1)).filter fun m => m.dest = addr

/-- The messages sent to each node are those accepted for it, in that order, but
for those not sent. -/
def Master.InOrder (s : Master) : Prop :=
  ∀ addr, (s.sentTo addr).Sublist (s.acceptedFor addr)

/-- A buffer is only attached to a node whose fill list is empty. -/
def IntoEmpty (s : Master) (a : Action) : Prop :=
  ∀ t ∈ s.sender a, ∀ i ∈ s.attachesTo t, listHead s.nodes i (!s.active) = none

instance (s : Master) (a : Action) : Decidable (IntoEmpty s a) := by
  unfold IntoEmpty
  infer_instance

/-- The table is not rebuilt, for no change of the roster is pending. -/
def NoRebuild (s : Master) (_ : Action) : Prop := s.dirty = false

instance (s : Master) (a : Action) : Decidable (NoRebuild s a) := by
  unfold NoRebuild
  infer_instance

variable {n : Nat} {s : Master}

/-- The accounts, and mail in order. -/
def Orderly (n : Nat) (s : Master) : Prop :=
  BusIdle s ∧ ∃ placed, Accounted n s placed ∧ PingPong.InOrder Msg.dest (s.mail placed)

theorem orderly_boot (room : Nat) (cfg : Option RosterCfg) :
    Orderly (busPoolSize room) (boot room cfg) := by
  obtain ⟨hidle, placed, h⟩ := kept_boot room cfg
  have hhist : (boot room cfg).hist = {} := by cases cfg <;> rfl
  have hpc : (boot room cfg).pc = .top := by cases cfg <;> rfl
  have hnone (i : Nat) (side : Bool) : placed (.queue i side) = [] := by
    have hchain := h.stored.queue i side
    have hhead : listHead (boot room cfg).nodes i side = none := by
      cases cfg <;> exact listHead_build ..
    exact chain_none.mp (hhead ▸ hchain)
  have hbox (i : Nat) (side : Bool) : ((boot room cfg).mail placed).box i side = [] := by
    change (placed (.queue i side)).filterMap _ = []
    rw [hnone]
    rfl
  have hhand : ((boot room cfg).mail placed).hand = [] := by
    rw [Master.mail, h.inHand_nil (by rw [hpc]; rfl)]
    rfl
  refine ⟨hidle, placed, h, ?_, ?_, ?_⟩
  · intro i side m hm
    rw [hbox] at hm
    cases hm
  · intro i _ m hm
    rw [hhand] at hm
    cases hm
  · intro addr
    have hpending : ((boot room cfg).mail placed).pendingFor addr = [] := by
      rw [Boxes.pendingFor]
      cases ((boot room cfg).mail placed).home addr with
      | none => rfl
      | some i =>
          change Boxes.pipeline _ i = []
          rw [Boxes.pipeline, hhand, ite_self, hbox, hbox]
          rfl
    rw [hpending]
    simp only [Master.mail, hhist]
    exact List.Sublist.refl _

theorem orderly_step (hn : n ≤ busPoolN) (a : Action) (h : Orderly n s) (hempty : IntoEmpty s a) :
    Orderly n (step s a) := by
  obtain ⟨hidle, placed, hs, horder⟩ := h
  obtain ⟨label, ⟨placed', hs', hmail⟩, hlabel⟩ := posted_step hs hn hidle a
  refine ⟨busIdle_step hidle a, placed', hs', ?_⟩
  rcases hmail with hsame | hmove
  · rwa [hsame]
  · apply horder.move hmove
    intro i hi
    obtain ⟨t, ht, hattach⟩ := hlabel i hi
    have hhead := hempty t ht i hattach
    have hchain := hs.stored.queue i (!s.active)
    rw [hhead] at hchain
    change (placed (.queue i !s.active)).filterMap s.msgOf = []
    rw [chain_none.mp hchain]
    rfl

theorem Orderly.inOrder (h : Orderly n s) : s.InOrder := by
  obtain ⟨-, placed, hs, horder⟩ := h
  intro addr
  have hsent : s.sentTo addr = only Msg.dest addr (s.mail placed).sent := by
    rw [Master.sentTo, only, Master.mail, List.filter_map]
    congr 1
    refine List.filter_congr fun x hx => ?_
    rw [(hs.ledger.sent x hx).1]
    rfl
  rw [hsent]
  exact horder.sent addr

/-- Where every message finds the fill list of its node empty, the messages of
each node are put on the wire in the order in which they were accepted. -/
theorem sent_in_order_when_into_empty (room : Nat) (cfg : Option RosterCfg) (as : List Action)
    (hempty : Along step IntoEmpty (boot room cfg) as) :
    (run step (boot room cfg) as).InOrder :=
  (run_along (fun _ a h he => orderly_step (busPoolSize_le room) a h he) hempty
    (orderly_boot room cfg)).inOrder

/-- A producer calls `bus_msg_send` and runs it to its end. -/
def sendAll (n dest : Nat) (payload : Bytes) : List Action :=
  [.call n dest payload, .send n, .send n, .send n]

/-- One node at address 5. -/
def oneNode : Option RosterCfg := some { slaves := [(5, true)] }

/-- Two messages for one node, the second after the pass that sends the first. -/
def twoCycles : List Action :=
  sendAll 0 5 [1] ++ List.replicate 8 .bus ++ sendAll 0 5 [2] ++ List.replicate 12 .bus

theorem sent_in_order_when_into_empty_two :
    Along step IntoEmpty (boot 24 oneNode) twoCycles ∧
      (run step (boot 24 oneNode) twoCycles).sentTo 5 =
        [{ call := 0, dest := 5, payload := [1] }, { call := 1, dest := 5, payload := [2] }] ∧
      (run step (boot 24 oneNode) twoCycles).InOrder :=
  ⟨by decide, by decide, sent_in_order_when_into_empty 24 oneNode twoCycles (by decide)⟩

/-- Two messages for one node between two swaps, and the message pass that sends them. -/
def twoMessages : List Action :=
  sendAll 0 5 [1] ++ sendAll 0 5 [2] ++ List.replicate 8 .bus

/-- They are sent in the reverse order. -/
theorem not_always_in_order :
    ¬∀ (room : Nat) (cfg : Option RosterCfg) (as : List Action),
      Along step NoRebuild (boot room cfg) as → (run step (boot room cfg) as).InOrder := by
  intro h
  have hrun := h 24 oneNode twoMessages (by decide) 5
  have hsent : (run step (boot 24 oneNode) twoMessages).sentTo 5 =
      [{ call := 1, dest := 5, payload := [2] }, { call := 0, dest := 5, payload := [1] }] := by
    decide
  have haccepted : (run step (boot 24 oneNode) twoMessages).acceptedFor 5 =
      [{ call := 0, dest := 5, payload := [1] }, { call := 1, dest := 5, payload := [2] }] := by
    decide
  rw [hsent, haccepted] at hrun
  exact absurd hrun (by decide)

end SlowBus.Arbiter
