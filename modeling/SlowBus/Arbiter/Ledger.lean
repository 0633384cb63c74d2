import SlowBus.Arbiter.Storage

/-!
# The accounts of the messages

Every accepted message was sent, was recovered unsent, or waits in a buffer on a
list. The accounts are kept over the pieces of the state they depend on; a step
leaves them as they are, adds a message, or resolves one.
-/

namespace SlowBus.Arbiter

open Placement

/-- The node whose messages the bus task is sending. -/
def Pc.draining : Pc → Option Nat
  | .drain i _ | .release i _ _ => some i
  | _ => none

/-- The active list of node `i` is no longer to be detached in this cycle. -/
def Pc.passed (i : Nat) : Pc → Prop
  | .pass k => i < k
  | .drain k _ | .release k _ _ => i ≤ k
  | _ => True

/-- What the bus task has in hand and not yet dealt with. -/
def inHand (pc : Pc) (placed : Place → List Buf) : List Buf :=
  (placed .hand).drop pc.hand.1.length

/-- A buffer with an accepted message that is still to be sent. -/
def Waiting (pc : Pc) (placed : Place → List Buf) (b : Buf) : Prop :=
  (∃ i parity, b ∈ placed (.queue i parity)) ∨ b ∈ inHand pc placed

/-- The calls of `bus_msg_send` are told apart by their numbers. -/
structure Calls (msgOf : Buf → Option Msg) (flights : Task → Option Flight) (hist : History) :
    Prop where
  numbered : ∀ x ∈ hist.accepted, x.1.call < hist.calls
  once : (hist.accepted.map (·.1.call)).Nodup
  underway : ∀ t f, flights t = some f →
    f.msg.call < hist.calls ∧ ∀ x ∈ hist.accepted, x.1.call ≠ f.msg.call
  apart : ∀ t u f g, flights t = some f → flights u = some g → f.msg.call = g.msg.call → t = u
  filled : ∀ t msg b, flights t = some ⟨msg, .attach b⟩ → msgOf b = some msg

structure Ledger (msgOf : Buf → Option Msg) (payload : Buf → Bytes) (addr : Nat → Option Nat)
    (active : Bool) (pc : Pc) (hist : History) (placed : Place → List Buf) : Prop where
  payload : ∀ b msg, msgOf b = some msg → payload b = msg.payload.take busPayloadMax
  balance : ∃ pend : List Buf, pend.Nodup ∧ (∀ b, b ∈ pend ↔ Waiting pc placed b) ∧
    (hist.accepted.map (some ·.1)).Perm
      ((hist.sent.map (some ·.msg) ++ hist.unsent.map (some ·.1)) ++ pend.map msgOf)
  queued : ∀ i parity b msg, b ∈ placed (.queue i parity) → msgOf b = some msg →
    addr i = some msg.dest
  drawn : ∀ i b msg, pc.draining = some i → b ∈ inHand pc placed → msgOf b = some msg →
    addr i = some msg.dest
  young : ∀ i b msg c, b ∈ placed (.queue i !active) → msgOf b = some msg →
    (msg, c) ∈ hist.accepted → c = hist.cycle
  drained : ∀ i, pc.passed i → placed (.queue i active) = []
  sent : ∀ x ∈ hist.sent, x.addr = x.msg.dest ∧ x.payload = x.msg.payload.take busPayloadMax
  dead : ∀ x ∈ hist.unsent, ∀ a, x.2 = .dead a → a = x.1.dest

/-! ## Calls -/

section Calls

variable {msgOf msgOf' : Buf → Option Msg} {flights : Task → Option Flight} {hist : History}
  {t : Task} {f : Flight} {msg : Msg}

/-- A call begins. -/
theorem Calls.begin (h : Calls msgOf flights hist) (t : Task) (hf : f.msg.call = hist.calls)
    (hstage : f.stage = .grab) {hist' : History} (hcalls : hist'.calls = hist.calls + 1)
    (haccepted : hist'.accepted = hist.accepted) :
    Calls msgOf (Function.update flights t (some f)) hist' := by
  constructor
  case numbered =>
    intro x hx
    rw [haccepted] at hx
    have := h.numbered x hx
    omega
  case once =>
    rw [haccepted]
    exact h.once
  case underway =>
    intro u g hg
    rw [haccepted, hcalls]
    rcases eq_or_ne u t with rfl | hu
    · rw [Function.update_self, Option.some_inj] at hg
      subst hg
      refine ⟨by omega, fun x hx => ?_⟩
      have := h.numbered x hx
      omega
    · rw [Function.update_of_ne hu] at hg
      have := h.underway u g hg
      exact ⟨by omega, this.2⟩
  case apart =>
    intro u v g k hg hk heq
    -- the new call has the next number, and the others have smaller ones
    rcases eq_or_ne u t with rfl | hu <;> rcases eq_or_ne v u with rfl | hv
    · rfl
    · rw [Function.update_self, Option.some_inj] at hg
      rw [Function.update_of_ne hv] at hk
      subst hg
      have := (h.underway v k hk).1
      omega
    · rfl
    · rw [Function.update_of_ne hu] at hg
      rcases eq_or_ne v t with rfl | hvt
      · rw [Function.update_self, Option.some_inj] at hk
        subst hk
        have := (h.underway u g hg).1
        omega
      · rw [Function.update_of_ne hvt] at hk
        exact h.apart u v g k hg hk heq
  case filled =>
    intro u m b hg
    rcases eq_or_ne u t with rfl | hu
    · rw [Function.update_self, Option.some_inj] at hg
      rw [hg] at hstage
      cases hstage
    · rw [Function.update_of_ne hu] at hg
      exact h.filled u m b hg

/-- A call moves on, and its buffer carries its message when it is about to be attached. -/
theorem Calls.stage (h : Calls msgOf flights hist) (ht : flights t = some f) {stage : Stage}
    (hself : ∀ b, stage = .attach b → msgOf' b = some f.msg)
    (hothers : ∀ u msg b, u ≠ t → flights u = some ⟨msg, .attach b⟩ → msgOf' b = some msg) :
    Calls msgOf' (Function.update flights t (some { msg := f.msg, stage })) hist := by
  have hold {u : Task} {g : Flight}
      (hg : Function.update flights t (some { msg := f.msg, stage }) u = some g) :
      ∃ k, flights u = some k ∧ k.msg = g.msg := by
    rcases eq_or_ne u t with rfl | hu
    · rw [Function.update_self, Option.some_inj] at hg
      exact ⟨f, ht, by rw [← hg]⟩
    · rw [Function.update_of_ne hu] at hg
      exact ⟨g, hg, rfl⟩
  constructor
  case numbered => exact h.numbered
  case once => exact h.once
  case underway =>
    intro u g hg
    obtain ⟨k, hk, heq⟩ := hold hg
    rw [← heq]
    exact h.underway u k hk
  case apart =>
    intro u v g k hg hk heq
    obtain ⟨g', hg', hmsg⟩ := hold hg
    obtain ⟨k', hk', hmsg'⟩ := hold hk
    exact h.apart u v g' k' hg' hk' (by rw [hmsg, hmsg', heq])
  case filled =>
    intro u m b hg
    rcases eq_or_ne u t with rfl | hu
    · rw [Function.update_self, Option.some_inj, Flight.mk.injEq] at hg
      rw [← hg.1]
      exact hself b hg.2
    · rw [Function.update_of_ne hu] at hg
      exact hothers u m b hu hg

/-- A call returns, accepted or not. -/
theorem Calls.finish (h : Calls msgOf flights hist) (ht : flights t = some f)
    {hist' : History} (hcalls : hist'.calls = hist.calls)
    (haccepted : hist'.accepted = hist.accepted ∨
      ∃ c, hist'.accepted = hist.accepted ++ [(f.msg, c)])
    (hothers : ∀ u msg b, u ≠ t → flights u = some ⟨msg, .attach b⟩ → msgOf' b = some msg) :
    Calls msgOf' (Function.update flights t none) hist' := by
  have hold {u : Task} {g : Flight} (hg : Function.update flights t none u = some g) :
      u ≠ t ∧ flights u = some g := by
    rcases eq_or_ne u t with rfl | hu
    · rw [Function.update_self] at hg
      cases hg
    · rw [Function.update_of_ne hu] at hg
      exact ⟨hu, hg⟩
  have hmem {x : Msg × Nat} (hx : x ∈ hist'.accepted) : x ∈ hist.accepted ∨ x.1 = f.msg := by
    rcases haccepted with heq | ⟨c, heq⟩
    · exact Or.inl (heq ▸ hx)
    · rw [heq, List.mem_append, List.mem_singleton] at hx
      exact hx.imp_right fun h => by rw [h]
  constructor
  case numbered =>
    intro x hx
    rw [hcalls]
    rcases hmem hx with hx | hx
    · exact h.numbered x hx
    · rw [hx]
      exact (h.underway t f ht).1
  -- it was not accepted before, as it was under way
  case once =>
    rcases haccepted with heq | ⟨c, heq⟩
    · rw [heq]
      exact h.once
    · rw [heq, List.map_append, List.map_singleton, List.nodup_append]
      refine ⟨h.once, List.nodup_singleton _, fun a ha b hb => ?_⟩
      obtain ⟨x, hx, rfl⟩ := List.mem_map.mp ha
      rw [List.mem_singleton.mp hb]
      exact (h.underway t f ht).2 x hx
  case underway =>
    intro u g hg
    obtain ⟨hu, hg⟩ := hold hg
    rw [hcalls]
    refine ⟨(h.underway u g hg).1, fun x hx heq => ?_⟩
    rcases hmem hx with hx | hx
    · exact (h.underway u g hg).2 x hx heq
    · rw [hx] at heq
      exact hu (h.apart u t g f hg ht heq.symm)
  case apart =>
    intro u v g k hg hk heq
    exact h.apart u v g k (hold hg).2 (hold hk).2 heq
  case filled =>
    intro u m b hg
    obtain ⟨hu, hg⟩ := hold hg
    exact hothers u m b hu hg

/-- Steps that do not concern the calls. -/
theorem Calls.same (h : Calls msgOf flights hist) {hist' : History}
    (hcalls : hist'.calls = hist.calls) (haccepted : hist'.accepted = hist.accepted)
    (hmsg : ∀ u msg b, flights u = some ⟨msg, .attach b⟩ → msgOf' b = msgOf b) :
    Calls msgOf' flights hist' := by
  constructor
  case numbered =>
    rw [haccepted, hcalls]
    exact h.numbered
  case once =>
    rw [haccepted]
    exact h.once
  case underway =>
    rw [haccepted, hcalls]
    exact h.underway
  case apart => exact h.apart
  case filled =>
    intro u m b hu
    rw [hmsg u m b hu]
    exact h.filled u m b hu

end Calls

/-! ## Entries in the ledger -/

section Ledger

variable {msgOf msgOf' : Buf → Option Msg} {payload payload' : Buf → Bytes}
  {addr addr' : Nat → Option Nat} {active : Bool} {pc pc' : Pc} {hist hist' : History}
  {placed placed' : Place → List Buf} {b : Buf} {msg : Msg}

theorem Waiting.congr (hqueue : ∀ i parity, placed' (.queue i parity) = placed (.queue i parity))
    (hhand : inHand pc' placed' = inHand pc placed) :
    Waiting pc' placed' b ↔ Waiting pc placed b := by
  simp only [Waiting, hqueue, hhand]

/-- A step that leaves the lists and what is in hand as they are. -/
theorem Ledger.same (h : Ledger msgOf payload addr active pc hist placed)
    (hmsg : ∀ b, Waiting pc placed b → msgOf' b = msgOf b)
    (hpayload : ∀ b msg, msgOf' b = some msg → payload' b = msg.payload.take busPayloadMax)
    (haddr : ∀ i, addr' i = addr i)
    (hqueue : ∀ i parity, placed' (.queue i parity) = placed (.queue i parity))
    (hhand : inHand pc' placed' = inHand pc placed)
    (hdrain : ∀ i, pc'.draining = some i → pc.draining = some i ∨ inHand pc placed = [])
    (hpassed : ∀ i, pc'.passed i → pc.passed i ∨ placed (.queue i active) = [])
    (hhist : hist'.accepted = hist.accepted ∧ hist'.sent = hist.sent ∧
      hist'.unsent = hist.unsent ∧ hist'.cycle = hist.cycle) :
    Ledger msgOf' payload' addr' active pc' hist' placed' := by
  obtain ⟨haccepted, hsent, hunsent, hcycle⟩ := hhist
  constructor
  case payload => exact hpayload
  -- the buffers that wait are the same, and so are their messages
  case balance =>
    obtain ⟨pend, hnodup, hpend, hperm⟩ := h.balance
    refine ⟨pend, hnodup, fun b => (hpend b).trans (Waiting.congr hqueue hhand).symm, ?_⟩
    rw [haccepted, hsent, hunsent]
    have heq : pend.map msgOf' = pend.map msgOf :=
      List.map_congr_left fun b hb => hmsg b ((hpend b).mp hb)
    rwa [heq]
  case queued =>
    intro i parity b msg hb hm
    rw [hqueue] at hb
    rw [haddr]
    exact h.queued i parity b msg hb (hmsg b (Or.inl ⟨i, parity, hb⟩) ▸ hm)
  case drawn =>
    intro i b msg hi hb hm
    rw [hhand] at hb
    rw [haddr]
    rcases hdrain i hi with hi | hempty
    · exact h.drawn i b msg hi hb (hmsg b (Or.inr hb) ▸ hm)
    · rw [hempty] at hb
      cases hb
  case young =>
    intro i b msg c hb hm hc
    rw [hqueue] at hb
    rw [hcycle]
    rw [haccepted] at hc
    exact h.young i b msg c hb (hmsg b (Or.inl ⟨i, _, hb⟩) ▸ hm) hc
  case drained =>
    intro i hi
    rw [hqueue]
    exact (hpassed i hi).elim (h.drained i) id
  case sent =>
    rw [hsent]
    exact h.sent
  case dead =>
    rw [hunsent]
    exact h.dead

/-- A message is accepted: its buffer is on the fill list of its node. -/
theorem Ledger.accept (h : Ledger msgOf payload addr active pc hist placed) {i : Nat}
    (hb : msgOf b = some msg) (hnot : ¬Waiting pc placed b) (hnew : ∀ x ∈ hist.accepted, x.1 ≠ msg)
    (haddr : addr i = some msg.dest)
    (hplaced : placed' (.queue i !active) = b :: placed (.queue i !active))
    (hqueue : ∀ j parity, ¬(j = i ∧ parity = !active) →
      placed' (.queue j parity) = placed (.queue j parity))
    (hhand : inHand pc placed' = inHand pc placed)
    (hhist : hist'.accepted = hist.accepted ++ [(msg, hist.cycle)] ∧ hist'.sent = hist.sent ∧
      hist'.unsent = hist.unsent ∧ hist'.cycle = hist.cycle) :
    Ledger msgOf payload addr active pc hist' placed' := by
  obtain ⟨haccepted, hsent, hunsent, hcycle⟩ := hhist
  -- the fill list of the node is the only one that grows, by one buffer
  have hmem {j : Nat} {parity : Bool} {c : Buf} (hc : c ∈ placed' (.queue j parity)) :
      c ∈ placed (.queue j parity) ∨ (c = b ∧ j = i ∧ parity = !active) := by
    by_cases hj : j = i ∧ parity = !active
    · obtain ⟨rfl, rfl⟩ := hj
      rw [hplaced, List.mem_cons] at hc
      exact hc.elim (fun h => Or.inr ⟨h, rfl, rfl⟩) Or.inl
    · exact Or.inl (hqueue j parity hj ▸ hc)
  have hsub {j : Nat} {parity : Bool} {c : Buf} (hc : c ∈ placed (.queue j parity)) :
      c ∈ placed' (.queue j parity) := by
    by_cases hj : j = i ∧ parity = !active
    · obtain ⟨rfl, rfl⟩ := hj
      rw [hplaced]
      exact List.mem_cons_of_mem b hc
    · rwa [hqueue j parity hj]
  constructor
  case payload => exact h.payload
  case balance =>
    obtain ⟨pend, hnodup, hpend, hperm⟩ := h.balance
    refine ⟨b :: pend, List.nodup_cons.mpr ⟨fun hmem => hnot ((hpend b).mp hmem), hnodup⟩,
      fun c => ?_, ?_⟩
    · rw [List.mem_cons, hpend]
      simp only [Waiting, hhand]
      constructor
      · rintro (rfl | ⟨j, parity, hc⟩ | hc)
        · exact Or.inl ⟨i, !active, hplaced ▸ List.mem_cons_self⟩
        · exact Or.inl ⟨j, parity, hsub hc⟩
        · exact Or.inr hc
      · rintro (⟨j, parity, hc⟩ | hc)
        · exact (hmem hc).elim (fun hc => Or.inr (Or.inl ⟨j, parity, hc⟩)) fun hc => Or.inl hc.1
        · exact Or.inr (Or.inr hc)
    · rw [haccepted, hsent, hunsent, List.map_append, List.map_singleton, List.map_cons, hb]
      exact (List.perm_append_singleton ..).trans
        ((hperm.cons _).trans List.perm_middle.symm)
  case queued =>
    intro j parity c m hc hm
    rcases hmem hc with hc | ⟨rfl, rfl, -⟩
    · exact h.queued j parity c m hc hm
    · rw [hb, Option.some_inj] at hm
      rw [← hm]
      exact haddr
  case drawn =>
    rw [hhand]
    exact h.drawn
  -- the new message was accepted in this cycle
  case young =>
    intro j c m k hc hm hk
    rw [haccepted, List.mem_append, List.mem_singleton, Prod.mk.injEq] at hk
    rw [hcycle]
    rcases hmem hc with hc | ⟨rfl, rfl, -⟩
    · rcases hk with hk | ⟨rfl, rfl⟩
      · exact h.young j c m k hc hm hk
      · rfl
    · rw [hb, Option.some_inj] at hm
      rcases hk with hk | hk
      · exact absurd hm.symm (hnew _ hk)
      · exact hk.2
  case drained =>
    intro j hj
    rw [hqueue j active (by simp)]
    exact h.drained j hj
  case sent =>
    rw [hsent]
    exact h.sent
  case dead =>
    rw [hunsent]
    exact h.dead

/-- The first buffer in hand is dealt with. -/
theorem Ledger.resolve (h : Ledger msgOf payload addr active pc hist placed) {l : List Buf}
    (hplaces : ∀ i parity, b ∉ placed (.queue i parity)) (hnodup : (inHand pc placed).Nodup)
    (hhead : inHand pc placed = b :: l) (hhand : inHand pc' placed' = l)
    (hmsg : ∀ c ≠ b, msgOf' c = msgOf c)
    (hpayload : ∀ b msg, msgOf' b = some msg → payload' b = msg.payload.take busPayloadMax)
    (hqueue : ∀ i parity, placed' (.queue i parity) = placed (.queue i parity))
    (hdrain : ∀ i, pc'.draining = some i → pc.draining = some i)
    (hpassed : ∀ i, pc'.passed i → pc.passed i)
    (haccepted : hist'.accepted = hist.accepted) (hcycle : hist'.cycle = hist.cycle)
    (hresolved : (msgOf b :: (hist.sent.map (some ·.msg) ++ hist.unsent.map (some ·.1))).Perm
      (hist'.sent.map (some ·.msg) ++ hist'.unsent.map (some ·.1)))
    (hsent : ∀ x ∈ hist'.sent, x.addr = x.msg.dest ∧ x.payload = x.msg.payload.take busPayloadMax)
    (hdead : ∀ x ∈ hist'.unsent, ∀ a, x.2 = .dead a → a = x.1.dest) :
    Ledger msgOf' payload' addr active pc' hist' placed' := by
  rw [hhead, List.nodup_cons] at hnodup
  have hne {c : Buf} (hc : c ∈ l) : c ≠ b := fun heq => hnodup.1 (heq ▸ hc)
  have hqne {i : Nat} {parity : Bool} {c : Buf} (hc : c ∈ placed (.queue i parity)) : c ≠ b :=
    fun heq => hplaces i parity (heq ▸ hc)
  constructor
  case payload => exact hpayload
  case balance =>
    obtain ⟨pend, hpnodup, hpend, hperm⟩ := h.balance
    have hb : b ∈ pend := (hpend b).mpr (Or.inr (hhead ▸ List.mem_cons_self))
    refine ⟨pend.erase b, hpnodup.erase b, fun c => ?_, ?_⟩
    · rw [hpnodup.mem_erase_iff, hpend]
      simp only [Waiting, hqueue, hhand, hhead, List.mem_cons]
      constructor
      · rintro ⟨hcb, hc | hc | hc⟩
        · exact Or.inl hc
        · exact absurd hc hcb
        · exact Or.inr hc
      · rintro (⟨i, parity, hc⟩ | hc)
        · exact ⟨hqne hc, Or.inl ⟨i, parity, hc⟩⟩
        · exact ⟨hne hc, Or.inr (Or.inr hc)⟩
    -- its message moves from those that wait to those resolved
    · have heq : (pend.erase b).map msgOf' = (pend.erase b).map msgOf :=
        List.map_congr_left fun c hc => hmsg c (hpnodup.mem_erase_iff.mp hc).1
      have hpend' := (List.perm_cons_erase hb).map msgOf
      rw [haccepted, heq]
      refine hperm.trans ((hpend'.append_left _).trans ?_)
      rw [List.map_cons]
      exact List.perm_middle.trans (hresolved.append_right _)
  case queued =>
    intro i parity c m hc hm
    rw [hqueue] at hc
    exact h.queued i parity c m hc (hmsg c (hqne hc) ▸ hm)
  case drawn =>
    intro i c m hi hc hm
    rw [hhand] at hc
    refine h.drawn i c m (hdrain i hi) ?_ (hmsg c (hne hc) ▸ hm)
    rw [hhead]
    exact List.mem_cons_of_mem b hc
  case young =>
    intro i c m k hc hm hk
    rw [hqueue] at hc
    rw [hcycle]
    rw [haccepted] at hk
    exact h.young i c m k hc (hmsg c (hqne hc) ▸ hm) hk
  case drained =>
    intro i hi
    rw [hqueue]
    exact h.drained i (hpassed i hi)
  case sent => exact hsent
  case dead => exact hdead

/-- Lists are detached and taken in hand. -/
theorem Ledger.detach (h : Ledger msgOf payload addr active pc hist placed)
    {S : Place → Prop} [DecidablePred S] (hS : ∀ p, S p → ∃ i parity, p = .queue i parity)
    {l : List Buf} (hl : ∀ a, a ∈ l ↔ ∃ p, S p ∧ a ∈ placed p)
    (hempty : inHand pc placed = []) (hhand : inHand pc' (gather placed S .hand l) = l)
    (hmsg : ∀ b, msgOf' b = msgOf b)
    (hpayload : ∀ b msg, msgOf' b = some msg → payload' b = msg.payload.take busPayloadMax)
    (haddr : ∀ i parity, ¬S (.queue i parity) → addr' i = addr i)
    (hdrawn : ∀ i b msg, pc'.draining = some i → b ∈ l → msgOf b = some msg →
      addr' i = some msg.dest)
    (hdrained : ∀ i, pc'.passed i → S (.queue i active) ∨ placed (.queue i active) = [])
    (hhist : hist'.accepted = hist.accepted ∧ hist'.sent = hist.sent ∧
      hist'.unsent = hist.unsent ∧ hist'.cycle = hist.cycle) :
    Ledger msgOf' payload' addr' active pc' hist' (gather placed S .hand l) := by
  obtain ⟨haccepted, hsent, hunsent, hcycle⟩ := hhist
  have hqueue {i : Nat} {parity : Bool} {b : Buf}
      (hb : b ∈ gather placed S .hand l (.queue i parity)) :
      ¬S (.queue i parity) ∧ b ∈ placed (.queue i parity) := by
    by_cases hp : S (.queue i parity)
    · rw [gather_from (by simp) hp] at hb
      cases hb
    · rw [gather_other (by simp) hp] at hb
      exact ⟨hp, hb⟩
  have hfun : msgOf' = msgOf := funext hmsg
  subst hfun
  constructor
  case payload => exact hpayload
  -- the same buffers wait, some of them in hand now
  case balance =>
    obtain ⟨pend, hnodup, hpend, hperm⟩ := h.balance
    refine ⟨pend, hnodup, fun b => (hpend b).trans ?_, ?_⟩
    · simp only [Waiting, hempty, hhand, List.not_mem_nil, or_false]
      constructor
      · rintro ⟨i, parity, hb⟩
        by_cases hp : S (.queue i parity)
        · exact Or.inr ((hl b).mpr ⟨_, hp, hb⟩)
        · refine Or.inl ⟨i, parity, ?_⟩
          rwa [gather_other (by simp) hp]
      · rintro (⟨i, parity, hb⟩ | hb)
        · exact ⟨i, parity, (hqueue hb).2⟩
        · obtain ⟨p, hp, hb⟩ := (hl b).mp hb
          obtain ⟨i, parity, rfl⟩ := hS p hp
          exact ⟨i, parity, hb⟩
    · rwa [haccepted, hsent, hunsent]
  -- a list that keeps a buffer was not detached
  case queued =>
    intro i parity b msg hb hm
    rw [haddr i parity (hqueue hb).1]
    exact h.queued i parity b msg (hqueue hb).2 hm
  case drawn =>
    rw [hhand]
    exact hdrawn
  case young =>
    intro i b msg c hb hm hc
    rw [hcycle]
    rw [haccepted] at hc
    exact h.young i b msg c (hqueue hb).2 hm hc
  case drained =>
    intro i hi
    by_cases hp : S (.queue i active)
    · exact gather_from (by simp) hp
    · rw [gather_other (by simp) hp]
      exact (hdrained i hi).resolve_left hp
  case sent =>
    rw [hsent]
    exact h.sent
  case dead =>
    rw [hunsent]
    exact h.dead

/-- The lists change roles; those to be filled are empty. -/
theorem Ledger.swap (h : Ledger msgOf payload addr active pc hist placed)
    (hpc : ∀ i, pc.passed i) (hhand : inHand pc' placed = inHand pc placed)
    (hdrain : pc'.draining = none) (hpassed : ∀ i, ¬pc'.passed i)
    (hhist : hist'.accepted = hist.accepted ∧ hist'.sent = hist.sent ∧
      hist'.unsent = hist.unsent) :
    Ledger msgOf payload addr (!active) pc' hist' placed := by
  obtain ⟨haccepted, hsent, hunsent⟩ := hhist
  constructor
  case payload => exact h.payload
  case balance =>
    obtain ⟨pend, hnodup, hpend, hperm⟩ := h.balance
    refine ⟨pend, hnodup, fun b => ?_, ?_⟩
    · rw [hpend]
      exact (Waiting.congr (fun _ _ => rfl) hhand).symm
    · rwa [haccepted, hsent, hunsent]
  case queued => exact h.queued
  case drawn =>
    intro i b msg hi
    rw [hdrain] at hi
    cases hi
  case young =>
    intro i b msg c hb
    rw [Bool.not_not, h.drained i (hpc i)] at hb
    cases hb
  case drained =>
    intro i hi
    exact absurd hi (hpassed i)
  case sent =>
    rw [hsent]
    exact h.sent
  case dead =>
    rw [hunsent]
    exact h.dead

end Ledger

end SlowBus.Arbiter
