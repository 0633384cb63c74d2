import Mathlib.Data.List.Basic

/-!
# Pairs of boxes

Every address has a pair of boxes. Producers push onto the box that is not
active; at a swap the pair changes roles, and a server empties the active boxes
one after the other. Pushing puts a message in front of those already there, so
what is sent to an address keeps the order of acceptance when messages are only
accepted into empty boxes.
-/

namespace SlowBus.PingPong

/-- `home` tells which pair an address has; `hand` is what the server took out of
the pair `serving` and has not dealt with. -/
structure Boxes (κ α : Type*) where
  home : κ → Option Nat
  box : Nat → Bool → List α
  active : Bool
  hand : List α
  serving : Option Nat
  accepted : List α
  sent : List α

variable {κ α : Type*} {dest : α → κ}

/-- Replace the contents of one box. -/
def setBox (box : Nat → Bool → List α) (i : Nat) (side : Bool) (l : List α) :
    Nat → Bool → List α :=
  fun j r => if j = i ∧ r = side then l else box j r

@[simp] theorem setBox_self (box : Nat → Bool → List α) (i : Nat) (side : Bool) (l : List α) :
    setBox box i side l i side = l := if_pos ⟨rfl, rfl⟩

theorem setBox_other {box : Nat → Bool → List α} {i j : Nat} {side r : Bool} {l : List α}
    (h : ¬(j = i ∧ r = side)) : setBox box i side l j r = box j r := if_neg h

theorem mem_setBox {box : Nat → Bool → List α} {i j : Nat} {side r : Bool} {l : List α} {x : α}
    (hx : x ∈ setBox box i side l j r) : (j = i ∧ x ∈ l) ∨ x ∈ box j r := by
  unfold setBox at hx
  split at hx
  next hj => exact Or.inl ⟨hj.1, hx⟩
  · exact Or.inr hx

/-- What can happen; an acceptance tells the pair it goes to. -/
inductive Move (dest : α → κ) : Option Nat → Boxes κ α → Boxes κ α → Prop
  | accept (q : Boxes κ α) (i : Nat) (m : α) (hhome : q.home (dest m) = some i) :
      Move dest (some i) q { q with
        box := setBox q.box i (!q.active) (m :: q.box i !q.active)
        accepted := q.accepted ++ [m] }
  | swap (q : Boxes κ α) (hempty : ∀ i, q.box i q.active = []) :
      Move dest none q { q with active := !q.active }
  | take (q : Boxes κ α) (i : Nat) (hhand : q.hand = []) :
      Move dest none q { q with
        box := setBox q.box i q.active []
        hand := q.box i q.active
        serving := some i }
  | send (q : Boxes κ α) (i : Nat) (m : α) (rest : List α) (hhand : q.hand = m :: rest)
      (hserving : q.serving = some i) :
      Move dest none q { q with hand := rest, sent := q.sent ++ [m] }
  | drop (q : Boxes κ α) (m : α) (rest : List α) (hhand : q.hand = m :: rest) :
      Move dest none q { q with hand := rest }
  | leave (q : Boxes κ α) (hhand : q.hand = []) : Move dest none q { q with serving := none }
  | reset (q : Boxes κ α) (home : κ → Option Nat) (hand : List α) :
      Move dest none q { q with home, box := fun _ _ => [], hand, serving := none }

/-- What is still to be sent from a pair, first things first. -/
def Boxes.pipeline (q : Boxes κ α) (i : Nat) : List α :=
  (if q.serving = some i then q.hand else []) ++ q.box i q.active ++ q.box i !q.active

/-- The messages still to be sent to an address. -/
def Boxes.pendingFor (q : Boxes κ α) (a : κ) : List α := (q.home a).elim [] q.pipeline

variable {q q' : Boxes κ α} {label : Option Nat}

theorem pendingFor_some {a : κ} {i : Nat} (h : q.home a = some i) :
    q.pendingFor a = q.pipeline i := by
  rw [Boxes.pendingFor, h]
  rfl

theorem pendingFor_none {a : κ} (h : q.home a = none) : q.pendingFor a = [] := by
  rw [Boxes.pendingFor, h]
  rfl

variable [DecidableEq κ]

/-- The messages for one address. -/
def only (dest : α → κ) (a : κ) (l : List α) : List α := l.filter fun m => dest m = a

theorem only_append {a : κ} (l l' : List α) :
    only dest a (l ++ l') = only dest a l ++ only dest a l' :=
  List.filter_append ..

theorem only_nil {a : κ} : only dest a [] = [] := rfl

theorem only_singleton {a : κ} (m : α) : only dest a [m] = if dest m = a then [m] else [] := by
  by_cases h : dest m = a <;> simp [only, h]

/-- Messages wait where their address says, and the rest of their way keeps the
order in which they were accepted. -/
structure InOrder (dest : α → κ) (q : Boxes κ α) : Prop where
  homed : ∀ i side, ∀ m ∈ q.box i side, q.home (dest m) = some i
  handHomed : ∀ i, q.serving = some i → ∀ m ∈ q.hand, q.home (dest m) = some i
  order : ∀ a, (only dest a q.sent ++ only dest a (q.pendingFor a)).Sublist
    (only dest a q.accepted)

/-- A step that keeps the pipelines and sends and accepts nothing. -/
theorem InOrder.keep (h : InOrder dest q) (hhome : q'.home = q.home) (hsent : q'.sent = q.sent)
    (haccepted : q'.accepted = q.accepted)
    (hpipeline : ∀ i, (q'.pipeline i).Sublist (q.pipeline i)) (a : κ) :
    (only dest a q'.sent ++ only dest a (q'.pendingFor a)).Sublist (only dest a q'.accepted) := by
  rw [hsent, haccepted]
  refine List.Sublist.trans (List.Sublist.append_left ?_ _) (h.order a)
  cases hi : q.home a with
  | none =>
      rw [pendingFor_none hi, pendingFor_none (hhome ▸ hi)]
  | some i =>
      rw [pendingFor_some hi, pendingFor_some (hhome ▸ hi)]
      exact (hpipeline i).filter _

/-- What was sent to an address is what was accepted for it, in that order, but
for what is left out. -/
theorem InOrder.sent (h : InOrder dest q) (a : κ) :
    (only dest a q.sent).Sublist (only dest a q.accepted) :=
  (List.sublist_append_left ..).trans (h.order a)

/-- A message accepted into an empty box is behind everything else for its address. -/
theorem InOrder.accept (h : InOrder dest q) {i : Nat} {m : α} (hhome : q.home (dest m) = some i)
    (hempty : q.box i (!q.active) = []) :
    InOrder dest { q with
      box := setBox q.box i (!q.active) [m]
      accepted := q.accepted ++ [m] } := by
  refine ⟨fun j side x hx => ?_, h.handHomed, fun a => ?_⟩
  · obtain ⟨rfl, hmem⟩ | hmem := mem_setBox hx
    · rw [List.mem_singleton.mp hmem]
      exact hhome
    · exact h.homed j side x hmem
  · have hold := h.order a
    change (only dest a q.sent ++ _).Sublist (only dest a (q.accepted ++ [m]))
    rw [only_append]
    cases ha : q.home a with
    | none =>
        rw [pendingFor_none ha, only_nil, List.append_nil] at hold
        rw [pendingFor_none (by exact ha), only_nil, List.append_nil]
        exact hold.trans (List.sublist_append_left ..)
    | some j =>
        rw [pendingFor_some ha] at hold
        rw [pendingFor_some (by exact ha)]
        simp only [Boxes.pipeline] at hold ⊢
        rcases eq_or_ne j i with rfl | hj
        · rw [setBox_other (by simp), setBox_self, only_append, ← List.append_assoc]
          rw [hempty, List.append_nil] at hold
          exact hold.append_right _
        · rw [setBox_other (by simp [hj]), setBox_other (by simp [hj])]
          exact hold.trans (List.sublist_append_left ..)

/-- The server takes a box: what it holds was at the front of the pair's pipeline. -/
theorem InOrder.take (h : InOrder dest q) {i : Nat} (hhand : q.hand = []) :
    InOrder dest { q with
      box := setBox q.box i q.active []
      hand := q.box i q.active
      serving := some i } := by
  refine ⟨fun j side m hm => ?_, fun j hj m hm => ?_, h.keep rfl rfl rfl fun j => ?_⟩
  · obtain ⟨-, hm⟩ | hm := mem_setBox hm
    · cases hm
    · exact h.homed j side m hm
  · cases hj
    exact h.homed i q.active m hm
  · simp only [Boxes.pipeline, hhand, ite_self, List.nil_append, Option.some_inj]
    rcases eq_or_ne j i with rfl | hj
    · rw [if_pos rfl, setBox_self, setBox_other (by simp), List.append_nil]
    · rw [if_neg (Ne.symm hj), setBox_other (by simp [hj]), setBox_other (by simp [hj])]
      exact List.Sublist.refl _

/-- The server sends what is at the front of the pair's pipeline. -/
theorem InOrder.send (h : InOrder dest q) {i : Nat} {m : α} {rest : List α}
    (hhand : q.hand = m :: rest) (hserving : q.serving = some i) :
    InOrder dest { q with hand := rest, sent := q.sent ++ [m] } := by
  have hhome := h.handHomed i hserving m (hhand ▸ List.mem_cons_self)
  refine ⟨h.homed, fun j hj x hx => h.handHomed j hj x ?_, fun a => ?_⟩
  · rw [hhand]
    exact List.mem_cons_of_mem m hx
  · have hold := h.order a
    change (only dest a (q.sent ++ [m]) ++ _).Sublist (only dest a q.accepted)
    rw [only_append, only_singleton]
    cases ha : q.home a with
    | none =>
        have hne : dest m ≠ a := by
          rintro rfl
          rw [ha] at hhome
          cases hhome
        rw [pendingFor_none ha] at hold
        rw [pendingFor_none (by exact ha), if_neg hne, List.append_nil]
        exact hold
    | some j =>
        rw [pendingFor_some ha] at hold
        rw [pendingFor_some (by exact ha)]
        simp only [Boxes.pipeline, hserving, hhand, Option.some_inj] at hold ⊢
        by_cases hm : dest m = a
        · -- the message goes from the head of the pipeline to the end of what was sent
          obtain rfl : i = j := by
            rw [hm, ha] at hhome
            exact (Option.some.inj hhome).symm
          rw [if_pos hm, if_pos rfl, List.append_assoc, List.append_assoc]
          rw [if_pos rfl, List.append_assoc, List.cons_append, ← List.singleton_append,
            only_append, only_singleton, if_pos hm] at hold
          exact hold
        · rw [if_neg hm, List.append_nil]
          refine List.Sublist.trans (List.Sublist.append_left ?_ _) hold
          split
          · exact (List.sublist_cons_self ..).filter _
          · exact List.Sublist.refl _

/-- What a reset leaves in the boxes is lost, and nothing is out of order. -/
theorem InOrder.reset (h : InOrder dest q) (home : κ → Option Nat) (hand : List α) :
    InOrder dest { q with home, box := fun _ _ => [], hand, serving := none } := by
  refine ⟨(fun i side m hm => nomatch hm), (fun i hi => nomatch hi), fun a => ?_⟩
  have hnone : Boxes.pendingFor
      { q with home, box := fun _ _ => [], hand, serving := none } a = [] := by
    rw [Boxes.pendingFor]
    change (home a).elim [] _ = []
    cases home a <;> rfl
  rw [hnone, only_nil, List.append_nil]
  exact h.sent a

/-- Acceptance into empty boxes keeps messages in order, and so does everything else. -/
theorem InOrder.move (h : InOrder dest q) (hmove : Move dest label q q')
    (hempty : ∀ i, label = some i → q.box i (!q.active) = []) : InOrder dest q' := by
  cases hmove with
  | accept _ i m hhome =>
      rw [hempty i rfl]
      exact h.accept hhome (hempty i rfl)
  | swap _ hswap =>
      refine ⟨h.homed, h.handHomed, h.keep rfl rfl rfl fun i => ?_⟩
      simp only [Boxes.pipeline, Bool.not_not, hswap i, List.append_nil]
      exact List.Sublist.refl _
  | take _ i hhand => exact h.take hhand
  | send _ i m rest hhand hserving => exact h.send hhand hserving
  | drop _ m rest hhand =>
      refine ⟨h.homed, fun i hi x hx => h.handHomed i hi x ?_, h.keep rfl rfl rfl fun i => ?_⟩
      · rw [hhand]
        exact List.mem_cons_of_mem m hx
      · simp only [Boxes.pipeline, hhand]
        split
        · exact List.sublist_cons_self ..
        · exact List.Sublist.refl _
  | leave _ hhand =>
      refine ⟨h.homed, (fun i hi => nomatch hi), h.keep rfl rfl rfl fun i => ?_⟩
      simp only [Boxes.pipeline, hhand, ite_self]
      exact List.Sublist.refl _
  | reset _ home hand => exact h.reset home hand

end SlowBus.PingPong
