import SlowBus.Arbiter.Steps
import SlowBus.Lib.Chain
import SlowBus.Lib.Placement

/-!
# Where the buffers are

Every buffer is on the free list, on one list of one node, on the chain the bus
task works through, or held by one task. The shape is stated over the pieces of
the state that decide it, and each critical section moves one buffer, or all the
buffers of some lists.
-/

namespace SlowBus.Arbiter

open Linked Placement

inductive Place where
  | free
  | queue (i : Nat) (parity : Bool)
  /-- The chain the bus task detached. -/
  | hand
  | held (t : Task)
  deriving DecidableEq

/-- The `next` fields of the pool. -/
def Pool.next (p : Pool) (b : Buf) : Option Buf := (p.mem b).next

@[simp] theorem Pool.next_setNext (p : Pool) (b : Buf) (x : Option Buf) :
    (p.setNext b x).next = Function.update p.next b x := by
  funext c
  rcases eq_or_ne c b with rfl | hc
  · simp [Pool.next, Pool.setNext]
  · simp [Pool.next, Pool.setNext, hc]

@[simp] theorem Pool.next_fill (p : Pool) (b : Buf) (msg : Msg) :
    (p.fill b msg).next = p.next := by
  funext c
  rcases eq_or_ne c b with rfl | hc
  · simp [Pool.next, Pool.fill]
  · simp [Pool.next, Pool.fill, hc]

@[simp] theorem Pool.next_poolRecover (p : Pool) (b : Buf) :
    (poolRecover p b).next = Function.update p.next b p.free := by
  funext c
  rcases eq_or_ne c b with rfl | hc
  · simp [Pool.next, poolRecover]
  · simp [Pool.next, poolRecover, hc]

/-- The head of a list of a node. -/
def listHead (nodes : List Node) (i : Nat) (parity : Bool) : Option Buf :=
  nodes[i]?.bind (·.list parity)

theorem listHead_setList {nodes : List Node} {i : Nat} {node : Node} {parity : Bool}
    {head : Option Buf} (hnode : nodes[i]? = some node) (j : Nat) (q : Bool) :
    listHead (nodes.modify i (·.setList parity head)) j q =
      if j = i ∧ q = parity then head else listHead nodes j q := by
  rw [listHead, listHead, List.getElem?_modify]
  rcases eq_or_ne i j with rfl | hj
  · rcases eq_or_ne q parity with rfl | hq
    · simp [hnode, Node.setList]
    · simp [hnode, Node.setList, hq]
  · simp [hj, Ne.symm hj]

/-- The buffer the bus task is about to recover, and the chain behind it. -/
def Pc.hand : Pc → List Buf × Option Buf
  | .orphans next => ([], next)
  | .drain _ b => ([], b)
  | .release _ b next => ([b], next)
  | _ => ([], none)

def heldBy (flights : Task → Option Flight) (t : Task) : Option Buf :=
  (flights t).bind (·.stage.buf)

@[simp] theorem heldBy_update (flights : Task → Option Flight) (t : Task) (f : Option Flight) :
    heldBy (Function.update flights t f) =
      Function.update (heldBy flights) t (f.bind (·.stage.buf)) := by
  funext u
  rcases eq_or_ne u t with rfl | hu
  · simp [heldBy]
  · simp [heldBy, hu]

/-! ## The shape -/

/-- How `n` buffers are placed. -/
structure Heap (n : Nat) (next : Buf → Option Buf) (free : Option Buf) (avail : Nat)
    (head : Nat → Bool → Option Buf) (hand : List Buf × Option Buf) (held : Task → Option Buf)
    (placed : Place → List Buf) : Prop where
  places : Places (· < n) placed
  free : Chain next free (placed .free)
  avail : avail = (placed .free).length
  queue : ∀ i parity, Chain next (head i parity) (placed (.queue i parity))
  hand : ∃ l, placed .hand = hand.1 ++ l ∧ Chain next hand.2 l
  held : ∀ t, placed (.held t) = (held t).toList

/-- How the buffers of the master are placed. -/
def Stored (n : Nat) (s : Master) (placed : Place → List Buf) : Prop :=
  Heap n s.pool.next s.pool.free s.pool.avail (listHead s.nodes) s.pc.hand (heldBy s.flights)
    placed

section Moves

variable {n : Nat} {next : Buf → Option Buf} {free : Option Buf} {avail : Nat}
  {head : Nat → Bool → Option Buf} {hand : List Buf × Option Buf} {held : Task → Option Buf}
  {placed : Place → List Buf} {b : Buf} {t : Task}

/-- A chain away from `p` does not see a write to the first buffer at `p`. -/
theorem Heap.chain_update (h : Heap n next free avail head hand held placed) {p q : Place}
    {l : List Buf} {c : Option Buf} (hp : placed p = b :: l) (hpq : p ≠ q)
    (hchain : Chain next c (placed q)) (x : Option Buf) :
    Chain (Function.update next b x) c (placed q) :=
  hchain.update (h.places.not_mem (hp ▸ List.mem_cons_self) hpq) x

/-- `pool_grab` with a buffer left. -/
theorem Heap.grab (h : Heap n next free avail head hand held placed) (hn : n ≤ busPoolN)
    (hfree : free = some b) (ht : held t = none) :
    Heap n next (next b) ((avail + (2 ^ 16 - 1)) % 2 ^ 16) head hand
      (Function.update held t (some b)) (move placed .free (.held t) b) := by
  obtain ⟨l, hl, hchain⟩ := chain_some.mp (hfree ▸ h.free)
  have hne : Place.free ≠ .held t := by simp
  have havail := h.avail
  have hlength := h.places.length_le .free
  rw [hl, List.length_cons] at havail hlength
  constructor
  case places => exact h.places.move hl hne
  case free =>
    rw [move_from hne, hl]
    exact hchain
  case avail =>
    rw [move_from hne, hl, List.tail_cons, havail]
    simp only [busPoolN] at hn
    omega
  case queue =>
    intro i parity
    rw [move_other (by simp) (by simp)]
    exact h.queue i parity
  case hand =>
    rw [move_other (by simp) (by simp)]
    exact h.hand
  case held =>
    intro u
    rcases eq_or_ne u t with rfl | hu
    · rw [move_to, Function.update_self, h.held u, ht]
      rfl
    · rw [move_other (by simp) (by simpa using hu), Function.update_of_ne hu, h.held u]

/-- A buffer is pushed onto a list of a node. -/
theorem Heap.attach (h : Heap n next free avail head hand held placed) (ht : held t = some b)
    (i : Nat) (parity : Bool) {head' : Nat → Bool → Option Buf}
    (hhead : ∀ j q, head' j q = if j = i ∧ q = parity then some b else head j q) :
    Heap n (Function.update next b (head i parity)) free avail head' hand
      (Function.update held t none) (move placed (.held t) (.queue i parity) b) := by
  have hb : placed (.held t) = b :: [] := by rw [h.held t, ht]; rfl
  have hne : Place.held t ≠ .queue i parity := by simp
  constructor
  case places => exact h.places.move hb hne
  case free =>
    rw [move_other (by simp) (by simp)]
    exact h.chain_update hb (by simp) h.free _
  case avail =>
    rw [move_other (by simp) (by simp)]
    exact h.avail
  case queue =>
    intro j q
    rw [hhead]
    by_cases hj : j = i ∧ q = parity
    · obtain ⟨rfl, rfl⟩ := hj
      rw [if_pos ⟨rfl, rfl⟩, move_to]
      exact (h.queue j q).push (h.places.not_mem (hb ▸ List.mem_cons_self) hne)
    · rw [if_neg hj, move_other (by simp) (by simpa using hj)]
      exact h.chain_update hb (by simp) (h.queue j q) _
  case hand =>
    obtain ⟨l, hl, hchain⟩ := h.hand
    rw [move_other (by simp) (by simp)]
    refine ⟨l, hl, hchain.update ?_ _⟩
    have hnot := h.places.not_mem (hb ▸ List.mem_cons_self) (q := .hand) (by simp)
    rw [hl, List.mem_append, not_or] at hnot
    exact hnot.2
  case held =>
    intro u
    rcases eq_or_ne u t with rfl | hu
    · rw [move_from hne, hb, Function.update_self]
      rfl
    · rw [move_other (by simpa using hu) (by simp), Function.update_of_ne hu, h.held u]

/-- What `pool_recover` does wherever the buffer comes from. -/
theorem Heap.recover (h : Heap n next free avail head hand held placed) (hn : n ≤ busPoolN)
    {p : Place} {l : List Buf} (hp : placed p = b :: l) (hfree : p ≠ .free)
    (hqueue : ∀ i parity, p ≠ .queue i parity) {hand' : List Buf × Option Buf}
    {held' : Task → Option Buf}
    (hhand : ∃ l, move placed p .free b .hand = hand'.1 ++ l ∧
      Chain (Function.update next b free) hand'.2 l)
    (hheld : ∀ t, move placed p .free b (.held t) = (held' t).toList) :
    Heap n (Function.update next b free) (some b) ((avail + 1) % 2 ^ 16) head hand' held'
      (move placed p .free b) := by
  have hmoved := h.places.move hp hfree
  have hlength := hmoved.length_le .free
  rw [move_to, List.length_cons] at hlength
  constructor
  case places => exact hmoved
  case free =>
    rw [move_to]
    exact h.free.push (h.places.not_mem (hp ▸ List.mem_cons_self) hfree)
  case avail =>
    rw [move_to, List.length_cons, h.avail]
    simp only [busPoolN] at hn
    omega
  case queue =>
    intro i parity
    rw [move_other (Ne.symm (hqueue i parity)) (by simp)]
    exact h.chain_update hp (hqueue i parity) (h.queue i parity) _
  case hand => exact hhand
  case held => exact hheld

/-- `pool_recover` of a buffer a task holds. -/
theorem Heap.recover_held (h : Heap n next free avail head hand held placed) (hn : n ≤ busPoolN)
    (ht : held t = some b) :
    Heap n (Function.update next b free) (some b) ((avail + 1) % 2 ^ 16) head hand
      (Function.update held t none) (move placed (.held t) .free b) := by
  have hb : placed (.held t) = b :: [] := by rw [h.held t, ht]; rfl
  apply h.recover hn hb (by simp) (by simp)
  · obtain ⟨l, hl, hchain⟩ := h.hand
    rw [move_other (by simp) (by simp)]
    refine ⟨l, hl, hchain.update ?_ _⟩
    have hnot := h.places.not_mem (hb ▸ List.mem_cons_self) (q := .hand) (by simp)
    rw [hl, List.mem_append, not_or] at hnot
    exact hnot.2
  · intro u
    rcases eq_or_ne u t with rfl | hu
    · rw [move_from (by simp), hb, Function.update_self]
      rfl
    · rw [move_other (by simpa using hu) (by simp), Function.update_of_ne hu, h.held u]

/-- `pool_recover` of the first buffer the bus task has in hand. -/
theorem Heap.recover_hand (h : Heap n next free avail head hand held placed) (hn : n ≤ busPoolN)
    {l : List Buf} {c : Option Buf} (hl : placed .hand = b :: l) (hchain : Chain next c l) :
    Heap n (Function.update next b free) (some b) ((avail + 1) % 2 ^ 16) head ([], c) held
      (move placed .hand .free b) := by
  apply h.recover hn hl (by simp) (by simp)
  · rw [move_from (by simp), hl]
    refine ⟨l, rfl, hchain.update ?_ _⟩
    have hnodup := h.places.nodup .hand
    rw [hl] at hnodup
    exact (List.nodup_cons.mp hnodup).1
  · intro u
    rw [move_other (by simp) (by simp), h.held u]

/-- Lists of nodes are detached: they are empty now, and the bus task has them in hand. -/
theorem Heap.detach (h : Heap n next free avail head ([], none) held placed)
    {S : Place → Prop} [DecidablePred S] (hS : ∀ p, S p → ∃ i parity, p = .queue i parity)
    {l : List Buf} (hnodup : l.Nodup) (hl : ∀ a, a ∈ l ↔ ∃ p, S p ∧ a ∈ placed p)
    {next' : Buf → Option Buf} (hnext : ∀ a ∉ l, next' a = next a) {c : Option Buf}
    (hchain : Chain next' c l) (head' : Nat → Bool → Option Buf)
    (hhead : ∀ i parity, head' i parity = if S (.queue i parity) then none else head i parity) :
    Heap n next' free avail head' ([], c) held (gather placed S .hand l) := by
  have hempty : placed .hand = [] := by
    obtain ⟨l, hl, hchain⟩ := h.hand
    rw [hl, chain_none.mp hchain]
    rfl
  have hfree : ¬S .free := fun hp => by
    obtain ⟨i, parity, hp⟩ := hS _ hp
    cases hp
  have hheld (t : Task) : ¬S (.held t) := fun hp => by
    obtain ⟨i, parity, hp⟩ := hS _ hp
    cases hp
  -- the links of the buffers elsewhere are as before
  have hkeep {p : Place} (hp : ¬S p) {c : Option Buf} (hc : Chain next c (placed p)) :
      Chain next' c (placed p) := by
    refine hc.congr fun a ha => hnext a fun hal => ?_
    obtain ⟨q, hq, haq⟩ := (hl a).mp hal
    exact hp (h.places.unique q p a haq ha ▸ hq)
  constructor
  case places => exact h.places.gather hempty hnodup hl
  case free =>
    rw [gather_other (by simp) hfree]
    exact hkeep hfree h.free
  case avail =>
    rw [gather_other (by simp) hfree]
    exact h.avail
  case queue =>
    intro i parity
    rw [hhead]
    by_cases hp : S (.queue i parity)
    · rw [if_pos hp, gather_from (by simp) hp]
      rfl
    · rw [if_neg hp, gather_other (by simp) hp]
      exact hkeep hp (h.queue i parity)
  case hand =>
    rw [gather_to]
    exact ⟨l, rfl, hchain⟩
  case held =>
    intro t
    rw [gather_other (by simp) (hheld t), h.held t]

end Moves

/-! ## Detaching every list -/

/-- Two pools that differ in their `next` fields only. -/
structure Relinked (p p' : Pool) : Prop where
  free : p'.free = p.free
  avail : p'.avail = p.avail
  msg : ∀ b, (p'.mem b).msg = (p.mem b).msg
  payload : ∀ b, (p'.mem b).payload = (p.mem b).payload

theorem Relinked.setNext {p p' : Pool} (h : Relinked p p') (b : Buf) (x : Option Buf) :
    Relinked p (p'.setNext b x) := by
  refine ⟨h.free, h.avail, fun c => ?_, fun c => ?_⟩
  · rw [← h.msg c]
    rcases eq_or_ne c b with rfl | hc
    · simp [Pool.setNext]
    · simp [Pool.setNext, hc]
  · rw [← h.payload c]
    rcases eq_or_ne c b with rfl | hc
    · simp [Pool.setNext]
    · simp [Pool.setNext, hc]

/-- The orphans gathered so far are `os`; nothing else was relinked. -/
structure Gathered (p : Pool) (acc : Option Buf × Pool) (os : List Buf) : Prop where
  relinked : Relinked p acc.2
  chain : Chain acc.2.next acc.1 os
  nodup : os.Nodup
  others : ∀ b ∉ os, acc.2.next b = p.next b

theorem gathered_detachList {p : Pool} {acc : Option Buf × Pool} {os l : List Buf}
    {head : Option Buf} {fuel : Nat} (h : Gathered p acc os) (hl : Chain p.next head l)
    (hfuel : l.length ≤ fuel) (hnodup : l.Nodup) (hdisj : ∀ b ∈ l, b ∉ os) :
    Gathered p (detachList fuel head acc) (l.reverse ++ os) := by
  induction l generalizing head acc os fuel with
  | nil =>
      rw [chain_nil] at hl
      subst hl
      cases fuel <;> exact h
  | cons b l ih =>
      obtain ⟨fuel, rfl⟩ : ∃ k, fuel = k + 1 := ⟨fuel - 1, by simp at hfuel; omega⟩
      obtain ⟨rfl, hl⟩ := hl
      rw [List.nodup_cons] at hnodup
      have hb := hdisj b List.mem_cons_self
      have hstep : Gathered p (some b, acc.2.setNext b acc.1) (b :: os) := by
        refine ⟨h.relinked.setNext b acc.1, ?_, List.nodup_cons.mpr ⟨hb, h.nodup⟩, fun c hc => ?_⟩
        · rw [Pool.next_setNext]
          exact h.chain.push hb
        · rw [List.mem_cons, not_or] at hc
          rw [Pool.next_setNext, Function.update_of_ne hc.1, h.others c hc.2]
      have hnext : (acc.2.mem b).next = p.next b := h.others b hb
      rw [detachList, hnext, List.reverse_cons, List.append_assoc]
      apply ih hstep hl (by simpa using hfuel) hnodup.2
      intro c hc
      rw [List.mem_cons, not_or]
      exact ⟨fun hcb => hnodup.1 (hcb ▸ hc), hdisj c (List.mem_cons_of_mem b hc)⟩

/-- Lists side by side: each without repetition, no two with a buffer in common. -/
structure Apart (q : Nat → Bool → List Buf) : Prop where
  nodup : ∀ i parity, (q i parity).Nodup
  disjoint : ∀ i parity j r b, b ∈ q i parity → b ∈ q j r → i = j ∧ parity = r
  length_le : ∀ i parity, (q i parity).length ≤ busPoolN

theorem gathered_detachAll {p : Pool} (nodes : List Node) (acc : Option Buf × Pool)
    {os : List Buf} {q : Nat → Bool → List Buf} (h : Gathered p acc os)
    (hq : ∀ i parity, Chain p.next (listHead nodes i parity) (q i parity)) (hapart : Apart q)
    (hdisj : ∀ i parity, ∀ b ∈ q i parity, b ∉ os) :
    ∃ os', Gathered p (nodes.foldl (fun acc node => detachList busPoolN (node.list true)
        (detachList busPoolN (node.list false) acc)) acc) os' ∧
      ∀ b, b ∈ os' ↔ b ∈ os ∨ ∃ i parity, b ∈ q i parity := by
  induction nodes generalizing acc os q with
  | nil =>
      refine ⟨os, h, fun b => ⟨Or.inl, ?_⟩⟩
      rintro (hb | ⟨i, parity, hb⟩)
      · exact hb
      · rw [chain_none.mp (hq i parity)] at hb
        cases hb
  | cons node nodes ih =>
      -- both lists of the first node, then those of the others
      have h₁ := gathered_detachList h (hq 0 false) (hapart.length_le 0 false)
        (hapart.nodup 0 false) (hdisj 0 false)
      have h₂ := gathered_detachList h₁ (hq 0 true) (hapart.length_le 0 true)
        (hapart.nodup 0 true) (fun b hb hos => by
          rw [List.mem_append, List.mem_reverse] at hos
          rcases hos with hb' | hos
          · exact absurd (hapart.disjoint 0 true 0 false b hb hb').2 (by decide)
          · exact hdisj 0 true b hb hos)
      have hmem (b : Buf) : b ∈ (q 0 true).reverse ++ ((q 0 false).reverse ++ os) ↔
          b ∈ os ∨ ∃ parity, b ∈ q 0 parity := by
        simp only [List.mem_append, List.mem_reverse, Bool.exists_bool]
        grind
      obtain ⟨os', hos', hiff⟩ := ih _ (q := fun i => q (i + 1)) h₂ (fun i => hq (i + 1))
        ⟨fun i => hapart.nodup (i + 1),
          fun i parity j r b hb hb' => by
            have := hapart.disjoint (i + 1) parity (j + 1) r b hb hb'
            exact ⟨by omega, this.2⟩,
          fun i => hapart.length_le (i + 1)⟩
        (fun i parity b hb hos => by
          rcases (hmem b).mp hos with hos | ⟨r, hb'⟩
          · exact hdisj (i + 1) parity b hb hos
          · exact absurd (hapart.disjoint (i + 1) parity 0 r b hb hb').1 (by omega))
      refine ⟨os', hos', fun b => ?_⟩
      rw [hiff b, hmem b]
      constructor
      · rintro ((hb | ⟨parity, hb⟩) | ⟨i, parity, hb⟩)
        · exact Or.inl hb
        · exact Or.inr ⟨0, parity, hb⟩
        · exact Or.inr ⟨i + 1, parity, hb⟩
      · rintro (hb | ⟨i, parity, hb⟩)
        · exact Or.inl (Or.inl hb)
        · cases i with
          | zero => exact Or.inl (Or.inr ⟨parity, hb⟩)
          | succ i => exact Or.inr ⟨i, parity, hb⟩

/-! ## The pool at the start -/

/-- Everything is on the free list. -/
def unused (n : Nat) : Place → List Buf
  | .free => (List.range n).reverse
  | _ => []

theorem carved_spec (n : Nat) (hn : n ≤ busPoolN) :
    let p := (List.range n).foldl poolRecover {}
    Chain p.next p.free (List.range n).reverse ∧ p.avail = n ∧ ∀ b, (p.mem b).msg = none := by
  induction n with
  | zero => exact ⟨rfl, rfl, fun _ => rfl⟩
  | succ n ih =>
      obtain ⟨hchain, havail, hmsg⟩ := ih (by omega)
      rw [List.range_succ, List.foldl_append, List.reverse_append]
      refine ⟨?_, ?_, fun b => ?_⟩
      · rw [List.foldl_cons, List.foldl_nil, Pool.next_poolRecover]
        exact hchain.push (by simp)
      · simp only [List.foldl_cons, List.foldl_nil, poolRecover]
        rw [havail]
        simp only [busPoolN] at hn
        omega
      · rcases eq_or_ne b n with rfl | hb
        · simp [poolRecover]
        · simpa [poolRecover, hb] using hmsg b

theorem busPoolSize_le (room : Nat) : busPoolSize room ≤ busPoolN := Nat.min_le_left ..

@[simp] theorem listHead_build (roster : List Slave) (i : Nat) (parity : Bool) :
    listHead (busNodetableBuild roster) i parity = none := by
  rw [listHead]
  cases hnode : (busNodetableBuild roster)[i]? with
  | none => rfl
  | some node =>
      obtain ⟨s, -, rfl⟩ := mem_busNodetableBuild (List.mem_of_getElem? hnode)
      rfl

theorem boot_stored (room : Nat) (cfg : Option RosterCfg) :
    Stored (busPoolSize room) (boot room cfg) (unused (busPoolSize room)) := by
  obtain ⟨hchain, havail, -⟩ := carved_spec (busPoolSize room) (busPoolSize_le room)
  have hpool : (boot room cfg).pool = busPoolInit room := by
    cases cfg <;> rfl
  have hflights : (boot room cfg).flights = fun _ => none := by
    cases cfg <;> rfl
  have hpc : (boot room cfg).pc = .top := by
    cases cfg <;> rfl
  rw [Stored, hpool, hflights, hpc]
  constructor
  case places =>
    constructor
    · intro b
      constructor
      · intro hb
        exact ⟨.free, by simpa [unused] using hb⟩
      · rintro ⟨p, hp⟩
        cases p <;> simp [unused] at hp
        exact hp
    · intro p q b hp hq
      cases p <;> cases q <;> simp [unused] at hp hq
      rfl
    · intro p
      cases p <;> simp [unused, List.nodup_range]
  case free => exact hchain
  case avail => exact havail.trans (by simp [unused])
  case queue =>
    intro i parity
    exact listHead_build ..
  case hand => exact ⟨[], rfl, rfl⟩
  case held =>
    intro t
    rfl

end SlowBus.Arbiter
