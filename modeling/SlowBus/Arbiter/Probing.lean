import Mathlib.Data.Fintype.Card
import SlowBus.Arbiter.Liveness
import SlowBus.Lib.RoundRobin

/-!
# Probing dead nodes

The sweep skips dead nodes. At the end of each interval of `g_dead_slowpoll_div` cycles the bus
task polls the next dead node around the table, from a cursor behind the node it polled last.
While the same nodes are dead, the probes go around them.
-/

namespace SlowBus.Arbiter

open RoundRobin (Circle turns)
open Runs (Along run)

/-- The places of the dead nodes in the table. -/
def Master.deadSet (s : Master) : Finset Nat :=
  (Finset.range s.nodes.length).filter fun i => (s.nodes[i]?.any (·.dead)) = true

/-- A probe interval that ended: the cycle it ended in, the divisor it was measured by, and the
node that was polled. -/
structure Interval where
  cycle : Nat
  div : Nat
  probed : Option Nat
  deriving DecidableEq, Repr

/-- The action takes the bus task over the end of a probe interval. -/
def Master.IntervalOver (s : Master) (a : Action) : Prop :=
  a = .bus ∧ s.pc = .probe ∧ s.deadSlowpollDiv ≠ 0 ∧
    s.deadSlowpollDiv ≤ (s.deadTick + 1) % 2 ^ 32

instance (s : Master) (a : Action) : Decidable (s.IntervalOver a) :=
  inferInstanceAs (Decidable (_ ∧ _ ∧ _ ∧ _))

/-- The node whose POLL the action puts on the wire. -/
def Master.polled (s : Master) (a : Action) : Option Nat :=
  ((step s a).hist.polls[s.hist.polls.length]?).map Poll.node

/-- The probe intervals that end during a run. -/
def intervals : Master → List Action → List Interval
  | _, [] => []
  | s, a :: as =>
      if s.IntervalOver a then
        ⟨s.hist.cycle, s.deadSlowpollDiv, s.polled a⟩ :: intervals (step s a) as
      else intervals (step s a) as

section Probe

variable {s : Master} {a : Action} {i : Nat} {as : List Action}

theorem mem_deadSet : i ∈ s.deadSet ↔ s.nodes[i]?.any (·.dead) = true := by
  rw [Master.deadSet, Finset.mem_filter, Finset.mem_range]
  refine and_iff_right_of_imp fun h => ?_
  by_contra hlen
  rw [List.getElem?_eq_none (not_lt.mp hlen)] at h
  cases h

/-! ## The table -/

theorem length_table (s : Master) : s.life.table.length = s.nodes.length := List.length_map ..

/-- A rebuilt table has no dead node. -/
theorem deadSet_of_rebuilt {roster : List Slave} (h : s.life.table = busNodetableBuild roster) :
    s.deadSet = ∅ := by
  refine Finset.eq_empty_of_forall_notMem fun i hi => ?_
  rw [mem_deadSet, Option.any_eq_true] at hi
  obtain ⟨node, hnode, hdead⟩ := hi
  have hmem : node.life ∈ busNodetableBuild roster := by
    rw [← h]
    exact List.mem_map_of_mem (List.mem_of_getElem? hnode)
  obtain ⟨e, -, he⟩ := mem_busNodetableBuild hmem
  have hlife : node.life.dead = false := by
    rw [he]
    rfl
  rw [Node.life, hdead] at hlife
  cases hlife

/-- A table that keeps its dead nodes was not rebuilt. -/
theorem nodes_length_step (hsame : (step s a).deadSet = s.deadSet) (hdead : s.deadSet.Nonempty) :
    (step s a).nodes.length = s.nodes.length := by
  have hlife := lifeStep_step s a
  have hrebuilt : ∀ roster, (step s a).life.table = busNodetableBuild roster →
      (step s a).deadSet = ∅ := fun _ => deadSet_of_rebuilt
  rw [← length_table, ← length_table]
  generalize (step s a).life = l at hlife hrebuilt ⊢
  cases hlife with
  | rebuild =>
      rw [hrebuilt _ rfl] at hsame
      exact absurd hdead (hsame ▸ Finset.not_nonempty_empty)
  | swept => exact List.length_modify ..
  | missed => exact List.length_modify ..
  | revived => exact List.length_modify ..
  | _ => rfl

/-! ## The cursor -/

/-- The search for the next dead node, around a table of `n` places. -/
def nextFrom {n : Nat} (dead : Finset Nat) (cursor : Nat) : Option (Fin n) × Nat :=
  match ((List.finRange n).rotate cursor).find? fun i => decide (i.val ∈ dead) with
  | some i => (some i, (i.val + 1) % n)
  | none => (none, cursor)

theorem nextFrom_circle (n : Nat) [NeZero n] (dead : Finset Nat) :
    Circle (nextFrom dead) (fun cursor => (List.finRange n).rotate cursor)
      fun i => decide (i.val ∈ dead) where
  turn := by
    intro cursor as i bs hview has hi
    have hfind : ((List.finRange n).rotate cursor).find? (fun i => decide (i.val ∈ dead)) =
        some i := by
      refine List.find?_eq_some_iff_append.mpr ⟨hi, as, bs, hview, fun a ha => ?_⟩
      rw [has a ha]
      rfl
    have hmod := List.rotate_mod (List.finRange n) (i.val + 1)
    rw [List.length_finRange] at hmod
    rw [nextFrom, hfind]
    exact ⟨rfl, hmod.trans (RoundRobin.finRange_rotate_behind hview)⟩

theorem nextDead_eq {n : Nat} [NeZero n] (hlen : s.nodes.length = n) :
    s.nextDead = (nextFrom (n := n) s.deadSet s.deadCursor).1.map Fin.val := by
  have hfirst : (nextFrom (n := n) s.deadSet s.deadCursor).1 =
      ((List.finRange n).rotate s.deadCursor).find? fun i => decide (i.val ∈ s.deadSet) := by
    unfold nextFrom
    generalize ((List.finRange n).rotate s.deadCursor).find? _ = o
    cases o <;> rfl
  rw [hfirst, RoundRobin.finRange_rotate, Master.nextDead, hlen, List.find?_map, List.find?_map,
    Option.map_map]
  refine congrArg₂ _ ?_ (congrArg₂ _ ?_ rfl)
  · rfl
  · funext k
    refine Bool.eq_iff_iff.mpr ?_
    simp [mem_deadSet]

theorem nextFrom_snd {n : Nat} (dead : Finset Nat) (cursor : Nat) :
    (nextFrom (n := n) dead cursor).2 =
      (nextFrom (n := n) dead cursor).1.elim cursor fun i => (i.val + 1) % n := by
  unfold nextFrom
  generalize ((List.finRange n).rotate cursor).find? _ = o
  cases o <;> rfl

theorem mem_of_nextDead (h : s.nextDead = some i) :
    i ∈ s.deadSet ∧ ∃ node, s.nodes[i]? = some node := by
  have hdead := List.find?_some h
  obtain ⟨node, hnode, -⟩ := (Option.any_eq_true _ _).mp hdead
  exact ⟨mem_deadSet.mpr hdead, node, hnode⟩

theorem step_probe (hpc : s.pc = .probe) : step s .bus = s.probeStep := by
  rw [step, Master.busStep, hpc]

/-- What the end of an interval does: it polls the next dead node, if there is one. -/
theorem step_over (h : s.IntervalOver a) :
    (s.nextDead = none ∧ step s a = { s with deadTick := 0, pc := .count }) ∨
    ∃ i node, s.nextDead = some i ∧ step s a = { s.pollNode i node with
      deadTick := 0
      deadCursor := (i + 1) % s.nodes.length
      pc := .probeListen i false } := by
  obtain ⟨rfl, hpc, hdiv, htick⟩ := h
  rw [step_probe hpc, Master.probeStep, if_neg hdiv, if_neg (not_lt.mpr htick)]
  cases hnext : s.nextDead with
  | none => exact .inl ⟨rfl, rfl⟩
  | some i =>
      obtain ⟨-, node, hnode⟩ := mem_of_nextDead hnext
      refine .inr ⟨i, node, rfl, ?_⟩
      dsimp only
      rw [hnode]

/-- Within an interval the probe is left out. -/
theorem step_within (hpc : s.pc = .probe) (h : ¬s.IntervalOver .bus) :
    ∃ tick, step s .bus = { s with deadTick := tick, pc := .count } := by
  rw [step_probe hpc, Master.probeStep]
  split
  · exact ⟨s.deadTick, rfl⟩
  next hdiv =>
    split
    · exact ⟨_, rfl⟩
    next htick => exact absurd ⟨rfl, hpc, hdiv, not_lt.mp htick⟩ h

theorem polled_over (h : s.IntervalOver a) : s.polled a = s.nextDead := by
  unfold Master.polled
  rcases step_over h with ⟨hnext, hstep⟩ | ⟨i, node, hnext, hstep⟩
  · rw [hstep, hnext, List.getElem?_eq_none le_rfl]
    rfl
  · rw [hstep, hnext, Master.pollNode, List.getElem?_concat_length]
    rfl

theorem deadCursor_over (h : s.IntervalOver a) :
    (step s a).deadCursor = s.nextDead.elim s.deadCursor fun i => (i + 1) % s.nodes.length := by
  rcases step_over h with ⟨hnext, hstep⟩ | ⟨i, node, hnext, hstep⟩
  · rw [hstep, hnext]
    rfl
  · rw [hstep, hnext]
    rfl

/-- The cursor moves at the end of intervals only. -/
theorem deadCursor_step (h : ¬s.IntervalOver a) : (step s a).deadCursor = s.deadCursor := by
  by_cases hbus : a = .bus
  · subst hbus
    by_cases hpc : s.pc = .probe
    · obtain ⟨tick, hstep⟩ := step_within hpc h
      rw [hstep]
    · have hstep := busStep_cases s
      change s.busStep.deadCursor = s.deadCursor
      generalize s.busStep = s' at hstep ⊢
      cases hstep with
      | probe i node hprobe => exact absurd hprobe hpc
      | hostAdd cmd => exact congrArg Own.deadCursor (own_hostAddStep s cmd)
      | hostSend => exact congrArg Own.deadCursor (own_busMsgSend s .bus)
      | _ => rfl
  by_cases halarm : a = .alarm
  · subst halarm
    have hstep := waitOver_cases s
    generalize step s .alarm = s' at hstep ⊢
    cases hstep <;> rfl
  exact congrArg Own.deadCursor (own_step s hbus halarm)

/-! ## Fairness -/

/-- While no step changes the dead nodes, the probes are the turns around the table. -/
theorem intervals_turns {n : Nat} [NeZero n] {dead : Finset Nat} (hdead : dead.Nonempty)
    (hsame : s.deadSet = dead) (hlen : s.nodes.length = n)
    (halong : Along step (fun s a => (step s a).deadSet = s.deadSet) s as) :
    (intervals s as).map Interval.probed =
      (turns (nextFrom (n := n) dead) (intervals s as).length s.deadCursor).map
        (Option.map Fin.val) := by
  induction as generalizing s with
  | nil => rfl
  | cons a as ih =>
      obtain ⟨hstep, halong⟩ := halong
      have hlen' : (step s a).nodes.length = n :=
        (nodes_length_step hstep (hsame ▸ hdead)).trans hlen
      have hrest := ih (hstep.trans hsame) hlen' halong
      rw [intervals]
      split
      next hover =>
        have hnext := nextDead_eq hlen
        have hcursor : (step s a).deadCursor = (nextFrom (n := n) dead s.deadCursor).2 := by
          rw [deadCursor_over hover, nextFrom_snd, hnext, hsame, hlen, Option.elim_map]
          rfl
        rw [List.map_cons, List.length_cons, turns, List.map_cons, hrest, hcursor]
        congr 1
        exact (polled_over hover).trans (hsame ▸ hnext)
      next hover =>
        rw [hrest, deadCursor_step hover]

theorem card_dead {n : Nat} [NeZero n] {dead : Finset Nat} (hinside : ∀ i ∈ dead, i < n)
    (cursor : Nat) :
    (((List.finRange n).rotate cursor).filter fun i => decide (i.val ∈ dead)).length =
      dead.card := by
  have hnodup : ((((List.finRange n).rotate cursor).filter
      fun i => decide (i.val ∈ dead)).map Fin.val).Nodup :=
    ((List.nodup_rotate.mpr (List.nodup_finRange n)).filter _).map Fin.val_injective
  rw [← List.length_map Fin.val, ← List.toFinset_card_of_nodup hnodup]
  congr 1
  ext i
  simp only [List.mem_toFinset, List.mem_map, List.mem_filter, List.mem_rotate,
    List.mem_finRange, true_and, decide_eq_true_eq]
  constructor
  · rintro ⟨j, hj, rfl⟩
    exact hj
  · intro hi
    exact ⟨⟨i, hinside i hi⟩, hi, rfl⟩

/-- Every run of as many consecutive intervals as there are dead nodes polls each once. -/
theorem intervals_window {dead : Finset Nat} (hdead : dead.Nonempty) (hsame : s.deadSet = dead)
    (halong : Along step (fun s a => (step s a).deadSet = s.deadSet) s as)
    {before window after : List Interval} (hsplit : intervals s as = before ++ (window ++ after))
    (hcard : window.length = dead.card) : ∃ taken : List Nat,
      window.map Interval.probed = taken.map some ∧ taken.Nodup ∧ ∀ i, i ∈ taken ↔ i ∈ dead := by
  have hinside : ∀ i ∈ dead, i < s.nodes.length := by
    intro i hi
    rw [← hsame, Master.deadSet, Finset.mem_filter] at hi
    exact Finset.mem_range.mp hi.1
  obtain ⟨i₀, hi₀⟩ := hdead
  have hzero : s.nodes.length ≠ 0 := Nat.ne_of_gt (Nat.zero_lt_of_lt (hinside i₀ hi₀))
  generalize hlen : s.nodes.length = n at hinside hzero
  have : NeZero n := ⟨hzero⟩
  have hturns := intervals_turns ⟨i₀, hi₀⟩ hsame hlen halong
  rw [hsplit, List.map_append, List.map_append] at hturns
  obtain ⟨front, rest, hturns, -, hrest⟩ := List.append_eq_map_iff.mp hturns
  obtain ⟨middle, back, rfl, hmiddle, -⟩ := List.map_eq_append_iff.mp hrest
  obtain ⟨cursor, hmine⟩ := RoundRobin.turns_window hturns
  obtain ⟨taken, htaken, hnodup, hmem⟩ := (nextFrom_circle n dead).round
    (List.nodup_rotate.mpr (List.nodup_finRange n) : ((List.finRange n).rotate cursor).Nodup)
  have hlength : middle.length = dead.card := by
    rw [← hcard, ← List.length_map Interval.probed, ← hmiddle, List.length_map]
  rw [card_dead hinside, ← hlength, ← hmine] at htaken
  refine ⟨taken.map Fin.val, ?_, hnodup.map Fin.val_injective, fun i => ?_⟩
  · rw [← hmiddle, htaken, List.map_map, List.map_map]
    rfl
  · rw [List.mem_map]
    constructor
    · rintro ⟨j, hj, rfl⟩
      exact of_decide_eq_true ((hmem j).mp hj).2
    · intro hi
      exact ⟨⟨i, hinside i hi⟩, (hmem _).mpr
        ⟨List.mem_rotate.mpr (List.mem_finRange _), decide_eq_true hi⟩, rfl⟩

/-! ## The rate -/

/-- The cycle has begun and its probe is still to come. -/
def Pc.beforeProbe : Pc → Bool
  | .pass _ | .drain _ _ | .release _ _ _ | .sweep _ | .listen _ _ | .probe => true
  | _ => false

/-- The tick counts no more than the cycles since `start`, the running one included once its
probe is over. -/
def Own.Paced (start : Nat) (o : Own) : Prop :=
  start + o.deadTick + o.pc.beforeProbe.toNat ≤ o.cycle

theorem paced_bus {start : Nat} (h : s.own.Paced start) : (step s .bus).own.Paced start := by
  have hpaced : start + s.deadTick + s.pc.beforeProbe.toNat ≤ s.hist.cycle := h
  by_cases hprobe : s.pc = .probe
  · rw [hprobe] at hpaced
    -- the counter wraps, which only makes it smaller
    have hwrap : (s.deadTick + 1) % 2 ^ 32 ≤ s.deadTick + 1 := Nat.mod_le ..
    rw [step_probe hprobe, Master.probeStep]
    unfold Own.Paced
    split
    · exact (Nat.le_add_right ..).trans hpaced
    split
    · exact (Nat.add_le_add_left hwrap start).trans hpaced
    · have hover : start ≤ s.hist.cycle := by omega
      split
      · exact hover
      · split
        · exact hover
        · exact hover
  · have hstep := busStep_cases s
    change s.busStep.own.Paced start
    generalize s.busStep = s' at hstep ⊢
    cases hstep with
    -- the cycle counts up, and the probe of the cycle is still to come
    | swap hpc =>
        rw [hpc] at hpaced
        exact Nat.succ_le_succ hpaced
    | probe i node hpc => exact absurd hpc hprobe
    | probeNone tick hpc => exact absurd hpc hprobe
    | hostAdd cmd hpc =>
        rw [own_hostAddStep]
        rw [hpc] at hpaced
        exact hpaced
    | hostSend =>
        rw [own_busMsgSend]
        exact h
    | orphan b hpc =>
        have hcycle : (s.unsent b .rebuilt).hist.cycle = s.hist.cycle :=
          congrArg Own.cycle (own_unsent s b .rebuilt)
        rw [hpc, ← hcycle] at hpaced
        exact hpaced
    | drainDead i b node hpc =>
        have hcycle : (s.unsent b (.dead node.addr)).hist.cycle = s.hist.cycle :=
          congrArg Own.cycle (own_unsent s b (.dead node.addr))
        rw [hpc, ← hcycle] at hpaced
        exact hpaced
    | wait => exact h
    | ignore => exact h
    | drainGone => exact h
    | _ =>
        rw [‹s.pc = _›] at hpaced
        exact hpaced

theorem paced_step {start : Nat} (h : s.own.Paced start) (a : Action) :
    (step s a).own.Paced start := by
  by_cases hbus : a = .bus
  · subst hbus
    exact paced_bus h
  by_cases halarm : a = .alarm
  · subst halarm
    have hpaced : start + s.deadTick + s.pc.beforeProbe.toNat ≤ s.hist.cycle := h
    have hstep := waitOver_cases s
    generalize step s .alarm = s' at hstep ⊢
    cases hstep with
    | none => exact h
    | _ =>
        rw [‹s.pc = _›] at hpaced
        exact hpaced
  rwa [own_step s hbus halarm]

/-- After the end of an interval the tick counts from the cycle it was in. -/
theorem paced_over (h : s.IntervalOver a) : (step s a).own.Paced s.hist.cycle := by
  unfold Own.Paced
  rcases step_over h with ⟨-, hstep⟩ | ⟨i, node, -, hstep⟩
  · rw [hstep]
    exact le_rfl
  · rw [hstep]
    exact le_rfl

/-- The intervals of a run, after one that ended in cycle `start`. -/
theorem intervals_paced {start div : Nat} {probed : Option Nat} (h : s.own.Paced start) :
    (⟨start, div, probed⟩ :: intervals s as).IsChain
      fun iv iv' => iv.cycle + iv'.div ≤ iv'.cycle := by
  induction as generalizing s start div probed with
  | nil => exact .singleton _
  | cons a as ih =>
      rw [intervals]
      split
      next hover =>
        refine List.isChain_cons_cons.mpr ⟨?_, ih (paced_over hover)⟩
        obtain ⟨-, hpc, -, htick⟩ := hover
        have hpaced : start + s.deadTick + s.pc.beforeProbe.toNat ≤ s.hist.cycle := h
        rw [hpc] at hpaced
        have hwrap : (s.deadTick + 1) % 2 ^ 32 ≤ s.deadTick + 1 := Nat.mod_le ..
        exact (Nat.add_le_add_left (htick.trans hwrap) start).trans hpaced
      next hover => exact ih (paced_step h a)

theorem isChain_intervals (s : Master) (as : List Action) :
    (intervals s as).IsChain fun iv iv' => iv.cycle + iv'.div ≤ iv'.cycle := by
  induction as generalizing s with
  | nil => exact .nil
  | cons a as ih =>
      rw [intervals]
      split
      next hover => exact intervals_paced (paced_over hover)
      next hover => exact ih (step s a)

/-- What is polled where the probe is due is a dead node. -/
theorem mem_of_polled (hpc : s.pc = .probe) (h : s.polled a = some i) : i ∈ s.deadSet := by
  have hquiet : (step s a).hist.polls ≠ s.hist.polls := by
    intro hsame
    rw [Master.polled, hsame, List.getElem?_eq_none le_rfl] at h
    cases h
  by_cases hover : s.IntervalOver a
  · rw [polled_over hover] at h
    exact (mem_of_nextDead h).1
  by_cases hbus : a = .bus
  · subst hbus
    obtain ⟨tick, hstep⟩ := step_within hpc hover
    exact absurd (hstep ▸ rfl) hquiet
  by_cases halarm : a = .alarm
  · subst halarm
    refine absurd ?_ hquiet
    have hstep := waitOver_cases s
    generalize step s .alarm = s' at hstep ⊢
    cases hstep <;> rfl
  exact absurd (congrArg Own.polls (own_step s hbus halarm)) hquiet

end Probe

/-- While no step changes the dead nodes of the table, consecutive probe intervals poll each of
them in turn. Two intervals end at least as many cycles apart as the divisor says, and a probe
goes to a dead node. -/
theorem dead_probing_fair :
    (∀ (s : Master) (as : List Action), s.deadSet.Nonempty →
      Along step (fun s a => (step s a).deadSet = s.deadSet) s as →
      ∀ before window after : List Interval, intervals s as = before ++ (window ++ after) →
      window.length = s.deadSet.card → ∃ taken : List Nat,
        window.map Interval.probed = taken.map some ∧ taken.Nodup ∧
        ∀ i, i ∈ taken ↔ i ∈ s.deadSet) ∧
    (∀ (s : Master) (as : List Action),
      (intervals s as).IsChain fun iv iv' => iv.cycle + iv'.div ≤ iv'.cycle) ∧
    ∀ (s : Master) (a : Action) (i : Nat), s.pc = .probe → s.polled a = some i → i ∈ s.deadSet := by
  refine ⟨fun s as hdead halong before window after hsplit hcard =>
    intervals_window hdead rfl halong hsplit hcard, isChain_intervals,
    fun s a i hpc hpolled => mem_of_polled hpc hpolled⟩

/-- A table of three nodes, two of them dead, and a cursor behind its end. -/
def twoDead : Master :=
  { boot 4 (some { slaves := [(1, true), (2, true), (3, true)] }) with
    nodes := [{ addr := 1, enabled := true, dead := true }, { addr := 2, enabled := true },
      { addr := 3, enabled := true, dead := true }]
    deadSlowpollDiv := 1
    deadCursor := 7
    pc := .probe }

/-- A probe, the cycle after it, and the next probe. -/
def twoProbes : List Action :=
  [.bus, .alarm] ++ List.replicate 14 .bus ++ [.alarm] ++ List.replicate 3 .bus

theorem dead_probing_fair_two : ∃ taken : List Nat,
    (intervals twoDead twoProbes).map Interval.probed = taken.map some ∧ taken.Nodup ∧
      ∀ i, i ∈ taken ↔ i ∈ twoDead.deadSet := by
  have halong : Along step (fun s a => (step s a).deadSet = s.deadSet) twoDead twoProbes := by
    decide +kernel
  exact dead_probing_fair.1 twoDead twoProbes ⟨0, by decide +kernel⟩ halong [] _ []
    (List.append_nil _).symm (by decide +kernel)

end SlowBus.Arbiter
