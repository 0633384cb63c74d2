import SlowBus.Modes.Enter
import SlowBus.Modes.Steps

/-!
# A conversion requested and got

A bench request only sets a flag. The main loop finds the flag, reads the selection, runs
the conversion and clears the flag, and register accesses come between any two of these.
The answer is the one asked for if the selection is still the pad of the request when it is
read, and no request comes between then and the clearing.
-/

namespace SlowBus.Modes

open Bus (Byte)
open Runs (run Along)

/-! ## The main loop between interrupts -/

/-- Where the main loop is in `bench_tick`. -/
inductive TickPhase where
  | idle
  /-- The flags have been read; the selection is next. -/
  | entered
  | converting (idx : Fin 11)
  /-- The result is stored; the flag is still to be cleared. -/
  | stored
  deriving DecidableEq, Repr

/-- What is asked of the converter and what it does. -/
inductive BenchEntry where
  | asked (idx : Fin 11)
  | began (idx : Fin 11)
  | ended (idx : Fin 11) (v : Nat)
  deriving DecidableEq, Repr

/-- The bench tools, the place of the main loop, and what has happened, newest first. -/
structure BenchRun where
  bench : Bench
  dac : Dac
  phase : TickPhase := .idle
  log : List BenchEntry := []

inductive BenchEvent where
  /-- `bench_reg_write`, in the interrupt. -/
  | write (reg val : Byte)
  | read (reg : Byte) (levels : Pin → Bool)
  /-- The next step of the main loop; a conversion that ends returns `v`. -/
  | loop (v : Nat)

/-- The pad that a write asks a conversion of, if it is a request that is accepted. -/
def Bench.asks (b : Bench) (reg : Byte) : Option (Fin 11) :=
  if reg = 0x18 ∧ b.selRole = benchRoleAdc then b.selected else none

/-- A step of `bench_tick`. -/
def BenchRun.loop (s : BenchRun) (v : Nat) : BenchRun :=
  match s.phase with
  | .idle => if s.bench.active && s.bench.adcPending then { s with phase := .entered } else s
  | .entered =>
      match s.bench.selected with
      | some idx => { s with phase := .converting idx, log := .began idx :: s.log }
      | none => { s with phase := .stored }
  | .converting idx =>
      { s with
        bench := { s.bench with adcVal := v }
        phase := .stored
        log := .ended idx v :: s.log }
  | .stored => { s with bench := { s.bench with adcPending := false }, phase := .idle }

def BenchRun.next (s : BenchRun) : BenchEvent → BenchRun
  | .write reg val =>
      let (bench, dac, _) := s.bench.regWrite s.dac false reg val
      { s with bench, dac, log := ((s.bench.asks reg).map BenchEntry.asked).toList ++ s.log }
  | .read reg levels => { s with bench := (s.bench.regRead s.dac levels reg).2 }
  | .loop v => s.loop v

/-- The bench tools of a chip, with the main loop elsewhere. -/
def BenchRun.start (c : Chip) : BenchRun := { bench := c.bench, dac := c.dac }

/-! ## What is asked -/

/-- In what has happened since a request there is a whole conversion of its pad, and
without a newer request its result is `val`. -/
def AnsweredIn (since : List BenchEntry) (idx : Fin 11) (val : Nat) : Prop :=
  ∃ later v between earlier,
    since = later ++ .ended idx v :: between ++ .began idx :: earlier ∧
      ((∀ idx', BenchEntry.asked idx' ∉ since) → val = v)

/-- Every request is answered by a value. -/
def AllAnswered (log : List BenchEntry) (val : Nat) : Prop :=
  ∀ since idx before, log = since ++ .asked idx :: before → AnsweredIn since idx val

/-- When the converter reads ready every request has been answered, and only pads with the
role have been converted. -/
structure BenchRun.Kept (s : BenchRun) : Prop where
  answered : s.bench.adcPending = false → AllAnswered s.log s.bench.adcVal
  role : ∀ idx, BenchEntry.began idx ∈ s.log → s.bench.role idx = benchRoleAdc

/-- The pads of the requests since the selection was last read. -/
def waiting : List BenchEntry → List (Fin 11)
  | [] => []
  | .asked idx :: log => idx :: waiting log
  | .began _ :: _ => []
  | .ended .. :: log => waiting log

/-- A request does not come between the reading of the selection and the clearing of the
flag, and the selection that is read is the pad of every request that waits. -/
def BenchRun.Timely (s : BenchRun) : BenchEvent → Prop
  | .write reg _ => s.bench.asks reg = none ∨ s.phase = .idle ∨ s.phase = .entered
  | .read .. => True
  | .loop _ => s.phase = .entered → ∀ idx ∈ waiting s.log, s.bench.selected = some idx

/-! ## The steps of the loop -/

section Loop

variable {s : BenchRun} {idx : Fin 11} {v : Nat}

theorem loop_pending (hphase : s.phase = .idle)
    (h : (s.bench.active && s.bench.adcPending) = true) :
    s.loop v = { s with phase := .entered } := by
  unfold BenchRun.loop
  rw [hphase]
  exact if_pos h

theorem loop_quiet (hphase : s.phase = .idle)
    (h : ¬ (s.bench.active && s.bench.adcPending) = true) : s.loop v = s := by
  unfold BenchRun.loop
  rw [hphase]
  exact if_neg h

theorem loop_selected (hphase : s.phase = .entered) (h : s.bench.selected = some idx) :
    s.loop v = { s with phase := .converting idx, log := .began idx :: s.log } := by
  unfold BenchRun.loop
  rw [hphase]
  dsimp only
  rw [h]

theorem loop_none (hphase : s.phase = .entered) (h : s.bench.selected = none) :
    s.loop v = { s with phase := .stored } := by
  unfold BenchRun.loop
  rw [hphase]
  dsimp only
  rw [h]

theorem loop_converting (hphase : s.phase = .converting idx) :
    s.loop v = { s with
      bench := { s.bench with adcVal := v }, phase := .stored, log := .ended idx v :: s.log } := by
  unfold BenchRun.loop
  rw [hphase]

theorem loop_stored (hphase : s.phase = .stored) :
    s.loop v = { s with bench := { s.bench with adcPending := false }, phase := .idle } := by
  unfold BenchRun.loop
  rw [hphase]

/-- Without an interrupt the steps of the main loop are `bench_tick`. -/
theorem loop_tick (s : BenchRun) (oneshot : Nat → Nat → Nat → Nat) (hphase : s.phase = .idle) :
    ∃ vs, (run BenchRun.loop s vs).bench = (s.bench.tick oneshot).1 ∧
      (run BenchRun.loop s vs).phase = .idle := by
  unfold Bench.tick
  by_cases hpending : (s.bench.active && s.bench.adcPending) = true
  · rw [if_pos hpending]
    cases hselected : s.bench.selected with
    | some idx =>
        refine ⟨[0, 0, oneshot (Bench.tick.benchAin idx) 4 5, 0], ?_⟩
        rw [Runs.run_cons, loop_pending hphase hpending, Runs.run_cons,
          loop_selected (s := { s with phase := .entered }) rfl hselected, Runs.run_cons,
          loop_converting rfl, Runs.run_cons, loop_stored rfl]
        exact ⟨rfl, rfl⟩
    | none =>
        refine ⟨[0, 0, 0], ?_⟩
        rw [Runs.run_cons, loop_pending hphase hpending, Runs.run_cons,
          loop_none (s := { s with phase := .entered }) rfl hselected, Runs.run_cons,
          loop_stored rfl]
        exact ⟨rfl, rfl⟩
  · rw [if_neg hpending]
    exact ⟨[], rfl, hphase⟩

end Loop

/-! ## Accesses -/

section Access

variable {b : Bench} {d : Dac} {reg val : Byte}

/-- What a register write leaves of a request. -/
theorem regWrite_request (b : Bench) (d : Dac) (reg val : Byte) :
    let b' := (b.regWrite d false reg val).1
    b'.role = b.role ∧ b'.active = b.active ∧ b'.adcVal = b.adcVal ∧
      b'.adcPending = (b.adcPending || (b.asks reg).isSome) := by
  have hnone (hreg : reg ≠ 0x18) : (b.asks reg) = none := if_neg fun h => hreg h.1
  have hkept (hreg : reg ≠ 0x18) : b.adcPending = (b.adcPending || (b.asks reg).isSome) := by
    rw [hnone hreg]
    exact (Bool.or_false _).symm
  unfold Bench.regWrite
  split
  next hreg =>
    have hne : reg ≠ 0x18 := by rw [hreg]; decide
    unfold Bench.select
    split <;> exact ⟨rfl, rfl, rfl, hkept hne⟩
  next =>
    split
    next hreg =>
      have hne : reg ≠ 0x18 := by rw [hreg]; decide
      dsimp only
      unfold Bench.gpioOut
      split
      next => exact ⟨rfl, rfl, rfl, hkept hne⟩
      next => split <;> exact ⟨rfl, rfl, rfl, hkept hne⟩
    next =>
      split
      next hreg =>
        split
        next hrole =>
          -- a request for a channel with the role of an input
          have hasks : (b.asks reg).isSome = true := by
            unfold Bench.asks
            rw [if_pos ⟨hreg, hrole⟩]
            unfold Bench.selRole at hrole
            cases hselected : b.selected with
            | some idx => rfl
            | none =>
                rw [hselected] at hrole
                cases hrole
          rw [hasks, Bool.or_true]
          exact ⟨rfl, rfl, rfl, rfl⟩
        next hrole =>
          have hnone' : b.asks reg = none := if_neg fun h => hrole h.2
          rw [hnone', Option.isSome_none, Bool.or_false]
          exact ⟨rfl, rfl, rfl, rfl⟩
      next hreg =>
        split
        next =>
          split
          next => split <;> exact ⟨rfl, rfl, rfl, hkept hreg⟩
          next => exact ⟨rfl, rfl, rfl, hkept hreg⟩
        next => exact ⟨rfl, rfl, rfl, hkept hreg⟩

/-- The pad of a request carries the role. -/
theorem asks_role {idx : Fin 11} (h : b.asks reg = some idx) :
    b.selected = some idx ∧ b.role idx = benchRoleAdc := by
  unfold Bench.asks at h
  split at h
  next hreq =>
    refine ⟨h, ?_⟩
    have hrole := hreq.2
    unfold Bench.selRole at hrole
    rw [h] at hrole
    exact hrole
  next => cases h

end Access

/-! ## Requests that are timely are answered -/

/-- What has happened, by the place of the main loop: requests that wait, on top of what has
been answered, and the conversion that runs for them. -/
inductive BenchRun.Shape (s : BenchRun) : Prop
  | waits (w : List (Fin 11)) (done : List BenchEntry)
      (hphase : s.phase = .idle ∨ s.phase = .entered ∧ w ≠ [])
      (hlog : s.log = w.map BenchEntry.asked ++ done) (hdone : waiting done = [])
      (hanswered : AllAnswered done s.bench.adcVal)
      (hpending : s.bench.adcPending = true ↔ w ≠ [])
  | converts (idx : Fin 11) (w : List (Fin 11)) (done : List BenchEntry) (val : Nat)
      (hphase : s.phase = .converting idx)
      (hlog : s.log = .began idx :: (w.map BenchEntry.asked ++ done))
      (hw : w ≠ [] ∧ ∀ p ∈ w, p = idx) (hanswered : AllAnswered done val)
      (hpending : s.bench.adcPending = true)
  | stored (idx : Fin 11) (w : List (Fin 11)) (done : List BenchEntry) (val : Nat)
      (hphase : s.phase = .stored)
      (hlog : s.log =
        .ended idx s.bench.adcVal :: .began idx :: (w.map BenchEntry.asked ++ done))
      (hw : w ≠ [] ∧ ∀ p ∈ w, p = idx) (hanswered : AllAnswered done val)
      (hpending : s.bench.adcPending = true)

structure BenchRun.Inv (s : BenchRun) : Prop where
  active : s.bench.active = true
  asked : ∀ idx, BenchEntry.asked idx ∈ s.log → s.bench.role idx = benchRoleAdc
  began : ∀ idx, BenchEntry.began idx ∈ s.log → s.bench.role idx = benchRoleAdc
  shape : s.Shape

section Answers

variable {s : BenchRun} {e : BenchEvent} {idx : Fin 11} {v val : Nat} {w : List (Fin 11)}
  {done since : List BenchEntry}

theorem waiting_asked : waiting (w.map BenchEntry.asked ++ done) = w ++ waiting done := by
  induction w with
  | nil => rfl
  | cons p w ih => exact congrArg (p :: ·) ih

/-- A newer request excuses the value, not the conversion. -/
theorem AnsweredIn.newer (h : AnsweredIn since idx val) {pre : List BenchEntry} {p : Fin 11}
    (hp : BenchEntry.asked p ∈ pre) (v : Nat) : AnsweredIn (pre ++ since) idx v := by
  obtain ⟨later, v', between, earlier, hsince, -⟩ := h
  refine ⟨pre ++ later, v', between, earlier, ?_, fun hnone => ?_⟩
  · rw [hsince, List.append_assoc]
    simp only [List.append_assoc]
  · exact absurd (List.mem_append_left _ hp) (hnone p)

/-- A conversion of the pad of all waiting requests answers them. -/
theorem allAnswered_ended (hw : w ≠ [] ∧ ∀ p ∈ w, p = idx) (h : AllAnswered done val) :
    AllAnswered (.ended idx v :: .began idx :: (w.map BenchEntry.asked ++ done)) v := by
  intro since q before hlog
  obtain ⟨hne, hall⟩ := hw
  obtain ⟨p, hp⟩ := List.exists_mem_of_ne_nil w hne
  -- the request is older than the conversion
  obtain ⟨since, rfl, hbelow⟩ : ∃ since', since = .ended idx v :: .began idx :: since' ∧
      w.map BenchEntry.asked ++ done = since' ++ .asked q :: before := by
    cases since with
    | nil => simp at hlog
    | cons e₁ since =>
        cases since with
        | nil => simp at hlog
        | cons e₂ since =>
            simp only [List.cons_append, List.cons.injEq] at hlog
            obtain ⟨rfl, rfl, hlog⟩ := hlog
            exact ⟨since, rfl, hlog⟩
  have hdone (newer : List BenchEntry) (hnewer : done = newer ++ .asked q :: before) :
      AnsweredIn (.ended idx v :: .began idx :: w.map BenchEntry.asked ++ newer) q v :=
    (h newer q before hnewer).newer (p := p) (by simpa using hp) v
  rcases List.append_eq_append_iff.mp hbelow with ⟨newer, hsince, hbefore⟩ | ⟨rest, hwait, hrest⟩
  · rw [hsince]
    exact hdone newer hbefore
  · cases rest with
    | nil =>
        rw [List.append_nil] at hwait
        have hlast := hdone [] hrest.symm
        rwa [List.append_nil, hwait] at hlast
    | cons e rest =>
        obtain ⟨rfl, -⟩ := List.cons.inj hrest
        have hmem : BenchEntry.asked q ∈ w.map BenchEntry.asked := by
          rw [hwait]
          simp
        obtain ⟨q', hq', heq⟩ := List.mem_map.mp hmem
        obtain rfl := hall q' hq'
        obtain rfl := BenchEntry.asked.inj heq
        exact ⟨[], v, [], since, rfl, fun _ => rfl⟩

/-- A step of the main loop. -/
theorem BenchRun.inv_loop (h : s.Inv) (htimely : s.Timely (.loop v)) : (s.loop v).Inv := by
  cases h.shape with
  | waits w done hphase hlog hdone hanswered hpending =>
      rcases hphase with hphase | ⟨hphase, hw⟩
      · by_cases hflags : (s.bench.active && s.bench.adcPending) = true
        · rw [loop_pending hphase hflags]
          have hw := hpending.mp (Bool.and_eq_true_iff.mp hflags).2
          exact ⟨h.active, h.asked, h.began,
            .waits w done (Or.inr ⟨rfl, hw⟩) hlog hdone hanswered hpending⟩
        · rw [loop_quiet hphase hflags]
          exact h
      · -- the selection is the pad of every request that waits
        have hwait : waiting s.log = w := by
          rw [hlog, waiting_asked, hdone, List.append_nil]
        have hselected := htimely hphase
        rw [hwait] at hselected
        obtain ⟨p, hp⟩ := List.exists_mem_of_ne_nil w hw
        rw [loop_selected hphase (hselected p hp)]
        have hall (q : Fin 11) (hq : q ∈ w) : q = p :=
          Option.some_inj.mp ((hselected q hq).symm.trans (hselected p hp))
        have hasked : BenchEntry.asked p ∈ s.log := by
          rw [hlog]
          exact List.mem_append_left _ (List.mem_map_of_mem hp)
        refine ⟨h.active, fun q hq => ?_, fun q hq => ?_,
          .converts p w done _ rfl (congrArg (_ :: ·) hlog) ⟨hw, hall⟩ hanswered
            (hpending.mpr hw)⟩
        · exact h.asked q (by simpa using hq)
        · rcases List.mem_cons.mp hq with heq | hq
          · rw [BenchEntry.began.inj heq]
            exact h.asked p hasked
          · exact h.began q hq
  -- the value is that of the one pad that waits
  | converts idx w done val hphase hlog hw hanswered hpending =>
      rw [loop_converting hphase]
      exact ⟨h.active, fun q hq => h.asked q (by simpa using hq),
        fun q hq => h.began q (by simpa using hq),
        .stored idx w done val rfl (congrArg (_ :: ·) hlog) hw hanswered hpending⟩
  | stored idx w done val hphase hlog hw hanswered hpending =>
      rw [loop_stored hphase]
      refine ⟨h.active, h.asked, h.began, .waits [] s.log (Or.inl rfl) rfl ?_ ?_ ?_⟩
      · rw [hlog]
        rfl
      · rw [hlog]
        exact allAnswered_ended hw hanswered
      · simp

/-- A register write. -/
theorem BenchRun.inv_write (h : s.Inv) {reg byte : Byte} (htimely : s.Timely (.write reg byte)) :
    (s.next (.write reg byte)).Inv := by
  obtain ⟨hrole, hactive, hval, hflag⟩ := regWrite_request s.bench s.dac reg byte
  show BenchRun.Inv { s with
    bench := (s.bench.regWrite s.dac false reg byte).1
    dac := (s.bench.regWrite s.dac false reg byte).2.1
    log := ((s.bench.asks reg).map BenchEntry.asked).toList ++ s.log }
  generalize s.bench.regWrite s.dac false reg byte = r at hrole hactive hval hflag
  cases hasks : s.bench.asks reg with
  | none =>
      rw [hasks, Option.isSome_none, Bool.or_false] at hflag
      refine ⟨hactive.trans h.active, fun q hq => ?_, fun q hq => ?_, ?_⟩
      · exact (congrFun hrole q).trans (h.asked q hq)
      · exact (congrFun hrole q).trans (h.began q hq)
      · cases h.shape with
        | waits w done hphase hlog hdone hanswered hpending =>
            exact .waits w done hphase hlog hdone (hval ▸ hanswered) (hflag ▸ hpending)
        | converts idx w done val hphase hlog hw hanswered hpending =>
            exact .converts idx w done val hphase hlog hw hanswered (hflag.trans hpending)
        | stored idx w done val hphase hlog hw hanswered hpending =>
            exact .stored idx w done val hphase (hval ▸ hlog) hw hanswered (hflag.trans hpending)
  -- a request is written only while no conversion runs, so it joins those that wait
  | some p =>
      rw [hasks, Option.isSome_some, Bool.or_true] at hflag
      have hp := (asks_role hasks).2
      refine ⟨hactive.trans h.active, fun q hq => ?_, fun q hq => ?_, ?_⟩
      · refine (congrFun hrole q).trans ?_
        rcases List.mem_cons.mp hq with heq | hq
        · rw [BenchEntry.asked.inj heq]
          exact hp
        · exact h.asked q hq
      · exact (congrFun hrole q).trans (h.began q (by simpa using hq))
      · have hfree : s.phase = .idle ∨ s.phase = .entered := by
          refine htimely.resolve_left fun hnone => ?_
          rw [hasks] at hnone
          cases hnone
        cases h.shape with
        | waits w done hphase hlog hdone hanswered hpending =>
            refine .waits (p :: w) done (hphase.imp_right fun h => ⟨h.1, List.cons_ne_nil _ _⟩)
              (congrArg (_ :: ·) hlog) hdone (hval ▸ hanswered) (iff_of_true hflag ?_)
            exact List.cons_ne_nil _ _
        | converts idx w done val hphase =>
            rw [hphase] at hfree
            simp at hfree
        | stored idx w done val hphase =>
            rw [hphase] at hfree
            simp at hfree

theorem BenchRun.inv_next (h : s.Inv) (htimely : s.Timely e) : (s.next e).Inv := by
  cases e with
  | write reg byte => exact BenchRun.inv_write h htimely
  | read reg levels =>
      obtain ⟨stat, hstat⟩ := regRead_stat s.bench s.dac levels reg
      show BenchRun.Inv { s with bench := (s.bench.regRead s.dac levels reg).2 }
      rw [hstat]
      refine ⟨h.active, h.asked, h.began, ?_⟩
      cases h.shape with
      | waits w done hphase hlog hdone hanswered hpending =>
          exact .waits w done hphase hlog hdone hanswered hpending
      | converts idx w done val hphase hlog hw hanswered hpending =>
          exact .converts idx w done val hphase hlog hw hanswered hpending
      | stored idx w done val hphase hlog hw hanswered hpending =>
          exact .stored idx w done val hphase hlog hw hanswered hpending
  | loop v => exact BenchRun.inv_loop h htimely

theorem kept_of_inv (h : s.Inv) : s.Kept := by
  refine ⟨fun hready => ?_, h.began⟩
  cases h.shape with
  | waits w done hphase hlog hdone hanswered hpending =>
      have hw : w = [] := by
        by_contra hne
        rw [hpending.mpr hne] at hready
        cases hready
      rw [hlog, hw]
      exact hanswered
  | converts idx w done val hphase hlog hw hanswered hpending =>
      rw [hpending] at hready
      cases hready
  | stored idx w done val hphase hlog hw hanswered hpending =>
      rw [hpending] at hready
      cases hready

end Answers

theorem BenchRun.inv_start {c : Chip} (h : c.bench.Entered) : (BenchRun.start c).Inv := by
  have hlog : (BenchRun.start c).log = [] := rfl
  refine ⟨h.active, fun idx hasked => ?_, fun idx hbegan => ?_, ?_⟩
  · rw [hlog] at hasked
    cases hasked
  · rw [hlog] at hbegan
    cases hbegan
  refine .waits [] [] (Or.inl rfl) rfl rfl ?_ ?_
  · intro since idx before hlog
    simp at hlog
  · show c.bench.adcPending = true ↔ _
    rw [h.adcPending]
    simp

/-- In a counter or servo mode, with accesses between any two steps of the main loop: while no
request comes between the reading of the selection and the clearing of the flag, and the
selection that is read is the pad of the requests that wait, every request is answered. -/
theorem bench_requests_answered (cfg : Config.Client) (before : List ChipEvent) (m : Mode)
    (es : List BenchEvent) :
    let c₀ := run Chip.next (.powerOn cfg) before
    let s := BenchRun.start (c₀.setMode m)
    m = .counter ∨ m = .servo → m ≠ c₀.mode →
    Along BenchRun.next BenchRun.Timely s es → (run BenchRun.next s es).Kept := by
  intro c₀ s hm hne htimely
  have hstart : s.Inv := BenchRun.inv_start (setMode_bench hm hne)
  have hinv : (run BenchRun.next s es).Inv :=
    Runs.run_along (fun _ _ h htimely => BenchRun.inv_next h htimely) htimely hstart
  exact kept_of_inv hinv

/-- A counter bank with converter inputs on D1 and D2. -/
def twoInputs : Config.Client :=
  holding [(cntrName, [1, 0xE8, 0x03, 1, 6, 6, 1, 1, 1, 1, 1, 1])]

/-- A conversion of D1 that is read before D2 is selected. -/
theorem bench_requests_answered_one :
    (run BenchRun.next (BenchRun.start ((Chip.powerOn twoInputs).setMode .counter))
      [.write 0x15 1, .write 0x18 0, .loop 0, .loop 0, .loop 7, .loop 0, .read 0x1B fun _ => false,
        .write 0x15 2]).Kept :=
  bench_requests_answered twoInputs [] .counter
    [.write 0x15 1, .write 0x18 0, .loop 0, .loop 0, .loop 7, .loop 0, .read 0x1B fun _ => false,
      .write 0x15 2] (Or.inl rfl) (by decide +kernel) (by
        refine ⟨Or.inr (Or.inl rfl), Or.inr (Or.inl rfl), ?_, ?_, ?_, ?_, trivial, ?_, trivial⟩
        · exact fun h => absurd h (by decide +kernel)
        · exact fun _ => by decide +kernel
        · exact fun h => absurd h (by decide +kernel)
        · exact fun h => absurd h (by decide +kernel)
        · exact Or.inr (Or.inl (by decide +kernel)))

/-- D1 is asked for, but D2 is selected before the loop comes to it: D1 is never converted. -/
theorem not_bench_requests_answered :
    ¬ ∀ (cfg : Config.Client) (before : List ChipEvent) (m : Mode) (es : List BenchEvent),
      let c₀ := run Chip.next (.powerOn cfg) before
      m = .counter ∨ m = .servo → m ≠ c₀.mode →
      (run BenchRun.next (BenchRun.start (c₀.setMode m)) es).Kept := by
  intro h
  have hkept := h twoInputs [] .counter [.write 0x15 1, .write 0x18 0, .write 0x15 2, .loop 0,
    .loop 0, .loop 7, .loop 0] (Or.inl rfl) (by decide +kernel)
  obtain ⟨later, v, between, earlier, hsince, -⟩ :=
    hkept.answered (by decide +kernel) [.ended 2 7, .began 2] 1 [] (by decide +kernel)
  have hbegan : BenchEntry.began 1 ∈ [BenchEntry.ended 2 7, .began 2] := by
    rw [hsince]
    simp
  revert hbegan
  decide

end SlowBus.Modes
