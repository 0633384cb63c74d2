import Mathlib.Data.BitVec
import SlowBus.Lib.Balance
import SlowBus.Modes.Enter
import SlowBus.Modes.Steps
import SlowBus.Modes.Switch

/-!
# No edge is lost or counted twice

The sampler interrupt adds to the live counters; snapshots and clears of the register bank
take from them. What was taken from a channel and what it still has is the number of edges
between the samples, and a snapshot is read out as it was taken.
-/

namespace SlowBus.Modes

open Bus (Byte)
open Runs (run total)

/-! ## The sampler -/

/-- Whether a channel of this edge setting counts a change of level. -/
def countsEdge (edge : Byte) (before after : Bool) : Bool :=
  (edge == 0 && (!before && after)) || (edge == 1 && (before && !after)) ||
    (edge == 2 && before != after)

/-- `TC5_Handler`, by the levels it samples. -/
def Counter.tick (c : Counter) (levels : Pin → Bool) : Counter :=
  let now := counterSampleNow levels
  let changed := now ^^^ c.last
  let rose := changed &&& now
  let fell := changed &&& ~~~now
  { c with
    count := fun ch =>
      if c.enabled.getLsbD ch then
        if (c.edge ch == 0 && rose.getLsbD ch) || (c.edge ch == 1 && fell.getLsbD ch) ||
            (c.edge ch == 2 && changed.getLsbD ch) then
          c.count ch + 1
        else c.count ch
      else c.count ch
    last := now }

/-! ## Reads -/

/-- Byte `i` of a snapshot of nine words, the low byte of a word first. -/
def snapshotByte (shadow : Fin 9 → BitVec 32) (i : Byte) : Byte :=
  (shadow (.ofNat 9 (i >>> 2).toNat) >>> ((i &&& 3).toNat * 8)).setWidth 8

/-- `counter_reg_read` -/
def Counter.regRead (c : Counter) (b : Bench) (d : Dac) (levels : Pin → Bool) (reg : Byte) :
    Byte × Counter × Bench :=
  if reg = 0x12 then
    if 36 ≤ c.dataIdx then (0xFF, c, b)
    else (snapshotByte c.shadow c.dataIdx, { c with dataIdx := c.dataIdx + 1 }, b)
  else if reg = 0x13 then (c.enabled.setWidth 8, c, b)
  else if reg = 0x14 then ((c.enabled >>> 8).setWidth 8, c, b)
  else
    let (v, b) := b.regRead d levels reg
    (v, c, b)

/-! ## What happens in the mode -/

inductive CountEvent where
  | world (w : World)
  /-- An interrupt of the sampler. -/
  | tick
  | read (reg : Byte)
  | write (reg val : Byte)

/-- A read of the register bank, and what it returns. -/
def Chip.counterRead (c : Chip) (reg : Byte) : Byte × Chip :=
  let (v, counter, bench) := c.counter.regRead c.bench c.dac c.world.levels reg
  (v, { c with counter, bench })

def Chip.count (c : Chip) : CountEvent → Chip
  | .world w => { c with world := w }
  | .tick => if c.counter.running then { c with counter := c.counter.tick c.world.levels } else c
  | .read reg => (c.counterRead reg).2
  | .write reg val => c.bankWrite reg val

/-- `READ_CLR`, and `CLEAR` with its key. -/
def CountEvent.clears : CountEvent → Bool
  | .write reg val => reg == 0x11 || (reg == 0x1A && val == 0xFF)
  | _ => false

/-- What an event takes from a channel: the value it clears. -/
def Chip.cleared (ch : Fin 9) (c : Chip) (e : CountEvent) : BitVec 32 :=
  if e.clears then c.counter.count ch else 0

/-- The levels of a channel that the ticks of a run sample. -/
def Chip.samples (ch : Fin 9) : Chip → List CountEvent → List Bool
  | _, [] => []
  | c, .tick :: es => c.world.levels (channelPad ch) :: samples ch (c.count .tick) es
  | c, e :: es => samples ch (c.count e) es

/-- The edges of a setting between consecutive levels. -/
def edgesIn (edge : Byte) : List Bool → Nat
  | before :: after :: levels =>
      (if countsEdge edge before after then 1 else 0) + edgesIn edge (after :: levels)
  | _ => 0

/-- The edge setting of a channel in a `cntr` file. -/
def counterEdge (file : Option (List Byte)) (ch : Fin 9) : Byte :=
  (cntrByte file ch).elim 0 fun v => if cntrCounts v then cntrEdge v else 0

/-- What the `DATA` reads of a run return. -/
def Chip.dataReads : Chip → List CountEvent → List Byte
  | _, [] => []
  | c, .read reg :: es =>
      if reg = 0x12 then (c.counterRead reg).1 :: dataReads (c.count (.read reg)) es
      else dataReads (c.count (.read reg)) es
  | c, e :: es => dataReads (c.count e) es

/-- A word, the low byte first. -/
def wordBytes (w : BitVec 32) : List Byte :=
  [w.setWidth 8, (w >>> 8).setWidth 8, (w >>> 16).setWidth 8, (w >>> 24).setWidth 8]

/-- The accesses that may come between two reads of a stream, and the reads. -/
def CountEvent.streams : CountEvent → Bool
  | .world _ | .tick => true
  | .read reg => reg == 0x12
  | .write .. => false

def CountEvent.isRead : CountEvent → Bool
  | .read _ => true
  | _ => false

/-! ## One channel -/

section Channel

variable {c : Counter} {levels : Pin → Bool} {ch : Fin 9} {file : Option (List Byte)}

/-- A mask gathered channel by channel. -/
theorem getLsbD_foldl_mask (p : Fin 9 → Bool) (chs : List (Fin 9)) (m : BitVec 16) (ch : Fin 9) :
    (chs.foldl (fun m ch => if p ch then m ||| BitVec.twoPow 16 ch else m) m).getLsbD ch = true ↔
      m.getLsbD ch = true ∨ ch ∈ chs ∧ p ch = true := by
  apply BitSet.foldl_select (P := fun m : BitVec 16 => m.getLsbD ch = true) p
  intro m ch'
  rw [BitSet.getLsbD_insert (by omega), Fin.ext_iff]

theorem counterSampleNow_getLsbD (levels : Pin → Bool) (ch : Fin 9) :
    (counterSampleNow levels).getLsbD ch = levels (channelPad ch) := by
  have hmask := getLsbD_foldl_mask (fun ch => levels (channelPad ch)) (List.finRange 9) 0 ch
  refine Bool.eq_iff_iff.mpr (hmask.trans ?_)
  simp

theorem applyCfg_enabled (c : Counter) (b : Bench) (file : Option (List Byte)) (ch : Fin 9) :
    (c.applyCfg b file).1.enabled.getLsbD ch = counterEnabled file ch := by
  have hmask := getLsbD_foldl_mask (counterEnabled file) (List.finRange 9) 0 ch
  refine Bool.eq_iff_iff.mpr (hmask.trans ?_)
  simp

/-- What the sampler makes of a channel. -/
theorem tick_count (c : Counter) (levels : Pin → Bool) (ch : Fin 9) :
    (c.tick levels).count ch = c.count ch +
      if c.enabled.getLsbD ch = true ∧
        countsEdge (c.edge ch) (c.last.getLsbD ch) (levels (channelPad ch)) = true then 1
      else 0 := by
  have hnow := counterSampleNow_getLsbD levels ch
  have hbit : ch.val < 16 := by omega
  have hedge : ((c.edge ch == 0 &&
        ((counterSampleNow levels ^^^ c.last) &&& counterSampleNow levels).getLsbD ch) ||
      (c.edge ch == 1 &&
        ((counterSampleNow levels ^^^ c.last) &&& ~~~counterSampleNow levels).getLsbD ch) ||
      (c.edge ch == 2 && (counterSampleNow levels ^^^ c.last).getLsbD ch)) =
        countsEdge (c.edge ch) (c.last.getLsbD ch) (levels (channelPad ch)) := by
    simp only [BitVec.getLsbD_and, BitVec.getLsbD_xor, BitVec.getLsbD_not, hnow, hbit,
      decide_true, Bool.true_and]
    cases c.last.getLsbD ch <;> cases levels (channelPad ch) <;> rfl
  unfold Counter.tick
  dsimp only
  rw [hedge]
  by_cases henabled : c.enabled.getLsbD ch = true
  · rw [if_pos henabled]
    by_cases hcounts :
        countsEdge (c.edge ch) (c.last.getLsbD ch) (levels (channelPad ch)) = true
    · rw [if_pos hcounts, if_pos ⟨henabled, hcounts⟩]
    · rw [if_neg hcounts, if_neg fun h => hcounts h.2]
      exact (BitVec.add_zero _).symm
  · rw [if_neg henabled, if_neg fun h => henabled h.1]
    exact (BitVec.add_zero _).symm

/-- What a write of the bank makes of the counters. -/
structure Counter.Write (clears : Bool) (c c' : Counter) : Prop where
  count : ∀ ch, c'.count ch = if clears then 0 else c.count ch
  shadow : ∀ ch, c'.shadow ch = c.shadow ch ∨ c'.shadow ch = c.count ch
  last : c'.last = c.last
  edge : c'.edge = c.edge
  enabled : c'.enabled = c.enabled
  running : c'.running = c.running

theorem regWrite_counter (c : Counter) (b : Bench) (d : Dac) (reg val : Byte) :
    Counter.Write (CountEvent.write reg val).clears c (c.regWrite b d reg val).1 := by
  have hclears : (CountEvent.write reg val).clears =
      (reg == 0x11 || (reg == 0x1A && val == 0xFF)) := rfl
  rw [hclears]
  unfold Counter.regWrite
  split
  next hreg =>
    subst hreg
    exact ⟨fun _ => rfl, fun _ => Or.inr rfl, rfl, rfl, rfl, rfl⟩
  next =>
    split
    next hreg =>
      subst hreg
      exact ⟨fun _ => rfl, fun _ => Or.inr rfl, rfl, rfl, rfl, rfl⟩
    next hclr =>
      have hnot : (reg == 0x11) = false := beq_eq_false_iff_ne.mpr hclr
      split
      next hreg =>
        subst hreg
        by_cases hkey : val = 0xFF
        · subst hkey
          exact ⟨fun _ => rfl, fun _ => Or.inl rfl, rfl, rfl, rfl, rfl⟩
        · have hval : (val == 0xFF) = false := beq_eq_false_iff_ne.mpr hkey
          rw [if_neg hkey, hval]
          exact ⟨fun _ => rfl, fun _ => Or.inl rfl, rfl, rfl, rfl, rfl⟩
      next hreg =>
        have hnot' : (reg == 0x1A) = false := beq_eq_false_iff_ne.mpr hreg
        rw [hnot, hnot']
        exact ⟨fun _ => rfl, fun _ => Or.inl rfl, rfl, rfl, rfl, rfl⟩

/-- A read moves the cursor of the stream only. -/
theorem regRead_counter (c : Counter) (b : Bench) (d : Dac) (levels : Pin → Bool) (reg : Byte) :
    ∃ idx, (c.regRead b d levels reg).2.1 = { c with dataIdx := idx } := by
  unfold Counter.regRead
  split_ifs
  · exact ⟨c.dataIdx, rfl⟩
  · exact ⟨_, rfl⟩
  · exact ⟨c.dataIdx, rfl⟩
  · exact ⟨c.dataIdx, rfl⟩
  · exact ⟨c.dataIdx, rfl⟩

end Channel

/-! ## A run in the mode -/

/-- The counters are set up as the file says. -/
structure Chip.Counts (file : Option (List Byte)) (c : Chip) : Prop where
  mode : c.mode = .counter
  running : c.counter.running = true
  enabled : ∀ ch : Fin 9, c.counter.enabled.getLsbD ch = counterEnabled file ch
  edge : ∀ ch, c.counter.edge ch = counterEdge file ch
  idle : ∀ ch, counterEnabled file ch = false →
    c.counter.count ch = 0 ∧ c.counter.shadow ch = 0

/-- What an event adds to a channel: an edge that the sampler sees. -/
def Chip.counted (file : Option (List Byte)) (ch : Fin 9) (c : Chip) : CountEvent → Nat
  | .tick =>
      if countsEdge (counterEdge file ch) (c.counter.last.getLsbD ch)
        (c.world.levels (channelPad ch)) then 1 else 0
  | _ => 0

section Run

variable {c : Chip} {file : Option (List Byte)} {ch : Fin 9} {e : CountEvent}
  {es : List CountEvent}

theorem bankWrite_counter (h : c.mode = .counter) (reg val : Byte) :
    (c.bankWrite reg val).counter = (c.counter.regWrite c.bench c.dac reg val).1 ∧
      (c.bankWrite reg val).world = c.world := by
  unfold Chip.bankWrite
  rw [if_neg (by rw [h]; simp)]
  rw [h]
  exact ⟨rfl, rfl⟩

theorem counterRead_counter (c : Chip) (reg : Byte) :
    (∃ idx, (c.counterRead reg).2.counter = { c.counter with dataIdx := idx }) ∧
      (c.counterRead reg).2.mode = c.mode ∧ (c.counterRead reg).2.world = c.world :=
  ⟨regRead_counter c.counter c.bench c.dac c.world.levels reg, rfl, rfl⟩

theorem count_tick (h : c.counter.running = true) :
    c.count .tick = { c with counter := c.counter.tick c.world.levels } := if_pos h

theorem counts_step (h : c.Counts file) (e : CountEvent) : (c.count e).Counts file := by
  cases e with
  | world w => exact ⟨h.mode, h.running, h.enabled, h.edge, h.idle⟩
  | tick =>
      rw [count_tick h.running]
      refine ⟨h.mode, h.running, h.enabled, h.edge, fun ch hch => ⟨?_, (h.idle ch hch).2⟩⟩
      have hoff : ¬ c.counter.enabled.getLsbD ch = true := by
        rw [h.enabled, hch]
        exact Bool.false_ne_true
      exact (tick_count c.counter c.world.levels ch).trans
        (by rw [if_neg fun hand => hoff hand.1, (h.idle ch hch).1]; rfl)
  | read reg =>
      obtain ⟨⟨idx, hcounter⟩, hmode, -⟩ := counterRead_counter c reg
      show (c.counterRead reg).2.Counts file
      refine ⟨hmode.trans h.mode, ?_, ?_, ?_, ?_⟩
      all_goals rw [hcounter]
      · exact h.running
      · exact h.enabled
      · exact h.edge
      · exact h.idle
  | write reg val =>
      obtain ⟨hcounter, -⟩ := bankWrite_counter h.mode reg val
      have hwrite := regWrite_counter c.counter c.bench c.dac reg val
      rw [← hcounter] at hwrite
      refine ⟨(bankWrite_mode c reg val).trans h.mode, hwrite.running.trans h.running,
        fun ch => ?_, fun ch => ?_, fun ch hch => ⟨?_, ?_⟩⟩
      · exact (congrArg (·.getLsbD ch.val) hwrite.enabled).trans (h.enabled ch)
      · exact (congrFun hwrite.edge ch).trans (h.edge ch)
      · refine (hwrite.count ch).trans ?_
        split
        next => rfl
        next => exact (h.idle ch hch).1
      · rcases hwrite.shadow ch with heq | heq
        · exact heq.trans (h.idle ch hch).2
        · exact heq.trans (h.idle ch hch).1

/-- What each event takes from a counter and adds to it. -/
theorem count_step (h : c.Counts file) (hch : counterEnabled file ch = true) (e : CountEvent) :
    (c.count e).counter.count ch + c.cleared ch e =
      c.counter.count ch + BitVec.ofNat 32 (c.counted file ch e) := by
  cases e with
  | world w => rfl
  | tick =>
      rw [count_tick h.running]
      refine (BitVec.add_zero _).trans ((tick_count c.counter c.world.levels ch).trans ?_)
      simp only [h.enabled, hch, true_and, h.edge, Chip.counted]
      split <;> rfl
  | read reg =>
      obtain ⟨⟨idx, hcounter⟩, -, -⟩ := counterRead_counter c reg
      show (c.counterRead reg).2.counter.count ch + 0 = _
      rw [hcounter]
      rfl
  | write reg val =>
      obtain ⟨hcounter, -⟩ := bankWrite_counter h.mode reg val
      have hwrite := regWrite_counter c.counter c.bench c.dac reg val
      rw [← hcounter] at hwrite
      show (c.bankWrite reg val).counter.count ch + c.cleared ch _ = c.counter.count ch + 0
      rw [hwrite.count, Chip.cleared]
      split
      next => exact BitVec.add_comm ..
      next => rfl

/-- The edges that are counted are those between consecutive samples. -/
theorem total_counted (h : c.Counts file) (ch : Fin 9) (es : List CountEvent) :
    total Chip.count (fun c e => BitVec.ofNat 32 (c.counted file ch e)) c es =
      BitVec.ofNat 32 (edgesIn (counterEdge file ch)
        (c.counter.last.getLsbD ch :: c.samples ch es)) := by
  induction es generalizing c with
  | nil => rfl
  | cons e es ih =>
      have hrest := ih (counts_step h e)
      rw [Runs.total_cons, hrest]
      cases e with
      | world w => exact BitVec.zero_add _
      | tick =>
          have hlast : (c.count .tick).counter.last.getLsbD ch =
              c.world.levels (channelPad ch) := by
            rw [count_tick h.running]
            exact counterSampleNow_getLsbD c.world.levels ch
          rw [hlast]
          exact (BitVec.ofNat_add ..).symm
      | read reg =>
          obtain ⟨⟨idx, hcounter⟩, -, -⟩ := counterRead_counter c reg
          have hlast : (c.count (.read reg)).counter.last = c.counter.last := by
            show (c.counterRead reg).2.counter.last = _
            rw [hcounter]
          rw [hlast]
          exact BitVec.zero_add _
      | write reg val =>
          have hwrite := regWrite_counter c.counter c.bench c.dac reg val
          rw [← (bankWrite_counter h.mode reg val).1] at hwrite
          have hlast : (c.count (.write reg val)).counter.last = c.counter.last := hwrite.last
          rw [hlast]
          exact BitVec.zero_add _

/-! ## Entering the mode -/

theorem modeLeave_world (c : Chip) (m : Mode) : (c.modeLeave m).world = c.world := by
  cases m <;> rfl

theorem counts_enter (hmode : c.mode ≠ .counter) :
    (c.setMode .counter).Counts (c.file cntrName) ∧
      (∀ ch, (c.setMode .counter).counter.count ch = 0) ∧
      ∀ ch : Fin 9, (c.setMode .counter).counter.last.getLsbD ch =
        c.world.levels (channelPad ch) := by
  rw [setMode_ne (Ne.symm hmode)]
  have hfile : ({ c.modeLeave c.mode with mode := .counter } : Chip).file cntrName =
      c.file cntrName := congrArg (fun cfg : Config.Client => cfg.store.lookup cntrName)
    (modeLeave_cfg c c.mode)
  have hworld : ({ c.modeLeave c.mode with mode := .counter } : Chip).world = c.world :=
    modeLeave_world c c.mode
  rw [← hfile, ← hworld]
  generalize hc₀ : ({ c.modeLeave c.mode with mode := .counter } : Chip) = c₀
  refine ⟨⟨?_, rfl, fun ch => ?_, fun _ => rfl, fun _ _ => ⟨rfl, rfl⟩⟩, fun _ => rfl,
    fun ch => ?_⟩
  · rw [← hc₀]
    rfl
  · exact applyCfg_enabled c₀.counter c₀.bench.reset (c₀.file cntrName) ch
  · exact counterSampleNow_getLsbD c₀.world.levels ch

/-! ## Reading a snapshot -/

/-- The reads of a stream return the snapshot from the cursor on. -/
theorem dataReads_streams {k : Nat} (h : c.Counts file)
    (hstreams : ∀ e ∈ es, e.streams = true) (hidx : c.counter.dataIdx = BitVec.ofNat 8 k)
    (hfits : k + es.countP CountEvent.isRead ≤ 36) :
    c.dataReads es = (List.range' k (es.countP CountEvent.isRead)).map
      fun i => snapshotByte c.counter.shadow (.ofNat 8 i) := by
  induction es generalizing c k with
  | nil => rfl
  | cons e es ih =>
      obtain ⟨he, hrest⟩ := List.forall_mem_cons.mp hstreams
      have hnext := counts_step h e
      rw [List.countP_cons] at hfits ⊢
      cases e with
      -- the world and the ticks move neither the shadow nor the cursor
      | world w => exact ih hnext hrest hidx hfits
      | tick =>
          have htick := ih hnext hrest
            (by rw [count_tick h.running]; exact hidx) hfits
          rw [count_tick h.running] at htick
          exact (congrArg (Chip.dataReads · es) (count_tick h.running)).trans htick
      | read reg =>
          have hreg : reg = 0x12 := beq_iff_eq.mp he
          subst hreg
          have hread : k + (es.countP CountEvent.isRead + 1) ≤ 36 := hfits
          -- the cursor is inside the snapshot, so a read returns a byte and moves it on
          have hopen : ¬ (36 : Byte) ≤ c.counter.dataIdx := by
            rw [hidx]
            bv_omega
          have hread₁ : c.counterRead 0x12 = (snapshotByte c.counter.shadow c.counter.dataIdx,
              { c with counter := { c.counter with dataIdx := c.counter.dataIdx + 1 } }) := by
            unfold Chip.counterRead Counter.regRead
            rw [if_pos rfl, if_neg hopen]
          have hcount : c.count (.read 0x12) =
              { c with counter := { c.counter with dataIdx := c.counter.dataIdx + 1 } } :=
            congrArg Prod.snd hread₁
          rw [hcount] at hnext
          have htail := ih (k := k + 1) hnext hrest
            (by show c.counter.dataIdx + 1 = _; rw [hidx]; exact (BitVec.ofNat_add ..).symm) (by omega)
          have hreads : c.dataReads (.read 0x12 :: es) =
              (c.counterRead 0x12).1 :: (c.count (.read 0x12)).dataReads es := if_pos rfl
          rw [hreads, hcount, htail, hread₁]
          show snapshotByte c.counter.shadow c.counter.dataIdx :: _ =
            List.map _ (List.range' k (es.countP CountEvent.isRead + 1))
          rw [hidx, List.range'_succ, List.map_cons]
      | write reg val => cases he

/-- The 36 bytes of a snapshot are its nine words. -/
theorem snapshot_words (shadow : Fin 9 → BitVec 32) :
    (List.range' 0 36).map (fun i => snapshotByte shadow (.ofNat 8 i)) =
      (List.finRange 9).flatMap fun ch => wordBytes (shadow ch) := by
  rfl

/-- A snapshot command fills the stream with the counters. -/
theorem snapshot_stream (h : c.mode = .counter) {reg : Byte} (hreg : reg = 0x10 ∨ reg = 0x11)
    (val : Byte) : (c.count (.write reg val)).counter.shadow = c.counter.count ∧
      (c.count (.write reg val)).counter.dataIdx = 0 := by
  show (c.bankWrite reg val).counter.shadow = _ ∧ (c.bankWrite reg val).counter.dataIdx = 0
  rw [(bankWrite_counter h reg val).1]
  rcases hreg with rfl | rfl <;> exact ⟨rfl, rfl⟩

end Run

/-- For every interleaving of ticks and accesses, what the clears took from an enabled channel
and what it has is the number of edges of its setting between the samples, the one of the
entry included; a disabled channel stays zero; and 36 reads after a snapshot return it. -/
theorem counter_conserves (cfg : Config.Client) (before : List ChipEvent)
    (es : List CountEvent) :
    let c₀ := run Chip.next (.powerOn cfg) before
    c₀.mode ≠ .counter →
    let file := c₀.file cntrName
    let c := c₀.setMode .counter
    let c' := run Chip.count c es
    (∀ ch, counterEnabled file ch = true →
      c'.counter.count ch + total Chip.count (Chip.cleared ch) c es =
        BitVec.ofNat 32 (edgesIn (counterEdge file ch)
          (c₀.world.levels (channelPad ch) :: c.samples ch es))) ∧
    (∀ ch, counterEnabled file ch = false → c'.counter.count ch = 0) ∧
    ∀ reg val, reg = 0x10 ∨ reg = 0x11 → ∀ later, (∀ e ∈ later, CountEvent.streams e = true) →
      later.countP CountEvent.isRead = 36 →
      (c'.count (.write reg val)).dataReads later =
        (List.finRange 9).flatMap fun ch => wordBytes (c'.counter.count ch) := by
  intro c₀ hmode file c c'
  obtain ⟨hcounts, hzero, hlast⟩ := counts_enter hmode
  have hcounts' : c'.Counts file :=
    Runs.run_invariant (fun _ e h => counts_step h e) hcounts
  refine ⟨fun ch hch => ?_, fun ch hch => (hcounts'.idle ch hch).1,
    fun reg val hreg later hstreams hreads => ?_⟩
  · have hbalance := Runs.balance (v := fun c : Chip => c.counter.count ch)
      (fun _ e h => counts_step h e) (fun _ e h => count_step h hch e) hcounts es
    refine hbalance.trans ?_
    rw [total_counted hcounts, hzero, hlast]
    exact BitVec.zero_add _
  · obtain ⟨hshadow, hidx⟩ := snapshot_stream hcounts'.mode hreg val
    have hstream := dataReads_streams (k := 0) (counts_step hcounts' (.write reg val)) hstreams
      hidx (by omega)
    rw [hreads, hshadow, snapshot_words] at hstream
    exact hstream

/-- A rising edge before a `READ_CLR` and one after it. -/
theorem counter_conserves_two :
    let c := (Chip.powerOn (holding [])).setMode .counter
    let es : List CountEvent := [.world { levels := fun _ => true }, .tick, .write 0x11 0,
      .world {}, .tick, .read 0x12, .world { levels := fun _ => true }, .tick]
    (run Chip.count c es).counter.count 1 + total Chip.count (Chip.cleared 1) c es = 2 :=
  ((counter_conserves (holding []) [] [.world { levels := fun _ => true }, .tick,
    .write 0x11 0, .world {}, .tick, .read 0x12, .world { levels := fun _ => true }, .tick]
    (by decide +kernel)).1 1 (by decide +kernel)).trans (by decide +kernel)

end SlowBus.Modes
