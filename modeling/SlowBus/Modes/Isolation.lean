import SlowBus.Modes.Switch

/-!
# The bench tools and the pads of a mode

The bench tools of a counter or servo mode write to one pad, the selected one, if the mode
has left it spare and its role is an output or an open collector. The writes of an operation
are followed one by one: an open collector is not driven high between two of them.
-/

namespace SlowBus.Modes

open Bus (Byte)
open Runs (run)

/-! ## Accesses to the bench registers -/

inductive BenchAccess where
  | write (reg val : Byte)
  | read (reg : Byte) (levels : Pin → Bool)

def BenchAccess.reg : BenchAccess → Byte
  | .write reg _ => reg
  | .read reg _ => reg

/-- A register of the bench bank, outside the registers of the generator. -/
def BenchAccess.OnBench (a : BenchAccess) : Prop := 0x15 ≤ a.reg ∧ a.reg ≤ 0x1E

instance BenchAccess.instDecidableOnBench (a : BenchAccess) : Decidable a.OnBench :=
  inferInstanceAs (Decidable (_ ∧ _))

/-- The bench tools over the pads. -/
structure BenchPads where
  bench : Bench
  dac : Dac
  port : Port

/-- The writes that an access makes, in their order. -/
def BenchPads.writes (s : BenchPads) : BenchAccess → List PortOp
  | .write reg val => (s.bench.regWrite s.dac false reg val).2.2
  | .read .. => []

def BenchPads.next (s : BenchPads) (a : BenchAccess) : BenchPads :=
  match a with
  | .write reg val =>
      let (bench, dac, _) := s.bench.regWrite s.dac false reg val
      { bench, dac, port := s.port.exec (s.writes a) }
  | .read reg levels => { s with bench := (s.bench.regRead s.dac levels reg).2 }

/-- The bench tools of a chip. -/
def Chip.benchPads (c : Chip) : BenchPads := { bench := c.bench, dac := c.dac, port := c.port }

/-- A mode hands the registers of the bench bank on, all but its own 0x1A. -/
theorem bankWrite_benchPads {c : Chip} (hmode : c.mode = .counter ∨ c.mode = .servo)
    {reg val : Byte} (hbench : (BenchAccess.write reg val).OnBench) (hreg : reg ≠ 0x1A) :
    (c.bankWrite reg val).benchPads = c.benchPads.next (.write reg val) := by
  have hrange : 0x15 ≤ reg ∧ reg ≤ 0x1E := hbench
  have hlow : ¬ 0x30 ≤ reg := by bv_omega
  have hmodes : ¬ (0x30 ≤ reg ∧ (c.mode = .pio ∨ c.mode = .adc ∨ c.mode = .mixed)) :=
    fun h => hlow h.1
  have hne (r : Byte) (hr : r < 0x15) : reg ≠ r := fun h => by bv_omega
  unfold Chip.bankWrite
  rw [if_neg hmodes]
  rcases hmode with hmode | hmode
  · rw [hmode]
    dsimp only
    unfold Counter.regWrite
    rw [if_neg (hne 0x10 (by decide)), if_neg (hne 0x11 (by decide)), if_neg hreg]
    rfl
  · rw [hmode]
    dsimp only
    unfold Servo.regWrite
    rw [if_neg (hne 0x10 (by decide)), if_neg (hne 0x11 (by decide)),
      if_neg (hne 0x12 (by decide)), if_neg (hne 0x13 (by decide)),
      if_neg (hne 0x14 (by decide)), if_neg hreg]
    rfl

/-! ## What is to be kept apart -/

/-- A pad that the tools may write to. -/
structure Bench.Drives (b : Bench) (idx : Fin 11) : Prop where
  spare : b.reserved.getLsbD idx = false
  role : b.role idx = benchRoleGpo ∨ benchIsOc (b.role idx) = true

/-- The pads that the mode reads: its counters, or the e-stop line. -/
def Chip.Senses (c : Chip) (q : Pin) : Prop :=
  match c.mode with
  | .counter => ∃ ch, counterEnabled (c.file cntrName) ch = true ∧ q = channelPad ch
  | .servo => q = intPad
  | _ => False

/-- The pads that the tools are to leave alone: those of the mode and of the bus. -/
def Chip.Owns (c : Chip) (q : Pin) : Prop :=
  c.Senses q ∨ q = benchPad 4 ∨ q = benchPad 5 ∨
    c.mode = .servo ∧ ∃ ch, srvoRole (c.file srvoName) ch = some srvoRoleServo ∧ q = bankPad ch

/-- Pads that are as the chip `c` had them on entry, as far as the tools may not drive them. -/
structure Chip.Shielded (c : Chip) (port : Port) : Prop where
  owned : ∀ q, c.Owns q → port q = c.port q
  senses : ∀ q, c.Senses q → (port q).dir = false
  other : ∀ idx, ¬ c.bench.Drives idx → port (benchPad idx) = c.port (benchPad idx)
  input : ∀ idx : Fin 11, c.bench.reserved.getLsbD idx = false → c.bench.role idx = benchRoleGpi →
    (port (benchPad idx)).dir = false
  output : ∀ idx : Fin 11, c.bench.reserved.getLsbD idx = false → c.bench.role idx = benchRoleGpo →
    (port (benchPad idx)).dir = true
  openCollector : ∀ idx : Fin 11, c.bench.reserved.getLsbD idx = false →
    benchIsOc (c.bench.role idx) = true →
    ¬ ((port (benchPad idx)).dir = true ∧ (port (benchPad idx)).out = true)

/-! ## One operation -/

section Operation

variable {b : Bench} {d : Dac} {reg val role : Byte} {idx : Fin 11} {level : Bool}
  {ops done : List PadOp} {pad : Pad}

/-- An output stays one at every write. -/
theorem outOps_dir (hops : benchOutOps benchRoleGpo level = some ops) (hdone : done <+: ops)
    (h : pad.dir = true) : (pad.exec done).dir = true := by
  have hops' : [outLevel level] = ops := Option.some_inj.mp hops
  subst hops'
  refine (exec_dir_of_none ?_).trans h
  rcases List.prefix_cons_iff.mp hdone with rfl | ⟨t, rfl, ht⟩
  · rfl
  · rw [List.prefix_nil.mp ht]
    cases level <;> rfl

/-- An open collector is not driven high at any write: to be released it becomes an input
first, and to be pulled low it is set low first. -/
theorem outOps_low (hoc : benchIsOc role = true) (hops : benchOutOps role level = some ops)
    (hdone : done <+: ops) (h : ¬ (pad.dir = true ∧ pad.out = true)) :
    ¬ ((pad.exec done).dir = true ∧ (pad.exec done).out = true) := by
  have hgpo : role ≠ benchRoleGpo := by
    rintro rfl
    cases hoc
  unfold benchOutOps at hops
  rw [if_neg hgpo, if_pos hoc] at hops
  cases level with
  | false =>
      obtain rfl := Option.some_inj.mp hops
      simp only [List.prefix_cons_iff, List.prefix_nil] at hdone
      rcases hdone with rfl | ⟨-, rfl, rfl | ⟨-, rfl, rfl | ⟨-, rfl, rfl⟩⟩⟩
      · exact h
      · exact h
      · exact fun hhigh => Bool.false_ne_true hhigh.2
      · exact fun hhigh => Bool.false_ne_true hhigh.2
  | true =>
      rw [if_pos rfl] at hops
      have hfirst : ∃ rest, ops = .dirClr :: rest ∧ rest.any PadOp.setsDir = false := by
        split at hops
        next => exact ⟨_, (Option.some_inj.mp hops).symm, rfl⟩
        next => exact ⟨_, (Option.some_inj.mp hops).symm, rfl⟩
      obtain ⟨rest, rfl, hrest⟩ := hfirst
      rcases List.prefix_cons_iff.mp hdone with rfl | ⟨t, rfl, ht⟩
      · exact h
      · -- an input from the first write on
        have hnone : t.any PadOp.setsDir = false := by
          rw [List.any_eq_false] at hrest ⊢
          exact fun op hop => hrest op (ht.subset hop)
        have hdir : ((PadOp.apply pad .dirClr).exec t).dir = false := exec_dir_of_none hnone
        exact fun hhigh => Bool.false_ne_true (hdir.symm.trans hhigh.1)

/-- The pad of a selection was not reserved when it was selected. -/
def Bench.SelSpare (b : Bench) : Prop :=
  ∀ idx, b.selected = some idx → b.reserved.getLsbD idx = false

theorem select_spare (b : Bench) (v : Byte) : (b.select v).SelSpare := by
  intro idx hsel
  unfold Bench.select at hsel ⊢
  split at hsel
  next hvalid =>
    rw [if_pos hvalid]
    unfold Bench.selected at hsel
    split at hsel
    next hlt =>
      obtain rfl := Option.some_inj.mp hsel
      exact Bool.not_eq_true' _ ▸ (Bool.and_eq_true_iff.mp hvalid).2
    next => cases hsel
  next =>
    unfold Bench.selected at hsel
    cases hsel

/-- The tables of the tools are fixed. -/
structure Bench.SameTables (b b' : Bench) : Prop where
  role : b'.role = b.role
  reserved : b'.reserved = b.reserved

/-- What a write to a bench register can do. -/
inductive BenchWrite (b : Bench) : Bench → List PortOp → Prop
  | selects (v : Byte) : BenchWrite b (b.select v) []
  | drives {b' : Bench} (idx : Fin 11) (level : Bool) (ops : List PadOp)
      (hsel : b.selected = some idx) (hops : benchOutOps (b.role idx) level = some ops)
      (hsame : b.SameTables b') (hkept : b'.sel = b.sel) :
      BenchWrite b b' ((benchPad idx).on ops)
  | leaves {b' : Bench} (hsame : b.SameTables b') (hkept : b'.sel = b.sel) : BenchWrite b b' []

theorem benchWrite (hreg : reg ≤ 0x1E) (b : Bench) (d : Dac) (val : Byte) :
    BenchWrite b (b.regWrite d false reg val).1 (b.regWrite d false reg val).2.2 := by
  unfold Bench.regWrite
  split
  next => exact .selects val
  next =>
    split
    next =>
      dsimp only
      unfold Bench.gpioOut
      split
      next => exact .leaves ⟨rfl, rfl⟩ rfl
      next idx hsel =>
        split
        next ops hops => exact .drives idx _ ops hsel hops ⟨rfl, rfl⟩ rfl
        next => exact .leaves ⟨rfl, rfl⟩ rfl
    next =>
      split
      next => split <;> exact .leaves ⟨rfl, rfl⟩ rfl
      next =>
        rw [if_neg fun h : 0x20 ≤ reg ∧ reg ≤ 0x2C => by bv_omega]
        exact .leaves ⟨rfl, rfl⟩ rfl

end Operation

/-! ## What every access keeps -/

section Access

variable {c : Chip} {s : BenchPads} {a : BenchAccess} {port : Port} {idx : Fin 11}
  {level : Bool} {ops done : List PadOp}

theorem drives_of_outOps {b : Bench} (hspare : b.reserved.getLsbD idx = false)
    (hops : benchOutOps (b.role idx) level = some ops) : b.Drives idx := by
  refine ⟨hspare, ?_⟩
  unfold benchOutOps at hops
  split at hops
  next hgpo => exact Or.inl hgpo
  next =>
    split at hops
    next hoc => exact Or.inr hoc
    next => cases hops

/-- The writes of an operation up to any of them. -/
theorem Chip.Shielded.drives (h : c.Shielded port)
    (howned : ∀ idx, c.Owns (benchPad idx) → c.bench.reserved.getLsbD idx.val = true)
    (hspare : c.bench.reserved.getLsbD idx = false)
    (hops : benchOutOps (c.bench.role idx) level = some ops) (hdone : done <+: ops) :
    c.Shielded (port.exec ((benchPad idx).on done)) := by
  have hother (q : Pin) (hq : q ≠ benchPad idx) :
      port.exec ((benchPad idx).on done) q = port q := exec_on_of_ne hq.symm
  have hfree (q : Pin) (hq : c.Owns q) : q ≠ benchPad idx := by
    rintro rfl
    exact Bool.false_ne_true (hspare.symm.trans (howned idx hq))
  have hself : port.exec ((benchPad idx).on done) (benchPad idx) =
      (port (benchPad idx)).exec done := exec_on
  -- a pad of the bench is the selected one or keeps what it has
  have hpad {P : Pad → Prop} (idx' : Fin 11) (hkept : P (port (benchPad idx')))
      (hdriven : idx' = idx → P ((port (benchPad idx)).exec done)) :
      P (port.exec ((benchPad idx).on done) (benchPad idx')) := by
    by_cases heq : idx' = idx
    · subst heq
      rw [hself]
      exact hdriven rfl
    · rw [hother _ fun h => heq (benchPad_injective h)]
      exact hkept
  refine ⟨fun q hq => ?_, fun q hq => ?_, fun idx' hidx' => ?_, fun idx' hspare' hrole => ?_,
    fun idx' hspare' hrole => ?_, fun idx' hspare' hoc => ?_⟩
  · exact (hother q (hfree q hq)).trans (h.owned q hq)
  · rw [hother q (hfree q (Or.inl hq))]
    exact h.senses q hq
  · refine (hother _ fun heq => hidx' ?_).trans (h.other idx' hidx')
    rw [benchPad_injective heq]
    exact drives_of_outOps hspare hops
  · refine hpad (P := fun pad => pad.dir = false) idx' (h.input idx' hspare' hrole) ?_
    rintro rfl
    rw [hrole] at hops
    cases hops
  · refine hpad (P := fun pad => pad.dir = true) idx' (h.output idx' hspare' hrole) ?_
    rintro rfl
    rw [hrole] at hops
    exact outOps_dir hops hdone (h.output idx' hspare' hrole)
  · refine hpad (P := fun pad => ¬ (pad.dir = true ∧ pad.out = true)) idx'
      (h.openCollector idx' hspare' hoc) ?_
    rintro rfl
    exact outOps_low hoc hops hdone (h.openCollector idx' hspare' hoc)

/-- The tools as a mode set them up, over pads that they have kept apart. -/
structure BenchPads.Kept (c : Chip) (s : BenchPads) : Prop where
  same : c.bench.SameTables s.bench
  spare : s.bench.SelSpare
  shielded : c.Shielded s.port

/-- A write is to the selected pad, and every pad is kept apart after each of them. -/
theorem BenchPads.Kept.writes (h : s.Kept c)
    (howned : ∀ idx, c.Owns (benchPad idx) → c.bench.reserved.getLsbD idx.val = true)
    (ha : a.OnBench) :
    (∀ w ∈ s.writes a, ∃ idx, s.bench.selected = some idx ∧ w.pin = benchPad idx ∧
      c.bench.Drives idx) ∧
      ∀ done, done <+: s.writes a → c.Shielded (s.port.exec done) := by
  obtain ⟨⟨hrole, hreserved⟩, hsel, hshielded⟩ := h
  have hquiet (hnone : s.writes a = []) :
      (∀ w ∈ s.writes a, ∃ idx, s.bench.selected = some idx ∧ w.pin = benchPad idx ∧
        c.bench.Drives idx) ∧
        ∀ done, done <+: s.writes a → c.Shielded (s.port.exec done) := by
    rw [hnone]
    refine ⟨fun w hw => (List.not_mem_nil hw).elim, fun done hdone => ?_⟩
    rw [List.prefix_nil.mp hdone]
    exact hshielded
  cases a with
  | read reg levels => exact hquiet rfl
  | write reg val =>
      have hreg : reg ≤ 0x1E := ha.2
      have hwrite := benchWrite hreg s.bench s.dac val
      generalize (s.bench.regWrite s.dac false reg val).1 = b at hwrite
      generalize hops : (s.bench.regWrite s.dac false reg val).2.2 = ops at hwrite
      have hwrites : s.writes (.write reg val) = ops := hops
      cases hwrite with
      | selects | leaves => exact hquiet hwrites
      | drives idx level ops hidx hout =>
          rw [hrole] at hout
          have hspare : c.bench.reserved.getLsbD idx = false := hreserved ▸ hsel idx hidx
          rw [hwrites]
          refine ⟨fun w hw => ⟨idx, hidx, pin_of_mem_on hw, drives_of_outOps hspare hout⟩,
            fun done hdone => ?_⟩
          obtain ⟨pops, hpops, rfl⟩ := List.prefix_map_iff.mp hdone
          exact hshielded.drives howned hspare hout hpops

/-- A step of the tools. -/
theorem BenchPads.Kept.next (h : s.Kept c)
    (howned : ∀ idx, c.Owns (benchPad idx) → c.bench.reserved.getLsbD idx.val = true)
    (ha : a.OnBench) : (s.next a).Kept c := by
  have hshielded := (h.writes howned ha).2 (s.writes a) List.prefix_rfl
  obtain ⟨⟨hrole, hreserved⟩, hsel, hpads⟩ := h
  cases a with
  | read reg levels =>
      obtain ⟨stat, hstat⟩ := regRead_stat s.bench s.dac levels reg
      show BenchPads.Kept c { s with bench := (s.bench.regRead s.dac levels reg).2 }
      rw [hstat]
      exact ⟨⟨hrole, hreserved⟩, hsel, hpads⟩
  | write reg val =>
      have hreg : reg ≤ 0x1E := ha.2
      have hwrite := benchWrite hreg s.bench s.dac val
      show BenchPads.Kept c
        { bench := (s.bench.regWrite s.dac false reg val).1
          dac := (s.bench.regWrite s.dac false reg val).2.1
          port := s.port.exec (s.writes (.write reg val)) }
      generalize (s.bench.regWrite s.dac false reg val).1 = b at hwrite
      generalize (s.bench.regWrite s.dac false reg val).2.2 = ops at hwrite
      have hkept (hsame : s.bench.SameTables b) (hb : b.sel = s.bench.sel) :
          c.bench.SameTables b ∧ b.SelSpare := by
        refine ⟨⟨hsame.role.trans hrole, hsame.reserved.trans hreserved⟩, fun idx hidx => ?_⟩
        rw [hsame.reserved]
        refine hsel idx ?_
        unfold Bench.selected at hidx ⊢
        rwa [← hb]
      cases hwrite with
      | selects v =>
          refine ⟨⟨?_, ?_⟩, select_spare s.bench v, hshielded⟩
          · refine Eq.trans ?_ hrole
            unfold Bench.select
            split <;> rfl
          · refine Eq.trans ?_ hreserved
            unfold Bench.select
            split <;> rfl
      | drives idx level ops hidx hout hsame hb =>
          exact ⟨(hkept hsame hb).1, (hkept hsame hb).2, hshielded⟩
      | leaves hsame hb => exact ⟨(hkept hsame hb).1, (hkept hsame hb).2, hshielded⟩

end Access

/-! ## Entering -/

section Entering

variable {c : Chip} {idx : Fin 11}

theorem bench_cases (idx : Fin 11) : idx = 4 ∨ idx = 5 ∨ ∃ ch, idx = benchOf ch := by
  revert idx
  decide

/-- The pads of the bus stay reserved. -/
def Bench.SparesBus (b : Bench) : Prop :=
  b.reserved.getLsbD (4 : Fin 11) = true ∧ b.reserved.getLsbD (5 : Fin 11) = true

theorem reset_bus (b : Bench) : b.reset.SparesBus := by
  show benchI2cMask.getLsbD 4 = true ∧ benchI2cMask.getLsbD 5 = true
  decide

theorem Bench.SparesBus.reserve {b : Bench} (h : b.SparesBus) (i : Fin 11) :
    (b.reserve i).SparesBus :=
  ⟨reserved_reserve.mpr (Or.inl h.1), reserved_reserve.mpr (Or.inl h.2)⟩

theorem counter_enter_bus (c : Counter) (b : Bench) (d : Dac) (levels : Pin → Bool)
    (file : Option (List Byte)) : (c.enter b d levels file).2.1.SparesBus := by
  have hroles : ((List.finRange 9).foldl (counterApplyRole file) b.reset).SparesBus := by
    unfold Bench.SparesBus
    rw [foldl_counterRole_reserved]
    exact reset_bus b
  exact List.foldlRecOn (motive := Bench.SparesBus) _ _ hroles fun b h ch _ => by
    split
    next => exact h.reserve _
    next => exact h

theorem servo_enter_bus (s : Servo) (b : Bench) (file : Option (List Byte)) :
    (s.enter b file).2.1.SparesBus := by
  have hroles : ((List.finRange 8).foldl (servoApplyRole file) (0, b.reset)).2.SparesBus := by
    refine List.foldlRecOn (motive := fun cfg : BitVec 16 × Bench => cfg.2.SparesBus) _ _
      (reset_bus b) fun cfg h ch _ => ?_
    unfold servoApplyRole
    split
    next => exact h
    next =>
      split
      next => exact h.reserve _
      next => split <;> exact h
  exact hroles.reserve 6

/-- A role with a direction gives it: only an output is one. -/
theorem benchRoleOps_dir {role : Byte} (h : benchRoleDirected role = true) (pad : Pad) :
    (pad.exec (benchRoleOps role)).dir = (role == benchRoleGpo) := by
  unfold benchRoleDirected at h
  simp only [Bool.or_eq_true, beq_iff_eq] at h
  rcases h with ((rfl | rfl) | rfl) | rfl <;> rfl

/-- What a mode has set up for the tools. -/
structure Chip.Prepared (c : Chip) : Prop where
  owned : ∀ idx, c.Owns (benchPad idx) → c.bench.reserved.getLsbD idx.val = true
  senses : ∀ q, c.Senses q → (c.port q).dir = false
  directed : ∀ idx : Fin 11, c.bench.reserved.getLsbD idx = false →
    benchRoleDirected (c.bench.role idx) = true →
    (c.port (benchPad idx)).dir = (c.bench.role idx == benchRoleGpo)

theorem Chip.Prepared.shielded (h : c.Prepared) : c.Shielded c.port := by
  refine ⟨fun _ _ => rfl, h.senses, fun _ _ => rfl, fun idx hspare hrole => ?_,
    fun idx hspare hrole => ?_, fun idx hspare hoc => ?_⟩
  · rw [h.directed idx hspare (by rw [hrole]; decide), hrole]
    rfl
  · rw [h.directed idx hspare (by rw [hrole]; decide), hrole]
    rfl
  · have hrole : c.bench.role idx = benchRoleOc ∨ c.bench.role idx = benchRoleOcPu := by
      simpa [benchIsOc] using hoc
    have hdir : (c.port (benchPad idx)).dir = false := by
      rcases hrole with hrole | hrole <;>
      · rw [h.directed idx hspare (by rw [hrole]; decide), hrole]
        rfl
    exact fun hhigh => Bool.false_ne_true (hdir.symm.trans hhigh.1)

/-- COUNTER mode sets the pads up, whatever the file. -/
theorem enterCounter_prepared (c : Chip) (hmode : c.mode = .counter) :
    c.enterCounter.Prepared := by
  have hspec := counter_applyCfg_spec c.counter c.bench (c.file cntrName)
  have hbus := counter_enter_bus c.counter c.bench (c.setEoen false).dac c.world.levels
    (c.file cntrName)
  have hreserved (ch : Fin 9) : c.enterCounter.bench.reserved.getLsbD (benchOf ch) = true ↔
      counterEnabled (c.file cntrName) ch = true := (hspec ch).1
  have hrole (ch : Fin 9) : c.enterCounter.bench.role (benchOf ch) =
      cntrBenchRole (c.file cntrName) ch := (hspec ch).2
  have hsenses (q : Pin) : c.enterCounter.Senses q ↔
      ∃ ch, counterEnabled (c.file cntrName) ch = true ∧ q = channelPad ch := by
    unfold Chip.Senses
    rw [show c.enterCounter.mode = .counter from hmode]
    rfl
  -- routing D0 to the converter gives no direction
  have hmux (ch : Fin 9) : (if cntrBenchRole (c.file cntrName) 0 = benchRoleDac ∧ ch = 0 then
      [PadOp.pmuxen true] else []).any PadOp.setsDir = false := by
    split <;> rfl
  refine ⟨fun idx howns => ?_, fun q hq => ?_, fun idx hspare hdirected => ?_⟩
  · rcases howns with hsensed | hpad | hpad | ⟨hservo, -⟩
    · obtain ⟨ch, hcounts, hpad⟩ := (hsenses _).mp hsensed
      rw [← benchPad_benchOf] at hpad
      rw [benchPad_injective hpad]
      exact (hreserved ch).mpr hcounts
    · rw [benchPad_injective hpad]
      exact hbus.1
    · rw [benchPad_injective hpad]
      exact hbus.2
    · rw [show c.enterCounter.mode = .counter from hmode] at hservo
      cases hservo
  · obtain ⟨ch, hcounts, rfl⟩ := (hsenses q).mp hq
    rw [enterCounter_pad, counterEntry, if_pos hcounts, pad_exec_append, exec_dir_of_none (hmux ch),
      counterPinInput, List.append_assoc, pad_exec_append]
    apply exec_dir_of_none
    split_ifs <;> rfl
  -- the two pads of the bus are reserved; the others are channels
  · rcases bench_cases idx with rfl | rfl | ⟨ch, rfl⟩
    · exact absurd (hspare.symm.trans hbus.1) Bool.false_ne_true
    · exact absurd (hspare.symm.trans hbus.2) Bool.false_ne_true
    · have hcounts : ¬ counterEnabled (c.file cntrName) ch = true := fun h =>
        Bool.false_ne_true (hspare.symm.trans ((hreserved ch).mpr h))
      rw [hrole] at hdirected
      rw [benchPad_benchOf, enterCounter_pad, counterEntry, if_neg hcounts, pad_exec_append,
        exec_dir_of_none (hmux ch), hrole]
      exact benchRoleOps_dir hdirected _

/-- SERVO mode sets the pads up, whatever the file. -/
theorem enterServo_prepared (c : Chip) (hmode : c.mode = .servo) : c.enterServo.Prepared := by
  have hspec := applyCfg_spec c.servo c.bench (c.file srvoName)
  have hbus := servo_enter_bus c.servo c.bench (c.file srvoName)
  have hreserved (ch : Fin 8) :
      c.enterServo.bench.reserved.getLsbD (benchOf ch.castSucc) = true ↔
        srvoRole (c.file srvoName) ch = some srvoRoleServo := (hspec ch).2.1
  have hrole (ch : Fin 8) : c.enterServo.bench.role (benchOf ch.castSucc) =
      srvoBenchRole (c.file srvoName) ch := (hspec ch).2.2
  have hestop : c.enterServo.bench.reserved.getLsbD (6 : Fin 11) = true :=
    reserved_reserve.mpr (Or.inr rfl)
  have hsenses (q : Pin) : c.enterServo.Senses q ↔ q = intPad := by
    unfold Chip.Senses
    rw [show c.enterServo.mode = .servo from hmode]
  refine ⟨fun idx howns => ?_, fun q hq => ?_, fun idx hspare hdirected => ?_⟩
  · rcases howns with hsensed | hpad | hpad | ⟨-, ch, hservo, hpad⟩
    · rw [benchPad_injective (((hsenses _).mp hsensed).trans (benchPad_benchOf 8).symm)]
      exact hestop
    · rw [benchPad_injective hpad]
      exact hbus.1
    · rw [benchPad_injective hpad]
      exact hbus.2
    · rw [benchPad_injective (hpad.trans (benchPad_benchOf ch.castSucc).symm)]
      exact (hreserved ch).mpr hservo
  · rw [(hsenses q).mp hq]
    exact congrArg Pad.dir (enterServo_pad c 8)
  · rcases bench_cases idx with rfl | rfl | ⟨ch, rfl⟩
    · exact absurd (hspare.symm.trans hbus.1) Bool.false_ne_true
    · exact absurd (hspare.symm.trans hbus.2) Bool.false_ne_true
    -- channel 8 is the e-stop line, which is reserved
    · by_cases hch : ch.val < 8
      · obtain ⟨ch, rfl⟩ : ∃ ch' : Fin 8, ch = ch'.castSucc := ⟨ch.castLT hch, rfl⟩
        have hservo : srvoRole (c.file srvoName) ch ≠ some srvoRoleServo := fun h =>
          Bool.false_ne_true (hspare.symm.trans ((hreserved ch).mpr h))
        rw [hrole] at hdirected
        have hpad := exec_enter c.servo c.bench (c.file srvoName) c.port ch
        rw [srvoPadOps, if_neg hservo] at hpad
        rw [benchPad_benchOf, hrole, ← benchRoleOps_dir hdirected (c.port (bankPad ch)), ← hpad]
        rfl
      · have hlast : ch = 8 := Fin.ext (by omega)
        subst hlast
        exact absurd (hspare.symm.trans hestop) Bool.false_ne_true

theorem setMode_prepared {m : Mode} (hm : m = .counter ∨ m = .servo) (hne : m ≠ c.mode) :
    (c.setMode m).Prepared := by
  rw [setMode_ne hne]
  rcases hm with rfl | rfl
  · exact enterCounter_prepared _ rfl
  · exact enterServo_prepared _ rfl

theorem kept_entered (h : c.Prepared) (hbench : c.bench.Entered) : c.benchPads.Kept c := by
  refine ⟨⟨rfl, rfl⟩, fun idx hidx => ?_, h.shielded⟩
  have hnone : c.bench.selected = none := by
    unfold Bench.selected
    rw [hbench.sel]
    rfl
  cases hnone.symm.trans hidx

end Entering

/-- After a counter or servo mode is entered with any file, for every list of accesses to the
bench registers: a write to the port changes the selected pad only, a spare one whose role is
an output or an open collector; the pads are kept apart after every write; and no role
changes. -/
theorem bench_isolated (cfg : Config.Client) (before : List ChipEvent) (m : Mode)
    (as : List BenchAccess) :
    let c₀ := run Chip.next (.powerOn cfg) before
    let c := c₀.setMode m
    m = .counter ∨ m = .servo → m ≠ c₀.mode → (∀ a ∈ as, a.OnBench) →
    let s := run BenchPads.next c.benchPads as
    s.bench.role = c.bench.role ∧ c.Shielded s.port ∧
      ∀ a : BenchAccess, a.OnBench → ∀ done w rest, s.writes a = done ++ w :: rest →
        c.Shielded (s.port.exec done) ∧
          ∀ q, s.port.exec (done ++ [w]) q ≠ s.port.exec done q →
            ∃ idx, s.bench.selected = some idx ∧ q = benchPad idx ∧ c.bench.Drives idx := by
  intro c₀ c hm hne has s
  have hprepared : c.Prepared := setMode_prepared hm hne
  have hstart : c.benchPads.Kept c := kept_entered hprepared (setMode_bench hm hne)
  have hkept : s.Kept c := by
    refine Runs.run_along (C := fun _ a => a.OnBench)
      (fun _ _ h ha => h.next hprepared.owned ha) ?_ hstart
    exact Runs.along_of_forall fun a ha _ => has a ha
  refine ⟨hkept.same.role, hkept.shielded, fun a ha done w rest hsplit => ?_⟩
  obtain ⟨hpins, hdone⟩ := hkept.writes hprepared.owned ha
  refine ⟨hdone done ⟨w :: rest, hsplit.symm⟩, fun q hq => ?_⟩
  have hpin : w.pin = q := by
    by_contra hne
    refine hq ?_
    rw [exec_append]
    exact exec_of_ne fun w' hw' => by rwa [List.mem_singleton.mp hw']
  obtain ⟨idx, hidx, hpad, hdrives⟩ := hpins w (by rw [hsplit]; simp)
  exact ⟨idx, hidx, hpin.symm.trans hpad, hdrives⟩

/-- An open collector on D1 that is pulled low and released. -/
theorem bench_isolated_released :
    let c := (Chip.powerOn (holding [(cntrName, [1, 0xE8, 0x03, 1, 14])])).setMode .counter
    c.Shielded (run BenchPads.next c.benchPads
      [.write 0x15 1, .write 0x16 0, .write 0x16 1]).port :=
  (bench_isolated (holding [(cntrName, [1, 0xE8, 0x03, 1, 14])]) [] .counter
    [.write 0x15 1, .write 0x16 0, .write 0x16 1] (Or.inl rfl) (by decide +kernel)
    (by decide)).2.1

end SlowBus.Modes
