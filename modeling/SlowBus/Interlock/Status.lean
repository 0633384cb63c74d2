import SlowBus.Interlock.Veto
import Mathlib.Data.Nat.ModEq

/-!
# The status sequence

Phase 3 is the only writer of the status buffer. It counts the slots whose state or truth value
it reports differently than the tick before, in a counter of 16 bits, so over fewer than 2^16
changes an unchanged counter means an unchanged report.
-/

namespace SlowBus.Interlock

open Fallible

/-- What the status buffer reports of a slot. -/
def StatusBuffer.report (b : StatusBuffer) (s : Slot) : SlotState × TfState :=
  ((b.slots s).state, (b.slots s).tf)

/-- What there is to report of a slot. -/
def Persist.current (p : Persist) (s : Slot) : SlotState × TfState :=
  ((p.slots s).state, reportedTf p s)

/-- The number of slots that `b'` reports differently. -/
def StatusBuffer.changes (b b' : StatusBuffer) : Nat :=
  (List.finRange maxSlots).countP fun s => b.report s ≠ b'.report s

/-- Calls other than ticks, restores, poisonings and ticks, with the number of changes that the
ticks report. -/
inductive StatusRun (plat : Platform) (m : Machine) : Nat → Machine → Prop where
  | refl : StatusRun plat m 0 m
  | call {n : Nat} {m₁ m₂ : Machine} {op : Op} {r : AdminResult} (hrun : StatusRun plat m n m₁)
      (hop : ∀ env, op ≠ .tick env) (hcall : op.run plat m₁ = .ok (r, m₂)) :
      StatusRun plat m n m₂
  | restore {n : Nat} {m₁ m₂ : Machine} (hrun : StatusRun plat m n m₁)
      (hrestore : interlockWarmRestore plat m₁ = .ok m₂) : StatusRun plat m n m₂
  | poison {n : Nat} {m₁ : Machine} (hrun : StatusRun plat m n m₁) (s : Slot) :
      StatusRun plat m n (m₁.poison s)
  | tick {n : Nat} {m₁ m₂ : Machine} {env : TickEnv} (hrun : StatusRun plat m n m₁)
      (htick : interlockTickAll env m₁ = .ok m₂) :
      StatusRun plat m (n + m₁.status.changes m₂.status) m₂

section Status

variable {plat : Platform} {m m' : Machine} {env : TickEnv}

/-! ## One step -/

theorem headerOk_of_bind {α : Type} {p : Persist} {f : Unit → Except Fault α} {a : α}
    (h : (verifyPersistOrPanic p >>= f) = .ok a) : p.HeaderOk := by
  obtain ⟨⟨⟩, hheader, -⟩ := bind_eq_ok.mp h
  exact hheader

/-- Only ticks write the status buffer. -/
theorem Op.status_of_run {op : Op} {r : AdminResult} (hop : ∀ env, op ≠ .tick env)
    (hrun : op.run plat m = .ok (r, m')) : m'.status = m.status := by
  cases op with
  | setSlotDsl slot text =>
      obtain ⟨r₁, m₁, hrun₁, hout⟩ :=
        interlockSetSlotDsl_outcome plat slot text (headerOk_of_bind hrun)
      cases hrun₁.symm.trans hrun
      cases hout <;> rfl
  | armCompiled slot id =>
      obtain ⟨r₁, m₁, hrun₁, hout⟩ :=
        interlockArmSlotCompiled_outcome slot id (headerOk_of_bind hrun)
      cases hrun₁.symm.trans hrun
      cases hout <;> rfl
  | disarm slot =>
      obtain ⟨r₁, m₁, hrun₁, hout⟩ := interlockDisarmSlot_outcome slot (headerOk_of_bind hrun)
      cases hrun₁.symm.trans hrun
      cases hout <;> rfl
  | requestClear =>
      cases hrun
      rfl
  | tick env => exact absurd rfl (hop env)

theorem warmRestore_status (hrun : interlockWarmRestore plat m = .ok m') :
    m'.status = m.status := by
  obtain ⟨-, -, hrun⟩ := bind_eq_ok.mp hrun
  obtain rfl := Except.ok.inj hrun
  refine List.foldlRecOn (motive := fun m' : Machine => m'.status = m.status) _ _ rfl ?_
  intro m₁ hsame s _
  have hout := warmRestoreSlot_outcome plat m₁ s
  generalize warmRestoreSlot plat m₁ s = m₂ at hout
  cases hout <;> exact hsame

theorem tickEvalSlot_status {s : Slot} (hrun : tickEvalSlot env m s = .ok m') :
    m'.status.slots = m.status.slots ∧ m'.status.statusSeq = m.status.statusSeq := by
  unfold tickEvalSlot at hrun
  dsimp only at hrun
  split at hrun
  · cases hrun
    exact ⟨rfl, rfl⟩
  · split at hrun
    · split at hrun
      · cases hrun
      · cases hrun
        exact ⟨rfl, rfl⟩
    · split at hrun <;> cases hrun <;> exact ⟨rfl, rfl⟩

/-- The counter goes up by the number of changes. -/
theorem foldl_count (changed : Slot → Bool) (slots : List Slot) {seq : Nat} (hseq : seq < 2 ^ 16) :
    slots.foldl (fun seq s => if changed s then (seq + 1) % 2 ^ 16 else seq) seq =
      (seq + slots.countP changed) % 2 ^ 16 := by
  induction slots generalizing seq with
  | nil => exact (Nat.mod_eq_of_lt hseq).symm
  | cons s slots ih =>
      rw [List.foldl_cons]
      split
      next hs =>
        rw [ih (Nat.mod_lt _ (by decide)), List.countP_cons_of_pos hs, Nat.mod_add_mod]
        congr 1
        omega
      next hs => rw [ih hseq, List.countP_cons_of_neg hs]

/-- A tick is its last phase, after phases that keep what was reported. -/
theorem tick_status (hrun : interlockTickAll env m = .ok m') :
    ∃ m₁ : Machine, m' = tickStatus env m₁ ∧ m₁.status.slots = m.status.slots ∧
      m₁.status.statusSeq = m.status.statusSeq := by
  obtain ⟨-, -, hrun⟩ := bind_eq_ok.mp hrun
  obtain ⟨m₂, heval, hrun⟩ := bind_eq_ok.mp hrun
  obtain rfl := Except.ok.inj hrun
  have hclear : (tickClear env m).status = m.status := by
    unfold tickClear
    split <;> rfl
  have hkept : m₂.status.slots = m.status.slots ∧
      m₂.status.statusSeq = m.status.statusSeq := by
    refine foldlM_invariant (P := fun m₁ : Machine => m₁.status.slots = m.status.slots ∧
      m₁.status.statusSeq = m.status.statusSeq) ?_ ⟨by rw [hclear], by rw [hclear]⟩ heval
    intro m₁ s m₂ hsame hslot
    obtain ⟨hslots, hseq⟩ := tickEvalSlot_status hslot
    exact ⟨hslots.trans hsame.1, hseq.trans hsame.2⟩
  have hlatch : (tickDrive (tickLatch env m₂)).status = m₂.status := by
    unfold tickDrive tickLatch
    split <;> rfl
  exact ⟨_, rfl, hlatch ▸ hkept.1, hlatch ▸ hkept.2⟩

/-- A tick reports the slots as they are, and counts what it reports differently. -/
theorem tick_reports (hrun : interlockTickAll env m = .ok m') (hseq : m.status.statusSeq < 2 ^ 16) :
    (∀ s, m'.status.report s = m'.persist.current s) ∧
      m'.status.statusSeq = (m.status.statusSeq + m.status.changes m'.status) % 2 ^ 16 := by
  obtain ⟨m₁, rfl, hslots, hsame⟩ := tick_status hrun
  refine ⟨fun _ => rfl, ?_⟩
  have hchanged : statusChanged m₁.persist m₁.status = fun s =>
      decide (m.status.report s ≠ (tickStatus env m₁).status.report s) := by
    funext s
    rw [statusChanged, hslots, Bool.eq_iff_iff, decide_eq_true_eq]
    simp only [Bool.or_eq_true, bne_iff_ne, StatusBuffer.report, tickStatus, ne_eq,
      Prod.mk.injEq, not_and_or]
  show List.foldl _ _ _ = _
  rw [foldl_count _ _ (hsame ▸ hseq), hsame, hchanged]
  rfl

/-! ## Runs -/

theorem report_eq_of_changes {b b' : StatusBuffer} (h : b.changes b' = 0) (s : Slot) :
    b'.report s = b.report s := by
  have hsame := List.countP_eq_zero.mp h s (List.mem_finRange s)
  rw [decide_eq_true_eq, not_not] at hsame
  exact hsame.symm

/-- The counter over a run. -/
theorem StatusRun.seq {n : Nat} (h : StatusRun plat m n m') (hseq : m.status.statusSeq < 2 ^ 16) :
    m'.status.statusSeq = (m.status.statusSeq + n) % 2 ^ 16 ∧
      (n = 0 → ∀ s, m'.status.report s = m.status.report s) := by
  induction h with
  | refl => exact ⟨(Nat.mod_eq_of_lt hseq).symm, fun _ _ => rfl⟩
  | call _ hop hcall ih =>
      rw [Op.status_of_run hop hcall]
      exact ih
  | restore _ hrestore ih =>
      rw [warmRestore_status hrestore]
      exact ih
  | poison _ s ih => exact ih
  | @tick n m₁ m₂ env _ htick ih =>
      have hlt : m₁.status.statusSeq < 2 ^ 16 := by
        rw [ih.1]
        exact Nat.mod_lt _ (by decide)
      refine ⟨?_, fun hzero s => ?_⟩
      · rw [(tick_reports htick hlt).2, ih.1, Nat.mod_add_mod, Nat.add_assoc]
      · obtain ⟨hn, hchanges⟩ := Nat.add_eq_zero_iff.mp hzero
        exact (report_eq_of_changes hchanges s).trans (ih.2 hn s)

/-- From any boot on, every tick reports the slots as they are and counts what it reports
differently than the tick before. Polls fewer than 2^16 changes apart that find the same number
find the same report. -/
theorem status_sequence {persist : Persist} {trace : List DriveEvent} {k n : Nat}
    (hpast : StatusRun plat (.boot persist trace) k m) (hrun : StatusRun plat m n m') :
    (∀ env m'', interlockTickAll env m' = .ok m'' →
      (∀ s, m''.status.report s = m''.persist.current s) ∧
        m''.status.statusSeq = (m'.status.statusSeq + m'.status.changes m''.status) % 2 ^ 16) ∧
      m'.status.statusSeq = (m.status.statusSeq + n) % 2 ^ 16 ∧
      (n < 2 ^ 16 → m'.status.statusSeq = m.status.statusSeq →
        ∀ s, m'.status.report s = m.status.report s) := by
  have hlt : m.status.statusSeq < 2 ^ 16 := by
    rw [(hpast.seq (Nat.two_pow_pos 16)).1]
    exact Nat.mod_lt _ (by decide)
  obtain ⟨hseq, hsame⟩ := hrun.seq hlt
  have hlt' : m'.status.statusSeq < 2 ^ 16 := hseq ▸ Nat.mod_lt _ (by decide)
  refine ⟨fun env m'' htick => tick_reports htick hlt', hseq, fun hn heq => hsame ?_⟩
  rw [heq] at hseq
  have hmod : m.status.statusSeq + 0 ≡ m.status.statusSeq + n [MOD 2 ^ 16] := by
    rw [Nat.ModEq, ← hseq, Nat.add_zero, Nat.mod_eq_of_lt hlt]
  exact (Nat.ModEq.eq_of_lt_of_lt (Nat.ModEq.add_left_cancel' _ hmod) (by decide) hn).symm

/-- The first tick after an arm reports one slot differently. -/
theorem status_sequence_bench : ∃ r m m', interlockSetSlotDsl benchPlatform 1 benchText
      (.boot .cold []) = .ok (r, m) ∧ interlockTickAll (quietTick 1000) m = .ok m' ∧
    m.status.changes m'.status = 1 ∧ (∀ s, m'.status.report s = m'.persist.current s) ∧
    m'.status.statusSeq = 1 := by
  obtain ⟨⟨r, m⟩, harm, htest⟩ := exists_of_succeedsWith
    (x := interlockSetSlotDsl benchPlatform 1 benchText (.boot .cold []))
    (p := fun x => succeedsWith (interlockTickAll (quietTick 1000) x.2) fun m' =>
      decide (x.2.status.statusSeq = 0 ∧ x.2.status.changes m'.status = 1)) (by decide +kernel)
  obtain ⟨m', htick, htest⟩ := exists_of_succeedsWith htest
  obtain ⟨hzero, hone⟩ := of_decide_eq_true htest
  have hcall : Op.run benchPlatform (.setSlotDsl 1 benchText) (.boot .cold []) = .ok (r, m) :=
    harm
  have hpast : StatusRun benchPlatform (.boot .cold []) 0 m :=
    .call .refl (fun env h => by cases h) hcall
  obtain ⟨hreport, hseq⟩ := (status_sequence hpast .refl).1 _ m' htick
  have hfinal : m'.status.statusSeq = 1 := by
    rw [hseq, hzero, hone, Nat.zero_add]
    rfl
  exact ⟨r, m, m', harm, htick, hone, hreport, hfinal⟩

end Status

end SlowBus.Interlock
