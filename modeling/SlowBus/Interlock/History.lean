import SlowBus.Interlock.Glitch
import SlowBus.Interlock.Sampled

/-!
# What a slot was evaluated on

From the arming of a slot on, each tick evaluates it on the pins it claimed and the samples of
the tick. Its runtime arrays are what these evaluations left, one after another, in cleared
arrays: other calls and other slots do not touch them.
-/

namespace SlowBus.Interlock

open Fallible

/-- What `eval_slot` leaves in the runtime arrays, over given samples. -/
def nextRuntime (inst : Inst) (rt : SlotRuntime) (raw : Input → Nat) : SlotRuntime :=
  let (vals, rt) := sampledInputs raw 0 inst.inputs rt
  (evalWatches inst.inputs vals 0 inst.watches rt).2

/-- The samples slot `s` was evaluated on since it was armed or the machine booted, the oldest
first. -/
inductive Evaluated (plat : Platform) (s : Slot) : List (Input → Nat) → Machine → Prop where
  | armed {m m' : Machine} {text : Text} {r : AdminResult} (hreach : Reachable plat m)
      (harm : interlockSetSlotDsl plat s text m = .ok (r, m')) (hok : r.status = .ok) :
      Evaluated plat s [] m'
  | booted {cfg : Config} {ms : Nat} {persist : Persist} {trace : List DriveEvent} {b : Bringup}
      (hboot : bootUp plat cfg ms persist trace = .ok b) : Evaluated plat s [] b.machine
  | call {past : List (Input → Nat)} {m m' : Machine} {op : Op} {r : AdminResult}
      (hpast : Evaluated plat s past m) (hop : ∀ env, op ≠ .tick env)
      (hkeep : ¬op.Releases s m r) (hrun : op.run plat m = .ok (r, m')) : Evaluated plat s past m'
  | tick {past : List (Input → Nat)} {m m' : Machine} {env : TickEnv}
      (hpast : Evaluated plat s past m) (htick : interlockTickAll env m = .ok m') :
      Evaluated plat s (past ++ [rawSample m.hal (env.samples s)]) m'

section History

variable {plat : Platform} {m m' : Machine} {held : Holdings} {s t : Slot} {env : TickEnv}
  {past : List (Input → Nat)} {inst inst' : Inst}

/-! ## One tick -/

theorem nextRuntime_congr
    (h : { inst with tfState := TfState.unevaluated } =
      { inst' with tfState := TfState.unevaluated }) : nextRuntime inst = nextRuntime inst' := by
  have hinputs : inst.inputs = inst'.inputs := (congrArg Inst.inputs h :)
  have hwatches : inst.watches = inst'.watches := (congrArg Inst.watches h :)
  funext rt raw
  unfold nextRuntime
  rw [hinputs, hwatches]

theorem evalSlot_runtime {hal : Hal} {samples : Samples} {rt : SlotRuntime} {e : SlotEval}
    (h : evalSlot hal samples inst rt = some e) :
    e.runtime = nextRuntime inst rt (rawSample hal samples) := by
  rw [evalSlot_sampled] at h
  obtain ⟨b, -, rfl⟩ := Option.map_eq_some_iff.mp h
  rfl

/-- Evaluating one slot touches no other slot's runtime arrays. -/
theorem tickEvalSlot_runtime (hrun : tickEvalSlot env m t = .ok m') :
    (t ≠ s → m'.runtime s = m.runtime s) ∧
      (m.persist.Runs t → m'.runtime t =
        nextRuntime (m.persist.inst t) (m.runtime t) (rawSample m.hal (env.samples t))) := by
  unfold tickEvalSlot at hrun
  dsimp only at hrun
  split at hrun
  next hstate =>
    cases hrun
    exact ⟨fun _ => rfl, fun hruns => absurd hruns.1 hstate⟩
  split at hrun
  next hid =>
    split at hrun
    · cases hrun
    next e heval =>
      cases hrun
      refine ⟨fun hts => Function.update_of_ne (Ne.symm hts) .., fun _ => ?_⟩
      exact (Function.update_self ..).trans (evalSlot_runtime heval)
  next hid =>
    split at hrun
    all_goals
      cases hrun
      exact ⟨fun _ => rfl, fun hruns => absurd hruns.2 hid⟩

/-- The evaluation phase, over the slots still to come. -/
theorem tickEval_runtime {slots : List Slot} (hnodup : slots.Nodup) (h : Settled plat m held)
    (hruns : m.persist.Runs s) (hrun : slots.foldlM (tickEvalSlot env) m = .ok m') :
    m'.runtime s = if s ∈ slots then
      nextRuntime (m.persist.inst s) (m.runtime s) (rawSample m.hal (env.samples s))
    else m.runtime s := by
  induction slots generalizing m with
  | nil =>
      cases hrun
      rfl
  | cons t slots ih =>
      obtain ⟨hnot, hnodup⟩ := List.nodup_cons.mp hnodup
      rw [List.foldlM_cons] at hrun
      obtain ⟨m₁, hslot, hrest⟩ := bind_eq_ok.mp hrun
      obtain ⟨hother, hself⟩ := tickEvalSlot_runtime (s := s) hslot
      obtain ⟨m₂, hslot', hkeep⟩ := tickEvalSlot_returns env h t
      cases hslot'.symm.trans hslot
      have hstep := ih hnodup (h.of_evalKeeps hkeep) ((hkeep.keeps s).runs.mpr hruns) hrest
      rw [hstep, nextRuntime_congr (hkeep.keeps s).inst, hkeep.hal]
      by_cases hts : t = s
      · subst hts
        rw [if_neg hnot, if_pos List.mem_cons_self, hself hruns]
      · rw [hother hts]
        simp only [List.mem_cons, Ne.symm hts, false_or]

/-- A tick evaluates each running slot once, on the pins and the samples of that tick. -/
theorem interlockTickAll_runtime (h : Settled plat m held) (hruns : m.persist.Runs s)
    (htick : interlockTickAll env m = .ok m') :
    m'.runtime s =
      nextRuntime (m.persist.inst s) (m.runtime s) (rawSample m.hal (env.samples s)) := by
  obtain ⟨-, -, hrun⟩ := bind_eq_ok.mp htick
  obtain ⟨m₁, heval, hrun⟩ := bind_eq_ok.mp hrun
  obtain rfl := Except.ok.inj hrun
  have hkeeps : KeepsSlot m.persist (tickClear env m).persist s := tickClear_keeps s
  have hclear : (tickClear env m).runtime = m.runtime ∧ (tickClear env m).hal = m.hal := by
    unfold tickClear
    split <;> exact ⟨rfl, rfl⟩
  have hlatch : (tickLatch env m₁).runtime = m₁.runtime := by
    unfold tickLatch
    split <;> rfl
  have hphase := tickEval_runtime (List.nodup_finRange maxSlots) (tickClear_settled env h)
    (hkeeps.runs.mpr hruns) heval
  rw [if_pos (List.mem_finRange s), nextRuntime_congr hkeeps.inst, hclear.1, hclear.2] at hphase
  exact (congrFun hlatch s).trans hphase

/-! ## Calls and boots -/

/-- A call that neither ticks nor releases a slot leaves its runtime arrays. -/
theorem Op.runtime_of_run {op : Op} {r : AdminResult} (h : Settled plat m held)
    (hop : ∀ env, op ≠ .tick env) (hkeep : ¬op.Releases s m r)
    (hrun : op.run plat m = .ok (r, m')) : m'.runtime s = m.runtime s := by
  have hheader := Persist.headerOk_of_isValid h.valid
  cases op with
  | setSlotDsl slot text =>
      obtain ⟨r₁, m₁, hrun₁, hout⟩ := interlockSetSlotDsl_outcome plat slot text hheader
      cases hrun₁.symm.trans hrun
      cases hout with
      | rejected => rfl
      | refused => rfl
      | @armed t inst hslot =>
          have hst : s ≠ t := fun hst => hkeep ⟨hslot.trans (congrArg Fin.val hst.symm), rfl⟩
          exact Function.update_of_ne hst ..
  | armCompiled slot id =>
      obtain ⟨r₁, m₁, hrun₁, hout⟩ := interlockArmSlotCompiled_outcome slot id hheader
      cases hrun₁.symm.trans hrun
      cases hout with
      | rejected => rfl
      | @armed t hslot =>
          have hst : s ≠ t := fun hst => hkeep ⟨hslot.trans (congrArg Fin.val hst.symm), rfl⟩
          exact Function.update_of_ne hst ..
  | disarm slot =>
      obtain ⟨r₁, m₁, hrun₁, hout⟩ := interlockDisarmSlot_outcome slot hheader
      cases hrun₁.symm.trans hrun
      cases hout with
      | rejected => rfl
      | @disarmed t hslot =>
          have hst : s ≠ t := fun hst => hkeep (hslot.trans (congrArg Fin.val hst.symm))
          exact Function.update_of_ne hst ..
  | requestClear =>
      cases hrun
      rfl
  | tick env => exact absurd rfl (hop env)

theorem clearRuntime_clear {s : Slot} (h : m.runtime s = .clear) (t : Slot) :
    (m.clearRuntime t).runtime s = .clear := by
  unfold Machine.clearRuntime
  by_cases hst : s = t
  · subst hst
    exact Function.update_self ..
  · exact (Function.update_of_ne hst ..).trans h

theorem adminClosed_clear (plat : Platform) (s : Slot) :
    AdminClosed plat fun m => m.runtime s = .clear where
  disarm := by
    rintro m m' slot r h (- | @⟨t, -⟩)
    · exact h
    · exact clearRuntime_clear h t
  setSlotDsl := by
    rintro m m' slot text r h (- | - | @⟨t, -⟩)
    · exact h
    · exact h
    · exact clearRuntime_clear h t
  fingerprint := fun h => h

/-- After a boot the runtime arrays are clear. -/
theorem bootUp_runtime {cfg : Config} {ms : Nat} {persist : Persist} {trace : List DriveEvent}
    {b : Bringup} (hboot : bootUp plat cfg ms persist trace = .ok b) (s : Slot) :
    b.machine.runtime s = .clear := by
  refine (adminClosed_clear plat s).bootUp hboot (fun _ h => h) fun m hrun => ?_
  obtain ⟨-, -, hrun⟩ := bind_eq_ok.mp hrun
  obtain rfl := Except.ok.inj hrun
  have hslot : ∀ (m : Machine) (t : Slot), m.runtime s = .clear →
      (warmRestoreSlot plat m t).runtime s = .clear := by
    intro m t h
    have hout := warmRestoreSlot_outcome plat m t
    generalize warmRestoreSlot plat m t = m' at hout
    cases hout with
    | skipped => exact h
    | compiled => exact clearRuntime_clear h t
    | poisoned => exact h
    | refused => exact h
    | restored => exact clearRuntime_clear h t
  have hstart : (resetMachine persist trace).runtime s = .clear := rfl
  exact List.foldlRecOn (motive := fun m => m.runtime s = .clear) _ _ hstart
    fun m h t _ => hslot m t h

/-! ## Histories -/

theorem Evaluated.reachable (h : Evaluated plat s past m) : Reachable plat m := by
  induction h with
  | @armed m m' text r hreach harm =>
      have hrun : Op.run plat (.setSlotDsl s text) m = .ok (r, m') := harm
      exact hreach.call hrun
  | booted hboot => exact .boot hboot
  | call _ _ _ hrun ih => exact ih.call hrun
  | @tick past m m' env _ htick ih =>
      have hrun : Op.run plat (.tick env) m = .ok ({ status := .ok }, m') := by
        rw [Op.run, htick]
        rfl
      exact ih.call hrun

/-- The runtime arrays are those of the samples since the slot was armed. -/
theorem Evaluated.runtime (h : Evaluated plat s past m) (hruns : m.persist.Runs s) :
    m.runtime s = past.foldl (nextRuntime (m.persist.inst s)) .clear := by
  induction h with
  | @armed m m' text r hreach harm hok =>
      obtain ⟨held, hsettled⟩ := hreach.settled
      obtain ⟨r₁, m₁, harm₁, hout⟩ := interlockSetSlotDsl_outcome plat s text
        (Persist.headerOk_of_isValid hsettled.valid)
      cases harm₁.symm.trans harm
      cases hout with
      | rejected hr => exact absurd hok hr
      | refused hr => exact absurd hok hr
      | @armed t inst hslot =>
          obtain rfl := Fin.ext hslot
          exact Function.update_self ..
  | booted hboot => exact bootUp_runtime hboot s
  | @call past m m' op r hpast hop hkeep hrun ih =>
      obtain ⟨held, hsettled⟩ := hpast.reachable.settled
      have hslot := Op.keepsSlot_of_run hsettled hrun hkeep
      rw [Op.runtime_of_run hsettled hop hkeep hrun, ih (hslot.runs.mp hruns),
        nextRuntime_congr hslot.inst]
  | @tick past m m' env hpast htick ih =>
      obtain ⟨held, hsettled⟩ := hpast.reachable.settled
      obtain ⟨m₁, htick₁, heffect, -⟩ := interlockTickAll_effect env hsettled
      cases htick₁.symm.trans htick
      have hbefore := (heffect.keeps s).runs.mp hruns
      rw [interlockTickAll_runtime hsettled hbefore htick, ih hbefore,
        nextRuntime_congr (heffect.keeps s).inst, List.foldl_append]
      rfl

end History

end SlowBus.Interlock
