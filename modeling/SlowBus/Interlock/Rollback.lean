import SlowBus.Interlock.Survival
import SlowBus.Interlock.Ownership

/-!
# Arming is all or nothing

`interlock_set_slot_dsl` claims the pins of an instance one by one. A refusal at any of them
releases the slot, which held nothing before, so the holdings and with them the whole claim
table are what they were.
-/

namespace SlowBus.Interlock

open Fallible

/-- A state in which the framework may be called: after administration calls and restores from
the empty claim table of a boot, or while it is up. -/
def Arises (plat : Platform) (m : Machine) : Prop :=
  Reachable plat m ∨ ∃ (persist : Persist) (trace : List DriveEvent) (ops : List AdminOp),
    ops.foldlM (AdminOp.run plat) (.boot (interlockBootDecide persist) trace) = .ok m

section Rollback

variable {plat : Platform} {m m' : Machine} {slot : Nat} {text : Text} {r : AdminResult}
  {held : Holdings}

theorem Arises.sound (h : Arises plat m) : ∃ held, Sound plat m held := by
  rcases h with hreach | ⟨persist, trace, ops, hrun⟩
  · obtain ⟨held, hsettled⟩ := hreach.settled
    exact ⟨held, hsettled.toSound⟩
  · obtain ⟨m', held, hrun', hsound, -⟩ := runAdmin_sound ops (sound_boot plat persist trace)
    cases hrun'.symm.trans hrun
    exact ⟨held, hsound⟩

/-- A refused arm leaves the claim table as it was. -/
theorem Sound.refused_claims {s : Slot} {inst : Inst} (h : Sound plat m held)
    (hfree : ¬m.Armed s) (hparse : ilParse text = .ok inst)
    (hclaim : (claimInstPins plat m.hal s inst).1 ≠ .ok) :
    (claimInstPins plat m.hal s inst).2.claims = m.hal.claims := by
  have hempty : held s = ∅ := h.held_empty fun hruns => hfree hruns.1
  have hcoh : Coherent (held s ∪ {x | x ∈ inst.uses}) := by
    rw [hempty, Set.empty_union]
    exact (ilParse_wellFormed hparse).coherent
  rcases claimInstPins_outcome h.table hcoh with ⟨hok, -⟩ | ⟨-, -, htable⟩
  · exact absurd hok hclaim
  · rw [Holdings.drop_of_empty hempty] at htable
    exact h.table.claims_eq htable

/-- A call that does not arm the slot leaves everything but the pads as it was. -/
theorem arming_atomic (harises : Arises plat m)
    (hrun : interlockSetSlotDsl plat slot text m = .ok (r, m')) (hfail : r.status ≠ .ok) :
    m' = { m with hal := m'.hal } ∧ m'.hal.claims = m.hal.claims := by
  obtain ⟨held, hsound⟩ := harises.sound
  obtain ⟨r', m'', hrun', hout⟩ :=
    interlockSetSlotDsl_outcome plat slot text (Persist.headerOk_of_isValid hsound.valid)
  cases hrun'.symm.trans hrun
  cases hout with
  | rejected => exact ⟨rfl, rfl⟩
  | refused _ _ hfree hparse hclaim =>
      exact ⟨rfl, hsound.refused_claims hfree hparse hclaim⟩
  | armed => exact absurd rfl hfail

/-- An interlock that takes two inputs before it asks for the veto line as a push-pull output. -/
def greedyText : Text :=
  "x;cfg[(gp4,gp5):in,(gp0):out];out_ok[gp0:1];out_err[gp0:0]".toList

theorem arming_atomic_greedy : ∃ m r m', Arises benchPlatform m ∧
    interlockSetSlotDsl benchPlatform 2 greedyText m = .ok (r, m') ∧
    r = ⟨.busy, 0xFF, ClaimStatus.valueMismatch.code, 0⟩ ∧
    m' = { m with hal := m'.hal } ∧ m'.hal.claims = m.hal.claims := by
  obtain ⟨m, hrun, htest⟩ := exists_of_succeedsWith
    (x := runOps benchPlatform [.setSlotDsl 1 benchText] (.boot .cold []))
    (p := fun m => succeedsWith (interlockSetSlotDsl benchPlatform 2 greedyText m) fun x =>
      decide (x.1 = ⟨.busy, 0xFF, ClaimStatus.valueMismatch.code, 0⟩)) (by decide +kernel)
  obtain ⟨⟨r, m'⟩, hset, hr⟩ := exists_of_succeedsWith htest
  have hr : r = ⟨.busy, 0xFF, ClaimStatus.valueMismatch.code, 0⟩ := of_decide_eq_true hr
  have harises : Arises benchPlatform m := .inl ((Reachable.cold []).runOps hrun)
  exact ⟨m, r, m', harises, hset, hr, arming_atomic harises hset (hr ▸ nofun)⟩

end Rollback

end SlowBus.Interlock
