import SlowBus.Interlock.Glitch

/-!
# When the built-in interlock comes up

The boot sequence arms the built-in interlock last, so it competes with the slots
that the restore and the configuration armed before it. Who those are is a matter
of admission in slot order: a text is seated when it parses and its pins go
together with the pins seated so far. The built-in interlock comes up exactly
when the restored record already holds it, or no seated text is in its way.
-/

namespace SlowBus.Interlock

open Fallible

/-! ## Admission in order -/

/-- The instances that occupy the slots. -/
abbrev Occupants := Slot → Option Inst

/-- The pins the occupant of a slot uses. -/
def Occupants.uses (occ : Occupants) (t : Slot) : List (Nat × PinUse) :=
  ((occ t).map Inst.uses).getD []

/-- The occupants as holdings. -/
def Occupants.held (occ : Occupants) : Holdings := fun t => {x | x ∈ occ.uses t}

/-- An instance may take slot `s` beside the other occupants. -/
def Occupants.Admits (plat : Platform) (occ : Occupants) (s : Slot) (inst : Inst) : Prop :=
  ∀ use ∈ inst.uses, use.2.Admissible plat use.1 ∧
    ∀ t, t ≠ s → ∀ other ∈ occ.uses t, other.1 = use.1 → other.2 = use.2 ∧ use.2.Shared

instance (plat : Platform) (occ : Occupants) (s : Slot) (inst : Inst) :
    Decidable (occ.Admits plat s inst) :=
  inferInstanceAs (Decidable (∀ use ∈ inst.uses, use.2.Admissible plat use.1 ∧
    ∀ t, t ≠ s → ∀ other ∈ occ.uses t, other.1 = use.1 → other.2 = use.2 ∧ use.2.Shared))

/-- Slot `s` takes the text it is offered if it parses and is admitted. -/
def Occupants.seat (plat : Platform) (offer : Slot → Option Text) (occ : Occupants) (s : Slot) :
    Occupants :=
  match (offer s).bind fun text => (ilParse text).toOption with
  | some inst => if occ.Admits plat s inst then Function.update occ s (some inst) else occ
  | none => occ

instance (p : Persist) (s : Slot) : Decidable (p.Runs s) := inferInstanceAs (Decidable (_ ∧ _))

/-- The text a restore finds in a slot. -/
def restoreOffer (p : Persist) (s : Slot) : Option Text :=
  if p.Runs s ∧ 0 < p.dslLen s ∧ p.dslLen s < dslMax then some (p.text s) else none

/-- The text the configuration has for a slot. -/
def configOffer (cfg : Config) (s : Slot) : Option Text :=
  (cfg.file s).filter fun text => text.length < dslMax

/-- Who is seated after the restore. -/
def restoredOccupants (plat : Platform) (p : Persist) : Occupants :=
  (List.finRange maxSlots).foldl (Occupants.seat plat (restoreOffer p)) fun _ => none

/-- Some slot is armed after the restore. -/
def AnyArmed (plat : Platform) (p : Persist) : Prop :=
  ∃ t, (p.slots t).state = .armed ∧
    ((p.slots t).id ≠ idDsl ∨ (restoredOccupants plat p t).isSome = true)

instance (plat : Platform) (p : Persist) : Decidable (AnyArmed plat p) :=
  inferInstanceAs (Decidable (∃ t, (p.slots t).state = .armed ∧
    ((p.slots t).id ≠ idDsl ∨ (restoredOccupants plat p t).isSome = true)))

/-- Who is seated when the built-in interlock is to be armed: the restored set, or
the configuration beside whatever the restore left in slot 0. -/
def occupantsBefore (plat : Platform) (cfg : Config) (p : Persist) : Occupants :=
  if interlockCfgFingerprint cfg ≠ p.cfgFingerprint ∨ ¬AnyArmed plat p then
    configSlots.foldl (Occupants.seat plat (configOffer cfg))
      fun t => if t = 0 then restoredOccupants plat p 0 else none
  else restoredOccupants plat p

theorem Occupants.admits_iff {plat : Platform} {occ : Occupants} {s : Slot} {inst : Inst} :
    occ.Admits plat s inst ↔ occ.held.Admits plat s inst.uses := by
  refine forall₂_congr fun use _ => and_congr_right fun _ => ?_
  constructor
  · intro h t hts u' hu'
    exact h t hts (use.1, u') hu' rfl
  · rintro h t hts ⟨q, u'⟩ hmem rfl
    exact h t hts u' hmem

/-! ## The machine follows the admission -/

/-- The machine is settled with exactly these occupants. -/
structure Seated (plat : Platform) (m : Machine) (occ : Occupants) : Prop where
  settled : Settled plat m occ.held
  runs : ∀ t, m.persist.Runs t ↔ (occ t).isSome = true

section Seated

variable {plat : Platform} {m m' : Machine} {occ : Occupants} {s : Slot}

theorem Occupants.held_update (inst? : Option Inst) :
    Occupants.held (Function.update occ s inst?) =
      Function.update occ.held s {x | x ∈ (inst?.map Inst.uses).getD []} := by
  funext t
  by_cases hts : t = s
  · subst t
    simp [held, uses]
  · simp [held, uses, hts]

theorem Occupants.held_of_none (h : occ s = none) : occ.held s = ∅ := by
  simp [held, uses, h]

/-- Seating an admitted instance. -/
theorem Occupants.seat_of_admits {offer : Slot → Option Text} {text : Text} {inst : Inst}
    (hoffer : offer s = some text) (hparse : ilParse text = .ok inst)
    (hadm : occ.Admits plat s inst) : occ.seat plat offer s = Function.update occ s (some inst) := by
  simp [seat, hoffer, hparse, Except.toOption, hadm]

/-- Turning away a text that does not parse or is not admitted. -/
theorem Occupants.seat_of_not {offer : Slot → Option Text}
    (hnot : ∀ text inst, offer s = some text → ilParse text = .ok inst → ¬occ.Admits plat s inst) :
    occ.seat plat offer s = occ := by
  unfold seat
  split
  next inst hinst =>
    obtain ⟨text, hoffer, hparse⟩ := Option.bind_eq_some_iff.mp hinst
    have hok : ilParse text = .ok inst := by
      cases hp : ilParse text with
      | error e => rw [hp] at hparse; cases hparse
      | ok i => rw [hp] at hparse; cases hparse; rfl
    rw [if_neg (hnot text inst hoffer hok)]
  · rfl

/-- Part of a restore is done: the slots of `rest` are still to come. -/
structure Restoring (plat : Platform) (p : Persist) (m : Machine) (occ : Occupants)
    (rest : List Slot) : Prop where
  sound : Sound plat m occ.held
  text : ∀ t, KeepsText p m.persist t
  fingerprint : m.persist.cfgFingerprint = p.cfgFingerprint
  idle : ∀ t, ¬p.Runs t → m.persist.slots t = p.slots t
  armed : ∀ t, (m.persist.slots t).state = .armed → (p.slots t).state = .armed
  pending : ∀ t ∈ rest, occ t = none ∧ m.persist.slots t = p.slots t
  done : ∀ t, t ∉ rest → (m.persist.Runs t ↔ (occ t).isSome = true)
  settled : ∀ t, t ∉ rest → m.persist.Runs t →
    m.persist.Backed t ∧ occ.held t = m.persist.pins t

theorem KeepsText.text_eq {p p' : Persist} (h : KeepsText p p' s) : p'.text s = p.text s := by
  unfold Persist.text
  rw [h.2.1, h.2.2]

/-- What restoring a slot does to the records of the others, and to its state. -/
theorem RestoreOutcome.records {t : Slot} (hout : RestoreOutcome plat m t m') :
    m'.persist.cfgFingerprint = m.persist.cfgFingerprint ∧
      (∀ r, r ≠ t → m'.persist.slots r = m.persist.slots r) ∧
      ((m'.persist.slots t).state = .armed → m'.persist.slots t = m.persist.slots t) ∧
      (¬m.persist.Runs t → m'.persist.slots t = m.persist.slots t) := by
  have hpoison : ∀ m : Machine,
      (∀ r, r ≠ t → (m.poison t).persist.slots r = m.persist.slots r) ∧
      ((m.poison t).persist.slots t).state ≠ .armed := by
    intro m
    refine ⟨fun r hr => Function.update_of_ne hr .., ?_⟩
    rw [poison_slots_self]
    exact nofun
  cases hout with
  | skipped => exact ⟨rfl, fun _ _ => rfl, fun _ => rfl, fun _ => rfl⟩
  | compiled => exact ⟨rfl, fun _ _ => rfl, fun _ => rfl, fun _ => rfl⟩
  | poisoned hruns =>
      exact ⟨rfl, (hpoison m).1, fun h => absurd h (hpoison m).2, fun h => absurd hruns h⟩
  | refused hruns =>
      exact ⟨rfl, (hpoison _).1, fun h => absurd h (hpoison _).2, fun h => absurd hruns h⟩
  | restored => exact ⟨rfl, fun _ _ => rfl, fun _ => rfl, fun _ => rfl⟩

/-- Restoring a slot seats its text or leaves it without one. -/
theorem Restoring.seats {p : Persist} {rest : List Slot} (h : Restoring plat p m occ (s :: rest)) :
    ((warmRestoreSlot plat m s).persist.Runs s ∧ ∃ inst, ilParse (p.text s) = .ok inst ∧
        occ.seat plat (restoreOffer p) s = Function.update occ s (some inst)) ∨
      (¬(warmRestoreSlot plat m s).persist.Runs s ∧ occ.seat plat (restoreOffer p) s = occ) := by
  have hout := warmRestoreSlot_outcome plat m s
  have hslot := (h.pending s (List.mem_cons_self ..)).2
  have hruns_iff : m.persist.Runs s ↔ p.Runs s := by
    unfold Persist.Runs
    rw [hslot]
  have htext := (h.text s).text_eq
  have hlen := (h.text s).2.1
  generalize warmRestoreSlot plat m s = m' at hout
  cases hout with
  -- a slot that does not run offers nothing, so its seat is unchanged
  | skipped hruns =>
      refine .inr ⟨hruns, Occupants.seat_of_not fun text inst hoffer => ?_⟩
      rw [restoreOffer, if_neg fun hc => hruns (hruns_iff.mpr hc.1)] at hoffer
      cases hoffer
  | compiled hruns =>
      refine .inr ⟨hruns, Occupants.seat_of_not fun text inst hoffer => ?_⟩
      rw [restoreOffer, if_neg fun hc => hruns (hruns_iff.mpr hc.1)] at hoffer
      cases hoffer
  | poisoned hruns hbad =>
      refine .inr ⟨not_runs_poison m s, Occupants.seat_of_not fun text inst hoffer hparse => ?_⟩
      rw [restoreOffer] at hoffer
      split at hoffer
      next hc =>
        cases hoffer
        rw [hlen, htext] at hbad
        exact absurd hparse (hbad inst hc.2)
      · cases hoffer
  -- the claims stand for the occupants, so what the claim refuses is not admitted
  | @refused inst hruns hlen' hparse hclaim =>
      refine .inr ⟨not_runs_poison _ s, Occupants.seat_of_not fun text inst' hoffer hparse' => ?_⟩
      rw [restoreOffer] at hoffer
      split at hoffer
      next hc =>
        cases hoffer
        rw [← htext, hparse] at hparse'
        cases hparse'
        rcases claimInstPins_outcome h.sound.table (h.sound.coherent_uses hparse) with
          ⟨hok, -⟩ | ⟨-, hnot, -⟩
        · exact absurd hok hclaim
        · rwa [Occupants.admits_iff]
      · cases hoffer
  | @restored inst hruns hlen' hparse hclaim =>
      rcases claimInstPins_outcome h.sound.table (h.sound.coherent_uses hparse) with
        ⟨-, hadm, -⟩ | ⟨hno, -⟩
      · rw [htext] at hparse
        rw [hlen] at hlen'
        refine .inl ⟨hruns, inst, hparse, Occupants.seat_of_admits ?_ hparse
          (Occupants.admits_iff.mpr hadm)⟩
        exact if_pos ⟨hruns_iff.mp hruns, hlen'⟩
      · exact absurd hclaim hno

/-- One slot of a restore. -/
theorem Restoring.step {p : Persist} {rest : List Slot} (h : Restoring plat p m occ (s :: rest))
    (hfresh : s ∉ rest) :
    Restoring plat p (warmRestoreSlot plat m s) (occ.seat plat (restoreOffer p) s) rest := by
  have hout := warmRestoreSlot_outcome plat m s
  obtain ⟨held', hsound', hothers, hself⟩ := h.sound.restoreSlot hout
  obtain ⟨hfp, hrecords, hstate, hidle⟩ := hout.records
  have htext : ∀ t, KeepsText p (warmRestoreSlot plat m s).persist t :=
    fun t => (h.text t).trans hout.keepsText
  have hoccNone := (h.pending s (List.mem_cons_self ..)).1
  have hslot := (h.pending s (List.mem_cons_self ..)).2
  -- the occupants other than `s` stay, and `s` is occupied exactly when it runs
  have hocc : (∀ t, t ≠ s → occ.seat plat (restoreOffer p) s t = occ t) ∧
      ((warmRestoreSlot plat m s).persist.Runs s ↔
        (occ.seat plat (restoreOffer p) s s).isSome = true) ∧
      held' = (occ.seat plat (restoreOffer p) s).held := by
    rcases h.seats with ⟨hruns, inst, hparse, hseat⟩ | ⟨hruns, hseat⟩
    · rw [hseat]
      refine ⟨fun t hts => Function.update_of_ne hts .., by simp [hruns], ?_⟩
      rw [Occupants.held_update]
      funext t
      by_cases hts : t = s
      · subst t
        obtain ⟨hbacked, hpins⟩ := hself hruns
        have hsame := hbacked.2
        rw [(htext s).text_eq, hparse] at hsame
        rw [hpins, Function.update_self, Except.ok.inj hsame]
        rfl
      · rw [(hothers t hts).2, Function.update_of_ne hts]
    · rw [hseat]
      refine ⟨fun _ _ => rfl, by simp [hruns, hoccNone], ?_⟩
      funext t
      by_cases hts : t = s
      · subst t
        rw [hsound'.held_empty hruns, Occupants.held_of_none hoccNone]
      · exact (hothers t hts).2
  obtain ⟨hoccOthers, hoccSelf, hheld⟩ := hocc
  refine ⟨hheld ▸ hsound', htext, hfp.trans h.fingerprint, ?_, ?_, ?_, ?_, ?_⟩
  · intro t hnot
    by_cases hts : t = s
    · subst t
      have hnot' : ¬m.persist.Runs s := by
        unfold Persist.Runs
        rwa [hslot]
      exact (hidle hnot').trans hslot
    · exact (hrecords t hts).trans (h.idle t hnot)
  · intro t harmed
    by_cases hts : t = s
    · subst t
      rwa [hstate harmed, hslot] at harmed
    · rw [hrecords t hts] at harmed
      exact h.armed t harmed
  · intro t ht
    have hts : t ≠ s := fun heq => hfresh (heq ▸ ht)
    rw [hoccOthers t hts, hrecords t hts]
    exact h.pending t (List.mem_cons_of_mem _ ht)
  · intro t ht
    by_cases hts : t = s
    · subst t
      exact hoccSelf
    · rw [hoccOthers t hts, Persist.Runs, hrecords t hts]
      exact h.done t fun hmem => (List.mem_cons.mp hmem).elim hts ht
  · intro t ht hruns
    rw [← hheld]
    by_cases hts : t = s
    · subst t
      exact hself hruns
    · obtain ⟨hkeep, hsame⟩ := hothers t hts
      rw [hkeep.backed, hkeep.pins, hsame]
      exact h.settled t (fun hmem => (List.mem_cons.mp hmem).elim hts ht) (hkeep.runs.mp hruns)

theorem Restoring.foldl {p : Persist} {rest : List Slot} (h : Restoring plat p m occ rest)
    (hnodup : rest.Nodup) :
    Restoring plat p (rest.foldl (warmRestoreSlot plat) m)
      (rest.foldl (Occupants.seat plat (restoreOffer p)) occ) [] := by
  induction rest generalizing m occ with
  | nil => exact h
  | cons s rest ih =>
      obtain ⟨hfresh, hnodup⟩ := List.nodup_cons.mp hnodup
      exact ih (h.step hfresh) hnodup

/-- What the restore of a boot leaves behind. -/
theorem restore_seated {persist : Persist} {trace : List DriveEvent}
    (hrun : interlockWarmRestore plat (resetMachine persist trace) = .ok m) :
    Seated plat m (restoredOccupants plat (interlockBootDecide persist)) ∧
      Restoring plat (interlockBootDecide persist) m
        (restoredOccupants plat (interlockBootDecide persist)) [] := by
  obtain ⟨-, -, hrun⟩ := bind_eq_ok.mp hrun
  obtain rfl := Except.ok.inj hrun
  have hstart : Restoring plat (interlockBootDecide persist) (resetMachine persist trace)
      (fun _ => none) (List.finRange maxSlots) := by
    refine ⟨?_, fun t => (KeepsSlot.refl _ t).keepsText, rfl, fun _ _ => rfl, fun _ h => h,
      fun _ _ => ⟨rfl, rfl⟩, fun t ht => absurd (List.mem_finRange t) ht,
      fun t ht => absurd (List.mem_finRange t) ht⟩
    have hempty : Occupants.held (fun _ => none) = fun _ => ∅ :=
      funext fun t => Occupants.held_of_none rfl
    rw [hempty]
    exact sound_reset plat persist trace
  have hend := hstart.foldl (List.nodup_finRange maxSlots)
  exact ⟨⟨⟨hend.sound, fun t => hend.settled t (by simp)⟩, fun t => hend.done t (by simp)⟩, hend⟩

/-- A slot is armed after the restore exactly when the admission says so. -/
theorem Restoring.armedCount_eq_zero {p : Persist}
    (h : Restoring plat p m (restoredOccupants plat p) []) :
    m.persist.armedCount = 0 ↔ ¬AnyArmed plat p := by
  unfold Persist.armedCount AnyArmed
  rw [List.countP_eq_zero, not_exists]
  simp only [List.mem_finRange, true_imp_iff, beq_iff_eq]
  refine forall_congr' fun t => not_congr ?_
  constructor
  · intro harmed
    refine ⟨h.armed t harmed, ?_⟩
    by_cases hid : (p.slots t).id = idDsl
    · refine .inr ((h.done t (by simp)).mp ⟨harmed, (h.text t).1.trans hid⟩)
    · exact .inl hid
  · rintro ⟨harmed, hid | hsome⟩
    · rwa [h.idle t fun hruns => hid hruns.2]
    · exact ((h.done t (by simp)).mpr hsome).1

/-! ## The configured slots -/

theorem Seated.vacant (h : Seated plat m occ) (hnone : ¬m.persist.Runs s) :
    occ s = none := by
  rw [h.runs, Bool.not_eq_true, Option.isSome_eq_false_iff, Option.isNone_iff_eq_none] at hnone
  exact hnone

/-- A disarmed slot is vacated. -/
theorem Seated.disarm {slot : Nat} {r : AdminResult} (h : Seated plat m occ) (hslot : slot = s)
    (hout : DisarmOutcome slot m r m') :
    Seated plat m' (Function.update occ s none) ∧ (m'.persist.slots s).state = .empty ∧
      (∀ t, t ≠ s → KeepsSlot m.persist m'.persist t) := by
  obtain ⟨held', hsound, hothers, hempty⟩ := h.settled.toSound.disarm hout
  have hempty' := hempty s hslot.symm
  have hnot : ¬m'.persist.Runs s := by
    rintro ⟨hstate, -⟩
    cases hstate.symm.trans hempty'
  have hkeep : ∀ t, t ≠ s → KeepsSlot m.persist m'.persist t ∧ held' t = occ.held t :=
    fun t hts => hothers t fun heq => hts (Fin.ext (heq.trans hslot))
  have hheld : held' = Occupants.held (Function.update occ s none) := by
    rw [Occupants.held_update]
    funext t
    by_cases hts : t = s
    · subst t
      rw [hsound.held_empty hnot, Function.update_self]
      simp
    · rw [(hkeep t hts).2, Function.update_of_ne hts]
  refine ⟨⟨?_, fun t => ?_⟩, hempty', fun t hts => (hkeep t hts).1⟩
  · rw [← hheld]
    refine h.settled.of_slots hsound hkeep fun t hts hruns => ?_
    rw [not_not] at hts
    exact absurd (hts ▸ hruns) hnot
  · by_cases hts : t = s
    · subst t
      simp [hnot]
    · rw [Function.update_of_ne hts, (hkeep t hts).1.runs]
      exact h.runs t

/-- A free slot that is given a text takes it if it is admitted. -/
theorem Seated.setSlotDsl {slot : Nat} {text : Text} {r : AdminResult} (h : Seated plat m occ)
    (offer : Slot → Option Text) (hslot : slot = s) (hfree : ¬m.Armed s)
    (hoffer : ∀ t, offer s = some t ↔ t = text ∧ 0 < text.length ∧ text.length < dslMax)
    (hout : DslOutcome plat slot text m r m') :
    Seated plat m' (occ.seat plat offer s) ∧ ∀ t, t ≠ s → KeepsSlot m.persist m'.persist t := by
  have hvacant := h.vacant fun hruns : m.persist.Runs s => hfree hruns.1
  have hcoh : ∀ {inst}, ilParse text = .ok inst →
      Coherent (occ.held s ∪ {x | x ∈ inst.uses}) := by
    intro inst hparse
    rw [Occupants.held_of_none hvacant, Set.empty_union]
    exact (ilParse_wellFormed hparse).coherent
  obtain ⟨held', hsound, hothers, harmed⟩ := h.settled.toSound.setSlotDsl hout
  have hkeep : ∀ t, t ≠ s → KeepsSlot m.persist m'.persist t ∧ held' t = occ.held t :=
    fun t hts => hothers t (.inl fun heq => hts (Fin.ext (heq.trans hslot)))
  -- nothing is written unless the slot is armed
  have hsame : r.status ≠ .ok → occ.seat plat offer s = occ →
      Seated plat m' (occ.seat plat offer s) := by
    intro hr hseat
    rw [hseat]
    have hheld : held' = occ.held := funext fun t => (hothers t (.inr hr)).2
    subst hheld
    refine ⟨h.settled.of_slots hsound (fun t _ => hothers t (.inr hr))
      (K := fun _ => True) fun t hnot => absurd trivial hnot, fun t => ?_⟩
    rw [(hothers t (.inr hr)).1.runs]
    exact h.runs t
  refine ⟨?_, fun t hts => (hkeep t hts).1⟩
  cases hout with
  -- whatever it was rejected for, the text is not admitted either
  | rejected hr hwhy =>
      refine hsame hr (Occupants.seat_of_not fun text' inst htext hparse => ?_)
      obtain ⟨rfl, hpos, hlt⟩ := (hoffer text').mp htext
      rcases hwhy with hbig | hzero | hlong | ⟨t, hts, harm⟩ | ⟨e, herror⟩
      · exact absurd s.isLt (not_lt.mpr (hslot ▸ hbig))
      · omega
      · omega
      · exact absurd ((Fin.ext (hts.trans hslot) : t = s) ▸ harm) hfree
      · rw [hparse] at herror
        cases herror
  | @refused _ t inst hr hts hfree' hparse hclaim =>
      refine hsame hr (Occupants.seat_of_not fun text' inst' htext hparse' => ?_)
      obtain ⟨rfl, -⟩ := (hoffer text').mp htext
      obtain rfl : t = s := Fin.ext (hts.symm.trans hslot)
      cases hparse.symm.trans hparse'
      rcases claimInstPins_outcome h.settled.table (hcoh hparse) with ⟨hok, -⟩ | ⟨-, hnot, -⟩
      · exact absurd hok hclaim
      · rwa [Occupants.admits_iff]
  | @armed t inst hts hfree' hlen hparse hclaim =>
      obtain rfl : t = s := Fin.ext (hts.symm.trans hslot)
      rcases claimInstPins_outcome h.settled.table (hcoh hparse) with ⟨-, hadm, -⟩ | ⟨hno, -⟩
      · have hseat : occ.seat plat offer t = Function.update occ t (some inst) :=
          Occupants.seat_of_admits ((hoffer text).mpr ⟨rfl, hlen⟩) hparse
            (Occupants.admits_iff.mpr hadm)
        obtain ⟨hbacked, hpins⟩ := harmed t hslot.symm rfl
        have hheld : held' = Occupants.held (Function.update occ t (some inst)) := by
          rw [Occupants.held_update]
          funext q
          by_cases hq : q = t
          · subst q
            rw [hpins, Function.update_self]
            exact armDsl_pins ..
          · rw [(hkeep q hq).2, Function.update_of_ne hq]
        rw [hseat]
        refine ⟨?_, fun q => ?_⟩
        · rw [← hheld]
          refine h.settled.of_slots hsound hkeep fun q hq hruns => ?_
          rw [not_not] at hq
          subst q
          exact ⟨hbacked, hpins⟩
        · by_cases hq : q = t
          · subst q
            rw [Function.update_self]
            exact iff_of_true (armDsl_runs ..) rfl
          · rw [Function.update_of_ne hq, (hkeep q hq).1.runs]
            exact h.runs q
      · exact absurd hclaim hno

theorem mem_configSlots (t : Slot) : t ∈ configSlots ↔ t ≠ 0 := by
  revert t
  decide

theorem nodup_configSlots : configSlots.Nodup := (List.nodup_finRange maxSlots).tail

/-- Dropping a list of slots vacates them. -/
theorem Seated.dropSlots (slots : List Slot) (h : Seated plat m occ)
    (hrun : slots.foldlM (fun m s => do
      let (_, m) ← interlockDisarmSlot s m
      .ok m) m = .ok m') :
    Seated plat m' (fun t => if t ∈ slots then none else occ t) ∧
      (∀ t ∈ slots, (m'.persist.slots t).state = .empty) ∧
      ∀ t, t ∉ slots → KeepsSlot m.persist m'.persist t := by
  induction slots generalizing m occ with
  | nil =>
      cases hrun
      exact ⟨h, nofun, fun t _ => .refl _ t⟩
  | cons s slots ih =>
      rw [List.foldlM_cons] at hrun
      obtain ⟨m₁, hfirst, hrun⟩ := bind_eq_ok.mp hrun
      obtain ⟨r, m₂, hdisarm, hout⟩ :=
        interlockDisarmSlot_outcome s (Persist.headerOk_of_isValid h.settled.valid)
      rw [hdisarm] at hfirst
      cases hfirst
      obtain ⟨h₁, hempty, hkeep⟩ := h.disarm rfl hout
      obtain ⟨h', hdropped, hkept⟩ := ih h₁ hrun
      refine ⟨?_, ?_, ?_⟩
      · convert h' using 1
        funext t
        by_cases hts : t = s
        · subst t
          simp
        · simp [hts]
      · intro t ht
        by_cases hmem : t ∈ slots
        · exact hdropped t hmem
        · obtain rfl : t = s := (List.mem_cons.mp ht).resolve_right hmem
          exact (hkept t hmem).state.trans hempty
      · intro t ht
        rw [List.mem_cons, not_or] at ht
        exact (hkeep t ht.1).trans (hkept t ht.2)

theorem configOffer_eq_some {cfg : Config} {text : Text} (hfile : cfg.file s = some text)
    (t : Text) :
    configOffer cfg s = some t ↔ t = text ∧ 0 < text.length ∧ text.length < dslMax := by
  have hpos : 0 < text.length := by
    rw [Config.file, Option.filter_eq_some_iff] at hfile
    exact List.length_pos_iff.mpr (by simpa using hfile.2)
  rw [configOffer, hfile, Option.filter_eq_some_iff, decide_eq_true_eq]
  constructor
  · rintro ⟨heq, hlt⟩
    cases heq
    exact ⟨rfl, hpos, hlt⟩
  · rintro ⟨rfl, -, hlt⟩
    exact ⟨rfl, hlt⟩

/-- Arming a list of free slots from the configuration seats them in order. -/
theorem Seated.armSlots (cfg : Config) (slots : List Slot) {b b' : Bringup}
    (h : Seated plat b.machine occ) (hnodup : slots.Nodup)
    (hfree : ∀ t ∈ slots, ¬b.machine.Armed t)
    (hrun : slots.foldlM (armConfigSlot plat cfg) b = .ok b') :
    Seated plat b'.machine (slots.foldl (Occupants.seat plat (configOffer cfg)) occ) ∧
      ∀ t, t ∉ slots → KeepsSlot b.machine.persist b'.machine.persist t := by
  induction slots generalizing b occ with
  | nil =>
      cases hrun
      exact ⟨h, fun t _ => .refl _ t⟩
  | cons s slots ih =>
      rw [List.foldlM_cons] at hrun
      obtain ⟨b₁, hfirst, hrun⟩ := bind_eq_ok.mp hrun
      obtain ⟨hfresh, hnodup⟩ := List.nodup_cons.mp hnodup
      have hone : Seated plat b₁.machine (occ.seat plat (configOffer cfg) s) ∧
          ∀ t, t ≠ s → KeepsSlot b.machine.persist b₁.machine.persist t := by
        unfold armConfigSlot at hfirst
        split at hfirst
        next hnone =>
          cases hfirst
          have hseat : occ.seat plat (configOffer cfg) s = occ :=
            Occupants.seat_of_not fun text inst hoffer => by
              rw [configOffer, hnone] at hoffer
              cases hoffer
          rw [hseat]
          exact ⟨h, fun t _ => .refl _ t⟩
        next text hfile =>
          obtain ⟨r, m₂, hset, hout⟩ := interlockSetSlotDsl_outcome plat s text
            (Persist.headerOk_of_isValid h.settled.valid)
          rw [hset] at hfirst
          cases hfirst
          exact h.setSlotDsl (configOffer cfg) rfl (hfree s (List.mem_cons_self ..))
            (configOffer_eq_some hfile) hout
      obtain ⟨h₁, hkeep⟩ := hone
      -- the slots still to come are free after the first one
      have hfree₁ : ∀ t ∈ slots, ¬b₁.machine.Armed t := by
        intro t ht
        have hts : t ≠ s := fun heq => hfresh (heq ▸ ht)
        rw [Machine.Armed, (hkeep t hts).state]
        exact hfree t (List.mem_cons_of_mem _ ht)
      obtain ⟨h', hkept⟩ := ih h₁ hnodup hfree₁ hrun
      refine ⟨h', fun t ht => ?_⟩
      rw [List.mem_cons, not_or] at ht
      exact (hkeep t ht.1).trans (hkept t ht.2)

/-- Who is seated when the built-in interlock is to be armed. -/
theorem startConfigSlots_seated {cfg : Config} {p : Persist} {b : Bringup}
    (h : Seated plat m (restoredOccupants plat p))
    (hrestored : Restoring plat p m (restoredOccupants plat p) [])
    (hrun : startConfigSlots plat cfg m = .ok b) :
    Seated plat b.machine (occupantsBefore plat cfg p) ∧
      KeepsSlot m.persist b.machine.persist 0 := by
  unfold startConfigSlots at hrun
  unfold occupantsBefore
  dsimp only at hrun
  have hcond : interlockCfgFingerprint cfg ≠ m.persist.cfgFingerprint ∨
      m.persist.armedCount = 0 ↔
      interlockCfgFingerprint cfg ≠ p.cfgFingerprint ∨ ¬AnyArmed plat p := by
    rw [hrestored.fingerprint, hrestored.armedCount_eq_zero]
  split at hrun
  next hchanged =>
    rw [if_pos (hcond.mp hchanged)]
    obtain ⟨m₁, hdrop, hrun⟩ := bind_eq_ok.mp hrun
    obtain ⟨b₁, harm, hrun⟩ := bind_eq_ok.mp hrun
    cases hrun
    obtain ⟨h₁, hempty, hkept⟩ := h.dropSlots configSlots hdrop
    have hfree : ∀ t ∈ configSlots, ¬m₁.Armed t := by
      intro t ht harmed
      cases harmed.symm.trans (hempty t ht)
    obtain ⟨h₂, hkept₂⟩ := Seated.armSlots cfg configSlots (b := ⟨m₁, 0, 0⟩) h₁ nodup_configSlots
      hfree harm
    have hocc : (fun t => if t ∈ configSlots then none else restoredOccupants plat p t) =
        fun t => if t = 0 then restoredOccupants plat p 0 else none := by
      funext t
      by_cases ht : t = 0
      · simp [mem_configSlots, ht]
      · simp [mem_configSlots, ht]
    rw [hocc] at h₂
    have hzero : (0 : Slot) ∉ configSlots := by simp [mem_configSlots]
    refine ⟨⟨h₂.settled.of_keeps rfl rfl (fun t => ⟨rfl, rfl, rfl, rfl, rfl, rfl⟩) rfl, h₂.runs⟩, ?_⟩
    exact ((hkept 0 hzero).trans (hkept₂ 0 hzero)).trans ⟨rfl, rfl, rfl, rfl, rfl, rfl⟩
  next hsame =>
    rw [if_neg (hcond.not.mp hsame)]
    cases hrun
    exact ⟨h, .refl _ 0⟩

end Seated

/-! ## The built-in interlock -/

/-- What the built-in text parses to. -/
def gp1Inst : Inst where
  name := "gp1il".toList
  inputs := [⟨1, .inputPullUp, 0, 0, 4, 0⟩, ⟨virtNodesDead, .virtual, 0, 0, 0, 0⟩]
  watches := [⟨0, .eq, 1, 0⟩, ⟨1, .eq, 0, 0⟩]
  outputs := [⟨0, 1, 0, 2⟩]

theorem ilParse_gp1Il : ilParse gp1Il = .ok gp1Inst := by decide +kernel

theorem gp1Il_length : gp1Il.length = 107 := by decide +kernel

theorem gp1Inst_uses : gp1Inst.uses = [(1, .gpioIn .gpioInPu), (0, .output 1 0 2)] := rfl

/-- The built-in interlock is up: slot 0 runs its text, owns GP1 as an input and
GP0 as an open-drain output. -/
def BuiltinUp (m : Machine) : Prop :=
  m.persist.Runs 0 ∧ m.persist.text 0 = gp1Il ∧
    ((m.hal.claims 1).slotMask.getLsbD 0 = true ∧ (m.hal.claims 1).mode = .gpioInPu) ∧
    ((m.hal.claims 0).slotMask.getLsbD 0 = true ∧ (m.hal.claims 0).mode = .gpioOut ∧
      (m.hal.claims 0).openDrain = 2)

/-- No other occupant uses GP1, nor GP0 in another way. -/
def Occupants.LeavesBuiltin (occ : Occupants) : Prop :=
  ∀ t, t ≠ 0 → ∀ use ∈ occ.uses t,
    use.1 ≠ interlockInPin ∧ (use.1 = interlockVetoPin → use.2 = .output 1 0 2)

/-- The condition under which a boot brings the built-in interlock up. -/
def BuiltinComesUp (plat : Platform) (cfg : Config) (p : Persist) : Prop :=
  (builtinPreserved p = true ∧ (p.slots 0).id = idDsl) ∨
    (builtinPreserved p = false ∧ (occupantsBefore plat cfg p).LeavesBuiltin)

section Builtin

variable {plat : Platform} {m : Machine} {occ : Occupants}

/-- The pins of the built-in interlock are admissible on any platform. -/
theorem gp1Inst_admissible (plat : Platform) :
    ∀ use ∈ gp1Inst.uses, use.2.Admissible plat use.1 := by
  intro use huse
  rw [gp1Inst_uses] at huse
  rcases List.mem_cons.mp huse with rfl | huse
  · exact ⟨by decide, rfl, rfl, rfl⟩
  · obtain rfl := List.mem_singleton.mp huse
    exact ⟨by decide, by decide, by decide, rfl, rfl⟩

theorem Occupants.admits_gp1Inst (plat : Platform) :
    occ.Admits plat 0 gp1Inst ↔ occ.LeavesBuiltin := by
  constructor
  · intro h t ht use huse
    constructor
    · intro hpin
      have hgp1 := (h (1, .gpioIn .gpioInPu) (by simp [gp1Inst_uses])).2 t ht use huse hpin
      exact hgp1.2
    · intro hpin
      exact ((h (0, .output 1 0 2) (by simp [gp1Inst_uses])).2 t ht use huse hpin).1
  · intro h use huse
    refine ⟨gp1Inst_admissible plat use huse, fun t ht other hother hpin => ?_⟩
    obtain ⟨hgp1, hgp0⟩ := h t ht other hother
    rw [gp1Inst_uses] at huse
    rcases List.mem_cons.mp huse with rfl | huse
    · exact absurd hpin hgp1
    · obtain rfl := List.mem_singleton.mp huse
      exact ⟨hgp0 hpin, trivial⟩

/-- On a settled machine, running the built-in text is enough: the pins follow. -/
theorem builtinUp_iff {held : Holdings} (h : Settled plat m held) :
    BuiltinUp m ↔ m.persist.Runs 0 ∧ m.persist.text 0 = gp1Il := by
  refine ⟨fun hup => ⟨hup.1, hup.2.1⟩, fun ⟨hruns, htext⟩ => ⟨hruns, htext, ?_⟩⟩
  obtain ⟨hbacked, hpins⟩ := h.complete 0 hruns
  have hparse := hbacked.2
  rw [htext, ilParse_gp1Il] at hparse
  have hheld : held 0 = {x | x ∈ gp1Inst.uses} := by
    rw [hpins, Except.ok.inj hparse]
    rfl
  have hmem : ∀ use ∈ gp1Inst.uses, use ∈ held 0 := fun use huse => hheld ▸ huse
  have hgp1 := hmem (1, .gpioIn .gpioInPu) (by simp [gp1Inst_uses])
  have hgp0 := hmem (0, .output 1 0 2) (by simp [gp1Inst_uses])
  refine ⟨⟨(h.table.mask 1 0).mpr ⟨_, hgp1⟩, ?_⟩, (h.table.mask 0 0).mpr ⟨_, hgp0⟩, ?_⟩
  · rw [h.table.record 1 0 _ hgp1]
    rfl
  · rw [h.table.record 0 0 _ hgp0]
    exact ⟨rfl, rfl⟩

/-- A seat other than the one being filled does not change. -/
theorem Occupants.seat_of_ne {offer : Slot → Option Text} {s t : Slot} (hts : t ≠ s) :
    occ.seat plat offer s t = occ t := by
  unfold seat
  cases (offer s).bind fun text => (ilParse text).toOption with
  | none => rfl
  | some inst =>
      by_cases hadm : occ.Admits plat s inst
      · simp [hadm, hts]
      · simp [hadm]

theorem builtinPreserved_text {p : Persist} (h : builtinPreserved p = true) :
    (p.slots 0).state = .armed ∧ p.dslLen 0 = gp1Il.length ∧ p.text 0 = gp1Il := by
  simp only [builtinPreserved, Bool.and_eq_true, beq_iff_eq] at h
  obtain ⟨⟨hstate, hlen⟩, htext⟩ := h
  exact ⟨hstate, hlen, by rw [Persist.text, hlen, htext]⟩

/-- A preserved built-in text is seated first, from an empty table. -/
theorem restoredOccupants_builtin {p : Persist} (h : builtinPreserved p = true)
    (hid : (p.slots 0).id = idDsl) : restoredOccupants plat p 0 = some gp1Inst := by
  obtain ⟨hstate, hlen, htext⟩ := builtinPreserved_text h
  have hslots : List.finRange maxSlots = 0 :: configSlots := rfl
  have hoffer : restoreOffer p 0 = some gp1Il := by
    have hbounds : 0 < p.dslLen 0 ∧ p.dslLen 0 < dslMax := by
      rw [hlen, gp1Il_length]
      decide
    rw [restoreOffer, if_pos ⟨⟨hstate, hid⟩, hbounds⟩, htext]
  have hfirst : Occupants.seat plat (restoreOffer p) (fun _ => none) 0 =
      Function.update (fun _ => none) 0 (some gp1Inst) := by
    refine Occupants.seat_of_admits hoffer ilParse_gp1Il ?_
    exact (Occupants.admits_gp1Inst plat).mpr nofun
  have hrest : ∀ (slots : List Slot) (occ : Occupants), 0 ∉ slots →
      slots.foldl (Occupants.seat plat (restoreOffer p)) occ 0 = occ 0 := by
    intro slots
    induction slots with
    | nil => exact fun _ _ => rfl
    | cons s slots ih =>
        intro occ hnot
        rw [List.mem_cons, not_or] at hnot
        rw [List.foldl_cons, ih _ hnot.2, Occupants.seat_of_ne hnot.1]
  rw [restoredOccupants, hslots, List.foldl_cons, hfirst, hrest _ _ (by simp [mem_configSlots])]
  rfl

/-- The built-in text is seated unless the other occupants are in its way. -/
theorem Seated.startBuiltin {b b' : Bringup} (h : Seated plat b.machine occ)
    (hpreserved : builtinPreserved b.machine.persist = false)
    (hrun : startBuiltin plat b = .ok b') :
    (b'.machine.persist.Runs 0 ∧ b'.machine.persist.text 0 = gp1Il) ↔ occ.LeavesBuiltin := by
  unfold SlowBus.Interlock.startBuiltin at hrun
  rw [if_neg (by simp [hpreserved])] at hrun
  obtain ⟨⟨r₁, m₁⟩, hdisarm, hrun⟩ := bind_eq_ok.mp hrun
  obtain ⟨⟨r₂, m₂⟩, hset, hrun⟩ := bind_eq_ok.mp hrun
  cases hrun
  -- slot 0 is vacated before it is given the text
  obtain ⟨r, m', hdisarm', hout⟩ :=
    interlockDisarmSlot_outcome 0 (Persist.headerOk_of_isValid h.settled.valid)
  cases hdisarm'.symm.trans hdisarm
  obtain ⟨h₁, hempty, -⟩ := h.disarm (s := 0) rfl hout
  obtain ⟨r', m'', hset', hout'⟩ := interlockSetSlotDsl_outcome plat 0 gp1Il
    (Persist.headerOk_of_isValid h₁.settled.valid)
  cases hset'.symm.trans hset
  have hfree : ¬m₁.Armed 0 := by
    intro harmed
    cases harmed.symm.trans hempty
  have hoffer : ∀ t, some gp1Il = some t ↔
      t = gp1Il ∧ 0 < gp1Il.length ∧ gp1Il.length < dslMax := by
    intro t
    rw [gp1Il_length, Option.some_inj, eq_comm]
    exact (and_iff_left (by decide)).symm
  obtain ⟨h₂, -⟩ := h₁.setSlotDsl (fun _ => some gp1Il) (s := 0) rfl hfree hoffer hout'
  -- vacating slot 0 changes nothing that the others hold
  have hleaves : Occupants.LeavesBuiltin (Function.update occ 0 none) ↔ occ.LeavesBuiltin := by
    refine forall₂_congr fun t ht => ?_
    rw [Occupants.uses, Function.update_of_ne ht, ← Occupants.uses]
  by_cases hadm : Occupants.Admits plat (Function.update occ 0 none) 0 gp1Inst
  · rw [← hleaves, ← Occupants.admits_gp1Inst plat]
    refine iff_of_true ⟨?_, ?_⟩ hadm
    · rw [h₂.runs, Occupants.seat_of_admits rfl ilParse_gp1Il hadm, Function.update_self]
      rfl
    · have hruns : m₂.persist.Runs 0 := by
        rw [h₂.runs, Occupants.seat_of_admits rfl ilParse_gp1Il hadm, Function.update_self]
        rfl
      cases hout' with
      | rejected => exact absurd hruns.1 hfree
      | refused => exact absurd hruns.1 hfree
      | @armed t inst hslot =>
          obtain rfl : t = 0 := Fin.ext hslot.symm
          exact armDsl_text ..
  · rw [← hleaves, ← Occupants.admits_gp1Inst plat]
    refine iff_of_false (fun hup => ?_) hadm
    have hseat : Occupants.seat plat (fun _ => some gp1Il) (Function.update occ 0 none) 0 =
        Function.update occ 0 none := by
      refine Occupants.seat_of_not fun text inst htext hparse => ?_
      cases htext
      cases ilParse_gp1Il.symm.trans hparse
      exact hadm
    have hruns := hup.1
    rw [h₂.runs, hseat, Function.update_self] at hruns
    cases hruns

end Builtin

/-- For every configuration and every persistent memory, a boot brings the
built-in interlock up exactly when the accepted record holds it as a text slot,
or holds something else there and no slot seated before it is in its way. -/
theorem builtin_comes_up_iff (plat : Platform) (cfg : Config) (ms : Nat) (persist : Persist)
    (trace : List DriveEvent) :
    ∃ b, bootUp plat cfg ms persist trace = .ok b ∧
      (BuiltinUp b.machine ↔ BuiltinComesUp plat cfg (interlockBootDecide persist)) := by
  obtain ⟨b, held, hboot, hsettled⟩ := bootUp_settled plat cfg ms persist trace
  refine ⟨b, hboot, ?_⟩
  rw [builtinUp_iff hsettled]
  obtain ⟨m₁, b₁, b₂, hrestore, -, hcfg, -, hbuiltin, rfl⟩ := bootUp_stages hboot
  obtain ⟨hseated, hrestored⟩ := restore_seated hrestore
  obtain ⟨hseated₁, hkeep⟩ := startConfigSlots_seated hseated hrestored hcfg
  obtain ⟨-, -, hpreservedKeep⟩ := startBuiltin_slots hseated₁.settled hbuiltin
  generalize interlockBootDecide persist = p at *
  show b₂.machine.persist.Runs 0 ∧ b₂.machine.persist.text 0 = gp1Il ↔ BuiltinComesUp plat cfg p
  -- the stages before it touch slot 0 only to poison it
  have hpreserved : builtinPreserved b₁.machine.persist = builtinPreserved p := by
    rw [hkeep.builtinPreserved]
    have hcongr : (m₁.persist.slots 0).state = (p.slots 0).state →
        builtinPreserved m₁.persist = builtinPreserved p := by
      intro hstate
      unfold builtinPreserved
      rw [hstate, (hrestored.text 0).2.1, (hrestored.text 0).2.2]
    by_cases hruns : p.Runs 0
    · by_cases hpres : builtinPreserved p = true
      · refine hcongr (Eq.trans (b := .armed) ?_ hruns.1.symm)
        refine ((hseated.runs 0).mpr ?_).1
        rw [restoredOccupants_builtin hpres hruns.2]
        rfl
      · by_cases hpres₁ : builtinPreserved m₁.persist = true
        · exact hcongr ((builtinPreserved_text hpres₁).1.trans hruns.1.symm)
        · rw [Bool.not_eq_true] at hpres hpres₁
          rw [hpres, hpres₁]
    · exact hcongr (congrArg SlotPersist.state (hrestored.idle 0 hruns))
  cases hpres : builtinPreserved p with
  | true =>
      obtain rfl := hpreservedKeep (hpreserved.trans hpres)
      have htext := (builtinPreserved_text (hpreserved.trans hpres)).2.2
      have hid : (b₂.machine.persist.slots 0).id = (p.slots 0).id :=
        hkeep.id.trans (hrestored.text 0).1
      have harmed := (builtinPreserved_text (hpreserved.trans hpres)).1
      simp [BuiltinComesUp, Persist.Runs, hpres, htext, hid, harmed]
  | false =>
      rw [hseated₁.startBuiltin (hpreserved.trans hpres) hbuiltin]
      simp [BuiltinComesUp, hpres]

/-- A configuration file that takes GP1 keeps the built-in interlock down. -/
theorem not_builtin_always_up :
    ¬∀ (plat : Platform) (cfg : Config) (ms : Nat) (persist : Persist) (b : Bringup),
      bootUp plat cfg ms persist [] = .ok b → BuiltinUp b.machine := by
  intro hall
  have hdown : succeedsWith (bootUp benchPlatform
      (fun s => if s = 1 then some "x;cfg[(gp1):in]".toList else none) 0 .cold [])
      (fun b => (b.machine.persist.slots 0).state == .empty) = true := by
    decide +kernel
  obtain ⟨b, hboot, hslot⟩ := exists_of_succeedsWith hdown
  have hup := hall _ _ _ _ b hboot
  rw [beq_iff_eq] at hslot
  cases hup.1.1.symm.trans hslot

end SlowBus.Interlock
