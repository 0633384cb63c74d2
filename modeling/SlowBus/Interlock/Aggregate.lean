import SlowBus.Interlock.WellFormed

/-!
# Aggregation in disjunctive normal form

The group scan of `il_dnf_result` ends whenever the group numbers stay below
255, and it finds out whether some group that has clauses passed all of them.
-/

namespace SlowBus.Interlock

theorem groupPasses_iff {g : Nat} {clauses : List (Watch × Bool)} {has : Bool} :
    groupPasses g clauses has = true ↔
      (has = true ∨ ∃ c ∈ clauses, c.1.group = g) ∧
        ∀ c ∈ clauses, c.1.group = g → c.2 = true := by
  induction clauses generalizing has with
  | nil => simp [groupPasses]
  | cons c clauses ih =>
      obtain ⟨w, pass⟩ := c
      rw [groupPasses]
      by_cases hgroup : w.group = g
      · cases pass with
        | true => simp [hgroup, ih]
        | false => simp [hgroup]
      · simp [hgroup, ih]

theorem le_maxGroup {watches : List Watch} {w : Watch} (hw : w ∈ watches) :
    w.group ≤ maxGroup watches := by
  have hmono : ∀ (ws : List Watch) m,
      m ≤ ws.foldl (fun m w => if w.group > m then w.group else m) m ∧
        ∀ w ∈ ws, w.group ≤ ws.foldl (fun m w => if w.group > m then w.group else m) m := by
    intro ws
    induction ws with
    | nil => exact fun m => ⟨le_rfl, nofun⟩
    | cons v ws ih =>
        intro m
        obtain ⟨hle, hall⟩ := ih (if v.group > m then v.group else m)
        have hstep : m ≤ (if v.group > m then v.group else m) ∧
            v.group ≤ (if v.group > m then v.group else m) := by
          split_ifs <;> omega
        exact ⟨hstep.1.trans hle, List.forall_mem_cons.mpr ⟨hstep.2.trans hle, hall⟩⟩
  exact (hmono watches 0).2 w hw

theorem maxGroup_lt {watches : List Watch} {bound : Nat} (hpos : 0 < bound)
    (hlt : ∀ w ∈ watches, w.group < bound) : maxGroup watches < bound := by
  refine List.foldlRecOn (motive := (· < bound)) watches _ hpos ?_
  intro m hm w hw
  split_ifs
  · exact hlt w hw
  · exact hm

/-- The scan from group `g` on, with enough turns left. -/
theorem dnfScan_eq (clauses : List (Watch × Bool)) {top : Nat} (fuel g : Nat) (htop : top < 255)
    (hfuel : top + 1 < g + fuel) (hg : g ≤ top + 1) :
    ∃ b, dnfScan clauses top fuel g = some b ∧
      (b = true ↔ ∃ g', g ≤ g' ∧ g' ≤ top ∧ groupPasses g' clauses false = true) := by
  induction fuel generalizing g with
  | zero => omega
  | succ fuel ih =>
      rw [dnfScan]
      by_cases hle : g ≤ top
      · rw [if_pos hle]
        by_cases hpass : groupPasses g clauses false = true
        · rw [if_pos hpass]
          exact ⟨true, rfl, by simpa using ⟨g, le_rfl, hle, hpass⟩⟩
        · rw [if_neg hpass, Nat.mod_eq_of_lt (by omega)]
          obtain ⟨b, hb, hiff⟩ := ih (g + 1) (by omega) (by omega)
          refine ⟨b, hb, hiff.trans ⟨?_, ?_⟩⟩
          · rintro ⟨g', hlo, hhi, hp⟩
            exact ⟨g', by omega, hhi, hp⟩
          · rintro ⟨g', hlo, hhi, hp⟩
            have hne : g ≠ g' := by
              rintro rfl
              exact hpass hp
            exact ⟨g', by omega, hhi, hp⟩
      · rw [if_neg hle]
        refine ⟨false, rfl, ?_⟩
        simp only [Bool.false_eq_true, false_iff]
        rintro ⟨g', hlo, hhi, -⟩
        omega

/-- A slot's vote: some group that has clauses passes all of them, or there are
no clauses. -/
theorem ilDnfResult_eq {watches : List Watch} (wpass : List Bool)
    (hgroups : ∀ w ∈ watches, w.group < 255) :
    ∃ b, ilDnfResult watches wpass = some b ∧
      (b = true ↔ watches = [] ∨ ∃ g, (∃ c ∈ watches.zip wpass, c.1.group = g) ∧
        ∀ c ∈ watches.zip wpass, c.1.group = g → c.2 = true) := by
  unfold ilDnfResult
  cases watches with
  | nil => exact ⟨true, rfl, by simp⟩
  | cons w ws =>
      rw [if_neg (by simp)]
      have htop : maxGroup (w :: ws) < 255 := maxGroup_lt (by decide) hgroups
      obtain ⟨b, hb, hiff⟩ := dnfScan_eq ((w :: ws).zip wpass) 256 0 htop (by omega) (by omega)
      refine ⟨b, hb, hiff.trans ?_⟩
      simp only [groupPasses_iff, Bool.false_eq_true, false_or, reduceCtorEq]
      constructor
      · rintro ⟨g, -, -, hpass⟩
        exact ⟨g, hpass⟩
      · rintro ⟨g, ⟨c, hc, hcg⟩, hall⟩
        have hmem : c.1 ∈ w :: ws := (List.of_mem_zip hc).1
        exact ⟨g, Nat.zero_le _, hcg ▸ le_maxGroup hmem, ⟨c, hc, hcg⟩, hall⟩

/-- The scan ends on every instance the parser produces. -/
theorem Inst.WellFormed.ilDnfResult_ne_none {inst : Inst} (h : inst.WellFormed)
    (wpass : List Bool) : ilDnfResult inst.watches wpass ≠ none := by
  have hlt : ∀ w ∈ inst.watches, w.group < 255 :=
    fun w hw => (h.groups w hw).trans (by decide)
  obtain ⟨b, hb, -⟩ := ilDnfResult_eq wpass hlt
  simp [hb]

/-- Evaluating a well-formed instance returns, and keeps everything but the
truth value. -/
theorem Inst.WellFormed.evalSlot_returns {inst : Inst} (h : inst.WellFormed) (hal : Hal)
    (s : Samples) (rt : SlotRuntime) :
    ∃ e tf, evalSlot hal s inst rt = some e ∧ e.inst = { inst with tfState := tf } := by
  unfold evalSlot
  dsimp only
  generalize readInputs hal s 0 inst.inputs rt = r
  obtain ⟨vals, rt'⟩ := r
  dsimp only
  generalize evalWatches inst.inputs vals 0 inst.watches rt' = r
  obtain ⟨wpass, rt''⟩ := r
  obtain ⟨b, hb⟩ := Option.ne_none_iff_exists'.mp (h.ilDnfResult_ne_none wpass)
  exact ⟨_, if b then .isTrue else .isFalse, by rw [hb]; rfl, rfl⟩

end SlowBus.Interlock
