import SlowBus.Interlock.Written

/-!
# Interlocks that are not what is written

A numeral from 2^16 on is taken modulo 2^16, and an output that only one of the two output
sections names has level 0 in the other: both are accepted where the result happens to fit.
-/

namespace SlowBus.Interlock

open Fallible

variable {text : Text} {inst : Inst}

/-! ## Numerals -/

/-- Thresholds and levels are the numerals that are written for them, and all of these fit. -/
structure Inst.MeansNumerals (inst : Inst) (secs : List Section) : Prop where
  thresholds : inst.watches.map Watch.threshold = writtenThresholds secs
  levels : ∀ o ∈ inst.outputs, ∀ isOk,
    ∀ v ∈ lastLevel rp2040 (writtenLevels isOk secs) o.physId, o.level isOk = v
  thresholdsFit : ∀ v ∈ writtenThresholds secs, v ≤ 65535
  levelsFit : ∀ isOk, ∀ e ∈ writtenLevels isOk secs, e.2 ≤ 1

/-- No numeral of a watch or output section reaches 2^16. -/
def NumeralsFit (secs : List Section) : Prop :=
  (∀ v ∈ writtenThresholds secs, v < 2 ^ 16) ∧
    ∀ isOk, ∀ e ∈ writtenLevels isOk secs, e.2 < 2 ^ 16

/-- An accepted text means what it says if and only if its numerals have 16 bits. -/
theorem numerals_mean (hparse : ilParse text = .ok inst) :
    inst.MeansNumerals (sectionsOf text) ↔ NumeralsFit (sectionsOf text) := by
  have hthresholds := ilParse_thresholds hparse
  have hleveled := ilParse_leveled hparse
  constructor
  · intro h
    exact ⟨fun v hv => Nat.lt_succ_of_le (h.thresholdsFit v hv),
      fun isOk e he => (h.levelsFit isOk e he).trans_lt (by decide)⟩
  · rintro ⟨hwatch, hlevel⟩
    have hfit : ∀ isOk, ∀ e ∈ writtenLevels isOk (sectionsOf text), e.2 ≤ 1 := by
      intro isOk e he
      have hmod := hleveled.fits isOk e he
      rwa [Nat.mod_eq_of_lt (hlevel isOk e he)] at hmod
    refine ⟨?_, fun o ho isOk v hv => ?_, fun v hv => Nat.le_of_lt_succ (hwatch v hv), hfit⟩
    · rw [hthresholds]
      exact (List.map_congr_left fun v hv => Nat.mod_eq_of_lt (hwatch v hv)).trans (List.map_id _)
    · obtain ⟨e, he, -, rfl⟩ := mem_of_lastLevel hv
      rw [hleveled.level o ho isOk, Option.mem_def.mp hv, Option.getD_some,
        Nat.mod_eq_of_lt (hlevel isOk e he)]

/-- An interlock with an input and an output. -/
def pumpText : Text :=
  "t;cfg[gp2:in,gp3:out];watch[gp2:ne:0x10];out_ok[gp3:0];out_err[gp3:1]".toList

theorem numerals_mean_pump :
    ∃ inst, ilParse pumpText = .ok inst ∧ inst.MeansNumerals (sectionsOf pumpText) := by
  obtain ⟨inst, hparse, -⟩ := exists_of_succeedsWith (x := ilParse pumpText)
    (p := fun inst => inst.outputs.length == 1) (by decide +kernel)
  refine ⟨inst, hparse, (numerals_mean hparse).mpr ⟨by decide +kernel, ?_⟩⟩
  decide +kernel

/-- The threshold 65537 is taken for 1. -/
theorem not_numerals_mean :
    ¬ ∀ text inst, ilParse text = .ok inst → inst.MeansNumerals (sectionsOf text) := by
  intro hall
  obtain ⟨inst, hparse, -⟩ := exists_of_succeedsWith
    (x := ilParse "t;cfg[gp2:in];watch[gp2:eq:65537]".toList)
    (p := fun inst => inst.watches.length == 1) (by decide +kernel)
  have hfit := (hall _ inst hparse).thresholdsFit
  revert hfit
  decide +kernel

/-! ## Levels -/

/-- Every output is named in both kinds of output section, and has the levels that are
written there. -/
def Inst.Specified (inst : Inst) (secs : List Section) : Prop :=
  ∀ o ∈ inst.outputs, ∀ isOk,
    lastLevel rp2040 (writtenLevels isOk secs) o.physId = some (o.level isOk)

/-- A pin for which one kind of section writes 1 is named in the other kind too; the numeral
that is last written for a pin has 16 bits. -/
def LevelsComplete (secs : List Section) : Prop :=
  ∀ pin isOk, ∀ v ∈ lastLevel rp2040 (writtenLevels isOk secs) pin,
    v < 2 ^ 16 ∧ (v = 1 → (lastLevel rp2040 (writtenLevels (!isOk) secs) pin).isSome = true)

/-- The two levels of an accepted output. -/
theorem level_ne (hparse : ilParse text = .ok inst) {o : Output} (ho : o ∈ inst.outputs)
    (isOk : Bool) : o.level isOk ≤ 1 ∧ o.level isOk ≠ o.level (!isOk) := by
  obtain ⟨hok, herr, hne⟩ := (formed_of_ilParse hparse).levels o ho
  cases isOk
  · exact ⟨herr, hne.symm⟩
  · exact ⟨hok, hne⟩

/-- The outputs of an accepted text are fully specified if and only if a level 1 is written
only for pins that have both levels written. -/
theorem levels_specified (hparse : ilParse text = .ok inst) :
    inst.Specified (sectionsOf text) ↔ LevelsComplete (sectionsOf text) := by
  have hleveled := ilParse_leveled hparse
  constructor
  · intro hspec pin isOk v hv
    obtain ⟨e, he, hnames, -⟩ := mem_of_lastLevel hv
    -- a written level names a declared output, whose level is the last one written
    obtain ⟨pin', hpin', hnames'⟩ := hleveled.named isOk e he
    obtain rfl := Board.names_inj hnames hnames'
    obtain ⟨o, ho, rfl⟩ := List.mem_map.mp hpin'
    have hsome := hspec o ho isOk
    rw [Option.mem_def.mp hv, Option.some_inj] at hsome
    refine ⟨?_, fun _ => ?_⟩
    · rw [hsome]
      exact (level_ne hparse ho isOk).1.trans_lt (by decide)
    · rw [hspec o ho (!isOk)]
      rfl
  · intro hcomplete o ho isOk
    have hlevel := hleveled.level o ho isOk
    cases hlast : lastLevel rp2040 (writtenLevels isOk (sectionsOf text)) o.physId with
    | some v =>
        rw [hlast, Option.getD_some,
          Nat.mod_eq_of_lt (hcomplete o.physId isOk v hlast).1] at hlevel
        rw [hlevel]
    | none =>
        -- the other level is 1, so it is written
        exfalso
        rw [hlast, Option.getD_none, Nat.zero_mod] at hlevel
        have hne := (level_ne hparse ho isOk).2
        have hle := (level_ne hparse ho (!isOk)).1
        have hother := hleveled.level o ho (!isOk)
        cases hlast' : lastLevel rp2040 (writtenLevels (!isOk) (sectionsOf text)) o.physId with
        | none =>
            rw [hlast', Option.getD_none, Nat.zero_mod] at hother
            omega
        | some v =>
            obtain ⟨hlt, hnamed⟩ := hcomplete o.physId (!isOk) v hlast'
            rw [hlast', Option.getD_some, Nat.mod_eq_of_lt hlt] at hother
            have hsome := hnamed (by omega)
            rw [Bool.not_not, hlast] at hsome
            cases hsome

theorem levels_specified_pump :
    ∃ inst, ilParse pumpText = .ok inst ∧ inst.Specified (sectionsOf pumpText) := by
  obtain ⟨inst, hparse, -⟩ := exists_of_succeedsWith (x := ilParse pumpText)
    (p := fun inst => inst.outputs.length == 1) (by decide +kernel)
  refine ⟨inst, hparse, (levels_specified hparse).mpr fun pin isOk v hv => ?_⟩
  have hok : writtenLevels true (sectionsOf pumpText) = [("gp3".toList, 0)] := by decide +kernel
  have herr : writtenLevels false (sectionsOf pumpText) = [("gp3".toList, 1)] := by decide +kernel
  obtain ⟨e, he, hnames, rfl⟩ := mem_of_lastLevel hv
  cases isOk with
  | true =>
      rw [hok] at he
      obtain rfl := List.mem_singleton.mp he
      exact ⟨by decide, nofun⟩
  | false =>
      rw [herr] at he
      obtain rfl := List.mem_singleton.mp he
      rw [Bool.not_false, hok]
      have hnames : rp2040.names pin "gp3".toList = true := hnames
      exact ⟨by decide, fun _ => by simp [lastLevel, hnames, -String.reduceToList]⟩

/-- Each of two outputs is named in one kind of section only. -/
theorem not_levels_specified :
    ¬ ∀ text inst, ilParse text = .ok inst → inst.Specified (sectionsOf text) := by
  intro hall
  obtain ⟨inst, hparse, houts⟩ := exists_of_succeedsWith
    (x := ilParse "t;cfg[(gp3,gp4):out];out_ok[gp3:1];out_err[gp4:1]".toList)
    (p := fun inst => inst.outputs == [⟨3, 1, 0, 0⟩, ⟨4, 0, 1, 0⟩]) (by decide +kernel)
  have houts : inst.outputs = [⟨3, 1, 0, 0⟩, ⟨4, 0, 1, 0⟩] := by simpa using houts
  have hspec := hall _ inst hparse ⟨3, 1, 0, 0⟩ (by rw [houts]; exact List.mem_cons_self) false
  revert hspec
  decide +kernel

end SlowBus.Interlock
