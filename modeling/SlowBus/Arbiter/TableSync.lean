import SlowBus.Arbiter.Liveness
import SlowBus.Lib.Runs

/-!
# The table follows the roster

A rebuild takes the whole roster over, in the order of the addresses. It happens
at the head of a cycle when the dirty flag is set, which every writer of the
roster does but the reload of the configured one.
-/

namespace SlowBus.Arbiter

open Runs

/-! ## A built table -/

theorem insertNode_concat (e : Node) (nodes : List Node) (x : Node) :
    insertNode e (nodes ++ [x]) =
      if e.addr < x.addr then insertNode e nodes ++ [x] else nodes ++ [x, e] := by
  simp only [insertNode, List.rdropWhile_concat, List.rtakeWhile_concat]
  by_cases hx : e.addr < x.addr <;> simp [hx]

/-- Ordered by bus address. -/
def Sorted (nodes : List Node) : Prop := (nodes.map (·.addr)).Pairwise (· ≤ ·)

theorem sorted_insertNode {nodes : List Node} (h : Sorted nodes) (e : Node) :
    Sorted (insertNode e nodes) := by
  induction nodes using List.reverseRecOn with
  | nil => simp [insertNode, Sorted]
  | append_singleton nodes x ih =>
      rw [Sorted, List.map_append, List.pairwise_append] at h
      obtain ⟨hnodes, -, hx⟩ := h
      have hle (a : Node) (ha : a ∈ nodes) : a.addr ≤ x.addr :=
        hx a.addr (List.mem_map_of_mem ha) x.addr (by simp)
      rw [insertNode_concat, Sorted]
      split
      · next hlt =>
          rw [List.map_append, List.pairwise_append]
          refine ⟨ih hnodes, by simp, fun k hk k' hk' => ?_⟩
          obtain ⟨a, ha, rfl⟩ := List.mem_map.mp hk
          rw [List.map_singleton, List.mem_singleton] at hk'
          rw [hk']
          rcases List.mem_cons.mp ((insertNode_perm e nodes).mem_iff.mp ha) with rfl | ha
          · exact hlt.le
          · exact hle a ha
      · next hge =>
          rw [List.map_append, List.pairwise_append]
          refine ⟨hnodes, by simp; omega, fun k hk k' hk' => ?_⟩
          obtain ⟨a, ha, rfl⟩ := List.mem_map.mp hk
          have := hle a ha
          simp only [List.map_cons, List.map_nil, List.mem_cons, List.not_mem_nil, or_false] at hk'
          omega

theorem sorted_busNodetableBuild (roster : List Slave) : Sorted (busNodetableBuild roster) := by
  induction roster using List.reverseRecOn with
  | nil => exact List.Pairwise.nil
  | append_singleton roster s ih =>
      rw [busNodetableBuild, List.foldl_append, List.foldl_cons, List.foldl_nil]
      split
      · exact sorted_insertNode ih _
      · exact ih

/-! ## Table and roster -/

/-- The table has exactly the addresses of the roster, in order. -/
def Matches (table : List Node) (roster : List Slave) : Prop :=
  (table.map (·.addr)).Perm (roster.map (·.addr)) ∧ Sorted table

theorem matches_build {roster : List Slave} (h : roster.length ≤ rosterMax) :
    Matches (busNodetableBuild roster) roster := by
  refine ⟨?_, sorted_busNodetableBuild roster⟩
  have hperm := (busNodetableBuild_perm h).map (·.addr)
  rwa [List.map_map] at hperm

theorem map_addr_rosterModify {f : Slave → Slave} (hf : ∀ e, (f e).addr = e.addr) (addr : Nat)
    (roster : List Slave) : (rosterModify addr f roster).map (·.addr) = roster.map (·.addr) := by
  unfold rosterModify
  split
  · rfl
  · apply List.ext_getElem?
    intro j
    simp only [List.getElem?_map, List.getElem?_modify]
    cases roster[j]? with
    | none => rfl
    | some e =>
        dsimp only [Option.map_eq_map, Option.map_some]
        split
        · rw [hf]
        · rfl

theorem map_addr_markAlive (addr : Nat) (roster : List Slave) :
    (markAlive addr roster).map (·.addr) = roster.map (·.addr) := by
  unfold markAlive
  apply map_addr_rosterModify
  exact fun _ => rfl

theorem map_addr_markMiss (maxMisses addr : Nat) (roster : List Slave) :
    (markMiss maxMisses addr roster).map (·.addr) = roster.map (·.addr) := by
  unfold markMiss
  apply map_addr_rosterModify
  exact fun _ => rfl

theorem Matches.congr {table table' : List Node} {roster roster' : List Slave}
    (h : Matches table roster) (htable : table'.map (·.addr) = table.map (·.addr))
    (hroster : (roster'.map (·.addr)).Perm (roster.map (·.addr))) : Matches table' roster' := by
  refine ⟨?_, ?_⟩
  · rw [htable]
    exact h.1.trans hroster.symm
  · rw [Sorted, htable]
    exact h.2

/-- The roster fits into the table, and the table is the roster's unless a
rebuild is pending. -/
structure Tracks (l : Life) : Prop where
  fits : l.roster.length ≤ rosterMax
  table : l.dirty = false → Matches l.table l.roster

/-- A reload of the configured roster leaves the addresses as they are, or comes
before a rebuild that is already pending. -/
def ReloadKeeps (s : Master) : Action → Prop
  | .uplinkEnter _ cfg =>
      s.dirty = true ∨ ((cfgRoster cfg).map (·.addr)).Perm (s.roster.map (·.addr))
  | _ => True

instance (s : Master) : (a : Action) → Decidable (ReloadKeeps s a)
  | .uplinkEnter _ _ => inferInstanceAs (Decidable (_ ∨ List.Perm _ _))
  | .bus | .alarm | .call _ _ _ | .originate _ _ _ _ | .send _ | .busMsg _ _ _
  | .clearRoster | .registerSlave _ _ | .setPoll _ | .pollEnable _ | .cycleMode _
  | .setSlowpoll _ | .pingPong _ | .linkRoom _ | .queue _ _ | .answer _ _ | .power _ _
  | .arrive | .garble =>
      inferInstanceAs (Decidable True)

theorem length_markAlive (addr : Nat) (roster : List Slave) :
    (markAlive addr roster).length = roster.length := by
  simpa using congrArg List.length (map_addr_markAlive addr roster)

theorem length_markMiss (maxMisses addr : Nat) (roster : List Slave) :
    (markMiss maxMisses addr roster).length = roster.length := by
  simpa using congrArg List.length (map_addr_markMiss maxMisses addr roster)

theorem length_cfgRoster (cfg : Option RosterCfg) : (cfgRoster cfg).length ≤ rosterMax := by
  cases cfg with
  | none => exact Nat.zero_le _
  | some rc =>
      rw [cfgRoster, List.length_map]
      exact List.length_take_le ..

variable {s : Master}

theorem tracks_step (a : Action) (h : Tracks s.life) (hreload : ReloadKeeps s a) :
    Tracks (step s a).life := by
  have halive {table : List Node} {addr : Nat} (htable : table.map (·.addr) =
      s.life.table.map (·.addr)) :
      Tracks { s.life with roster := markAlive addr s.roster, table } := by
    refine ⟨(length_markAlive addr s.roster).symm ▸ h.fits, fun hdirty => ?_⟩
    exact (h.table hdirty).congr htable (by rw [map_addr_markAlive]; exact List.Perm.refl _)
  have hmiss {table : List Node} {addr : Nat} (htable : table.map (·.addr) =
      s.life.table.map (·.addr)) :
      Tracks { s.life with roster := markMiss s.pollMaxMisses addr s.roster, table } := by
    refine ⟨(length_markMiss s.pollMaxMisses addr s.roster).symm ▸ h.fits, fun hdirty => ?_⟩
    exact (h.table hdirty).congr htable (by rw [map_addr_markMiss]; exact List.Perm.refl _)
  have hlife := lifeStep_step s a
  generalize (step s a).life = l at hlife ⊢
  cases hlife with
  | same => exact h
  | rebuild => exact ⟨h.fits, fun _ => matches_build h.fits⟩
  | swept i node => exact halive (map_addr_modify (f := Node.heard) (fun _ => rfl) _ i)
  | missed i node => exact hmiss (map_addr_modify (addr_missed _) _ i)
  | revived i node => exact halive (map_addr_modify (f := Node.revived) (fun _ => rfl) _ i)
  | slotHeard addr => exact halive rfl
  | slotMissed addr => exact hmiss rfl
  | injectHeard cmd => exact halive rfl
  | collectHeard c => exact halive rfl
  | cleared => exact ⟨Nat.zero_le _, fun hdirty => nomatch hdirty⟩
  | registered addr enabled hroom =>
      refine ⟨?_, fun hdirty => nomatch hdirty⟩
      rw [List.length_append, List.length_singleton]
      exact hroom
  | loaded active cfg =>
      refine ⟨length_cfgRoster cfg, fun hdirty => ?_⟩
      rcases hreload with hpending | hperm
      · exact absurd (hdirty.symm.trans hpending) (by simp)
      · exact (h.table hdirty).congr rfl hperm

theorem tracks_boot (room : Nat) (cfg : Option RosterCfg) : Tracks (boot room cfg).life := by
  have hlife : (boot room cfg).life =
      { roster := cfgRoster cfg, table := busNodetableBuild (cfgRoster cfg), dirty := false } := by
    cases cfg <;>
      simp only [boot, Master.loadCfgRoster, Master.life, map_life_build, cfgRoster]
  rw [hlife]
  exact ⟨length_cfgRoster cfg, fun _ => matches_build (length_cfgRoster cfg)⟩

/-- The next step of the bus task begins a cycle. -/
def CycleBegins (s : Master) : Prop := s.pc = .top ∧ s.cycleMode = true

theorem life_top (hbegin : CycleBegins s) :
    s.busStep.life = if s.dirty
      then { s.life with table := busNodetableBuild s.roster, dirty := false } else s.life := by
  obtain ⟨hpc, hmode⟩ := hbegin
  simp only [Master.busStep, hpc, hmode, if_true]
  by_cases hdirty : s.dirty
  · simp only [if_pos hdirty, Master.life, Master.rebuild, map_life_build]
  · simp only [if_neg hdirty]
    rfl

/-- Where reloads keep the addresses, every cycle works on a table that has
exactly the addresses of the roster at its beginning, in order. -/
theorem table_matches_when_reloads_keep (room : Nat) (cfg : Option RosterCfg) (as : List Action)
    (hreload : Along step ReloadKeeps (boot room cfg) as)
    (hbegin : CycleBegins (run step (boot room cfg) as)) :
    Matches (step (run step (boot room cfg) as) .bus).nodes
      (run step (boot room cfg) as).roster := by
  have h := run_along (P := fun s => Tracks s.life) (fun _ a h hr => tracks_step a h hr) hreload
    (tracks_boot room cfg)
  generalize run step (boot room cfg) as = s at h hbegin
  have hlife := life_top hbegin
  have htable : (s.busStep.life.table).map (·.addr) = s.busStep.nodes.map (·.addr) := by
    rw [Master.life, List.map_map]
    rfl
  have hmatches : Matches s.busStep.life.table s.roster := by
    rw [hlife]
    split
    · exact matches_build h.fits
    · next hdirty => exact h.table (eq_false_of_ne_true hdirty)
  exact hmatches.congr htable.symm (List.Perm.refl _)

/-- The host link comes up and the configured roster, node 6, is loaded. -/
def reload : Action := .uplinkEnter true (some { slaves := [(6, true)] })

/-- A node is registered before the reload, so that a rebuild is pending. -/
theorem table_matches_when_reloads_keep_registered :
    Along step ReloadKeeps (boot 24 none) [.registerSlave 5 true, reload] ∧
      Matches (step (run step (boot 24 none) [.registerSlave 5 true, reload]) .bus).nodes
        (run step (boot 24 none) [.registerSlave 5 true, reload]).roster :=
  ⟨by decide, table_matches_when_reloads_keep 24 none _ (by decide) ⟨by decide, by decide⟩⟩

/-- The reload does not ask for a rebuild: the cycle works on the old table. -/
theorem not_always_table_matches :
    ¬∀ (room : Nat) (cfg : Option RosterCfg) (as : List Action),
      CycleBegins (run step (boot room cfg) as) →
        Matches (step (run step (boot room cfg) as) .bus).nodes
          (run step (boot room cfg) as).roster := by
  intro h
  have hmatches := h 24 (some { slaves := [(5, true)] }) [reload] ⟨by decide, by decide⟩
  exact absurd hmatches.1 (by decide)

end SlowBus.Arbiter
