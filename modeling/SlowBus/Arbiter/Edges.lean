import SlowBus.Arbiter.Announce

/-!
# Edges alternate and none is dropped

What was announced of an entry tells whether the last edge staged for it was DOWN.
So DOWN and UP alternate for every entry, whatever the order of polls and however
often the ring is full.
-/

namespace SlowBus.Arbiter

open Runs (run)

def Announcement.edge (a : Announcement) : Option Edge :=
  if a.frame.opcode = opBusSlaveDown then some .down
  else if a.frame.opcode = opBusSlaveUp then some .up
  else none

/-- The DOWN and UP frames staged for entry `j`. -/
def edges (made : List Announcement) (j : Nat) : List Edge :=
  (made.filter (·.entry = j)).filterMap Announcement.edge

/-- The `k`-th edge of an entry. -/
def edgeAt (k : Nat) : Edge := if k % 2 = 0 then .down else .up

/-- DOWN first, then UP and DOWN in turn; `isDown` tells whether DOWN was last. -/
structure Alternate (es : List Edge) (isDown : Prop) : Prop where
  turns : ∀ k e, es[k]? = some e → e = edgeAt k
  last : es.length % 2 = 1 ↔ isDown

section Alternate

variable {es : List Edge} {isDown isDown' : Prop} {made : List Announcement} {i j : Nat}
  {f : HostFrame}

theorem alternate_nil (h : ¬ isDown) : Alternate [] isDown := ⟨by simp, by simp [h]⟩

theorem Alternate.congr (h : Alternate es isDown) (heq : isDown ↔ isDown') :
    Alternate es isDown' := ⟨h.turns, h.last.trans heq⟩

theorem Alternate.concat (h : Alternate es isDown) {e : Edge} (he : e = edgeAt es.length)
    (hlast : (es.length + 1) % 2 = 1 ↔ isDown') : Alternate (es ++ [e]) isDown' := by
  refine ⟨fun k e' hk => ?_, by simpa using hlast⟩
  rcases Nat.lt_or_ge k es.length with hlt | hge
  · rw [List.getElem?_append_left hlt] at hk
    exact h.turns k e' hk
  · rw [List.getElem?_append_right hge, List.getElem?_singleton] at hk
    split at hk
    next hzero =>
      cases hk
      rw [he, show k = es.length by omega]
    next => cases hk

theorem Alternate.down (h : Alternate es isDown) (hup : ¬ isDown) (hdown : isDown') :
    Alternate (es ++ [.down]) isDown' := by
  have heven : es.length % 2 = 0 := by
    have hlast := mt h.last.mp hup
    omega
  refine h.concat (by simp [edgeAt, heven]) ⟨fun _ => hdown, fun _ => by omega⟩

theorem Alternate.up (h : Alternate es isDown) (hdown : isDown) (hup : ¬ isDown') :
    Alternate (es ++ [.up]) isDown' := by
  have hodd := h.last.mpr hdown
  refine h.concat (by simp [edgeAt, hodd]) ⟨fun h => by omega, fun h => absurd h hup⟩

theorem edges_other (h : i ≠ j) : edges (made ++ [⟨i, f⟩]) j = edges made j := by
  simp [edges, h]

theorem edges_down (h : f.opcode = opBusSlaveDown) :
    edges (made ++ [⟨j, f⟩]) j = edges made j ++ [.down] := by
  simp [edges, Announcement.edge, h]

theorem edges_up (h : f.opcode = opBusSlaveUp) :
    edges (made ++ [⟨j, f⟩]) j = edges made j ++ [.up] := by
  simp [edges, Announcement.edge, h, opBusSlaveUp, opBusSlaveDown]

theorem edges_flagged (h : f.opcode = opBusSlaveFlagged) :
    edges (made ++ [⟨j, f⟩]) j = edges made j := by
  simp [edges, Announcement.edge, h, opBusSlaveUp, opBusSlaveDown, opBusSlaveFlagged]

end Alternate

/-! ## The invariant -/

/-- An entry and the edges staged for it. An entry that was never heard or missed
was never announced. -/
structure RosterEntry.Tracks (s : RosterEntry) (es : List Edge) : Prop where
  fresh : s.slave.state = .unknown → s.announcedState = .unknown
  alternate : Alternate es (s.announcedState = .dead)

structure Announcer.Inv (m : Announcer) : Prop where
  tracks : ∀ j (s : RosterEntry), m.roster[j]? = some s → s.Tracks (edges m.made j)
  listed : ∀ a ∈ m.made, a.entry < m.roster.length

section Tracks

variable {s : RosterEntry} {es : List Edge} {j : Nat} {made : List Announcement}

/-- The silent change of an entry that asks for no edge. -/
theorem Tracks.settle (h : s.Tracks es) : s.edge.1.Tracks es := by
  have hcase := edge_case s
  generalize s.edge = r at hcase
  cases hcase with
  | down | up => exact h
  | flagged _ _ hdead halive | silent hdead halive _ =>
      refine ⟨fun hunknown => hunknown, h.alternate.congr ⟨fun hannounced => ?_, hdead⟩⟩
      show s.slave.state = .dead
      cases hstate : s.slave.state with
      | dead => rfl
      | alive => exact absurd hannounced (halive hstate)
      | unknown =>
          rw [h.fresh hstate] at hannounced
          cases hannounced

/-- The frame an entry asks for is the edge that is due. -/
theorem Tracks.announce (h : s.Tracks (edges made j)) {f : HostFrame} {announced : RosterEntry}
    (hedge : s.edge.2 = some (f, announced)) : announced.Tracks (edges (made ++ [⟨j, f⟩]) j) := by
  have hsettled := Tracks.settle h
  have hcase := edge_case s
  generalize s.edge = r at hcase hedge hsettled
  cases hcase with
  | down f' hop hstate hannounced =>
      cases hedge
      rw [edges_down hop]
      exact ⟨fun hunknown => absurd (hstate.symm.trans hunknown) (by decide),
        h.alternate.down hannounced rfl⟩
  | up f' hop hstate hannounced =>
      cases hedge
      rw [edges_up hop]
      exact ⟨fun hunknown => absurd (hstate.symm.trans hunknown) (by decide),
        h.alternate.up hannounced (by simp)⟩
  | flagged f' hop =>
      cases hedge
      rw [edges_flagged hop]
      exact ⟨hsettled.fresh, hsettled.alternate⟩
  | silent => cases hedge

/-- A poll, or a summary byte, changes what is true of an entry and not what was
announced of it. -/
theorem Tracks.observe (h : s.Tracks es) {s' : RosterEntry}
    (hstate : s'.slave.state = .unknown → s.slave.state = .unknown)
    (hannounced : s'.announcedState = s.announcedState) : s'.Tracks es := by
  refine ⟨fun hunknown => hannounced.trans (h.fresh (hstate hunknown)), ?_⟩
  rw [hannounced]
  exact h.alternate

end Tracks

section Run

variable {m : Announcer} {roster : List RosterEntry} {addr : Nat}
  {f : RosterEntry → RosterEntry}

theorem length_entryModify : (entryModify addr f roster).length = roster.length := by
  unfold entryModify
  split
  next => rfl
  next => exact List.length_modify ..

theorem getElem?_entryModify {j : Nat} {s' : RosterEntry}
    (h : (entryModify addr f roster)[j]? = some s') :
    ∃ s, roster[j]? = some s ∧ (s' = s ∨ s' = f s) := by
  unfold entryModify at h
  split at h
  next => exact ⟨s', h, Or.inl rfl⟩
  next i _ =>
    rw [List.getElem?_modify] at h
    obtain ⟨s, hs, heq⟩ := Option.map_eq_some_iff.mp h
    refine ⟨s, hs, ?_⟩
    split at heq
    next => exact Or.inr heq.symm
    next => exact Or.inl heq.symm

theorem Inv.modify (h : m.Inv)
    (hstate : ∀ s, (f s).slave.state = .unknown → s.slave.state = .unknown)
    (hannounced : ∀ s, (f s).announcedState = s.announcedState) :
    Announcer.Inv { m with roster := entryModify addr f m.roster } := by
  refine ⟨fun j s' hs' => ?_, fun a ha => length_entryModify.symm ▸ h.listed a ha⟩
  obtain ⟨s, hs, rfl | rfl⟩ := getElem?_entryModify hs'
  · exact h.tracks j s' hs
  · exact Tracks.observe (h.tracks j s hs) (hstate s) (hannounced s)

theorem state_miss {maxMisses : Nat} {s : Slave} (h : (s.miss maxMisses).state = .unknown) :
    s.state = .unknown := by
  simp only [Slave.miss] at h
  by_cases hdead : s.state ≠ .dead ∧
      maxMisses ≤ (if s.misses < 0xFF then s.misses + 1 else s.misses)
  · rw [if_pos hdead] at h
    cases h
  · rwa [if_neg hdead] at h

theorem edges_unlisted (h : ∀ a ∈ m.made, a.entry < m.roster.length) {j : Nat}
    (hj : m.roster.length ≤ j) : edges m.made j = [] := by
  rw [edges, List.filter_eq_nil_iff.mpr, List.filterMap_nil]
  intro a ha
  have hlt := h a ha
  simp only [decide_eq_true_eq]
  omega

theorem tracks_entry (r : Registration) : r.entry.Tracks [] :=
  ⟨fun _ => rfl, alternate_nil (by simp [Registration.entry])⟩

theorem Inv.register (h : m.Inv) (r : Registration) :
    Announcer.Inv { m with roster := m.roster ++ [r.entry] } := by
  refine ⟨fun j s hs => ?_, fun a ha => ?_⟩
  · rcases Nat.lt_or_ge j m.roster.length with hlt | hge
    · rw [List.getElem?_append_left hlt] at hs
      exact h.tracks j s hs
    · rw [List.getElem?_append_right hge, List.getElem?_singleton] at hs
      split at hs
      next hzero =>
        cases hs
        rw [edges_unlisted h.listed hge]
        exact tracks_entry r
      next => cases hs
  · have hlt := h.listed a ha
    rw [List.length_append]
    omega

/-- Entries before the one a pass stops at are settled, those behind it untouched. -/
theorem getElem?_pass {before after : List RosterEntry} {s s' t : RosterEntry} {j : Nat}
    (h : (before.map (·.edge.1) ++ s' :: after)[j]? = some t) :
    (j = before.length ∧ t = s') ∨
      j ≠ before.length ∧ ∃ t', (before ++ s :: after)[j]? = some t' ∧ (t = t'.edge.1 ∨ t = t') := by
  rcases Nat.lt_trichotomy j before.length with hlt | heq | hgt
  · right
    rw [List.getElem?_append_left (by simpa using hlt), List.getElem?_map] at h
    obtain ⟨t', ht', rfl⟩ := Option.map_eq_some_iff.mp h
    exact ⟨hlt.ne, t', by rwa [List.getElem?_append_left hlt], Or.inl rfl⟩
  · left
    subst heq
    rw [List.getElem?_append_right (by simp), List.length_map, Nat.sub_self] at h
    exact ⟨rfl, (Option.some_inj.mp h).symm⟩
  · right
    obtain ⟨k, rfl⟩ : ∃ k, j = before.length + (k + 1) := ⟨j - before.length - 1, by omega⟩
    rw [List.getElem?_append_right (by simp), List.length_map, Nat.add_sub_cancel_left,
      List.getElem?_cons_succ] at h
    refine ⟨by omega, t, ?_, Or.inr rfl⟩
    rw [List.getElem?_append_right (by omega), Nat.add_sub_cancel_left, List.getElem?_cons_succ]
    exact h

theorem Inv.emit (h : m.Inv) (full : Bool) : (m.next (.emit full)).Inv := by
  have hcase := pass_case full m.link 0 m.roster
  rw [Announcer.next]
  generalize emitLivenessEdges full m.link 0 m.roster = p at hcase
  -- an entry that is not announced tracks the same edges, settled or not
  have hsettle : ∀ (j : Nat) (t t' : RosterEntry), m.roster[j]? = some t' → t = t'.edge.1 ∨ t = t' →
      t.Tracks (edges m.made j) := by
    rintro j t t' ht' (rfl | rfl)
    · exact Tracks.settle (h.tracks j t' ht')
    · exact h.tracks j t ht'
  cases hcase with
  | settled hnone =>
      dsimp only [Option.toList_none]
      rw [List.append_nil]
      refine ⟨fun j t ht => ?_, fun a ha => (List.length_map _).symm ▸ h.listed a ha⟩
      rw [List.getElem?_map] at ht
      obtain ⟨t', ht', rfl⟩ := Option.map_eq_some_iff.mp ht
      exact hsettle j _ t' ht' (Or.inl rfl)
  | failed before after s _ hroster =>
      dsimp only [Option.toList_none]
      rw [List.append_nil]
      refine ⟨fun j t ht => ?_, fun a ha => ?_⟩
      · rcases getElem?_pass (s := s) ht with ⟨rfl, rfl⟩ | ⟨_, t', ht', heq⟩
        · exact hsettle _ _ s (by rw [hroster]; simp) (Or.inl rfl)
        · exact hsettle j t t' (hroster ▸ ht') heq
      · have hlt := h.listed a ha
        rw [hroster] at hlt
        simpa using hlt
  -- the first pending entry is announced, those behind it are kept
  | staged before after s announced f _ hroster hedge =>
      dsimp only [Option.toList_some]
      rw [Nat.zero_add]
      refine ⟨fun j t ht => ?_, fun a ha => ?_⟩
      · rcases getElem?_pass (s := s) ht with ⟨rfl, rfl⟩ | ⟨hne, t', ht', heq⟩
        · exact Tracks.announce (h.tracks _ s (by rw [hroster]; simp)) hedge
        · rw [edges_other (Ne.symm hne)]
          exact hsettle j t t' (hroster ▸ ht') heq
      · rcases List.mem_append.mp ha with ha | ha
        · have hlt := h.listed a ha
          rw [hroster] at hlt
          simpa using hlt
        · rw [List.mem_singleton.mp ha]
          simp

theorem inv_event (h : m.Inv) (e : RosterEvent) : (m.next e).Inv := by
  cases e with
  | answered addr => exact Inv.modify h (fun s hs => by cases hs) (fun _ => rfl)
  | missed addr => exact Inv.modify h (fun s => state_miss) (fun _ => rfl)
  | summary addr value => exact Inv.modify h (fun _ hs => hs) (fun _ => rfl)
  | setPoll maxMisses => exact ⟨h.tracks, h.listed⟩
  | register r =>
      unfold Announcer.next
      dsimp only
      split
      next => exact Inv.register h r
      next => exact h
  | emit full => exact Inv.emit h full

theorem inv_loaded (roster : List Registration) (maxMisses : Nat) (link : HostLink) :
    (Announcer.loaded roster maxMisses link).Inv := by
  refine ⟨fun j s hs => ?_, fun a ha => by cases ha⟩
  obtain ⟨r, _, rfl⟩ := Option.map_eq_some_iff.mp ((List.getElem?_map ..).symm.trans hs)
  exact tracks_entry r

/-! ## What a pass leaves pending -/

theorem pending_edge (s : RosterEntry) : s.edge.1.pending = s.pending := by
  rw [RosterEntry.pending, edge_edge, RosterEntry.pending]

/-- A pass that stages nothing leaves every entry asking for what it asked for. -/
theorem pending_failed (link : HostLink) (i : Nat) (roster : List RosterEntry) :
    let p := emitLivenessEdges true link i roster
    p.link = link ∧ p.made = none ∧
      p.roster.map RosterEntry.pending = roster.map RosterEntry.pending := by
  have hcase := pass_case true link i roster
  have hmap : ∀ l : List RosterEntry,
      (l.map (·.edge.1)).map RosterEntry.pending = l.map RosterEntry.pending := by
    intro l
    rw [List.map_map]
    exact List.map_congr_left fun s _ => pending_edge s
  generalize emitLivenessEdges true link i roster = p at hcase
  cases hcase with
  | settled => exact ⟨rfl, rfl, hmap roster⟩
  | failed before after s _ hroster =>
      refine ⟨rfl, rfl, ?_⟩
      rw [hroster, List.map_append, List.map_append, hmap, List.map_cons, List.map_cons,
        pending_edge]
  | staged _ _ _ _ _ hfull => cases hfull

/-- A pass that finds room stages what the first entry that asks for a frame asks for. -/
theorem staged_first (link : HostLink) (i : Nat) {before after : List RosterEntry}
    {s announced : RosterEntry} {f : HostFrame} (hbefore : ∀ t ∈ before, t.pending = none)
    (hedge : s.edge.2 = some (f, announced)) :
    emitLivenessEdges false link i (before ++ s :: after) =
      { roster := before.map (·.edge.1) ++ announced :: after
        link := { seq := (link.seq + 1) % 256, staged := link.staged ++ [(link.seq, f)] }
        made := some ⟨i + before.length, f⟩
        early := true } := by
  induction before generalizing i with
  | nil =>
      have hask : s.edge = (s.edge.1, some (f, announced)) := Prod.ext rfl hedge
      rw [List.nil_append, emitLivenessEdges, hask]
      rfl
  | cons t before ih =>
      obtain ⟨hquiet, hrest⟩ := List.forall_mem_cons.mp hbefore
      have hnone : t.edge = (t.edge.1, none) := Prod.ext rfl (Option.map_eq_none_iff.mp hquiet)
      have hindex : i + (t :: before).length = i + 1 + before.length := by
        rw [List.length_cons]
        omega
      rw [List.cons_append, emitLivenessEdges, hnone]
      dsimp only
      rw [ih (i + 1) hrest, hindex]
      rfl

/-- A pass that runs to its end leaves nothing to announce. -/
theorem announced_full_pass (full : Bool) (link : HostLink) (i : Nat) (roster : List RosterEntry)
    (h : (emitLivenessEdges full link i roster).early = false) :
    ∀ s ∈ (emitLivenessEdges full link i roster).roster, s.Announced := by
  have hcase := pass_case full link i roster
  generalize emitLivenessEdges full link i roster = p at hcase h
  cases hcase with
  | settled hnone =>
      intro t ht
      obtain ⟨s, hs, rfl⟩ := List.mem_map.mp ht
      have hedge := edge_case s
      have hquiet := hnone s hs
      generalize s.edge = r at hedge hquiet
      cases hedge with
      | silent _ _ hsummary => exact ⟨rfl, hsummary.symm⟩
      | down | up | flagged => cases hquiet
  | failed | staged => cases h

/-- What an event stages is what it announces. -/
theorem staged_event (m : Announcer) (e : RosterEvent) :
    ∃ made, (m.next e).made = m.made ++ made ∧
      (m.next e).link.staged.map Prod.snd = m.link.staged.map Prod.snd ++ made.map (·.frame) := by
  cases e with
  | emit full =>
      have hcase := pass_case full m.link 0 m.roster
      rw [Announcer.next]
      generalize emitLivenessEdges full m.link 0 m.roster = p at hcase
      refine ⟨_, rfl, ?_⟩
      cases hcase with
      | settled | failed => simp
      | staged => simp [HostLink.emitS2m]
  | register r =>
      refine ⟨[], ?_⟩
      unfold Announcer.next
      dsimp only
      split <;> simp
  | answered | missed | summary | setPoll => exact ⟨[], by simp [Announcer.next]⟩

/-- Between two reloads of the roster, in every order of polls and with the ring full
whenever it likes: the DOWN and UP frames staged for an entry alternate and begin
with DOWN; a pass that finds the ring full leaves what every entry asks for; a pass that
finds room stages what the first entry that asks for a frame asks for; and a pass that
runs to its end leaves state and summary of every entry announced. -/
theorem liveness_edges_alternate (roster : List Registration) (maxMisses : Nat)
    (link : HostLink) (es : List RosterEvent) :
    let m := run Announcer.next (Announcer.loaded roster maxMisses link) es
    let pass := fun full => emitLivenessEdges full m.link 0 m.roster
    (∀ j k e, (edges m.made j)[k]? = some e → e = edgeAt k) ∧
      m.link.staged.map Prod.snd = link.staged.map Prod.snd ++ m.made.map (·.frame) ∧
      ((pass true).link = m.link ∧ (pass true).made = none ∧
        (pass true).roster.map RosterEntry.pending = m.roster.map RosterEntry.pending) ∧
      (∀ before s after f announced, m.roster = before ++ s :: after →
        (∀ t ∈ before, t.pending = none) → s.edge.2 = some (f, announced) →
        pass false = {
          roster := before.map (·.edge.1) ++ announced :: after
          link := { seq := (m.link.seq + 1) % 256, staged := m.link.staged ++ [(m.link.seq, f)] }
          made := some ⟨before.length, f⟩
          early := true }) ∧
      ∀ full, (pass full).early = false → ∀ s ∈ (pass full).roster, s.Announced := by
  intro m pass
  have hinv : m.Inv := Runs.run_invariant (P := Announcer.Inv) (fun _ e h => inv_event h e)
    (inv_loaded roster maxMisses link)
  refine ⟨fun j k e hk => ?_, ?_, pending_failed m.link 0 m.roster, ?_,
    fun full => announced_full_pass full m.link 0 m.roster⟩
  · rcases Nat.lt_or_ge j m.roster.length with hlt | hge
    · exact (hinv.tracks j m.roster[j] (List.getElem?_eq_getElem hlt)).alternate.turns k e hk
    · rw [edges_unlisted hinv.listed hge] at hk
      cases hk
  · apply Runs.run_invariant (P := fun m : Announcer =>
      m.link.staged.map Prod.snd = link.staged.map Prod.snd ++ m.made.map (·.frame))
    · intro m e hm
      obtain ⟨made, hmade, hstaged⟩ := staged_event m e
      rw [hstaged, hmade, hm, List.map_append, List.append_assoc]
    · simp [Announcer.loaded]
  · intro before s after f announced hroster hbefore hedge
    have hstaged : emitLivenessEdges false m.link 0 (before ++ s :: after) = _ :=
      staged_first m.link 0 hbefore hedge
    rwa [← hroster, Nat.zero_add] at hstaged

end Run

end SlowBus.Arbiter
