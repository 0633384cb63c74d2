import SlowBus.Arbiter.Table
import SlowBus.Arbiter.Desk
import SlowBus.Lib.Runs

/-!
# Announcing liveness to the host

Each roster entry keeps what the host was last told of it. A pass over the roster
stages at most one frame, and an edge counts as announced only when its frame was
staged, so an edge that finds the ring full is tried again by a later pass.
-/

namespace SlowBus.Arbiter

open Runs (run)

def opBusSlaveDown : Nat := 0x0015
def opBusSlaveUp : Nat := 0x0016
def opBusSlaveFlagged : Nat := 0x0017

/-- `slave_t`, with what was announced of it. -/
structure RosterEntry where
  slave : Slave
  classId : Nat
  summary : Nat := 0
  announcedState : SlaveState := .unknown
  announcedSummary : Nat := 0
  deriving DecidableEq, Repr

/-- An entry as it is registered or loaded: the rest is zero. -/
structure Registration where
  addr : Nat
  classId : Nat
  enabled : Bool

def Registration.entry (r : Registration) : RosterEntry where
  slave := { addr := r.addr, enabled := r.enabled }
  classId := r.classId

/-- The host link: its sequence counter and the frames staged for it. -/
structure HostLink where
  seq : Nat := 0
  staged : List (Nat × HostFrame) := []

/-- `emit_s2m`: true when it returns 0. A full ring leaves the link as it is. -/
def HostLink.emitS2m (h : HostLink) (full : Bool) (f : HostFrame) : HostLink × Bool :=
  if full then (h, false)
  else ({ seq := (h.seq + 1) % 256, staged := h.staged ++ [(h.seq, f)] }, true)

def le32 (v : Nat) : Bytes := [v % 256, v / 256 % 256, v / 65536 % 256, v / 16777216 % 256]

/-! ## One pass -/

/-- What one entry asks to be staged, and the entry once that is done. The entry in
the first component has its silent change made. -/
def RosterEntry.edge (s : RosterEntry) : RosterEntry × Option (HostFrame × RosterEntry) :=
  let frame (opcode : Nat) (body : Bytes) : HostFrame :=
    { dest := s.slave.addr, opcode, payload := s.slave.addr :: body }
  if s.slave.state ≠ s.announcedState ∧ s.slave.state = .dead then
    (s, some (frame opBusSlaveDown [], { s with announcedState := .dead }))
  else if s.slave.state ≠ s.announcedState ∧ s.slave.state = .alive ∧ s.announcedState = .dead then
    (s, some (frame opBusSlaveUp (le32 s.classId), { s with announcedState := .alive }))
  else
    -- An entry heard for the first time is announced silently.
    let s := { s with announcedState := s.slave.state }
    if s.summary ≠ s.announcedSummary then
      (s, some (frame opBusSlaveFlagged [s.summary], { s with announcedSummary := s.summary }))
    else (s, none)

/-- A frame that was staged, with the index of the entry it is about. -/
structure Announcement where
  entry : Nat
  frame : HostFrame

/-- The outcome of `emit_liveness_edges`: `early` when it returned from inside the loop. -/
structure Pass where
  roster : List RosterEntry
  link : HostLink
  made : Option Announcement := none
  early : Bool := false

/-- The loop of `emit_liveness_edges`, at entry `i`. `full` tells whether the ring
is full should a frame be staged. -/
def emitLivenessEdges (full : Bool) (link : HostLink) : Nat → List RosterEntry → Pass
  | _, [] => { roster := [], link }
  | i, s :: rest =>
      match s.edge with
      | (s, none) =>
          let p := emitLivenessEdges full link (i + 1) rest
          { p with roster := s :: p.roster }
      | (s, some (frame, announced)) =>
          let (link, ok) := link.emitS2m full frame
          { roster := (if ok then announced else s) :: rest
            link
            made := if ok then some ⟨i, frame⟩ else none
            early := true }

/-! ## The run -/

/-- The roster between two reloads. `made` records what was staged. -/
structure Announcer where
  roster : List RosterEntry
  maxMisses : Nat
  link : HostLink := {}
  made : List Announcement := []

/-- Edit the entry `roster_find` returns. -/
def entryModify (addr : Nat) (f : RosterEntry → RosterEntry) (roster : List RosterEntry) :
    List RosterEntry :=
  match roster.findIdx? (·.slave.addr == addr) with
  | none => roster
  | some i => roster.modify i f

/-- What happens between reloads, each under the lock. -/
inductive RosterEvent where
  /-- `mark_alive` -/
  | answered (addr : Nat)
  /-- `mark_miss` -/
  | missed (addr : Nat)
  /-- The summary byte of a NO_MESSAGE. -/
  | summary (addr : Nat) (value : Nat)
  /-- `CMD_BUS_SET_POLL` -/
  | setPoll (maxMisses : Nat)
  /-- `CMD_BUS_REGISTER_SLAVE` -/
  | register (r : Registration)
  | emit (full : Bool)

def RosterEntry.answered (s : RosterEntry) : RosterEntry :=
  { s with slave := { s.slave with misses := 0, state := .alive } }

def RosterEntry.missed (maxMisses : Nat) (s : RosterEntry) : RosterEntry :=
  { s with slave := s.slave.miss maxMisses }

def Announcer.next (m : Announcer) : RosterEvent → Announcer
  | .answered addr => { m with roster := entryModify addr RosterEntry.answered m.roster }
  | .missed addr => { m with roster := entryModify addr (RosterEntry.missed m.maxMisses) m.roster }
  | .summary addr value =>
      { m with roster := entryModify addr (fun s => { s with summary := value }) m.roster }
  | .setPoll maxMisses => { m with maxMisses }
  | .register r =>
      if m.roster.length < rosterMax then { m with roster := m.roster ++ [r.entry] } else m
  | .emit full =>
      let p := emitLivenessEdges full m.link 0 m.roster
      { m with roster := p.roster, link := p.link, made := m.made ++ p.made.toList }

/-- After a reload: every entry is as it was loaded. -/
def Announcer.loaded (roster : List Registration) (maxMisses : Nat) (link : HostLink) :
    Announcer :=
  { roster := roster.map Registration.entry, maxMisses, link }

/-! ## What a pass does -/

/-- The frame an entry asks for. -/
def RosterEntry.pending (s : RosterEntry) : Option HostFrame := s.edge.2.map Prod.fst

/-- The host knows of the entry what the master knows. -/
def RosterEntry.Announced (s : RosterEntry) : Prop :=
  s.announcedState = s.slave.state ∧ s.announcedSummary = s.summary

inductive Edge where
  | down | up
  deriving DecidableEq, Repr

/-- What one entry asks for, case by case. -/
inductive EdgeCase (s : RosterEntry) : RosterEntry × Option (HostFrame × RosterEntry) → Prop
  | down (f : HostFrame) (hop : f.opcode = opBusSlaveDown) (hstate : s.slave.state = .dead)
      (hannounced : s.announcedState ≠ .dead) :
      EdgeCase s (s, some (f, { s with announcedState := .dead }))
  | up (f : HostFrame) (hop : f.opcode = opBusSlaveUp) (hstate : s.slave.state = .alive)
      (hannounced : s.announcedState = .dead) :
      EdgeCase s (s, some (f, { s with announcedState := .alive }))
  | flagged (f : HostFrame) (hop : f.opcode = opBusSlaveFlagged)
      (hdead : s.slave.state = .dead → s.announcedState = .dead)
      (halive : s.slave.state = .alive → s.announcedState ≠ .dead) :
      EdgeCase s ({ s with announcedState := s.slave.state },
        some (f, { s with announcedState := s.slave.state, announcedSummary := s.summary }))
  | silent (hdead : s.slave.state = .dead → s.announcedState = .dead)
      (halive : s.slave.state = .alive → s.announcedState ≠ .dead)
      (hsummary : s.summary = s.announcedSummary) :
      EdgeCase s ({ s with announcedState := s.slave.state }, none)

theorem edge_case (s : RosterEntry) : EdgeCase s s.edge := by
  unfold RosterEntry.edge
  dsimp only
  split
  next hdown => exact .down _ rfl hdown.2 (fun h => hdown.1 (hdown.2.trans h.symm))
  next hdown =>
    have hdead : s.slave.state = .dead → s.announcedState = .dead := by
      intro hstate
      by_contra hne
      exact hdown ⟨fun h => hne (h.symm.trans hstate), hstate⟩
    split
    next hup => exact .up _ rfl hup.2.1 hup.2.2
    next hup =>
      have halive : s.slave.state = .alive → s.announcedState ≠ .dead := by
        intro hstate hannounced
        refine hup ⟨?_, hstate, hannounced⟩
        rw [hstate, hannounced]
        decide
      split
      next => exact .flagged _ rfl hdead halive
      next hsummary => exact .silent hdead halive (not_not.mp hsummary)

/-- Making the silent change first does not change what is asked for. -/
theorem edge_edge (s : RosterEntry) : s.edge.1.edge = s.edge := by
  by_cases hdown : s.slave.state ≠ s.announcedState ∧ s.slave.state = .dead
  · have hsame : s.edge.1 = s := by rw [RosterEntry.edge, if_pos hdown]
    rw [hsame]
  · by_cases hup : s.slave.state ≠ s.announcedState ∧ s.slave.state = .alive ∧
        s.announcedState = .dead
    · have hsame : s.edge.1 = s := by rw [RosterEntry.edge, if_neg hdown, if_pos hup]
      rw [hsame]
    · have hsilent : s.edge.1 = { s with announcedState := s.slave.state } := by
        rw [RosterEntry.edge, if_neg hdown, if_neg hup]
        dsimp only
        split <;> rfl
      rw [hsilent]
      simp only [RosterEntry.edge, hdown, hup, ne_eq, not_true_eq_false, false_and, if_false]

/-- Everything a pass can do: all entries are settled, or it stops at the first
entry that asks for a frame. -/
inductive PassCase (full : Bool) (link : HostLink) (i : Nat) (roster : List RosterEntry) :
    Pass → Prop
  | settled (hnone : ∀ s ∈ roster, s.edge.2 = none) :
      PassCase full link i roster { roster := roster.map (·.edge.1), link }
  | failed (before after : List RosterEntry) (s : RosterEntry) (hfull : full = true)
      (hroster : roster = before ++ s :: after) :
      PassCase full link i roster
        { roster := before.map (·.edge.1) ++ s.edge.1 :: after, link, early := true }
  | staged (before after : List RosterEntry) (s announced : RosterEntry) (f : HostFrame)
      (hfull : full = false) (hroster : roster = before ++ s :: after)
      (hedge : s.edge.2 = some (f, announced)) :
      PassCase full link i roster
        { roster := before.map (·.edge.1) ++ announced :: after
          link := (link.emitS2m false f).1
          made := some ⟨i + before.length, f⟩
          early := true }

theorem pass_case (full : Bool) (link : HostLink) (i : Nat) (roster : List RosterEntry) :
    PassCase full link i roster (emitLivenessEdges full link i roster) := by
  induction roster generalizing i with
  | nil => exact .settled (by simp)
  | cons s rest ih =>
      unfold emitLivenessEdges
      split
      next s' hedge =>
        have hs : s.edge.1 = s' := congrArg Prod.fst hedge
        have hpending : s.edge.2 = none := congrArg Prod.snd hedge
        have htail := ih (i + 1)
        generalize emitLivenessEdges full link (i + 1) rest = p at htail
        cases htail with
        | settled hnone =>
            rw [← hs]
            exact .settled (List.forall_mem_cons.mpr ⟨hpending, hnone⟩)
        | failed before after t hfull hroster =>
            rw [← hs]
            exact .failed (s :: before) after t hfull (by rw [hroster, List.cons_append])
        | staged before after t announced f hfull hroster hask =>
            have hindex : i + 1 + before.length = i + (s :: before).length := by
              rw [List.length_cons]
              omega
            rw [← hs, hindex]
            exact .staged (s :: before) after t announced f hfull
              (by rw [hroster, List.cons_append]) hask
      next s' f announced hedge =>
        have hs : s.edge.1 = s' := congrArg Prod.fst hedge
        have hask : s.edge.2 = some (f, announced) := congrArg Prod.snd hedge
        cases full with
        | true =>
            rw [← hs]
            exact .failed [] rest s rfl rfl
        | false => exact .staged [] rest s announced f rfl rfl hask

end SlowBus.Arbiter
