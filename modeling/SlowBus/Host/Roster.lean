import SlowBus.Bus.Roster

/-!
# The roster that the host loads

The application keeps a roster of its own, written by `CMD_BUS_REGISTER_SLAVE` and
`CMD_BUS_CLEAR_ROSTER`. A registration is answered with success whether or not it was
made, and no address is looked at.
-/

namespace SlowBus.Host

open Bus (Byte addrValid busRegOk)
open Runs (Along)

def rosterMax : Nat := 16

def shellOk : Byte := 0

/-- `slave_t` -/
structure Slave where
  addr : Byte := 0
  classId : BitVec 32 := 0
  flags : Byte := 0
  state : Byte := 0
  misses : Byte := 0
  lastSeenMs : BitVec 32 := 0
  summary : Byte := 0
  announcedState : Byte := 0
  announcedSummary : Byte := 0
  deriving DecidableEq, Repr

/-- `host_link_shell_reply`: the request, the status and the result. -/
structure ShellReply where
  reqId : BitVec 16
  status : Byte
  result : List Byte
  deriving DecidableEq, Repr

/-- What the two commands write. The list is `g_roster` up to `g_roster_n`. -/
structure Shell where
  roster : List Slave := []
  cursor : Byte := 0
  nodesDirty : Bool := false
  cmdPending : Bool := false
  deriving DecidableEq, Repr

inductive ShellCmd where
  /-- `CMD_BUS_CLEAR_ROSTER` -/
  | clearRoster (reqId : BitVec 16)
  /-- `CMD_BUS_REGISTER_SLAVE` -/
  | registerSlave (reqId : BitVec 16) (args : List Byte)
  deriving DecidableEq, Repr

/-- The entry of a registration: `[addr][class u32][flags]`, if it is long enough. -/
def registered : List Byte → Option Slave
  | addr :: c0 :: c1 :: c2 :: c3 :: flags :: _ =>
      some { addr, classId := (c3 ++ c2 ++ c1 ++ c0 : BitVec 32), flags }
  | _ => none

/-- `on_local_shell`, for the two commands. -/
def Shell.onLocalShell (s : Shell) : ShellCmd → Shell × ShellReply
  | .clearRoster reqId =>
      ({ s with roster := [], cursor := 0, nodesDirty := true, cmdPending := false },
        { reqId, status := shellOk, result := [] })
  | .registerSlave reqId args =>
      let s' :=
        match registered args with
        | some slave =>
            if s.roster.length < rosterMax then
              { s with roster := s.roster ++ [slave], nodesDirty := true }
            else s
        | none => s
      -- `reason` is set once and never changed.
      (s', { reqId, status := shellOk, result := [busRegOk] })

def Shell.next (s : Shell) (cmd : ShellCmd) : Shell := (s.onLocalShell cmd).1

def Shell.addrs (s : Shell) : List Byte := s.roster.map (·.addr)

/-! ## What is asked of the roster -/

/-- At most 16 entries, with valid addresses, no two the same. -/
structure Shell.WellFormed (s : Shell) : Prop where
  fits : s.roster.length ≤ rosterMax
  valid : ∀ a ∈ s.addrs, addrValid a
  nodup : s.addrs.Nodup

/-- A registration is answered with `BUS_REG_OK` exactly when the slave it names is in the
roster afterwards. -/
def Shell.Answers (s : Shell) : ShellCmd → Prop
  | .clearRoster _ => True
  | .registerSlave reqId args =>
      let (s', reply) := s.onLocalShell (.registerSlave reqId args)
      reply.result.head? = some busRegOk ↔ ∃ a ∈ args.head?, a ∈ s'.addrs

/-- A step leaves a roster that is well formed, and answers. -/
def Shell.Sound (s : Shell) (cmd : ShellCmd) : Prop := (s.next cmd).WellFormed ∧ s.Answers cmd

/-- A registration that is long enough while there is room names a valid address that is
not in the roster; one that is not names a slave that is in the roster already. -/
def Shell.Proper (s : Shell) : ShellCmd → Prop
  | .clearRoster _ => True
  | .registerSlave _ args =>
      if 6 ≤ args.length ∧ s.roster.length < rosterMax then
        ∃ a ∈ args.head?, addrValid a ∧ a ∉ s.addrs
      else ∃ a ∈ args.head?, a ∈ s.addrs

variable {s : Shell} {args : List Byte} {reqId : BitVec 16} {slave : Slave}

theorem registered_eq_some (h : registered args = some slave) :
    6 ≤ args.length ∧ args.head? = some slave.addr := by
  unfold registered at h
  split at h
  next =>
    cases h
    exact ⟨by simp, rfl⟩
  next => cases h

theorem registered_eq_none (h : registered args = none) : ¬ 6 ≤ args.length := by
  unfold registered at h
  split at h
  next => cases h
  next hshort =>
    intro hlong
    match args, hlong with
    | addr :: c0 :: c1 :: c2 :: c3 :: flags :: rest, _ =>
        exact hshort addr c0 c1 c2 c3 flags rest rfl

/-- What a registration makes of the roster. -/
inductive RegisterCase (s : Shell) (args : List Byte) : Shell → Prop
  | added (slave : Slave) (hlong : 6 ≤ args.length) (hroom : s.roster.length < rosterMax)
      (hnames : args.head? = some slave.addr) :
      RegisterCase s args { s with roster := s.roster ++ [slave], nodesDirty := true }
  | ignored (h : ¬ (6 ≤ args.length ∧ s.roster.length < rosterMax)) : RegisterCase s args s

theorem register_case (s : Shell) (reqId : BitVec 16) (args : List Byte) :
    RegisterCase s args (s.next (.registerSlave reqId args)) := by
  unfold Shell.next Shell.onLocalShell
  dsimp only
  split
  next slave hslave =>
    obtain ⟨hlong, hnames⟩ := registered_eq_some hslave
    split
    next hroom => exact .added slave hlong hroom hnames
    next hfull => exact .ignored fun h => hfull h.2
  next hnone => exact .ignored fun h => registered_eq_none hnone h.1

/-- Every registration is answered with success. -/
theorem answers_register :
    s.Answers (.registerSlave reqId args) ↔
      ∃ a ∈ args.head?, a ∈ (s.next (.registerSlave reqId args)).addrs :=
  iff_true_left rfl

theorem wellFormed_concat (h : s.WellFormed) (hroom : s.roster.length < rosterMax) (dirty : Bool) :
    ({ s with roster := s.roster ++ [slave], nodesDirty := dirty } : Shell).WellFormed ↔
      addrValid slave.addr ∧ slave.addr ∉ s.addrs := by
  have haddrs : ({ s with roster := s.roster ++ [slave], nodesDirty := dirty } : Shell).addrs =
      s.addrs ++ [slave.addr] := List.map_append
  constructor
  · intro h'
    have hvalid := h'.valid
    have hnodup := h'.nodup
    rw [haddrs] at hvalid hnodup
    exact ⟨hvalid _ (by simp), fun hmem => (List.disjoint_of_nodup_append hnodup) hmem (by simp)⟩
  · rintro ⟨hvalid, hnew⟩
    refine ⟨?_, ?_, ?_⟩
    · rw [List.length_append]
      exact hroom
    · rw [haddrs]
      intro a ha
      rcases List.mem_append.mp ha with ha | ha
      · exact h.valid a ha
      · rwa [List.mem_singleton.mp ha]
    · rw [haddrs]
      exact h.nodup.append (List.nodup_singleton _) (List.disjoint_singleton.mpr hnew)

/-- One step, from a roster that is well formed. -/
theorem sound_iff (h : s.WellFormed) (cmd : ShellCmd) : s.Sound cmd ↔ s.Proper cmd := by
  cases cmd with
  | clearRoster reqId =>
      exact iff_of_true ⟨⟨Nat.zero_le _, fun a ha => absurd ha List.not_mem_nil, .nil⟩, trivial⟩
        trivial
  | registerSlave reqId args =>
      unfold Shell.Sound
      rw [answers_register]
      have hcase := register_case s reqId args
      generalize s.next (.registerSlave reqId args) = s' at hcase
      show _ ↔ if 6 ≤ args.length ∧ s.roster.length < rosterMax then
        ∃ a ∈ args.head?, addrValid a ∧ a ∉ s.addrs else ∃ a ∈ args.head?, a ∈ s.addrs
      cases hcase with
      | added slave hlong hroom hnames =>
          have hmem : slave.addr ∈ ({ s with roster := s.roster ++ [slave], nodesDirty := true } :
              Shell).addrs := List.mem_map_of_mem (by simp)
          rw [if_pos ⟨hlong, hroom⟩, wellFormed_concat h hroom, hnames]
          constructor
          · rintro ⟨hnew, -⟩
            exact ⟨_, rfl, hnew⟩
          · rintro ⟨a, ha, hnew⟩
            cases ha
            exact ⟨hnew, _, rfl, hmem⟩
      | ignored hnot => rw [if_neg hnot, and_iff_right h]

/-- The roster stays well formed and every registration is answered truly, all along a run,
if and only if each registration of it is a proper one. -/
theorem runtime_roster_sound (s : Shell) (h : s.WellFormed) (cmds : List ShellCmd) :
    Along Shell.next Shell.Sound s cmds ↔ Along Shell.next Shell.Proper s cmds :=
  Runs.along_congr (fun _ cmd h => sound_iff h cmd) (fun _ _ _ hsound => hsound.1) h

/-- A node is registered, the roster is cleared, and it is registered again. -/
theorem runtime_roster_sound_again :
    Along Shell.next Shell.Sound {}
      [.registerSlave 1 [5, 0, 0, 0, 0, 2], .clearRoster 2, .registerSlave 3 [5, 0, 0, 0, 0, 2]] := by
  refine (runtime_roster_sound {} ⟨by decide, by decide, .nil⟩ _).mpr ?_
  exact ⟨⟨5, rfl, by decide, by decide⟩, trivial, ⟨5, rfl, by decide, by decide⟩, trivial⟩

/-- A node that is registered twice is in the roster twice. -/
theorem not_runtime_roster_sound :
    ¬ ∀ cmds, Along Shell.next Shell.Sound {} cmds := by
  intro hall
  have hsound := hall [.registerSlave 1 [5, 0, 0, 0, 0, 2], .registerSlave 2 [5, 0, 0, 0, 0, 2]]
  exact absurd hsound.2.1.1.nodup (by decide)

end SlowBus.Host
