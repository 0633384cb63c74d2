import SlowBus.Host.Echo
import SlowBus.Lib.Blocks

/-!
# The list of slaves

`CMD_BUS_LIST_SLAVES` answers with two counts and a row of ten bytes for each entry of the
roster. The counts are written first; what is too long for a payload is cut off when the
reply is staged.
-/

namespace SlowBus.Host

open Bus (Byte)
open Runs (run)

def commPayloadMax : Nat := 128

/-- The payload of `host_link_shell_reply`: the result is cut to what is left. -/
def ShellReply.payload (r : ShellReply) : List Byte :=
  wrU16 r.reqId ++ r.status :: r.result.take (commPayloadMax - 3)

/-- `host_link_shell_reply` -/
def HostLink.shellReply (h : HostLink) (room : Bool) (r : ShellReply) :
    HostLink × List S2mFrame :=
  h.emitS2m room 0 opShellReply r.payload

/-- The time since a slave was seen, as the list has it: `0xFFFF` for never and for long ago. -/
def Slave.ago (now : BitVec 32) (s : Slave) : BitVec 16 :=
  let ago : BitVec 32 := if s.lastSeenMs = 0 then 0xFFFF else now - s.lastSeenMs
  if 0xFFFF < ago then 0xFFFF else ago.setWidth 16

/-- The row of a slave. -/
def Slave.row (now : BitVec 32) (s : Slave) : List Byte :=
  s.addr :: (wrU32 s.classId ++ [s.flags, s.state, s.misses] ++ wrU16 (s.ago now))

/-- `on_local_shell` for `CMD_BUS_LIST_SLAVES`. -/
def Shell.listSlaves (s : Shell) (reqId : BitVec 16) (now : BitVec 32) : ShellReply where
  reqId
  status := shellOk
  result := .ofNat 8 s.roster.length :: .ofNat 8 s.roster.length ::
    s.roster.flatMap (Slave.row now)

/-! ## What happens to the roster -/

inductive RosterEvent where
  | shell (cmd : ShellCmd)
  /-- `bc_load_cfg_roster`: the address, the variant and the flags of each slave of the file. -/
  | load (slaves : List (Byte × BitVec 32 × Byte))
  /-- What the bus engine and the announcements write into entry `i`. -/
  | engine (i : Nat) (state misses : Byte) (lastSeenMs : BitVec 32)
      (summary announcedState announcedSummary : Byte)
  deriving DecidableEq, Repr

def Shell.after (s : Shell) : RosterEvent → Shell
  | .shell cmd => s.next cmd
  | .load slaves =>
      { s with
        roster := (slaves.take rosterMax).map fun (addr, classId, flags) => { addr, classId, flags }
        cursor := 0 }
  | .engine i state misses lastSeenMs summary announcedState announcedSummary =>
      { s with roster := s.roster.modify i fun e =>
          { e with state, misses, lastSeenMs, summary, announcedState, announcedSummary } }

/-- The result has, after the counts, a whole row for each entry that is counted. -/
def Lists (now : BitVec 32) (roster : List Slave) (result : List Byte) : Prop :=
  ∃ n rows, result = n :: n :: rows ∧ n.toNat = roster.length ∧
    ∀ (i : Nat) (hi : i < roster.length), (rows.drop (10 * i)).take 10 = roster[i].row now

section List

variable {s : Shell} {now : BitVec 32} {reqId : BitVec 16}

@[simp] theorem length_row (e : Slave) : (e.row now).length = 10 := rfl

theorem after_fits (h : s.roster.length ≤ rosterMax) (e : RosterEvent) :
    (s.after e).roster.length ≤ rosterMax := by
  cases e with
  | shell cmd =>
      cases cmd with
      | clearRoster reqId => exact Nat.zero_le _
      | registerSlave reqId args =>
          have hcase := register_case s reqId args
          show (s.next (.registerSlave reqId args)).roster.length ≤ rosterMax
          generalize s.next (.registerSlave reqId args) = s' at hcase
          cases hcase with
          | added slave hlong hroom =>
              rw [List.length_append]
              exact hroom
          | ignored => exact h
  | load slaves =>
      show ((slaves.take rosterMax).map _).length ≤ rosterMax
      rw [List.length_map]
      exact List.length_take_le ..
  | engine i state misses lastSeenMs summary announcedState announcedSummary =>
      show (s.roster.modify i _).length ≤ rosterMax
      rwa [List.length_modify]

/-- The rows that the payload has room for. -/
theorem lists_iff (h : s.roster.length ≤ rosterMax) (reqId : BitVec 16) (now : BitVec 32) :
    Lists now s.roster ((s.listSlaves reqId now).result.take (commPayloadMax - 3)) ↔
      s.roster.length ≤ 12 := by
  have hcount : (BitVec.ofNat 8 s.roster.length).toNat = s.roster.length := by
    rw [BitVec.toNat_ofNat]
    exact Nat.mod_eq_of_lt (by unfold rosterMax at h; omega)
  have hlength : ∀ e : Slave, (e.row now).length = 10 := length_row
  have hrow (i : Nat) (hi : i < s.roster.length) :=
    Blocks.row_in_take (n := 123) hlength (by decide) hi
  have hcut : (s.listSlaves reqId now).result.take (commPayloadMax - 3) =
      .ofNat 8 s.roster.length :: .ofNat 8 s.roster.length ::
        (s.roster.flatMap (Slave.row now)).take 123 := rfl
  rw [hcut]
  constructor
  · rintro ⟨n, rows, hresult, -, hrows⟩
    obtain ⟨-, hresult⟩ := List.cons.inj hresult
    obtain ⟨-, rfl⟩ := List.cons.inj hresult
    by_contra hlong
    -- the thirteenth row is the first that is cut
    have hlast := (hrow 12 (by omega)).mp (hrows 12 (by omega))
    omega
  · intro hshort
    refine ⟨_, _, rfl, hcount, fun i hi => (hrow i hi).mpr ?_⟩
    omega

/-- What is staged is the reply, as far as it fits. -/
theorem staged_iff (h : HostLink) (s : Shell) (reqId : BitVec 16) (now : BitVec 32) :
    (∃ seq result, (h.shellReply true (s.listSlaves reqId now)).2 =
        [⟨0, opShellReply, seq, wrU16 reqId ++ shellOk :: result⟩] ∧ Lists now s.roster result) ↔
      Lists now s.roster ((s.listSlaves reqId now).result.take (commPayloadMax - 3)) := by
  constructor
  · rintro ⟨seq, result, hstaged, hlists⟩
    have hpayload := congrArg S2mFrame.payload (List.cons.inj hstaged).1
    obtain rfl := (List.cons.inj (List.append_cancel_left hpayload)).2
    exact hlists
  · exact fun hlists => ⟨h.seq, _, rfl, hlists⟩

end List

/-- In every state of the roster, the reply that `CMD_BUS_LIST_SLAVES` stages has a whole row for
each of the counted entries, in their order, if and only if there are at most twelve. -/
theorem list_slaves_iff (es : List RosterEvent) (h : HostLink) (reqId : BitVec 16)
    (now : BitVec 32) :
    let s := run Shell.after {} es
    let staged := (h.shellReply true (s.listSlaves reqId now)).2
    (∃ seq result, staged = [⟨0, opShellReply, seq, wrU16 reqId ++ shellOk :: result⟩] ∧
      Lists now s.roster result) ↔ s.roster.length ≤ 12 := by
  intro s staged
  have hfits : s.roster.length ≤ rosterMax :=
    Runs.run_invariant (P := fun s : Shell => s.roster.length ≤ rosterMax)
      (fun _ e h => after_fits h e) (Nat.zero_le _)
  exact (staged_iff h s reqId now).trans (lists_iff hfits reqId now)

/-- A link before its first frame. -/
def freshLink : HostLink where
  cfg :=
    { classId := 0
      instanceId := 0
      commissioningState := 0
      chipUid := .replicate 16 0
      vid := 0
      pid := 0
      fwVersion := 0
      buildDate := 0
      schemaHash := 0 }

/-- A file of thirteen slaves. -/
def thirteenSlaves : List (Byte × BitVec 32 × Byte) :=
  (List.range 13).map fun addr => (.ofNat 8 addr, 0, 2)

/-- Thirteen slaves are counted, but of the thirteenth three bytes are staged. -/
theorem not_list_slaves :
    ¬ ∀ (es : List RosterEvent) (h : HostLink) (reqId : BitVec 16) (now : BitVec 32),
      let s := run Shell.after {} es
      let staged := (h.shellReply true (s.listSlaves reqId now)).2
      ∃ seq result, staged = [⟨0, opShellReply, seq, wrU16 reqId ++ shellOk :: result⟩] ∧
        Lists now s.roster result := by
  intro hall
  have hlists := (staged_iff freshLink _ 0 0).mp (hall [.load thirteenSlaves] freshLink 0 0)
  have hshort := (lists_iff (by decide) 0 0).mp hlists
  revert hshort
  decide

end SlowBus.Host
