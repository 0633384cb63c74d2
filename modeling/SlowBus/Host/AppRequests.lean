import SlowBus.Bus.Frame
import SlowBus.Lib.Runs

/-!
# Requests to the application

`cfl_embed_pre_tick` copies the payload of an application command into the next of four
slots and raises an event that points to the slot. The engine dispatches these events
later, in order, and each handler reads the slot as it is then.
-/

namespace SlowBus.Host

open Bus (Byte)
open Runs (Along)

def cmdAppEcho : BitVec 16 := 0x0300
def cmdAppEchoTo : BitVec 16 := 0x0301
def cmdAppIlClear : BitVec 16 := 0x0302
def cmdAppOp : BitVec 16 := 0x0306

def appReqSlots : Nat := 4
def appReqMax : Nat := 64

instance appReqSlots_neZero : NeZero appReqSlots := ⟨by decide⟩

/-- `appcore_cmd_t`, with as many arguments as `alen` says. -/
structure AppCmd where
  reqId : BitVec 16
  cmd : BitVec 16
  route : Byte
  busSrc : Byte
  args : List Byte
  deriving DecidableEq, Repr

/-- The events that point to a slot. -/
inductive AppEvent where
  | echo
  | echoTo
  | ilClear
  | op
  deriving DecidableEq, Repr

/-- `app_req_t`, with as many bytes as `len` says. -/
structure AppReq where
  reqId : BitVec 16 := 0
  addr : Byte := 0
  route : Byte := 0
  busSrc : Byte := 0
  bytes : List Byte := []
  deriving DecidableEq, Repr

/-- The event a command raises and what is copied for it; other commands raise none of
these events. -/
def AppCmd.request (c : AppCmd) : Option (AppEvent × AppReq) :=
  let req (addr : Byte) (bytes : List Byte) : AppReq :=
    { reqId := c.reqId, addr, route := c.route, busSrc := c.busSrc, bytes := bytes.take appReqMax }
  if c.cmd = cmdAppEcho then some (.echo, req 0 c.args)
  else if c.cmd = cmdAppEchoTo then some (.echoTo, req (c.args.headD 0) c.args.tail)
  else if c.cmd = cmdAppIlClear then some (.ilClear, req 0 [])
  else if c.cmd = cmdAppOp then some (.op, req 0 c.args)
  else none

abbrev AppSlot := Fin appReqSlots

/-- An event in the queue of the engine. `raisedBy` records the request of the command that
raised it. -/
structure Pending where
  event : AppEvent
  slot : AppSlot
  raisedBy : AppReq
  deriving DecidableEq, Repr

/-- `g_app_req`, `g_app_req_head` and the queue of the engine. -/
structure AppEngine where
  slots : AppSlot → AppReq := fun _ => {}
  head : AppSlot := 0
  queue : List Pending := []

/-- One turn of the loop of `cfl_embed_pre_tick`; `accepted` tells whether the queue takes
the event. -/
def AppEngine.receive (s : AppEngine) (c : AppCmd) (accepted : Bool) : AppEngine :=
  match c.request with
  | some (event, req) =>
      { slots := Function.update s.slots s.head req
        head := s.head + 1
        queue := if accepted then s.queue ++ [⟨event, s.head, req⟩] else s.queue }
  | none => s

/-- The engine dispatches the oldest event. -/
def AppEngine.dispatch (s : AppEngine) : AppEngine := { s with queue := s.queue.tail }

/-- What the handler of the oldest event reads. -/
def AppEngine.handles (s : AppEngine) : Option (AppEvent × AppReq) :=
  s.queue.head?.map fun p => (p.event, s.slots p.slot)

inductive AppAction where
  | receive (c : AppCmd) (accepted : Bool)
  | dispatch
  deriving DecidableEq, Repr

def AppEngine.next (s : AppEngine) : AppAction → AppEngine
  | .receive c accepted => s.receive c accepted
  | .dispatch => s.dispatch

/-- What the handlers read when the engine dispatches the next `n` events. -/
def AppEngine.handled (s : AppEngine) : Nat → List (AppEvent × AppReq)
  | 0 => []
  | n + 1 => s.handles.toList ++ s.dispatch.handled n

/-- Dispatched now, every waiting event finds the request of its command. -/
def AppEngine.Served (s : AppEngine) : Prop :=
  s.handled s.queue.length = s.queue.map fun p => (p.event, p.raisedBy)

/-- A command does not take the slot of a waiting event, or asks the same as the command
that raised that event. -/
def AppEngine.Spares (s : AppEngine) : AppAction → Prop
  | .receive c _ => ∀ r ∈ c.request, ∀ p ∈ s.queue, p.slot = s.head → p.raisedBy = r.2
  | .dispatch => True

instance AppEngine.spares_decidable (s : AppEngine) : (a : AppAction) → Decidable (s.Spares a)
  | .receive c _ => inferInstanceAs (Decidable (∀ r ∈ c.request, ∀ p ∈ s.queue, _ → _))
  | .dispatch => inferInstanceAs (Decidable True)

variable {s : AppEngine}

theorem handled_eq (s : AppEngine) :
    s.handled s.queue.length = s.queue.map fun p => (p.event, s.slots p.slot) := by
  obtain ⟨slots, head, queue⟩ := s
  induction queue with
  | nil => rfl
  | cons p queue ih => exact congrArg (List.cons (p.event, slots p.slot)) ih

theorem served_iff : s.Served ↔ ∀ p ∈ s.queue, s.slots p.slot = p.raisedBy := by
  unfold AppEngine.Served
  rw [handled_eq, List.map_inj_left]
  simp

/-- The slots of the waiting events once a command has taken one. -/
theorem served_receive (h : s.Served) (c : AppCmd) (accepted : Bool) :
    (s.receive c accepted).Served ↔ s.Spares (.receive c accepted) := by
  have hold := served_iff.mp h
  unfold AppEngine.receive
  show _ ↔ ∀ r ∈ c.request, ∀ p ∈ s.queue, p.slot = s.head → p.raisedBy = r.2
  cases c.request with
  | none => exact iff_of_true h (by simp)
  | some r =>
      obtain ⟨event, req⟩ := r
      -- Of the old events only one in the slot that is taken can see a difference.
      have hkept : (∀ p ∈ s.queue, Function.update s.slots s.head req p.slot = p.raisedBy) ↔
          ∀ p ∈ s.queue, p.slot = s.head → p.raisedBy = req := by
        refine forall₂_congr fun p hp => ?_
        by_cases hslot : p.slot = s.head
        · rw [hslot, Function.update_self]
          simp [eq_comm]
        · rw [Function.update_of_ne hslot, hold p hp]
          simp [hslot]
      simp only [served_iff, Option.mem_some_iff, forall_eq', ← hkept]
      cases accepted with
      | false => rfl
      | true =>
          simp only [if_true, List.forall_mem_append, List.forall_mem_singleton]
          exact and_iff_left (Function.update_self ..)

theorem served_next (h : s.Served) (a : AppAction) : (s.next a).Served ↔ s.Spares a := by
  cases a with
  | receive c accepted => exact served_receive h c accepted
  | dispatch =>
      refine iff_of_true (served_iff.mpr fun p hp => ?_) trivial
      exact served_iff.mp h p (List.mem_of_mem_tail hp)

/-- All along a run every waiting event would find the request of its command, whenever the
engine came to dispatch it, if and only if no command of the run takes the slot of a waiting
event that asks something else. -/
theorem app_requests_served (as : List AppAction) :
    Along AppEngine.next (fun s a => (s.next a).Served) {} as ↔
      Along AppEngine.next AppEngine.Spares {} as :=
  Runs.along_congr (fun _ a h => served_next h a) (fun _ _ _ hserved => hserved) rfl

/-- `n` echoes that are drained in one call. -/
def echoes (n : Nat) : List AppAction :=
  (List.range n).map fun k =>
    .receive { reqId := .ofNat 16 k, cmd := cmdAppEcho, route := 0, busSrc := 0, args := [] } true

/-- Of five echoes the handler of the first reads the last. -/
theorem not_app_requests_served :
    ¬ ∀ as, Along AppEngine.next (fun s a => (s.next a).Served) {} as := by
  intro hall
  have hlast := (hall (echoes 5)).2.2.2.2.1
  revert hlast
  unfold AppEngine.Served
  decide

end SlowBus.Host
