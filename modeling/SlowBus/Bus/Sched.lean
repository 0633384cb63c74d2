import SlowBus.Bus.Outbound
import SlowBus.Bus.Roster
import SlowBus.Lib.Slots

/-!
# The arbiter of the bus controller

`core/bus_sched.c`: one flat queue for all nodes. A call fills the first slot that is
free, and a grant sends what the first slot for the node holds. Nothing keeps the age
of a frame but its place, and a slot that has become free is below older frames. The
numbers of reliable frames come from one counter for all nodes, eight bits wide.
-/

namespace SlowBus.Bus

open Runs (run Along)
open Slots (updateFirst behind)

def schedTxqPerNode : Nat := 4

/-- The slots of `g_txq`. -/
def schedTxqLen : Nat := busRosterMax * schedTxqPerNode

/-- `sched_txq_slot_t` -/
structure SchedTxqSlot where
  frame : Frame
  tcp : Bool
  inUse : Bool
  deriving Repr

/-- The arguments of `bus_sched_queue_tx`. -/
structure SchedCall extends QueueCall where
  tcp : Bool

/-- A call that returns true: what it asks to send, and how many reliable frames had
been accepted before. -/
structure SchedAccepted where
  message : Message
  tcp : Bool
  number : Nat
  deriving DecidableEq, Repr

/-- What the arbiter does: it accepts a frame, and it gives words to the PHY. -/
inductive SchedEntry where
  | accepted (e : SchedAccepted)
  | data (addr : Byte) (words : List Word)
  | poll (addr : Byte) (words : List Word)
  deriving DecidableEq, Repr

/-- The reliable frames accepted. -/
def reliableCount (log : List SchedEntry) : Nat :=
  log.countP fun
    | .accepted e => e.tcp
    | _ => false

/-- The statics of the module; `log` only records. -/
structure Sched where
  txq : List SchedTxqSlot
  cursor : Byte
  nextSeq : Byte
  log : List SchedEntry := []
  deriving Repr

/-- `bus_sched_init`; the slots keep the frames the memory holds. -/
def Sched.init (memory : Vector SchedTxqSlot schedTxqLen) : Sched where
  txq := memory.toList.map fun slot => { slot with inUse := false }
  cursor := 0
  nextSeq := 1

/-- The frame that a call leaves in a slot. -/
def SchedCall.frame (c : SchedCall) (nextSeq : Byte) (old : Frame) : Frame :=
  { c.fill busAddrMaster old with seq := if c.tcp then nextSeq else 0 }

def SchedCall.entry (c : SchedCall) (nextSeq : Byte) (number : Nat) : SchedAccepted where
  message := { c.message busAddrMaster with seq := if c.tcp then nextSeq else 0 }
  tcp := c.tcp
  number := number

/-- `bus_sched_queue_tx` -/
def Sched.queueTx (s : Sched) (c : SchedCall) : Bool × Sched :=
  if c.len > busPayloadMax then (false, s)
  else
    match updateFirst (fun slot => !slot.inUse)
        (fun slot => ⟨c.frame s.nextSeq slot.frame, c.tcp, true⟩) s.txq with
    | none => (false, s)
    | some (_, txq) =>
        (true, { s with
          txq
          nextSeq := if c.tcp then s.nextSeq + 1 else s.nextSeq
          log := s.log ++ [.accepted (c.entry s.nextSeq (reliableCount s.log))] })

/-- What `txq_take` looks for. -/
def SchedTxqSlot.holds (dest : Byte) (slot : SchedTxqSlot) : Bool :=
  slot.inUse && slot.frame.dest == dest

/-- `txq_take`, and the slots with the one it finds released. -/
def Sched.txqTake (s : Sched) (dest : Byte) : Option (SchedTxqSlot × List SchedTxqSlot) :=
  updateFirst (SchedTxqSlot.holds dest) (fun slot => { slot with inUse := false }) s.txq

def pollFrame (addr : Byte) : Frame :=
  ⟨addr, busAddrMaster, busFtPoll, 0, 0, Vector.replicate 240 0⟩

/-- The grant of `bus_sched_tick`: queued data, or a bare POLL. -/
def Sched.grant (s : Sched) (addr : Byte) : Sched :=
  match s.txqTake addr with
  | some (slot, txq) =>
      { s with txq, log := s.log ++ [.data addr (busFrameEncode slot.frame)] }
  | none => { s with log := s.log ++ [.poll addr (busFrameEncode (pollFrame addr))] }

/-- `bus_sched_tick`, with the roster as it is then. -/
def Sched.tick (s : Sched) (r : BusRoster) : Byte × Sched :=
  match r.nextEnabled s.cursor with
  | (none, cursor) => (0, { s with cursor })
  | (some i, cursor) => ((r.slots i).addr, { s with cursor }.grant (r.slots i).addr)

inductive SchedOp where
  | queueTx (c : SchedCall)
  | tick (r : BusRoster)

def Sched.next (s : Sched) : SchedOp → Sched
  | .queueTx c => (s.queueTx c).2
  | .tick r => (s.tick r).2

/-! ## The queue of one node -/

/-- The calls for a node that were accepted. -/
def acceptedFor (dest : Byte) (log : List SchedEntry) : List SchedAccepted :=
  log.filterMap fun
    | .accepted e => if e.message.dest = dest then some e else none
    | _ => none

/-- The queued frames that were sent to a node. -/
def sentFor (dest : Byte) (log : List SchedEntry) : List (List Word) :=
  log.filterMap fun
    | .data addr words => if addr = dest then some words else none
    | _ => none

/-- The calls for a node whose turn has not come, when each grant serves the oldest. -/
def outstanding (dest : Byte) (log : List SchedEntry) : List SchedAccepted :=
  (acceptedFor dest log).drop (sentFor dest log).length

/-- What the slots hold for a node, in the order in which it would be taken. -/
def Sched.queuedFor (s : Sched) (dest : Byte) : List SchedTxqSlot :=
  s.txq.filter (SchedTxqSlot.holds dest)

/-- The reliable frames in flight to a node. -/
def Sched.inFlight (s : Sched) (dest : Byte) : List SchedTxqSlot :=
  (s.queuedFor dest).filter (·.tcp)

/-- What was sent to a node and what is queued for it are the frames accepted, once
each and in order, and the reliable ones in flight are told apart by their numbers. -/
structure Sched.Orderly (s : Sched) (dest : Byte) : Prop where
  order : sentFor dest s.log ++ (s.queuedFor dest).map (fun slot => busFrameEncode slot.frame) =
    (acceptedFor dest s.log).map fun e => e.message.words
  marked : ∀ slot ∈ s.inFlight dest, slot.frame.seq ≠ 0
  apart : ((s.inFlight dest).map (·.frame.seq)).Nodup

/-- Behind the first free slot no frame waits for the node, and for a reliable frame
the counter of reliable frames is neither about to pass zero nor a multiple of its
period ahead of one that is outstanding. -/
structure Sched.Fits (s : Sched) (c : SchedCall) : Prop where
  last : ∀ slot ∈ behind (fun slot => !slot.inUse) s.txq, slot.holds c.dest = false
  marked : c.tcp = true → reliableCount s.log % 256 ≠ 255
  apart : c.tcp = true → ∀ e ∈ outstanding c.dest s.log, e.tcp = true →
    e.number % 256 ≠ reliableCount s.log % 256

/-- A call that is not refused fits. -/
def Sched.Timely (s : Sched) : SchedOp → Prop
  | .queueTx c =>
      c.len ≤ busPayloadMax → (∃ slot ∈ s.txq, slot.inUse = false) → s.Fits c
  | .tick _ => True

section Log

variable {log : List SchedEntry} {e : SchedAccepted} {addr dest : Byte} {words : List Word}

@[simp] theorem acceptedFor_accepted : acceptedFor dest (log ++ [.accepted e]) =
    acceptedFor dest log ++ if e.message.dest = dest then [e] else [] := by
  by_cases h : e.message.dest = dest <;> simp [acceptedFor, List.filterMap_append, h]

@[simp] theorem acceptedFor_data :
    acceptedFor dest (log ++ [.data addr words]) = acceptedFor dest log := by
  simp [acceptedFor, List.filterMap_append]

@[simp] theorem acceptedFor_poll :
    acceptedFor dest (log ++ [.poll addr words]) = acceptedFor dest log := by
  simp [acceptedFor, List.filterMap_append]

@[simp] theorem sentFor_accepted :
    sentFor dest (log ++ [.accepted e]) = sentFor dest log := by
  simp [sentFor, List.filterMap_append]

@[simp] theorem sentFor_data : sentFor dest (log ++ [.data addr words]) =
    sentFor dest log ++ if addr = dest then [words] else [] := by
  by_cases h : addr = dest <;> simp [sentFor, List.filterMap_append, h]

@[simp] theorem sentFor_poll : sentFor dest (log ++ [.poll addr words]) = sentFor dest log := by
  simp [sentFor, List.filterMap_append]

/-- A call waits behind the others for its node. -/
theorem outstanding_accepted (h : (sentFor dest log).length ≤ (acceptedFor dest log).length) :
    outstanding dest (log ++ [.accepted e]) =
      outstanding dest log ++ if e.message.dest = dest then [e] else [] := by
  rw [outstanding, acceptedFor_accepted, sentFor_accepted, List.drop_append_of_le_length h,
    outstanding]

/-- A grant serves the first. -/
theorem outstanding_data : outstanding dest (log ++ [.data addr words]) =
    if addr = dest then (outstanding dest log).tail else outstanding dest log := by
  rw [outstanding, acceptedFor_data, sentFor_data]
  split
  next => rw [List.length_append, List.length_singleton, ← List.tail_drop, outstanding]
  next => rw [List.append_nil, outstanding]

theorem outstanding_data_sublist :
    (outstanding dest (log ++ [.data addr words])).Sublist (outstanding dest log) := by
  rw [outstanding_data]
  split
  next => exact List.tail_sublist _
  next => exact List.Sublist.refl _

@[simp] theorem outstanding_poll :
    outstanding dest (log ++ [.poll addr words]) = outstanding dest log := by
  rw [outstanding, acceptedFor_poll, sentFor_poll, outstanding]

end Log

/-! ## The slots hold what is outstanding -/

/-- The slots of every node hold its outstanding frames in order. -/
structure Sched.Inv (s : Sched) : Prop where
  counter : s.nextSeq = BitVec.ofNat 8 (reliableCount s.log + 1)
  fits : ∀ slot ∈ s.txq, slot.inUse = true → slot.frame.len ≤ busPayloadMax
  numbered : ∀ dest, ∀ e ∈ outstanding dest s.log, e.tcp = true →
    e.message.seq = BitVec.ofNat 8 (e.number + 1)
  held : ∀ dest, (s.queuedFor dest).map (fun slot => (slot.frame.message, slot.tcp)) =
    (outstanding dest s.log).map fun e => (e.message, e.tcp)
  sent : ∀ dest, sentFor dest s.log ++ (outstanding dest s.log).map (fun e => e.message.words) =
    (acceptedFor dest s.log).map fun e => e.message.words
  marked : ∀ dest, ∀ e ∈ outstanding dest s.log, e.tcp = true → e.message.seq ≠ 0
  apart : ∀ dest, (((outstanding dest s.log).filter (·.tcp)).map (·.message.seq)).Nodup

section Steps

variable {s : Sched} {c : SchedCall} {addr dest : Byte}

theorem inv_init (memory : Vector SchedTxqSlot schedTxqLen) : (Sched.init memory).Inv := by
  have hfree : ∀ slot ∈ (Sched.init memory).txq, slot.inUse = false := by simp [Sched.init]
  have hnone : ∀ dest, (Sched.init memory).queuedFor dest = [] := by
    intro dest
    apply List.filter_eq_nil_iff.mpr
    intro slot hslot
    simp [SchedTxqSlot.holds, hfree slot hslot]
  refine ⟨rfl, ?_, ?_, ?_, ?_, ?_, ?_⟩
  · intro slot hslot hinUse
    rw [hfree slot hslot] at hinUse
    cases hinUse
  · intro dest e he
    cases he
  · intro dest
    rw [hnone dest]
    rfl
  · exact fun dest => rfl
  · intro dest e he
    cases he
  · exact fun dest => List.nodup_nil

/-- No more is sent than was accepted. -/
theorem Sched.Inv.sent_le (h : s.Inv) (dest : Byte) :
    (sentFor dest s.log).length ≤ (acceptedFor dest s.log).length := by
  have hlength := congrArg List.length (h.sent dest)
  rw [List.length_append, List.length_map, List.length_map] at hlength
  omega

theorem frame_message (hlen : c.len ≤ busPayloadMax) (nextSeq : Byte) (old : Frame) (number : Nat) :
    (c.frame nextSeq old).message = (c.entry nextSeq number).message := by
  have hfill := message_fill (c := c.toQueueCall) hlen busAddrMaster old
  rw [SchedCall.entry, ← hfill]
  rfl

theorem entry_seq (htcp : c.tcp = true) (nextSeq : Byte) (number : Nat) :
    (c.entry nextSeq number).message.seq = nextSeq := if_pos htcp

/-- A reliable frame gets a number that no outstanding one for the node has. -/
theorem Sched.Inv.number_apart (h : s.Inv) (hfits : s.Fits c) (htcp : c.tcp = true)
    {e : SchedAccepted} (he : e ∈ outstanding c.dest s.log) (hreliable : e.tcp = true) :
    e.message.seq ≠ s.nextSeq := by
  have hapart := hfits.apart htcp e he hreliable
  rw [h.numbered _ e he hreliable, h.counter]
  intro heq
  have hnat := congrArg BitVec.toNat heq
  rw [BitVec.toNat_ofNat, BitVec.toNat_ofNat] at hnat
  omega

theorem Sched.Inv.number_ne_zero (h : s.Inv) (hfits : s.Fits c) (htcp : c.tcp = true) :
    s.nextSeq ≠ 0 := by
  have hmarked := hfits.marked htcp
  rw [h.counter]
  intro heq
  have hnat := congrArg BitVec.toNat heq
  have hzero : (0 : Byte).toNat = 0 := rfl
  rw [BitVec.toNat_ofNat, hzero] at hnat
  omega

/-- The entry of a call, where it is for the node. -/
def SchedCall.joins (c : SchedCall) (s : Sched) (dest : Byte) : List SchedAccepted :=
  if c.dest = dest then [c.entry s.nextSeq (reliableCount s.log)] else []

theorem Sched.Inv.outstanding_queueTx (h : s.Inv) (dest : Byte) :
    outstanding dest (s.log ++ [.accepted (c.entry s.nextSeq (reliableCount s.log))]) =
      outstanding dest s.log ++ c.joins s dest :=
  outstanding_accepted (h.sent_le dest)

theorem mem_joins {e : SchedAccepted} (he : e ∈ c.joins s dest) :
    e = c.entry s.nextSeq (reliableCount s.log) ∧ c.dest = dest := by
  unfold SchedCall.joins at he
  split at he
  next hdest => exact ⟨List.mem_singleton.mp he, hdest⟩
  next => cases he

/-- The slot that is filled is the last one for its node. -/
theorem Sched.Inv.held_queueTx (h : s.Inv) (hlen : c.len ≤ busPayloadMax) (hfits : s.Fits c)
    {old : SchedTxqSlot} {txq : List SchedTxqSlot}
    (hfill : updateFirst (fun slot => !slot.inUse)
      (fun slot => ⟨c.frame s.nextSeq slot.frame, c.tcp, true⟩) s.txq = some (old, txq))
    (dest : Byte) :
    (txq.filter (SchedTxqSlot.holds dest)).map (fun slot => (slot.frame.message, slot.tcp)) =
      (outstanding dest s.log ++ c.joins s dest).map fun e => (e.message, e.tcp) := by
  have hfree : old.inUse = false := by simpa using (Slots.mem_of_updateFirst hfill).2
  have hmessage := frame_message hlen s.nextSeq old.frame (reliableCount s.log)
  rw [List.map_append, ← h.held dest, SchedCall.joins]
  by_cases hdest : c.dest = dest
  · subst hdest
    have hqueue : txq.filter (SchedTxqSlot.holds c.dest) = s.queuedFor c.dest ++ _ :=
      Slots.filter_append hfill (by simp [SchedTxqSlot.holds, hfree])
        (by simp [SchedTxqSlot.holds, SchedCall.frame, QueueCall.fill]) hfits.last
    rw [hqueue, List.map_append, List.map_singleton, hmessage, if_pos rfl]
    rfl
  · have hqueue : txq.filter (SchedTxqSlot.holds dest) = s.queuedFor dest :=
      Slots.filter_same hfill (by simp [SchedTxqSlot.holds, hfree])
        (by simp [SchedTxqSlot.holds, SchedCall.frame, QueueCall.fill, hdest])
    rw [hqueue, if_neg hdest, List.map_nil, List.append_nil]

/-- Its number is none of those of the reliable frames outstanding for the node. -/
theorem Sched.Inv.apart_queueTx (h : s.Inv) (hfits : s.Fits c) (dest : Byte) :
    (((outstanding dest s.log ++ c.joins s dest).filter (·.tcp)).map (·.message.seq)).Nodup := by
  rw [List.filter_append, List.map_append, List.nodup_append]
  refine ⟨h.apart dest, ?_, ?_⟩
  · unfold SchedCall.joins
    split
    next =>
      cases htcp : (c.entry s.nextSeq (reliableCount s.log)).tcp <;> simp [htcp]
    next => exact List.nodup_nil
  · intro a ha b hb
    obtain ⟨e, he, rfl⟩ := List.mem_map.mp ha
    obtain ⟨e', he', rfl⟩ := List.mem_map.mp hb
    obtain ⟨hmem, hreliable⟩ := List.mem_filter.mp he
    obtain ⟨hmem', htcp⟩ := List.mem_filter.mp he'
    obtain ⟨rfl, rfl⟩ := mem_joins hmem'
    rw [entry_seq htcp]
    exact h.number_apart hfits htcp hmem hreliable

/-- A call that fits joins the queue of its node at the end. -/
theorem Sched.Inv.join (h : s.Inv) (hlen : c.len ≤ busPayloadMax) (hfits : s.Fits c)
    {old : SchedTxqSlot} {txq : List SchedTxqSlot}
    (hfill : updateFirst (fun slot => !slot.inUse)
      (fun slot => ⟨c.frame s.nextSeq slot.frame, c.tcp, true⟩) s.txq = some (old, txq)) :
    Sched.Inv { s with
      txq
      nextSeq := if c.tcp then s.nextSeq + 1 else s.nextSeq
      log := s.log ++ [.accepted (c.entry s.nextSeq (reliableCount s.log))] } where
  -- only a reliable call takes a number
  counter := by
    have hcount : reliableCount
        (s.log ++ [.accepted (c.entry s.nextSeq (reliableCount s.log))]) =
        reliableCount s.log + if c.tcp then 1 else 0 := by
      simp [reliableCount, SchedCall.entry, List.countP_append, List.countP_cons]
    simp only [hcount]
    split
    next =>
      rw [h.counter]
      exact (BitVec.ofNat_add _ 1).symm
    next => exact h.counter
  fits slot hslot hinUse := by
    rcases Slots.mem_updateFirst hfill hslot with hold | rfl
    · exact h.fits slot hold hinUse
    · exact hlen
  numbered dest e he htcp := by
    rw [h.outstanding_queueTx, List.mem_append] at he
    rcases he with hold | hnew
    · exact h.numbered dest e hold htcp
    · obtain ⟨rfl, _⟩ := mem_joins hnew
      exact (entry_seq htcp ..).trans h.counter
  held dest := by
    rw [h.outstanding_queueTx]
    exact h.held_queueTx hlen hfits hfill dest
  sent dest := by
    have hjoins : acceptedFor dest
        (s.log ++ [.accepted (c.entry s.nextSeq (reliableCount s.log))]) =
        acceptedFor dest s.log ++ c.joins s dest := acceptedFor_accepted
    rw [sentFor_accepted, h.outstanding_queueTx, hjoins, List.map_append, ← List.append_assoc,
      h.sent dest, ← List.map_append]
  marked dest e he htcp := by
    rw [h.outstanding_queueTx, List.mem_append] at he
    rcases he with hold | hnew
    · exact h.marked dest e hold htcp
    · obtain ⟨rfl, _⟩ := mem_joins hnew
      rw [entry_seq htcp]
      exact h.number_ne_zero hfits htcp
  apart dest := by
    rw [h.outstanding_queueTx]
    exact h.apart_queueTx hfits dest

theorem Sched.Inv.queueTx (h : s.Inv) (htimely : s.Timely (.queueTx c)) : (s.queueTx c).2.Inv := by
  unfold Sched.queueTx
  split
  next => exact h
  next hlong =>
    have hlen : c.len ≤ busPayloadMax := BitVec.not_lt.mp hlong
    split
    next => exact h
    next old txq hfill =>
      obtain ⟨hmem, hfree⟩ := Slots.mem_of_updateFirst hfill
      exact h.join hlen (htimely hlen ⟨old, hmem, by simpa using hfree⟩) hfill

/-- The frame that is taken is that of the first outstanding call. -/
theorem Sched.Inv.taken (h : s.Inv) {slot : SchedTxqSlot} {txq : List SchedTxqSlot}
    (htake : s.txqTake addr = some (slot, txq)) :
    ∃ e es, outstanding addr s.log = e :: es ∧ busFrameEncode slot.frame = e.message.words ∧
      (txq.filter (SchedTxqSlot.holds addr)).map (fun slot => (slot.frame.message, slot.tcp)) =
        es.map fun e => (e.message, e.tcp) := by
  have hheld := h.held addr
  have hqueue : s.queuedFor addr = slot :: txq.filter (SchedTxqSlot.holds addr) :=
    Slots.filter_cons htake (by simp [SchedTxqSlot.holds])
  obtain ⟨hmem, hholds⟩ := Slots.mem_of_updateFirst htake
  have hinUse : slot.inUse = true := by
    unfold SchedTxqSlot.holds at hholds
    simp at hholds
    exact hholds.1
  rw [hqueue, List.map_cons] at hheld
  obtain ⟨e, es, heq, hfirst, hrest⟩ := List.map_eq_cons_iff.mp hheld.symm
  refine ⟨e, es, heq, ?_, hrest.symm⟩
  rw [encode_message (h.fits slot hmem hinUse), (Prod.mk.inj hfirst).1]

/-- A grant serves the first frame of its node. -/
theorem Sched.Inv.serve (h : s.Inv) {slot : SchedTxqSlot} {txq : List SchedTxqSlot}
    (htake : s.txqTake addr = some (slot, txq)) :
    Sched.Inv { s with txq, log := s.log ++ [.data addr (busFrameEncode slot.frame)] } where
  counter := by
    rw [h.counter]
    simp [reliableCount, List.countP_append]
  fits slot' hslot' hinUse := by
    rcases Slots.mem_updateFirst htake hslot' with hold | rfl
    · exact h.fits slot' hold hinUse
    · cases hinUse
  numbered dest e' he' := h.numbered dest e' (outstanding_data_sublist.subset he')
  held dest := by
    obtain ⟨e, es, hfirst, -, hrest⟩ := h.taken htake
    obtain ⟨-, hholds⟩ := Slots.mem_of_updateFirst htake
    rw [outstanding_data]
    by_cases hdest : addr = dest
    · subst hdest
      rw [if_pos rfl, hfirst, List.tail_cons]
      exact hrest
    · have hqueue : txq.filter (SchedTxqSlot.holds dest) = s.queuedFor dest := by
        apply Slots.filter_same htake
        · unfold SchedTxqSlot.holds at hholds ⊢
          simp at hholds
          simp [hholds.2, hdest]
        · simp [SchedTxqSlot.holds]
      rw [if_neg hdest, ← h.held dest, ← hqueue]
      rfl
  sent dest := by
    obtain ⟨e, es, hfirst, hwords, -⟩ := h.taken htake
    have hsent := h.sent dest
    rw [sentFor_data, acceptedFor_data, outstanding_data]
    by_cases hdest : addr = dest
    · -- the words sent are those of the first outstanding call
      subst hdest
      rw [hfirst, List.map_cons] at hsent
      rw [if_pos rfl, if_pos rfl, hfirst, hwords, List.append_assoc, List.singleton_append]
      exact hsent
    · rw [if_neg hdest, if_neg hdest, List.append_nil]
      exact hsent
  marked dest e' he' := h.marked dest e' (outstanding_data_sublist.subset he')
  apart dest := (h.apart dest).sublist ((outstanding_data_sublist.filter _).map _)

/-- A bare POLL serves none. -/
theorem Sched.Inv.poll (h : s.Inv) (addr : Byte) (words : List Word) :
    Sched.Inv { s with log := s.log ++ [.poll addr words] } where
  counter := by simpa [reliableCount, List.countP_append] using h.counter
  fits := h.fits
  numbered dest := by simpa using h.numbered dest
  held dest := by
    rw [outstanding_poll]
    exact h.held dest
  sent dest := by simpa using h.sent dest
  marked dest := by simpa using h.marked dest
  apart dest := by simpa using h.apart dest

theorem Sched.Inv.grant (h : s.Inv) (addr : Byte) : (s.grant addr).Inv := by
  unfold Sched.grant
  split
  next htake => exact h.serve htake
  next => exact h.poll addr _

theorem Sched.Inv.tick (h : s.Inv) (r : BusRoster) : (s.tick r).2.Inv := by
  unfold Sched.tick
  split
  next => exact ⟨h.counter, h.fits, h.numbered, h.held, h.sent, h.marked, h.apart⟩
  next cursor _ =>
    apply Sched.Inv.grant (s := { s with cursor })
    exact ⟨h.counter, h.fits, h.numbered, h.held, h.sent, h.marked, h.apart⟩

theorem Sched.Inv.next (h : s.Inv) {op : SchedOp} (htimely : s.Timely op) : (s.next op).Inv := by
  cases op with
  | queueTx c => exact h.queueTx htimely
  | tick r => exact h.tick r

/-- What the slots hold is told apart as what is outstanding is. -/
theorem Sched.Inv.orderly (h : s.Inv) (dest : Byte) : s.Orderly dest := by
  have hheld := h.held dest
  have hwords : (s.queuedFor dest).map (fun slot => busFrameEncode slot.frame) =
      (outstanding dest s.log).map fun e => e.message.words := by
    have hmap := congrArg (List.map fun held : Message × Bool => held.1.words) hheld
    rw [List.map_map, List.map_map] at hmap
    refine Eq.trans (List.map_congr_left ?_) hmap
    intro slot hslot
    obtain ⟨hmem, hholds⟩ := List.mem_filter.mp hslot
    exact encode_message (h.fits slot hmem (Bool.and_eq_true_iff.mp hholds).1)
  have hreliable : (s.inFlight dest).map (fun slot => slot.frame.seq) =
      ((outstanding dest s.log).filter (·.tcp)).map fun e => e.message.seq := by
    have hfilter := congrArg (List.filter fun held : Message × Bool => held.2) hheld
    rw [List.filter_map, List.filter_map] at hfilter
    have hmap := congrArg (List.map fun held : Message × Bool => held.1.seq) hfilter
    rw [List.map_map, List.map_map] at hmap
    exact hmap
  refine ⟨?_, ?_, ?_⟩
  · rw [hwords]
    exact h.sent dest
  · intro slot hslot
    have hmem : slot.frame.seq ∈ (s.inFlight dest).map fun slot => slot.frame.seq :=
      List.mem_map_of_mem hslot
    rw [hreliable] at hmem
    obtain ⟨e, he, heq⟩ := List.mem_map.mp hmem
    obtain ⟨hout, htcp⟩ := List.mem_filter.mp he
    rw [← heq]
    exact h.marked dest e hout htcp
  · rw [hreliable]
    exact h.apart dest

end Steps

/-- Every run in which each call that is not refused fits: what was sent to a node and
what is queued for it are the frames accepted for it, in the order of the calls, and
the reliable frames in flight to it have numbers of their own, none of them zero. -/
theorem queue_in_order (memory : Vector SchedTxqSlot schedTxqLen) (ops : List SchedOp)
    (h : Along Sched.next Sched.Timely (Sched.init memory) ops) (dest : Byte) :
    (run Sched.next (Sched.init memory) ops).Orderly dest :=
  (Runs.run_along (fun _ _ hs hop => hs.next hop) h (inv_init memory)).orderly dest

/-- The queue as it is in fresh memory. -/
def freshTxq : Vector SchedTxqSlot schedTxqLen := Vector.replicate _ ⟨shortFrame, false, false⟩

/-- A call for a node, with one byte of payload. -/
def oneByteCall (dest b : Byte) (tcp : Bool) : SchedCall :=
  { dest, type := busFtData, payload := fun _ => b, len := 1, tcp }

/-- Two enabled nodes, 1 and 2. -/
def twoNodes : BusRoster :=
  ((({} : BusRoster).init.register 1 0 busFlagEnabled).2.register 2 0 busFlagEnabled).2

theorem queue_in_order_two :
    (run Sched.next (Sched.init freshTxq)
      [.queueTx (oneByteCall 1 0xA0 true), .queueTx (oneByteCall 1 0xA1 true),
        .tick twoNodes]).Orderly 1 := by
  apply queue_in_order
  refine ⟨fun _ _ => ⟨?_, fun _ => ?_, fun _ => ?_⟩, fun _ _ => ⟨?_, fun _ => ?_, fun _ => ?_⟩,
    trivial, trivial⟩
  all_goals decide +kernel

/-- The frame for node 1 frees the first slot, and the second frame for node 2 passes
the first one there. -/
theorem not_queue_in_order :
    ¬ ∀ (memory : Vector SchedTxqSlot schedTxqLen) (ops : List SchedOp) (dest : Byte),
      (run Sched.next (Sched.init memory) ops).Orderly dest := by
  intro h
  have hpassed := (h freshTxq [.queueTx (oneByteCall 1 0xA0 false),
    .queueTx (oneByteCall 2 0xB0 false), .tick twoNodes, .queueTx (oneByteCall 2 0xB1 false),
    .tick twoNodes] 2).order
  revert hpassed
  decide +kernel

end SlowBus.Bus
