import SlowBus.Bus.Frame
import SlowBus.Lib.RingBuffer
import SlowBus.Lib.Runs

/-!
# The receive ring of the PHY

The receive interrupt moves words from the FIFO into the ring and is the only one to write the
head; the consumer takes them out and is the only one to write the tail. The interrupt may come
between any two accesses of the consumer to the head, the ring and the tail.
-/

namespace SlowBus.Bus

open RingBuffer (Buffer Follows Handed place)
open Runs (run Along)

def rxRingSize : BitVec 32 := 512
def rxRingMask : BitVec 32 := rxRingSize - 1

structure Phy where
  ring : Fin 512 → Word
  ringHead : BitVec 32
  ringTail : BitVec 32
  rxWords : BitVec 32
  rxOverrun : BitVec 32

/-- The element of `s_ring` at an index. -/
def ringIndex (i : BitVec 32) : Fin 512 :=
  ⟨(i &&& rxRingMask).toNat, by
    rw [BitVec.toNat_and]
    exact Nat.lt_of_le_of_lt Nat.and_le_right (by decide)⟩

/-- What `bus_phy_init` does to the ring. -/
def Phy.init (p : Phy) : Phy :=
  { p with ringHead := 0, ringTail := 0, rxWords := 0, rxOverrun := 0 }

/-- A word of the FIFO, right-justified. -/
def rxJustify (w : BitVec 32) : Word := ((w >>> 23) &&& 0x1FF).setWidth 16

/-- The loop of `phy_rx_isr`, for one word of the FIFO. -/
def Phy.rxWord (p : Phy) (w : BitVec 32) : Phy :=
  if p.ringHead - p.ringTail < rxRingSize then
    { p with
      ring := Function.update p.ring (ringIndex p.ringHead) (rxJustify w)
      ringHead := p.ringHead + 1
      rxWords := p.rxWords + 1 }
  else { p with rxOverrun := p.rxOverrun + 1 }

/-- `bus_phy_rx_pop`: none when the ring is empty. The word is read if the caller has a place for
it (`out`). -/
def Phy.rxPop (p : Phy) (out : Bool) : Option (Option Word) × Phy :=
  if p.ringHead = p.ringTail then (none, p)
  else (some (if out then some (p.ring (ringIndex p.ringTail)) else none),
    { p with ringTail := p.ringTail + 1 })

/-- `bus_phy_rx_flush`, after the FIFO is cleared. -/
def Phy.rxFlush (p : Phy) : Phy := { p with ringTail := p.ringHead }

/-! ## The consumer between interrupts -/

/-- Where the consumer is. -/
inductive RxPhase where
  | idle
  /-- The ring was not empty; the word is read next. -/
  | found (out : Bool)
  /-- The word is read; the tail is written next. -/
  | read (out : Bool) (got : Option Word)
  /-- The FIFO is cleared; the head is read next. -/
  | cleared
  /-- The head is read; the tail is written next. -/
  | cutting (head : BitVec 32)

inductive RxEntry where
  | pushed (v : Word)
  | dropped (v : Word)
  /-- A pop that returned true. -/
  | popped (out : Bool) (got : Option Word)
  /-- A pop that returned false. -/
  | empty
  /-- A flush, at its reading of the head. -/
  | flushed

/-- The ring, the place of its consumer, and what has happened, newest first. -/
structure RxRun where
  phy : Phy
  phase : RxPhase := .idle
  log : List RxEntry := []

inductive RxEvent where
  /-- The interrupt takes a word from the FIFO. -/
  | rx (w : BitVec 32)
  /-- The consumer calls `bus_phy_rx_pop`. -/
  | pop (out : Bool)
  /-- The consumer calls `bus_phy_rx_flush`. -/
  | flush
  /-- The next step of the consumer's call. -/
  | step

/-- A step of the call that the consumer is in. -/
def RxRun.step (s : RxRun) : RxRun :=
  match s.phase with
  | .idle => s
  | .found out =>
      { s with phase := .read out (if out then some (s.phy.ring (ringIndex s.phy.ringTail))
        else none) }
  | .read out got =>
      { phy := { s.phy with ringTail := s.phy.ringTail + 1 }
        phase := .idle
        log := .popped out got :: s.log }
  | .cleared => { s with phase := .cutting s.phy.ringHead, log := .flushed :: s.log }
  | .cutting head => { s with phy := { s.phy with ringTail := head }, phase := .idle }

/-- A call begins when the one before has returned. -/
def RxRun.next (s : RxRun) : RxEvent → RxRun
  | .rx w =>
      { s with
        phy := s.phy.rxWord w
        log := (if s.phy.ringHead - s.phy.ringTail < rxRingSize then .pushed (rxJustify w)
          else .dropped (rxJustify w)) :: s.log }
  | .pop out =>
      match s.phase with
      | .idle =>
          if s.phy.ringHead = s.phy.ringTail then { s with log := .empty :: s.log }
          else { s with phase := .found out }
      | _ => s
  | .flush =>
      match s.phase with
      | .idle => { s with phase := .cleared }
      | _ => s
  | .step => s.step

def RxRun.start (p : Phy) : RxRun := { phy := p.init }

/-! ## What was pushed and what was popped -/

/-- The words pushed since the last flush, in order. -/
def pushedSince : List RxEntry → List Word
  | [] => []
  | .flushed :: _ => []
  | .pushed v :: log => pushedSince log ++ [v]
  | _ :: log => pushedSince log

/-- What the pops since the last flush got, in order. -/
def poppedSince : List RxEntry → List (Option Word)
  | [] => []
  | .flushed :: _ => []
  | .popped _ got :: log => poppedSince log ++ [got]
  | _ :: log => poppedSince log

def Phy.buffer (p : Phy) : Buffer 32 512 Word := ⟨p.ring, p.ringHead, p.ringTail⟩

/-- How many of the words in the ring a flush that has read the head will give up. -/
def RxPhase.cut (tail : BitVec 32) : RxPhase → Nat
  | .cutting head => (head - tail).toNat
  | _ => 0

/-- The words that are still to be popped, the oldest first. -/
def RxRun.pending (s : RxRun) : List Word := s.phy.buffer.contents.drop (s.phase.cut s.phy.ringTail)

/-- The words popped since the last flush are the first of those pushed since, in order and each
once; the others are pending. The ring is found empty only when all have been popped. -/
structure RxRun.Exact (s : RxRun) : Prop where
  bound : s.phy.buffer.count ≤ 512
  follows : Follows (poppedSince s.log) (pushedSince s.log) s.pending
  empties : ∀ newer older, s.log = newer ++ .empty :: older →
    Follows (poppedSince older) (pushedSince older) []
  given : ∀ got, .popped true got ∈ s.log → got ≠ none

section Buffer

variable {p : Phy} {w : BitVec 32}

theorem ringIndex_eq (i : BitVec 32) : ringIndex i = place 512 i := by
  apply Fin.ext
  show (i &&& rxRingMask).toNat = i.toNat % 512
  rw [BitVec.toNat_and]
  exact Nat.and_two_pow_sub_one_eq_mod i.toNat 9

theorem room_iff : p.ringHead - p.ringTail < rxRingSize ↔ p.buffer.count < 512 :=
  BitVec.lt_def

theorem rxWord_room (h : p.buffer.count < 512) :
    (p.rxWord w).buffer = p.buffer.push (rxJustify w) := by
  unfold Phy.rxWord
  rw [if_pos (room_iff.mpr h), ringIndex_eq]
  rfl

theorem rxWord_tail : (p.rxWord w).ringTail = p.ringTail := by
  unfold Phy.rxWord
  split <;> rfl

/-- Nothing but the overrun counter tells of a word that finds the ring full. -/
theorem rxWord_full (h : ¬p.buffer.count < 512) :
    p.rxWord w = { p with rxOverrun := p.rxOverrun + 1 } := by
  unfold Phy.rxWord
  exact if_neg fun hlt => h (room_iff.mp hlt)

theorem contents_rxWord (h : p.buffer.count < 512) :
    (p.rxWord w).buffer.contents = p.buffer.contents ++ [rxJustify w] := by
  rw [rxWord_room h]
  exact Buffer.contents_push (by decide) (by decide) h _

theorem count_rxWord (h : p.buffer.count < 512) :
    (p.rxWord w).buffer.count = p.buffer.count + 1 := by
  rw [rxWord_room h]
  exact Buffer.count_push (by decide) h _

end Buffer

/-! ## Every step -/

/-- What the consumer has found out of the words in the ring. -/
def RxPhase.Sees (held : List Word) : RxPhase → Prop
  | .found _ => held ≠ []
  | .read out got => ∃ v rest, held = v :: rest ∧ got = if out then some v else none
  | _ => True

structure RxRun.Inv (s : RxRun) : Prop where
  exact : s.Exact
  cut : s.phase.cut s.phy.ringTail ≤ s.phy.buffer.count
  sees : s.phase.Sees s.phy.buffer.contents

section Steps

variable {s : RxRun} {w : BitVec 32} {out : Bool} {e : RxEntry} {log : List RxEntry}

/-- An entry on top of the log. -/
theorem empties_cons
    (h : ∀ newer older, log = newer ++ .empty :: older →
      Follows (poppedSince older) (pushedSince older) [])
    (hempty : e = .empty → Follows (poppedSince log) (pushedSince log) []) (newer older)
    (heq : e :: log = newer ++ .empty :: older) :
    Follows (poppedSince older) (pushedSince older) [] := by
  cases newer with
  | nil =>
      obtain ⟨he, rfl⟩ := List.cons.inj heq
      exact hempty he
  | cons e' newer => exact h newer older (List.cons.inj heq).2

theorem given_cons (h : ∀ got, .popped true got ∈ log → got ≠ none)
    (he : ∀ got, e = .popped true got → got ≠ none) (got : Option Word)
    (hgot : .popped true got ∈ e :: log) : got ≠ none := by
  rcases List.mem_cons.mp hgot with heq | hold
  · exact he got heq.symm
  · exact h got hold

/-- The interrupt only adds words. -/
theorem RxPhase.Sees.append {phase : RxPhase} {held : List Word} (h : phase.Sees held)
    (v : Word) : phase.Sees (held ++ [v]) := by
  cases phase with
  | found out => exact List.append_ne_nil_of_right_ne_nil _ (List.cons_ne_nil _ _)
  | read out got =>
      obtain ⟨x, rest, rfl, hgot⟩ := h
      exact ⟨x, rest ++ [v], rfl, hgot⟩
  | idle | cleared | cutting => trivial

theorem log_rx_room (h : s.phy.buffer.count < 512) :
    (s.next (.rx w)).log = .pushed (rxJustify w) :: s.log :=
  congrArg (· :: s.log) (if_pos (room_iff.mpr h))

theorem log_rx_full (h : ¬s.phy.buffer.count < 512) :
    (s.next (.rx w)).log = .dropped (rxJustify w) :: s.log :=
  congrArg (· :: s.log) (if_neg fun hlt => h (room_iff.mp hlt))

theorem pending_rx (h : s.phase.cut s.phy.ringTail ≤ s.phy.buffer.count)
    (hroom : s.phy.buffer.count < 512) :
    (s.next (.rx w)).pending = s.pending ++ [rxJustify w] := by
  show (s.phy.rxWord w).buffer.contents.drop (s.phase.cut (s.phy.rxWord w).ringTail) = _
  rw [contents_rxWord hroom, rxWord_tail, List.drop_append_of_le_length]
  · rfl
  · rw [Buffer.length_contents]
    exact h

/-- The interrupt takes a word. -/
theorem RxRun.inv_rx (h : s.Inv) (w : BitVec 32) : (s.next (.rx w)).Inv := by
  by_cases hroom : s.phy.buffer.count < 512
  · have hlog := log_rx_room (w := w) hroom
    have hcount := count_rxWord (w := w) hroom
    refine ⟨⟨?_, ?_, ?_, ?_⟩, ?_, ?_⟩
    · show (s.phy.rxWord w).buffer.count ≤ 512
      omega
    · rw [hlog, pending_rx h.cut hroom]
      exact h.exact.follows.add _
    · rw [hlog]
      exact empties_cons h.exact.empties fun heq => by cases heq
    · rw [hlog]
      exact given_cons h.exact.given fun got heq => by cases heq
    · show s.phase.cut (s.phy.rxWord w).ringTail ≤ (s.phy.rxWord w).buffer.count
      rw [rxWord_tail, hcount]
      exact Nat.le_succ_of_le h.cut
    · show s.phase.Sees (s.phy.rxWord w).buffer.contents
      rw [contents_rxWord hroom]
      exact h.sees.append _
  · have hlog := log_rx_full (w := w) hroom
    have hphy : (s.next (.rx w)).phy = { s.phy with rxOverrun := s.phy.rxOverrun + 1 } :=
      rxWord_full hroom
    refine ⟨⟨?_, ?_, ?_, ?_⟩, ?_, ?_⟩
    · rw [hphy]
      exact h.exact.bound
    · rw [hlog, RxRun.pending, hphy]
      exact h.exact.follows
    · rw [hlog]
      exact empties_cons h.exact.empties fun heq => by cases heq
    · rw [hlog]
      exact given_cons h.exact.given fun got heq => by cases heq
    · rw [hphy]
      exact h.cut
    · rw [hphy]
      exact h.sees

/-- The next step of a call. -/
theorem RxRun.inv_step (h : s.Inv) : s.step.Inv := by
  obtain ⟨phy, phase, log⟩ := s
  obtain ⟨⟨hbound, hfollows, hempties, hgiven⟩, hcut, hsees⟩ := h
  dsimp only at hbound hfollows hempties hgiven hcut hsees
  cases phase with
  | idle => exact ⟨⟨hbound, hfollows, hempties, hgiven⟩, hcut, hsees⟩
  | found out =>
      refine ⟨⟨hbound, hfollows, hempties, hgiven⟩, hcut, ?_⟩
      have hcons := Buffer.contents_eq_cons fun heq => hsees (Buffer.contents_eq_nil_iff.mpr heq)
      refine ⟨_, _, hcons, ?_⟩
      rw [ringIndex_eq]
      rfl
  -- the word was read before the tail moves, so it is the first of the contents
  | read out got =>
      obtain ⟨v, rest, hcontents, hgot⟩ := hsees
      have hpos : 1 ≤ phy.buffer.count := by
        rw [← Buffer.length_contents, hcontents]
        exact Nat.succ_pos _
      have hrest : (phy.buffer.skip 1).contents = rest := by
        rw [Buffer.contents_skip hpos, hcontents]
        rfl
      refine ⟨⟨?_, ?_, empties_cons hempties fun heq => (by cases heq),
        given_cons hgiven fun g heq => ?_⟩, Nat.zero_le _, trivial⟩
      · show (phy.buffer.skip 1).count ≤ 512
        rw [Buffer.count_skip hpos]
        omega
      · show Follows (poppedSince log ++ [got]) (pushedSince log) (phy.buffer.skip 1).contents
        rw [hrest]
        rw [show RxRun.pending ⟨phy, .read out got, log⟩ = v :: rest from hcontents] at hfollows
        refine hfollows.take fun x hx => ?_
        rw [hgot] at hx
        split at hx
        next => exact (Option.some_inj.mp hx).symm
        next => cases hx
      · cases heq
        rw [hgot]
        exact Option.some_ne_none v
  | cleared =>
      refine ⟨⟨hbound, ?_, empties_cons hempties fun heq => (by cases heq),
        given_cons hgiven fun g heq => (by cases heq)⟩, le_refl phy.buffer.count, trivial⟩
      show Follows [] [] (phy.buffer.contents.drop phy.buffer.count)
      rw [← Buffer.length_contents, List.drop_length]
      exact .start
  -- what the interrupt pushed meanwhile stays behind the new tail
  | cutting head =>
      have hle : (head - phy.ringTail).toNat ≤ phy.buffer.count := hcut
      have htail : phy.ringTail + BitVec.ofNat 32 (head - phy.ringTail).toNat = head := by
        rw [BitVec.ofNat_toNat, BitVec.setWidth_eq]
        exact add_sub_cancel _ _
      have hbuffer : Phy.buffer { phy with ringTail := head } =
          phy.buffer.skip (head - phy.ringTail).toNat :=
        congrArg (fun t => (⟨phy.ring, phy.ringHead, t⟩ : Buffer 32 512 Word)) htail.symm
      refine ⟨⟨?_, ?_, hempties, hgiven⟩, Nat.zero_le _, trivial⟩
      · show (Phy.buffer { phy with ringTail := head }).count ≤ 512
        rw [hbuffer, Buffer.count_skip hle]
        omega
      · show Follows (poppedSince log) (pushedSince log)
          (Phy.buffer { phy with ringTail := head }).contents
        rw [hbuffer, Buffer.contents_skip hle]
        exact hfollows

theorem next_pop (phy : Phy) (log : List RxEntry) (out : Bool) :
    RxRun.next ⟨phy, .idle, log⟩ (.pop out) =
      if phy.ringHead = phy.ringTail then ⟨phy, .idle, .empty :: log⟩
      else ⟨phy, .found out, log⟩ := rfl

/-- A pop begins. -/
theorem RxRun.inv_pop (h : s.Inv) (out : Bool) : (s.next (.pop out)).Inv := by
  obtain ⟨phy, phase, log⟩ := s
  cases phase with
  | idle =>
      obtain ⟨⟨hbound, hfollows, hempties, hgiven⟩, hcut, hsees⟩ := h
      rw [next_pop]
      split
      next heq =>
        have hnil : phy.buffer.contents = [] := Buffer.contents_eq_nil_iff.mpr heq
        refine ⟨⟨hbound, hfollows, empties_cons hempties fun _ => ?_,
          given_cons hgiven fun g he => (by cases he)⟩, hcut, hsees⟩
        rwa [show RxRun.pending ⟨phy, .idle, log⟩ = [] from hnil] at hfollows
      next hne =>
        exact ⟨⟨hbound, hfollows, hempties, hgiven⟩, hcut,
          fun hnil => hne (Buffer.contents_eq_nil_iff.mp hnil)⟩
  | found | read | cleared | cutting => exact h

/-- A flush begins. -/
theorem RxRun.inv_flush (h : s.Inv) : (s.next .flush).Inv := by
  obtain ⟨phy, phase, log⟩ := s
  cases phase with
  | idle => exact ⟨⟨h.exact.bound, h.exact.follows, h.exact.empties, h.exact.given⟩, h.cut, trivial⟩
  | found | read | cleared | cutting => exact h

theorem RxRun.inv_next (h : s.Inv) (e : RxEvent) : (s.next e).Inv := by
  cases e with
  | rx w => exact RxRun.inv_rx h w
  | pop out => exact RxRun.inv_pop h out
  | flush => exact RxRun.inv_flush h
  | step => exact RxRun.inv_step h

theorem RxRun.inv_start (p : Phy) : (RxRun.start p).Inv := by
  have hcount : p.init.buffer.count = 0 := Buffer.count_eq_zero_iff.mpr rfl
  have hnil : p.init.buffer.contents = [] := Buffer.contents_eq_nil_iff.mpr rfl
  refine ⟨⟨?_, ?_, fun newer older hlog => ?_, fun got hgot => (by cases hgot)⟩, Nat.zero_le _,
    trivial⟩
  · show p.init.buffer.count ≤ 512
    omega
  · show Follows [] [] p.init.buffer.contents
    rw [hnil]
    exact .start
  · simp [RxRun.start] at hlog

end Steps

/-! ## Calls without an interrupt -/

section Calls

variable {s : RxRun}

/-- Without an interrupt the steps of a pop are `bus_phy_rx_pop`. -/
theorem run_pop (hphase : s.phase = .idle) (out : Bool) :
    run RxRun.next s [.pop out, .step, .step] =
      { phy := (s.phy.rxPop out).2
        phase := .idle
        log := (match (s.phy.rxPop out).1 with
          | none => .empty
          | some got => .popped out got) :: s.log } := by
  obtain ⟨phy, phase, log⟩ := s
  obtain rfl := hphase
  unfold Phy.rxPop
  rw [Runs.run_cons, next_pop]
  split <;> rfl

/-- Without an interrupt the steps of a flush are `bus_phy_rx_flush`. -/
theorem run_flush (hphase : s.phase = .idle) :
    run RxRun.next s [.flush, .step, .step] =
      { phy := s.phy.rxFlush, phase := .idle, log := .flushed :: s.log } := by
  obtain ⟨phy, phase, log⟩ := s
  obtain rfl := hphase
  rfl

end Calls

/-! ## Every interleaving -/

section Interleavings

variable {s : RxRun}

end Interleavings

end SlowBus.Bus
