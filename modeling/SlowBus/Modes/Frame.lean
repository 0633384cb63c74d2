import SlowBus.Modes.Pulse

/-!
# A frame as the widths say

In a frame without a register write the handler replays the list that `servo_build` made:
each enabled pad is high for the ticks of its width. It writes to no other pad, so a pad
that the bench tools drive keeps its level.
-/

namespace SlowBus.Modes

open Bus (Byte)
open Runs (run)

/-! ## The list of a schedule -/

/-- The installed masks and events are those of the widths and the mask. -/
structure Servo.Scheduled (s : Servo) : Prop where
  raise : s.raise = s.buildRaise
  count : s.evtN = s.buildEvts.length
  events : ∀ i (hi : i < s.buildEvts.length), s.evt i = s.buildEvts[i]

/-- What the list of events says: the times increase, and a pad is dropped by one event if
its channel is enabled, at the ticks of its width, and by none otherwise. -/
structure Servo.Lists (s : Servo) : Prop where
  sorted : ∀ i j, i < j → j < s.evtN → (s.evt i).t < (s.evt j).t
  once : ∀ ch, s.enabled ch = true →
    ∃! i, i < s.evtN ∧ (s.evt i).clr.get (bankPad ch) = true
  time : ∀ ch i, i < s.evtN → (s.evt i).clr.get (bankPad ch) = true →
    (s.evt i).t = s.ticks ch
  only : ∀ q i, i < s.evtN → (s.evt i).clr.get q = true →
    ∃ ch, s.enabled ch = true ∧ bankPad ch = q

section List

variable {s s' : Servo} {ch : Fin 8} {q : Pin} {e : ServoEvt}

/-- Where a pad of the list comes from. -/
theorem buildEvts_from (he : e ∈ s.buildEvts) (hq : e.clr.get q = true) :
    ∃ ch, s.enabled ch = true ∧ s.ticks ch = e.t ∧ bankPad ch = q := by
  have hfold := (foldl_insertEvt s s.pulsing [] List.Pairwise.nil).2.2 e.t q
  obtain ⟨ch, hch, ht, hpad⟩ := (hfold.mp ⟨e, he, rfl, hq⟩).resolve_right (by simp)
  exact ⟨ch, mem_pulsing.mp hch, ht, hpad⟩

theorem Servo.Scheduled.lists (h : s.Scheduled) : s.Lists := by
  have hmem {i : Nat} (hi : i < s.evtN) : s.evt i ∈ s.buildEvts := by
    rw [h.events i (h.count ▸ hi)]
    exact List.getElem_mem _
  have hsorted {i j : Nat} (hij : i < j) (hj : j < s.evtN) : (s.evt i).t < (s.evt j).t := by
    have hj' : j < s.buildEvts.length := h.count ▸ hj
    rw [h.events i (hij.trans hj'), h.events j hj']
    exact List.pairwise_iff_getElem.mp (buildEvts_sorted s) i j (hij.trans hj') hj' hij
  have htime {ch : Fin 8} {i : Nat} (hi : i < s.evtN)
      (hclr : (s.evt i).clr.get (bankPad ch) = true) : (s.evt i).t = s.ticks ch := by
    obtain ⟨ch', _, ht, hpad⟩ := buildEvts_from (hmem hi) hclr
    rw [← ht, bankPad_injective hpad]
  refine ⟨fun _ _ => hsorted, fun ch hch => ?_, fun _ _ => htime, fun q i hi hclr => ?_⟩
  · obtain ⟨e, he, _, hclr⟩ := buildEvts_drops hch
    obtain ⟨i, hi, rfl⟩ := List.getElem_of_mem he
    rw [← h.events i hi] at hclr
    have hi' : i < s.evtN := h.count.symm ▸ hi
    refine ⟨i, ⟨hi', hclr⟩, fun j ⟨hj, hclr'⟩ => ?_⟩
    -- two events with the pad have the same time
    have hsame : (s.evt j).t = (s.evt i).t := (htime hj hclr').trans (htime hi' hclr).symm
    rcases Nat.lt_trichotomy j i with hlt | heq | hlt
    · exact absurd hsame (hsorted hlt hi').ne
    · exact heq
    · exact absurd hsame (hsorted hlt hj).ne'
  · obtain ⟨ch, hch, _, hpad⟩ := buildEvts_from (hmem hi) hclr
    exact ⟨ch, hch, hpad⟩

/-- The widths, the mask and the list are as they were. -/
structure Servo.SameList (s s' : Servo) : Prop extends s.SameSchedule s' where
  us : s'.us = s.us

theorem Servo.SameList.ticks (h : s.SameList s') (ch : Fin 8) : s'.ticks ch = s.ticks ch := by
  rw [Servo.ticks, h.us, Servo.ticks]

theorem Servo.SameList.buildEvts (h : s.SameList s') : s'.buildEvts = s.buildEvts := by
  have hpulsing : s'.pulsing = s.pulsing := by
    unfold Servo.pulsing
    exact List.filter_congr fun ch _ => h.enabled ch
  unfold Servo.buildEvts
  rw [hpulsing]
  simp only [h.ticks]

theorem Servo.SameList.buildRaise (h : s.SameList s') : s'.buildRaise = s.buildRaise := by
  unfold Servo.buildRaise Servo.pulsing
  simp only [h.enabled]

theorem Servo.Scheduled.congr (h : s.Scheduled) (hsame : s.SameList s') : s'.Scheduled where
  raise := by rw [hsame.raise, h.raise, hsame.buildRaise]
  count := by rw [hsame.evtN, h.count, hsame.buildEvts]
  events := by
    rw [hsame.buildEvts, hsame.evt]
    exact h.events

theorem Servo.SameList.trans {s'' : Servo} (h : s.SameList s') (h' : s'.SameList s'') :
    s.SameList s'' where
  declared := h'.declared.trans h.declared
  enable := h'.enable.trans h.enable
  raise := h'.raise.trans h.raise
  evt := h'.evt.trans h.evt
  evtN := h'.evtN.trans h.evtN
  us := h'.us.trans h.us

end List

/-! ## In servo mode -/

/-- A pad that drives a level. -/
def Pad.Drives (pad : Pad) (level : Bool) : Prop :=
  pad.dir = true ∧ pad.out = level ∧ pad.pmuxen = false

section Steps

variable {c c' : Chip} {e : PulseEvent} {ch : Fin 8}

end Steps

/-! ## One frame -/

/-- A frame that opens at the next tick, up to the events `es` of it: no register is
written and the servos run. -/
structure Chip.Frame (c : Chip) (es : List PulseEvent) : Prop where
  opens : c.servo.tc.count + 1 = servoFrameTicks
  quiet : ∀ reg val, PulseEvent.write reg val ∉ es
  runs : c.servo.run = true ∧
    ∀ soFar, soFar <+: es → (run Chip.pulse c (.clock :: soFar)).servo.run = true
  within : es.countP PulseEvent.isClock < servoFrameTicks

/-- The pads that the first `n` events of the list drop. -/
def Servo.dropped (s : Servo) (n : Nat) (q : Pin) : Bool :=
  (List.range n).any fun i => (s.evt i).clr.get q

section Frame

variable {c c' : Chip} {e : PulseEvent} {ch : Fin 8} {q : Pin} {s : Servo} {n : Nat}
  {es : List PulseEvent}

theorem Servo.Scheduled.pos (h : s.Scheduled) {i : Nat} (hi : i < s.evtN) : 0 < (s.evt i).t := by
  have hi' : i < s.buildEvts.length := h.count ▸ hi
  obtain ⟨ch, _, ht⟩ := buildEvts_times s (List.getElem_mem hi')
  rw [h.events i hi', ← ht]
  exact (ticks_range s ch).1

/-- The counter after a tick that is still in the frame. -/
structure Counted (c' c₁ : Chip) : Prop where
  list : c'.servo.SameList c₁.servo
  running : c₁.servo.tc.running = c'.servo.tc.running
  idx : c₁.servo.evtIdx = c'.servo.evtIdx
  mc1 : c₁.servo.tc.mc1 = c'.servo.tc.mc1
  cc1 : c₁.servo.tc.cc1 = c'.servo.tc.cc1
  port : c₁.port = c'.port

end Frame

end SlowBus.Modes
