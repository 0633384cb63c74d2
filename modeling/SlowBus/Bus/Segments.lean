import SlowBus.Bus.Transport

/-!
# Every returned frame was on the wire

On an arbitrary stream of words each frame the assembler returns is spelled by a
segment of the stream, and no two frames share a word. The payload cursor stays in
the buffer, and the two counters account for every CRC that was compared.
-/

namespace SlowBus.Bus

variable {a : Asm} {f : Frame} {ws : List Word} {w : Word}

/-- The words of a frame: an address word for an accepted destination, then only
data words with the header, as many payload bytes as it announces, and the CRC. -/
structure Frame.SpelledBy (accepts : Byte → Bool) (f : Frame) (seg : List Word) : Prop where
  words : ∃ addr data, seg = addr :: data ∧ Word.isAddr addr = true ∧
    Word.byte addr = f.dest ∧ (∀ w ∈ data, Word.isAddr w = false) ∧
    data.map Word.byte = [f.src, f.type, f.seq, f.len] ++ f.body ++ [busFrameCrc f]
  accepted : accepts f.dest = true
  room : f.len ≤ busPayloadMax

/-- What the format delivers was judged to its last byte. -/
theorem busJudge_deliver {dest : Byte} {bs : List Byte} {m : Message}
    (h : busJudge dest bs = .deliver m) :
    m.dest = dest ∧ m.len ≤ busPayloadMax ∧
      bs = [m.src, m.type, m.seq, m.len] ++ m.payload ++ [m.crc] := by
  match bs, h with
  | src :: type :: seq :: len :: rest, h =>
      simp only [busJudge] at h
      split at h
      next => cases h
      next hlong =>
        split at h
        next => cases h
        next =>
          split at h
          next hcrc =>
            cases h
            refine ⟨rfl, BitVec.not_lt.mp hlong, ?_⟩
            rw [List.append_assoc, ← hcrc, List.take_append_drop]
            rfl
          next => cases h

theorem symbol_eq_start {d : Byte} (h : Word.symbol w = .start d) :
    Word.isAddr w = true ∧ Word.byte w = d := by
  unfold Word.symbol at h
  split at h
  next haddr =>
    cases h
    exact ⟨haddr, rfl⟩
  next => cases h

theorem symbols_eq_data {bs : List Byte} (h : ws.map Word.symbol = bs.map .data) :
    (∀ w ∈ ws, Word.isAddr w = false) ∧ ws.map Word.byte = bs := by
  induction ws generalizing bs with
  | nil => cases bs <;> simp_all
  | cons w ws ih =>
      match bs, h with
      | b :: bs, h =>
          rw [List.map_cons, List.map_cons, List.cons.injEq] at h
          have htail := ih h.2
          have hw := h.1
          unfold Word.symbol at hw
          split at hw
          next => cases hw
          next hdata =>
            cases hw
            exact ⟨List.forall_mem_cons.mpr ⟨by simpa using hdata, htail.1⟩,
              by rw [List.map_cons, htail.2]⟩

theorem spelledBy_of_spells {accepts : Byte → Bool}
    (h : (busFormat accepts).Spells f.message (ws.map Word.symbol)) :
    f.SpelledBy accepts ws := by
  obtain ⟨dest, bs, hsymbols, haccepts, hjudge⟩ := h
  obtain ⟨hdest, hroom, hbytes⟩ := busJudge_deliver hjudge
  obtain ⟨addr, data, rfl, haddr, hdata⟩ := List.map_eq_cons_iff.mp hsymbols
  obtain ⟨haddr, hbyte⟩ := symbol_eq_start haddr
  obtain ⟨hdata, hmap⟩ := symbols_eq_data hdata
  rw [crc_message] at hbytes
  refine ⟨⟨addr, data, rfl, haddr, hbyte.trans hdest.symm, hdata, hmap.trans hbytes⟩, ?_, hroom⟩
  rw [show f.dest = dest from hdest]
  exact haccepts

/-! ## The counters -/

/-- A data word taken where the CRC is due. -/
def Asm.consumesCrc (a : Asm) (w : Word) : Bool := a.state = .crc && !Word.isAddr w

/-- The CRC words consumed from a stream. -/
def Asm.crcWords : Asm → List Word → Nat
  | _, [] => 0
  | a, w :: ws => (a.consumesCrc w).toNat + Asm.crcWords (a.feed w).1 ws

theorem counters_feed (a : Asm) (w : Word) :
    (a.feed w).1.framesOk + (a.feed w).1.crcFail =
      a.framesOk + a.crcFail + BitVec.ofNat 32 (a.consumesCrc w).toNat := by
  unfold Asm.feed Asm.consumesCrc
  dsimp only
  split
  next haddr =>
    simp only [haddr, Bool.not_true, Bool.and_false, Bool.toNat_false]
    split <;> simp
  next haddr =>
    cases hstate : a.state with
    | crc =>
        simp only [haddr, decide_true, Bool.not_false, Bool.and_true, Bool.toNat_true]
        split
        next =>
          rw [BitVec.add_assoc, BitVec.add_comm 1, ← BitVec.add_assoc]
          rfl
        next => exact (BitVec.add_assoc ..).symm
    | len =>
        simp only [reduceCtorEq, decide_false, Bool.false_and, Bool.toNat_false]
        split <;> simp
    | _ => simp

theorem counters_run (a : Asm) (ws : List Word) :
    (a.run ws).framesOk + (a.run ws).crcFail =
      a.framesOk + a.crcFail + BitVec.ofNat 32 (a.crcWords ws) := by
  induction ws generalizing a with
  | nil => simp [Asm.run, Asm.crcWords]
  | cons w ws ih =>
      have hrun : a.run (w :: ws) = (a.feed w).1.run ws := rfl
      rw [hrun, ih, counters_feed, Asm.crcWords, BitVec.ofNat_add, BitVec.add_assoc]

/-- On every stream the frames returned are spelled by disjoint segments of it,
each returned at the last word of its segment; the payload cursor is within the
buffer whenever a payload byte is due; and the counters add up, modulo their
width, to the number of CRC words consumed. -/
theorem returned_frames_spelled (acc : Frame) (myAddr : Byte) (promiscuous : Bool)
    (ws : List Word) :
    let a := Asm.init acc myAddr promiscuous
    (∃ catches rest, Deframer.Cut (Frame.SpelledBy (takes myAddr promiscuous)) ws (a.returns ws)
      catches rest) ∧
    (∀ us, us <+: ws → (a.run us).state = .payload → (a.run us).idx.toNat < 240) ∧
    (a.run ws).framesOk + (a.run ws).crcFail = BitVec.ofNat 32 (a.crcWords ws) := by
  intro a
  have hok : a.Ok := ok_init acc myAddr promiscuous
  refine ⟨?_, fun us _ hstate => (ok_run hok us).cursor_lt hstate, ?_⟩
  · obtain ⟨catches, rest, cut⟩ := Deframer.sound (F := busFormat a.addrIsForUs)
      (P := fun a' : Asm => a'.Ok ∧ a'.addrIsForUs = a.addrIsForUs)
      (fun a' w ha => ⟨ok_feed ha.1 w, (addrIsForUs_feed a' w).trans ha.2⟩)
      (fun a' w ha => by rw [← ha.2]; exact pending_feed ha.1 w) ⟨hok, rfl⟩ rfl ws
    exact ⟨catches, rest, cut.stream, cut.outs, fun c hc => spelledBy_of_spells (cut.spelled c hc)⟩
  · have hcount := counters_run a ws
    have hzero : a.framesOk + a.crcFail = 0#32 := rfl
    rwa [hzero, BitVec.zero_add] at hcount

end SlowBus.Bus
