import SlowBus.Bus.Assembly

/-!
# Frames arrive as they were sent

What an assembler returns for the words of an encoded frame, whatever it received
before, and for a stream of frames with noise between them.
-/

namespace SlowBus.Bus

open Deframer (feedAll outputs)

variable {a : Asm} {f : Frame} {ws : List Word}

/-! ## Streams of words -/

theorem ok_run (h : a.Ok) (ws : List Word) : (a.run ws).Ok :=
  Deframer.feedAll_invariant (fun _ w ha => ok_feed ha w) h

theorem addrIsForUs_run (a : Asm) (ws : List Word) : (a.run ws).addrIsForUs = a.addrIsForUs :=
  Deframer.feedAll_invariant (P := fun a' => a'.addrIsForUs = a.addrIsForUs)
    (fun a' w ha => (addrIsForUs_feed a' w).trans ha) rfl

/-- On a stream the assembler does what a receiver of the format does. -/
theorem pending_run (h : a.Ok) (ws : List Word) :
    feedAll (busFormat a.addrIsForUs).step a.pending (ws.map Word.symbol) = (a.run ws).pending ∧
      outputs (busFormat a.addrIsForUs).step a.pending (ws.map Word.symbol) =
        (a.returns ws).map (Option.map Frame.message) := by
  apply Deframer.outputs_simulates
    (P := fun a' : Asm => a'.Ok ∧ a'.addrIsForUs = a.addrIsForUs)
  · exact fun a' w ha => ⟨ok_feed ha.1 w, (addrIsForUs_feed a' w).trans ha.2⟩
  · intro a' w ha
    rw [← ha.2]
    exact pending_feed ha.1 w
  · exact ⟨h, rfl⟩

theorem pending_eq_none : a.pending = none ↔ a.state = .idle := by
  unfold Asm.pending
  dsimp only
  split <;> simp_all

/-! ## One frame -/

/-- The bytes of a frame after its destination, up to the CRC. -/
def Frame.bytes (f : Frame) : List Byte := [f.src, f.type, f.seq, f.len] ++ f.body

theorem symbol_wordData (b : Byte) : Word.symbol (wordData b) = .data b := by
  simp [Word.symbol]

theorem symbols_encode (hdest : f.dest ≤ busAddrMask) (hlen : f.len ≤ busPayloadMax) :
    (busFrameEncode f).map Word.symbol =
      .data 0xFF :: .start f.dest :: (f.bytes ++ [busFrameCrc f]).map .data := by
  have hstart : Word.symbol (wordAddr f.dest) = .start f.dest := by
    simp [Word.symbol, byte_wordAddr hdest]
  rw [busFrameEncode_eq hlen, ← wordData_preamble]
  simp only [List.map_cons, List.map_map, symbol_wordData, hstart, Frame.bytes,
    Function.comp_def]

theorem busJudge_prefix (hlen : f.len ≤ busPayloadMax) {n : Nat} :
    busJudge f.dest (f.bytes.take n) = .more := by
  by_cases hn : n < 4
  · exact busJudge_header (by rw [List.length_take]; omega)
  · have htake : f.bytes.take n = [f.src, f.type, f.seq, f.len] ++ f.body.take (n - 4) := by
      rw [Frame.bytes, List.take_append, List.take_of_length_le (by simp; omega)]
      rfl
    rw [htake]
    exact busJudge_more hlen (by rw [List.length_take, length_body hlen]; omega)

theorem length_bytes (hlen : f.len ≤ busPayloadMax) : f.bytes.length = f.len.toNat + 4 := by
  rw [Frame.bytes, List.length_append, length_body hlen, Nat.add_comm]
  rfl

/-- The format delivers an addressed frame at its last word and skips any other. -/
theorem deliver_frame (accepts : Byte → Bool) {s : Option (Byte × List Byte)}
    (hlen : f.len ≤ busPayloadMax) :
    feedAll (busFormat accepts).step s
        (.start f.dest :: (f.bytes ++ [busFrameCrc f]).map .data) = none ∧
      outputs (busFormat accepts).step s
        (.start f.dest :: (f.bytes ++ [busFrameCrc f]).map .data) =
        List.replicate (f.len.toNat + 5) none ++
          [if accepts f.dest then some f.message else none] := by
  cases haccepts : accepts f.dest with
  | true =>
      have h := Deframer.frame_delivered (F := busFormat accepts) (s := s) haccepts
        (fun n _ _ => busJudge_prefix hlen)
        (by rw [Frame.bytes, List.append_assoc]; exact (busJudge_last hlen).trans (if_pos rfl))
      rw [length_bytes hlen] at h
      simpa using h
  | false =>
      have h := Deframer.frame_skipped (F := busFormat accepts) (s := s)
        (f.bytes ++ [busFrameCrc f]) haccepts
      rw [List.length_append, length_bytes hlen] at h
      simpa [List.replicate_succ'] using h

/-- The frame that waits for its CRC when the preamble happens to be that CRC. -/
def Asm.stale (a : Asm) : Option Frame :=
  if a.state = .crc ∧ busFrameCrc a.acc = 0xFF then some a.acc else none

theorem feed_preamble (a : Asm) : (a.feed busPreambleWord).2 = a.stale := by
  have haddr : Word.isAddr busPreambleWord = false := by decide
  have hbyte : Word.byte busPreambleWord = 0xFF := by decide
  simp only [Asm.feed, haddr, hbyte, Asm.stale, Bool.false_eq_true, if_false]
  cases a.state with
  | crc =>
      simp only [true_and]
      split <;> rfl
  | len => simp [busPayloadMax]
  | _ => simp

/-- The words of an encoded frame, fed to an assembler in any consistent state. -/
theorem returns_encode (h : a.Ok) (hdest : f.dest ≤ busAddrMask) (hlen : f.len ≤ busPayloadMax) :
    (a.run (busFrameEncode f)).pending = none ∧
      (a.returns (busFrameEncode f)).map (Option.map Frame.message) =
        a.stale.map Frame.message :: (List.replicate (f.len.toNat + 5) none ++
          [if a.addrIsForUs f.dest then some f.message else none]) := by
  have hrun := pending_run h (busFrameEncode f)
  have hpre := pending_feed h busPreambleWord
  rw [← wordData_preamble, symbol_wordData, wordData_preamble, feed_preamble] at hpre
  rw [symbols_encode hdest hlen, Deframer.feedAll_cons, Deframer.outputs_cons, hpre] at hrun
  have hframe := deliver_frame a.addrIsForUs
    (s := (a.feed busPreambleWord).1.pending) hlen
  exact ⟨hrun.1.symm.trans hframe.1, hrun.2.symm.trans (by rw [hframe.2])⟩

/-! ## Frames with noise between them -/

/-- Frames on the wire, each after some noise, and noise after the last one. -/
def busStream (bursts : List (List Word × Frame)) (trail : List Word) : List Word :=
  bursts.flatMap (fun burst => burst.1 ++ busFrameEncode burst.2) ++ trail

/-- What `bus_asm_feed` returned true for, in order. -/
def Asm.decoded (a : Asm) (ws : List Word) : List Message :=
  (a.returns ws).reduceOption.map Frame.message

def Noise (ws : List Word) : Prop := ∀ w ∈ ws, Word.isAddr w = false

theorem symbols_noise (h : Noise ws) :
    ws.map Word.symbol = (ws.map Word.byte).map .data := by
  rw [List.map_map]
  apply List.map_congr_left
  intro w hw
  simp [Word.symbol, h w hw]

theorem decoded_eq (h : a.Ok) (ws : List Word) : a.decoded ws =
    (outputs (busFormat a.addrIsForUs).step a.pending (ws.map Word.symbol)).reduceOption := by
  rw [(pending_run h ws).2, List.reduceOption_map, Asm.decoded]

/-- A burst leaves a closed receiver closed and delivers its frame if addressed. -/
theorem deliver_burst (accepts : Byte → Bool) (h : Noise ws) (hdest : f.dest ≤ busAddrMask)
    (hlen : f.len ≤ busPayloadMax) :
    feedAll (busFormat accepts).step none ((ws ++ busFrameEncode f).map Word.symbol) = none ∧
      (outputs (busFormat accepts).step none
        ((ws ++ busFrameEncode f).map Word.symbol)).reduceOption =
        if accepts f.dest then [f.message] else [] := by
  have hnoise := Deframer.closed_data (busFormat accepts) (ws.map Word.byte)
  have hframe := deliver_frame accepts (s := none) hlen
  rw [List.map_append, symbols_noise h, symbols_encode hdest hlen, Deframer.feedAll_append,
    Deframer.outputs_append, hnoise.1, hnoise.2, Deframer.feedAll_cons, Deframer.outputs_cons,
    Deframer.step_closed, hframe.1, hframe.2]
  refine ⟨rfl, ?_⟩
  rw [List.reduceOption_append, List.reduceOption_replicate_none, List.nil_append,
    List.reduceOption_cons_of_none, List.reduceOption_append, List.reduceOption_replicate_none,
    List.nil_append]
  split <;> rfl

theorem deliver_stream {accepts : Byte → Bool} {bursts : List (List Word × Frame)}
    {trail : List Word} (hbursts : ∀ burst ∈ bursts, Noise burst.1 ∧
      burst.2.dest ≤ busAddrMask ∧ burst.2.len ≤ busPayloadMax) (htrail : Noise trail) :
    (outputs (busFormat accepts).step none
      ((busStream bursts trail).map Word.symbol)).reduceOption =
      ((bursts.map Prod.snd).filter (fun f => accepts f.dest)).map Frame.message := by
  induction bursts with
  | nil =>
      have hnoise := Deframer.closed_data (busFormat accepts) (trail.map Word.byte)
      rw [busStream, List.flatMap_nil, List.nil_append, symbols_noise htrail, hnoise.2]
      exact List.reduceOption_replicate_none
  | cons burst bursts ih =>
      obtain ⟨hburst, hbursts⟩ := List.forall_mem_cons.mp hbursts
      have hfirst := deliver_burst accepts hburst.1 hburst.2.1 hburst.2.2
      have hrest := ih hbursts
      rw [busStream] at hrest ⊢
      rw [List.flatMap_cons, List.append_assoc, List.map_append, Deframer.outputs_append,
        hfirst.1, List.reduceOption_append, hfirst.2, hrest, List.map_cons, List.filter_cons]
      split <;> rfl

/-- A frame to node 5 without its payload, whose CRC is 0xFF. -/
def shortFrame : Frame := ⟨5, 0, 2, 1, 0, Vector.replicate 240 0⟩

/-- What an assembler returns for an encoded frame after any stream of words: the
frame at the last word if it is addressed, and nothing before, unless the preamble
completes a frame that waits for just that CRC. So a stream of frames with noise
between them decodes to the addressed ones, after at most one frame that was open
when it began. -/
theorem encoded_frames_returned (acc : Frame) (myAddr : Byte) (promiscuous : Bool)
    (ws : List Word) :
    let a := (Asm.init acc myAddr promiscuous).run ws
    (∀ f : Frame, f.dest ≤ busAddrMask → f.len ≤ busPayloadMax →
      (a.returns (busFrameEncode f)).map (Option.map Frame.message) =
        a.stale.map Frame.message :: (List.replicate (f.len.toNat + 5) none ++
          [if takes myAddr promiscuous f.dest then some f.message else none])) ∧
    ∀ (bursts : List (List Word × Frame)) (trail : List Word),
      (∀ burst ∈ bursts, Noise burst.1 ∧
        burst.2.dest ≤ busAddrMask ∧ burst.2.len ≤ busPayloadMax) → Noise trail →
      ∃ stale : List Message, stale.length ≤ 1 ∧ (a.state = .idle → stale = []) ∧
        a.decoded (busStream bursts trail) = stale ++
          ((bursts.map Prod.snd).filter
            (fun f => takes myAddr promiscuous f.dest)).map Frame.message := by
  intro a
  have hok : a.Ok := ok_run (ok_init acc myAddr promiscuous) ws
  have hours : a.addrIsForUs = takes myAddr promiscuous :=
    addrIsForUs_run (Asm.init acc myAddr promiscuous) ws
  constructor
  · intro f hdest hlen
    rw [(returns_encode hok hdest hlen).2, hours]
  · intro bursts trail hbursts htrail
    obtain ⟨stale, hone, hnone, heq⟩ := Deframer.resync (F := busFormat a.addrIsForUs) a.pending
      ((busStream bursts trail).map Word.symbol)
    refine ⟨stale, hone, fun hidle => hnone (pending_eq_none.mpr hidle), ?_⟩
    rw [decoded_eq hok, heq, deliver_stream hbursts htrail, hours]

/-- A frame to node 6. -/
def strangeFrame : Frame := { shortFrame with dest := 6 }

/-- A frame of two bytes to node 5. -/
def loadFrame : Frame :=
  ⟨5, 0, 2, 2, 2, ((Vector.replicate 240 0).setIfInBounds 0 0x0A).setIfInBounds 1 0xFF⟩

/-- An assembler that waits for the CRC of a frame when the next ones begin. -/
theorem encoded_frames_returned_short :
    let a := (Asm.init loadFrame 5 false).run ([0x0C3] ++ (busFrameEncode shortFrame).dropLast)
    (a.returns (busFrameEncode loadFrame)).map (Option.map Frame.message) =
        some shortFrame.message :: (List.replicate 7 none ++ [some loadFrame.message]) ∧
      a.decoded (busStream [([], strangeFrame), ([0x0AA, 0x0FF], loadFrame)] [0x055]) =
        [shortFrame.message, loadFrame.message] := by
  intro a
  obtain ⟨hframe, hstream⟩ := encoded_frames_returned loadFrame 5 false
    ([0x0C3] ++ (busFrameEncode shortFrame).dropLast)
  have hstale : a.stale.map Frame.message = some shortFrame.message := by decide +kernel
  constructor
  · have h := hframe loadFrame (by decide) (by decide)
    rw [hstale] at h
    exact h
  · obtain ⟨stale, hone, -, heq⟩ := hstream
      [([], strangeFrame), ([0x0AA, 0x0FF], loadFrame)] [0x055]
      (by simp [Noise, strangeFrame, shortFrame, loadFrame, busPayloadMax, busAddrMask,
        Word.isAddr])
      (by simp [Noise, Word.isAddr])
    -- the preamble of the first frame completes the one that waits
    have hfirst : (a.decoded (busStream [([], strangeFrame), ([0x0AA, 0x0FF], loadFrame)]
        [0x055])).head? = some shortFrame.message := by decide +kernel
    rw [heq] at hfirst ⊢
    cases stale with
    | nil => exact absurd hfirst (by decide +kernel)
    | cons m rest =>
        obtain rfl : m = shortFrame.message := Option.some.inj hfirst
        have hrest : rest.length = 0 := Nat.le_zero.mp (Nat.le_of_lt_succ hone)
        obtain rfl := List.length_eq_zero_iff.mp hrest
        decide +kernel

/-- Cut off before its CRC it is completed by the preamble of the next frame. -/
theorem not_encoded_frame_alone :
    ¬ ∀ (acc : Frame) (myAddr : Byte) (promiscuous : Bool) (ws : List Word) (f : Frame),
      f.dest ≤ busAddrMask → f.len ≤ busPayloadMax →
      (((Asm.init acc myAddr promiscuous).run ws).returns (busFrameEncode f)).map
          (Option.map Frame.message) =
        List.replicate (f.len.toNat + 6) none ++
          [if takes myAddr promiscuous f.dest then some f.message else none] := by
  intro h
  have hshort := h shortFrame 5 false ((busFrameEncode shortFrame).dropLast) shortFrame
    (by decide) (by decide)
  revert hshort
  decide +kernel

end SlowBus.Bus
