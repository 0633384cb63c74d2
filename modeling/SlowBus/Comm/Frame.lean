import SlowBus.Bus.Frame
import SlowBus.Lib.RingBuffer
import SlowBus.Lib.Stuffing

/-!
# Frames of the host link

The encoder of `libcomm/frame.c`. A header, a payload and their CRC are put between two END bytes,
escaped, and written byte by byte into a ring; when the ring has no room for a byte the head is set
back to where it was.
-/

namespace SlowBus.Comm

open Bus (Byte)
open RingBuffer (Buffer place)
open Stuffing (Code)

def frameEnd : Byte := 0xC0
def frameEsc : Byte := 0xDB
def frameEscEnd : Byte := 0xDC
def frameEscEsc : Byte := 0xDD

def commPayloadMax : Byte := 128

/-- `FRAME_BUFFER_MAX` -/
def frameBufferMax : Nat := 7 + 128 + 1

/-- The escaping as a code. -/
def frameCode : Code Byte where
  mark := frameEnd
  esc := frameEsc
  markCode := frameEscEnd
  escCode := frameEscEsc
  mark_ne_esc := by decide
  mark_ne_markCode := by decide
  mark_ne_escCode := by decide
  markCode_ne_escCode := by decide

def crc8AutosarUpdate (crc byte : Byte) : Byte := Nat.iterate Bus.crc8Shift 8 (crc ^^^ byte)

def crc8Autosar (data : List Byte) : Byte := data.foldl crc8AutosarUpdate 0xFF ^^^ 0xFF

/-! ## The ring -/

/-- `frame_ring_t` of `2 ^ k` bytes. -/
abbrev FrameRing (k : Nat) := Buffer 32 (2 ^ k) Byte

variable {k : Nat}

/-- `mask` -/
def ringMask (k : Nat) : BitVec 32 := .ofNat 32 (2 ^ k) - 1

theorem two_pow_dvd (hk : k < 32) : 2 ^ k ∣ 2 ^ 32 := Nat.pow_dvd_pow 2 hk.le

theorem two_pow_lt (hk : k < 32) : 2 ^ k < 2 ^ 32 := Nat.pow_lt_pow_right Nat.one_lt_two hk

theorem toNat_ringMask (hk : k < 32) : (ringMask k).toNat = 2 ^ k - 1 := by
  have hpos := Nat.two_pow_pos k
  have hlt := two_pow_lt hk
  have hone : (1 : BitVec 32).toNat = 1 := rfl
  rw [ringMask, BitVec.toNat_sub, BitVec.toNat_ofNat, hone]
  omega

/-- The element of `buf` at a counter. -/
def ringIndex (k : Nat) (i : BitVec 32) : Fin (2 ^ k) :=
  ⟨(i &&& ringMask k).toNat, by
    have hmask : (ringMask k).toNat < 2 ^ k := by
      rcases Nat.lt_or_ge k 32 with hk | hk
      · exact (toNat_ringMask hk).trans_lt (Nat.sub_lt (Nat.two_pow_pos k) Nat.one_pos)
      · exact (ringMask k).isLt.trans_le (Nat.pow_le_pow_right Nat.two_pos hk)
    rw [BitVec.toNat_and]
    exact Nat.lt_of_le_of_lt Nat.and_le_right hmask⟩

/-- `frame_ring_init`; the bytes stay. -/
def frameRingInit (r : FrameRing k) : FrameRing k := { r with head := 0, tail := 0 }

def frameRingUsed (r : FrameRing k) : BitVec 32 := r.head - r.tail

def frameRingFree (r : FrameRing k) : BitVec 32 := ringMask k + 1 - frameRingUsed r

def ringWriteByteUnchecked (r : FrameRing k) (b : Byte) : FrameRing k :=
  { r with slot := Function.update r.slot (ringIndex k r.head) b, head := r.head + 1 }

/-- `frame_ring_read_drain`, with the bytes that it copies. -/
def frameRingReadDrain (r : FrameRing k) (max : BitVec 32) : FrameRing k × List Byte :=
  let avail := frameRingUsed r
  let n := if avail < max then avail else max
  ({ r with tail := r.tail + n },
    (List.range n.toNat).map fun i => r.slot (ringIndex k (r.tail + .ofNat 32 i)))

/-! ## The encoder -/

/-- `frame_meta_t` -/
structure FrameMeta where
  addr : Byte
  cmd : BitVec 16
  seq : Byte
  ackSeq : Byte := 0
  ackStatus : Byte := 0
  payloadLen : Byte
  deriving DecidableEq, Repr

/-- `frame_dir_t` -/
inductive FrameDir where
  | m2s
  | s2m
  deriving DecidableEq, Repr

/-- `hdr_len` -/
def FrameDir.hdrLen : FrameDir → Nat
  | .m2s => 5
  | .s2m => 7

/-- `hdr` -/
def FrameMeta.hdr (m : FrameMeta) : FrameDir → List Byte
  | .m2s => [m.addr, m.cmd.setWidth 8, (m.cmd >>> 8).setWidth 8, m.seq, m.payloadLen]
  | .s2m =>
      [m.addr, m.cmd.setWidth 8, (m.cmd >>> 8).setWidth 8, m.seq, m.ackSeq, m.ackStatus,
        m.payloadLen]

/-- `slip_emit_byte`; an error carries the ring as it is then. -/
def slipEmitByte (r : FrameRing k) (b : Byte) : Except (FrameRing k) (FrameRing k) :=
  if b = frameEnd then
    if frameRingFree r < 2 then .error r
    else .ok (ringWriteByteUnchecked (ringWriteByteUnchecked r frameEsc) frameEscEnd)
  else if b = frameEsc then
    if frameRingFree r < 2 then .error r
    else .ok (ringWriteByteUnchecked (ringWriteByteUnchecked r frameEsc) frameEscEsc)
  else if frameRingFree r < 1 then .error r
  else .ok (ringWriteByteUnchecked r b)

/-- The leading or the trailing END. -/
def emitEnd (r : FrameRing k) : Except (FrameRing k) (FrameRing k) :=
  if frameRingFree r < 1 then .error r else .ok (ringWriteByteUnchecked r frameEnd)

/-- What `frame_encode_common` writes, up to where it first fails. -/
def emitFrame (dir : FrameDir) (m : FrameMeta) (payload : List Byte) (r : FrameRing k) :
    Except (FrameRing k) (FrameRing k) := do
  let crc := payload.foldl crc8AutosarUpdate ((m.hdr dir).foldl crc8AutosarUpdate 0xFF) ^^^ 0xFF
  let r ← emitEnd r
  let r ← (m.hdr dir).foldlM slipEmitByte r
  let r ← payload.foldlM slipEmitByte r
  let r ← slipEmitByte r crc
  emitEnd r

/-- `frame_encode_common`, and whether it returns 0. -/
def frameEncodeCommon (m : FrameMeta) (payload : List Byte) (ring : FrameRing k) (dir : FrameDir) :
    FrameRing k × Bool :=
  if m.payloadLen > commPayloadMax then (ring, false)
  else
    match emitFrame dir m (payload.take m.payloadLen.toNat) ring with
    | .ok r => (r, true)
    | .error r => ({ r with head := ring.head }, false)

/-- `frame_encode_m2s` -/
def frameEncodeM2s (m : FrameMeta) (payload : List Byte) (ring : FrameRing k) :
    FrameRing k × Bool := frameEncodeCommon m payload ring .m2s

/-- `frame_encode_s2m` -/
def frameEncodeS2m (m : FrameMeta) (payload : List Byte) (ring : FrameRing k) :
    FrameRing k × Bool := frameEncodeCommon m payload ring .s2m

/-! ## What a frame is on the wire -/

/-- The header and the payload, and the CRC over both. -/
def signed (dir : FrameDir) (m : FrameMeta) (payload : List Byte) : List Byte :=
  m.hdr dir ++ payload ++ [crc8Autosar (m.hdr dir ++ payload)]

def wire (dir : FrameDir) (m : FrameMeta) (payload : List Byte) : List Byte :=
  frameEnd :: ((signed dir m payload).flatMap frameCode.stuff ++ [frameEnd])

@[simp] theorem length_hdr (m : FrameMeta) (dir : FrameDir) : (m.hdr dir).length = dir.hdrLen := by
  cases dir <;> rfl

@[simp] theorem length_signed (dir : FrameDir) (m : FrameMeta) (payload : List Byte) :
    (signed dir m payload).length = dir.hdrLen + payload.length + 1 := by
  simp [signed]
  omega

theorem crc8Autosar_append (xs ys : List Byte) :
    crc8Autosar (xs ++ ys) =
      ys.foldl crc8AutosarUpdate (xs.foldl crc8AutosarUpdate 0xFF) ^^^ 0xFF := by
  rw [crc8Autosar, List.foldl_append]

/-! ## The ring as a queue -/

variable {r : FrameRing k} {b : Byte}

theorem ringIndex_eq (hk : k < 32) (i : BitVec 32) : ringIndex k i = place (2 ^ k) i := by
  refine Fin.ext ?_
  show (i &&& ringMask k).toNat = i.toNat % 2 ^ k
  rw [BitVec.toNat_and, toNat_ringMask hk, Nat.and_two_pow_sub_one_eq_mod]

theorem ringWriteByteUnchecked_eq (hk : k < 32) (r : FrameRing k) (b : Byte) :
    ringWriteByteUnchecked r b = r.push b := by
  rw [ringWriteByteUnchecked, ringIndex_eq hk]
  rfl

theorem frameRingFree_lt_iff (hk : k < 32) (hr : r.count ≤ 2 ^ k) {n : Nat} (hn : n < 2 ^ 32) :
    frameRingFree r < .ofNat 32 n ↔ 2 ^ k < r.count + n := by
  have hlt := two_pow_lt hk
  have hpos := Nat.two_pow_pos k
  have hsize : ringMask k + 1 = .ofNat 32 (2 ^ k) := by
    rw [ringMask]
    exact sub_add_cancel _ _
  have hused : (frameRingUsed r).toNat = r.count := rfl
  have hle : frameRingUsed r ≤ .ofNat 32 (2 ^ k) := by
    rw [BitVec.le_def, hused, BitVec.toNat_ofNat, Nat.mod_eq_of_lt hlt]
    exact hr
  rw [frameRingFree, hsize, BitVec.lt_def, BitVec.toNat_sub_of_le hle, hused, BitVec.toNat_ofNat,
    BitVec.toNat_ofNat, Nat.mod_eq_of_lt hlt, Nat.mod_eq_of_lt hn]
  omega

/-- A drain takes the oldest bytes, as many as are asked for and there. -/
theorem frameRingReadDrain_eq (hk : k < 32) (r : FrameRing k) (max : BitVec 32) :
    (frameRingReadDrain r max).2 = r.contents.take max.toNat ∧
      (frameRingReadDrain r max).1.contents = r.contents.drop max.toNat ∧
      (frameRingReadDrain r max).1.count ≤ r.count := by
  let n : BitVec 32 := if frameRingUsed r < max then frameRingUsed r else max
  have hn : n.toNat = min max.toNat r.count := by
    show (if frameRingUsed r < max then frameRingUsed r else max).toNat = _
    have hused : (frameRingUsed r).toNat = r.count := rfl
    split
    next hlt =>
      rw [BitVec.lt_def] at hlt
      omega
    next hge =>
      rw [BitVec.lt_def] at hge
      omega
  have hle : n.toNat ≤ r.count := hn.trans_le (Nat.min_le_right ..)
  have hring : (frameRingReadDrain r max).1 = r.skip n.toNat := by
    show { r with tail := r.tail + n } = _
    rw [Buffer.skip, BitVec.ofNat_toNat, BitVec.setWidth_eq]
  refine ⟨?_, ?_, ?_⟩
  · show (List.range n.toNat).map _ = _
    rw [show r.contents.take max.toNat = r.contents.take n.toNat by
      rw [hn, ← r.length_contents, ← List.take_eq_take_min]]
    rw [Buffer.contents, ← List.map_take, List.take_range, min_eq_left hle]
    simp only [ringIndex_eq hk]
  · rw [hring, Buffer.contents_skip hle, hn, ← r.length_contents, ← List.drop_eq_drop_min]
  · rw [hring, Buffer.count_skip hle]
    exact Nat.sub_le ..

/-! ## All of a frame or nothing -/

theorem emitEnd_eq (hk : k < 32) (hr : r.count ≤ 2 ^ k) : emitEnd r = r.offer [frameEnd] := by
  rw [emitEnd, Buffer.offer, ringWriteByteUnchecked_eq hk]
  by_cases hfree : frameRingFree r < 1
  · have hfull := (frameRingFree_lt_iff (n := 1) hk hr (by decide)).mp hfree
    rw [if_pos hfree, if_neg (by simpa using hfull)]
  · have hroom := fun h => hfree ((frameRingFree_lt_iff (n := 1) hk hr (by decide)).mpr h)
    rw [if_neg hfree, if_pos (by simpa using hroom)]
    rfl

/-- A byte is escaped and written if there is room for what it becomes. -/
theorem slipEmitByte_eq (hk : k < 32) (hr : r.count ≤ 2 ^ k) (b : Byte) :
    slipEmitByte r b = r.offer (frameCode.stuff b) := by
  have hone := frameRingFree_lt_iff (n := 1) hk hr (by decide)
  have htwo := frameRingFree_lt_iff (n := 2) hk hr (by decide)
  unfold slipEmitByte
  simp only [ringWriteByteUnchecked_eq hk]
  split
  next hend =>
    subst hend
    rw [show frameEnd = frameCode.mark from rfl, Stuffing.stuff_mark, Buffer.offer]
    by_cases hfree : frameRingFree r < 2
    · rw [if_pos hfree, if_neg (by simpa using htwo.mp hfree)]
    · rw [if_neg hfree, if_pos (by simpa using fun h => hfree (htwo.mpr h))]
      rfl
  next hend =>
    split
    next hesc =>
      subst hesc
      rw [show frameEsc = frameCode.esc from rfl, Stuffing.stuff_esc, Buffer.offer]
      by_cases hfree : frameRingFree r < 2
      · rw [if_pos hfree, if_neg (by simpa using htwo.mp hfree)]
      · rw [if_neg hfree, if_pos (by simpa using fun h => hfree (htwo.mpr h))]
        rfl
    next hesc =>
      rw [Stuffing.stuff_plain (c := frameCode) hend hesc, Buffer.offer]
      by_cases hfree : frameRingFree r < 1
      · rw [if_pos hfree, if_neg (by simpa using hone.mp hfree)]
      · rw [if_neg hfree, if_pos (by simpa using fun h => hfree (hone.mpr h))]
        rfl

/-- From a ring that is not overfull on, a part of the encoder offers these pieces. -/
def Emits (f : FrameRing k → Except (FrameRing k) (FrameRing k)) (pieces : List (List Byte)) :
    Prop :=
  ∀ r : FrameRing k, r.count ≤ 2 ^ k → f r = pieces.foldlM Buffer.offer r

variable {f g : FrameRing k → Except (FrameRing k) (FrameRing k)} {pieces later : List (List Byte)}

theorem Emits.count_le (hk : k < 32) (h : Emits f pieces) (hr : r.count ≤ 2 ^ k)
    {r' : FrameRing k} (hf : f r = .ok r') : r'.count ≤ 2 ^ k := by
  obtain ⟨part, -, heq⟩ :=
    @Buffer.offerAll_eq _ _ _ r _ (two_pow_dvd hk) (two_pow_lt hk) pieces hr
  rw [h r hr, heq] at hf
  split at hf
  next hroom =>
    cases hf
    exact (Buffer.count_pushAll (two_pow_dvd hk) (two_pow_lt hk) hroom).trans_le hroom
  next => cases hf

theorem Emits.bind (hk : k < 32) (hf : Emits f pieces) (hg : Emits g later) :
    Emits (fun r => f r >>= g) (pieces ++ later) := by
  intro r hr
  rw [List.foldlM_append, ← hf r hr]
  show f r >>= g = f r >>= fun r' => later.foldlM Buffer.offer r'
  cases hfr : f r with
  | error r' => rfl
  | ok r' => exact hg r' (hf.count_le hk hr hfr)

theorem emits_end (hk : k < 32) : Emits (k := k) emitEnd [[frameEnd]] := by
  intro r hr
  rw [emitEnd_eq hk hr, List.foldlM_cons]
  cases r.offer [frameEnd] <;> rfl

theorem emits_byte (hk : k < 32) (b : Byte) :
    Emits (k := k) (slipEmitByte · b) [frameCode.stuff b] := by
  intro r hr
  show slipEmitByte r b = _
  rw [slipEmitByte_eq hk hr, List.foldlM_cons]
  cases r.offer (frameCode.stuff b) <;> rfl

theorem emits_bytes (hk : k < 32) (bs : List Byte) :
    Emits (k := k) (bs.foldlM slipEmitByte ·) (bs.map frameCode.stuff) := by
  induction bs with
  | nil => exact fun r _ => rfl
  | cons b bs ih =>
      intro r hr
      show (b :: bs).foldlM slipEmitByte r = _
      rw [List.foldlM_cons]
      exact (emits_byte hk b).bind hk ih r hr

/-- What the encoder offers. -/
def framePieces (dir : FrameDir) (m : FrameMeta) (payload : List Byte) : List (List Byte) :=
  [[frameEnd]] ++ ((m.hdr dir).map frameCode.stuff ++ (payload.map frameCode.stuff ++
    ([frameCode.stuff (crc8Autosar (m.hdr dir ++ payload))] ++ [[frameEnd]])))

theorem flatten_framePieces (dir : FrameDir) (m : FrameMeta) (payload : List Byte) :
    (framePieces dir m payload).flatten = wire dir m payload := by
  simp [framePieces, wire, signed, List.flatMap]

theorem emits_frame (hk : k < 32) (dir : FrameDir) (m : FrameMeta) (payload : List Byte) :
    Emits (k := k) (emitFrame dir m payload) (framePieces dir m payload) := by
  unfold emitFrame
  simp only [← crc8Autosar_append]
  exact (emits_end hk).bind hk ((emits_bytes hk (m.hdr dir)).bind hk
    ((emits_bytes hk payload).bind hk
      ((emits_byte hk (crc8Autosar (m.hdr dir ++ payload))).bind hk (emits_end hk))))

/-- The encoder writes the frame when the payload is not too long and the ring has room for all of
it, and leaves the ring as it is otherwise. -/
theorem frameEncodeCommon_spec (hk : k < 32) (hr : r.count ≤ 2 ^ k) (m : FrameMeta)
    (payload : List Byte) (dir : FrameDir) :
    let body := payload.take m.payloadLen.toNat
    ((frameEncodeCommon m payload r dir).2 = true ↔
        m.payloadLen ≤ commPayloadMax ∧ r.count + (wire dir m body).length ≤ 2 ^ k) ∧
      (frameEncodeCommon m payload r dir).1.contents =
        r.contents ++ (if (frameEncodeCommon m payload r dir).2 then wire dir m body else []) ∧
      (frameEncodeCommon m payload r dir).1.count ≤ 2 ^ k := by
  intro body
  have hdvd := two_pow_dvd hk
  have hlt := two_pow_lt hk
  by_cases hlong : m.payloadLen > commPayloadMax
  · rw [frameEncodeCommon, if_pos hlong]
    exact ⟨⟨Bool.noConfusion, fun h => absurd h.1 (BitVec.not_le.mpr hlong)⟩,
      (List.append_nil _).symm, hr⟩
  have hle : m.payloadLen ≤ commPayloadMax := BitVec.not_lt.mp hlong
  obtain ⟨part, hpart, heq⟩ := @Buffer.offerAll_eq _ _ _ r _ hdvd hlt (framePieces dir m body) hr
  rw [flatten_framePieces] at heq
  rw [frameEncodeCommon, if_neg hlong, emits_frame hk dir m body r hr, heq]
  by_cases hroom : r.count + (wire dir m body).length ≤ 2 ^ k
  · rw [if_pos hroom]
    exact ⟨iff_of_true rfl ⟨hle, hroom⟩, Buffer.contents_pushAll hdvd hlt hroom,
      (Buffer.count_pushAll hdvd hlt hroom).trans_le hroom⟩
  · rw [if_neg hroom]
    have hback := Buffer.contents_giveUp hdvd hlt hpart
    refine ⟨iff_of_false Bool.noConfusion fun h => hroom h.2, ?_, ?_⟩
    · exact hback.trans (List.append_nil _).symm
    · show Buffer.count { r.pushAll part with head := r.head } ≤ 2 ^ k
      rw [← Buffer.length_contents, hback, Buffer.length_contents]
      exact hr

end SlowBus.Comm
