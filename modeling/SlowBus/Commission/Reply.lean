import SlowBus.Comm.Decoder

/-!
# What the tools read

The commissioning tools take the frames of a chip apart: `libcomm.py` unescapes a body first and
parses it then, `libcomm.lua` checks a body where it ends.
-/

namespace SlowBus.Commission

open Bus (Byte)
open Comm (FrameMeta frameCode frameEnd frameEsc)

/-- The errors of `parse_s2m`. -/
inductive ParseError where
  /-- "s2m frame too short: %d bytes" -/
  | tooShort (len : Nat)
  /-- "CRC mismatch: got 0x%02X expected 0x%02X" -/
  | crcMismatch (got expected : Byte)
  deriving DecidableEq, Repr

/-- What `parse_s2m` returns. -/
structure S2m where
  addr : Nat
  cmd : Nat
  seq : Nat
  ackSeq : Nat
  ackStatus : Nat
  payload : List Byte
  deriving DecidableEq, Repr

def s2mHeaderLen : Nat := 7

/-- `parse_s2m` -/
def parseS2m (body : List Byte) : Except ParseError S2m :=
  if body.length < s2mHeaderLen + 1 then .error (.tooShort body.length)
  else
    let crcRx := body.getD (body.length - 1) 0
    let hdrPl := body.take (body.length - 1)
    let crcCalc := crc8Autosar hdrPl
    if crcRx ≠ crcCalc then .error (.crcMismatch crcRx crcCalc)
    else
      let at' (i : Nat) : Nat := (hdrPl.getD i 0).toNat
      .ok
        { addr := at' 0
          cmd := at' 1 ||| at' 2 <<< 8
          seq := at' 3
          ackSeq := at' 4
          ackStatus := at' 5
          payload := (hdrPl.drop s2mHeaderLen).take (at' 6) }

/-- A body that cannot be parsed is passed over. -/
def parsed (body : List Byte) : Option S2m := (parseS2m body).toOption

/-- What `on_frame` of `libcomm.lua` is called with. -/
structure LuaFrame where
  cmd : Nat
  seq : Nat
  payload : List Byte
  deriving DecidableEq, Repr

/-- `make_decoder` -/
structure LuaDecoder where
  inFrame : Bool := false
  escaped : Bool := false
  buf : List Byte := []
  deriving DecidableEq, Repr

/-- What the Lua decoder makes of a body at an END byte. -/
def luaBody (f : List Byte) : Option LuaFrame :=
  if f.length ≥ 8 then
    let len := (f.getD 6 0).toNat
    if f.length = 7 + len + 1 ∧ crc8Autosar (f.take (f.length - 1)) = f.getD (f.length - 1) 0 then
      some
        { cmd := (f.getD 1 0).toNat ||| (f.getD 2 0).toNat <<< 8
          seq := (f.getD 3 0).toNat
          payload := (f.drop 7).take len }
    else none
  else none

/-- `decoder_feed`, with the frame that `on_frame` is called for. -/
def LuaDecoder.feed (dec : LuaDecoder) (b : Byte) : LuaDecoder × Option LuaFrame :=
  if b = slipEnd then
    ({ inFrame := true }, if dec.inFrame then luaBody dec.buf else none)
  else if !dec.inFrame then (dec, none)
  else if dec.escaped then
    let raw := if b = slipEscEnd then slipEnd else if b = slipEscEsc then slipEsc else b
    ({ dec with buf := dec.buf ++ [raw], escaped := false }, none)
  else if b = slipEsc then ({ dec with escaped := true }, none)
  else ({ dec with buf := dec.buf ++ [b] }, none)

/-- The frames of a stream. -/
def LuaDecoder.frames (dec : LuaDecoder) (data : List Byte) : List LuaFrame :=
  (Deframer.outputs LuaDecoder.feed dec data).reduceOption

/-! ## Frames of a chip -/

/-- The frame as the Python tool has it. -/
def told (m : FrameMeta) (payload : List Byte) : S2m where
  addr := m.addr.toNat
  cmd := m.cmd.toNat
  seq := m.seq.toNat
  ackSeq := m.ackSeq.toNat
  ackStatus := m.ackStatus.toNat
  payload

/-- The frame as the Lua tool has it. -/
def toldLua (m : FrameMeta) (payload : List Byte) : LuaFrame := ⟨m.cmd.toNat, m.seq.toNat, payload⟩

variable {m : FrameMeta} {payload : List Byte}

theorem toNat_cmd (cmd : BitVec 16) :
    (cmd.setWidth 8).toNat ||| ((cmd >>> 8).setWidth 8).toNat <<< 8 = cmd.toNat := by
  have hwide (b : Byte) : (b.setWidth 16).toNat = b.toNat :=
    BitVec.toNat_setWidth_of_le (by decide)
  have hhi := ((cmd >>> 8).setWidth 8).isLt
  have h := congrArg BitVec.toNat (Comm.cmd_bytes cmd)
  rw [BitVec.toNat_or, BitVec.toNat_shiftLeft, hwide, hwide, Nat.mod_eq_of_lt] at h
  · exact h
  · rw [Nat.shiftLeft_eq]
    omega

/-- The body of a frame without its last byte, and that byte. -/
theorem signed_parts (m : FrameMeta) (payload : List Byte) :
    (Comm.signed .s2m m payload).take ((Comm.signed .s2m m payload).length - 1) =
        m.hdr .s2m ++ payload ∧
      (Comm.signed .s2m m payload).getD ((Comm.signed .s2m m payload).length - 1) 0 =
        crc8Autosar (m.hdr .s2m ++ payload) := by
  rw [Comm.signed, List.length_append, List.length_singleton, Nat.add_sub_cancel, List.take_left,
    List.getD_eq_getElem?_getD, List.getElem?_concat_length]
  exact ⟨rfl, rfl⟩

theorem parseS2m_signed (hlen : payload.length = m.payloadLen.toNat) :
    parseS2m (Comm.signed .s2m m payload) = .ok (told m payload) := by
  obtain ⟨hfront, hlast⟩ := signed_parts m payload
  have hlong : ¬ (Comm.signed .s2m m payload).length < s2mHeaderLen + 1 := by
    rw [Comm.length_signed]
    show ¬ 7 + payload.length + 1 < 7 + 1
    omega
  have hpayload : ((m.hdr .s2m ++ payload).drop s2mHeaderLen).take m.payloadLen.toNat =
      payload := by
    rw [show s2mHeaderLen = (m.hdr .s2m).length from rfl, List.drop_left, ← hlen, List.take_length]
  rw [parseS2m, if_neg hlong]
  dsimp only
  rw [hfront, hlast, if_neg (not_not.mpr rfl)]
  refine congrArg Except.ok ?_
  rw [told, ← toNat_cmd m.cmd, S2m.mk.injEq]
  exact ⟨rfl, rfl, rfl, rfl, rfl, hpayload⟩

theorem luaBody_signed (hlen : payload.length = m.payloadLen.toNat) :
    luaBody (Comm.signed .s2m m payload) = some (toldLua m payload) := by
  obtain ⟨hfront, hlast⟩ := signed_parts m payload
  have hlength : (Comm.signed .s2m m payload).length = 7 + payload.length + 1 :=
    Comm.length_signed ..
  have hpayload : ((Comm.signed .s2m m payload).drop 7).take m.payloadLen.toNat = payload := by
    rw [Comm.signed, List.append_assoc, show 7 = (m.hdr .s2m).length from rfl, List.drop_left,
      ← hlen, List.take_left]
  have hdeclared : (Comm.signed .s2m m payload).getD 6 0 = m.payloadLen := rfl
  rw [luaBody, if_pos (by omega)]
  dsimp only
  rw [hdeclared, hfront, hlast, hpayload, if_pos ⟨by omega, rfl⟩, toldLua, ← toNat_cmd m.cmd]
  rfl

/-! ## Streams -/

/-- A frame of a chip and its bytes. -/
def s2mWire (f : Comm.CommFrame .s2m) : List Byte := Comm.wire .s2m f.info f.payload

theorem s2mWire_eq (f : Comm.CommFrame .s2m) : s2mWire f = slipEncode f.signed := rfl

theorem signed_ne_nil (f : Comm.CommFrame .s2m) : f.signed ≠ [] := by
  refine List.ne_nil_of_length_pos ?_
  rw [f.length_signed]
  exact Nat.succ_pos _

/-- Whatever the Python decoder had collected, the frames come after what the first END byte
makes of it. -/
theorem feed_s2m (d : SlipDecoder) (frames : List (Comm.CommFrame .s2m)) :
    ∃ stale : List (List Byte), stale.length ≤ 1 ∧ (d.inFrame = false ∨ d.buf = [] → stale = []) ∧
      (d.feed (frames.flatMap s2mWire)).2 = stale ++ frames.map (·.signed) := by
  cases frames with
  | nil => exact ⟨[], Nat.zero_le _, fun _ => rfl, rfl⟩
  | cons f frames =>
      let stale := if d.inFrame = true ∧ d.buf ≠ [] then some d.buf else none
      have hfirst : (d.feed (slipEncode f.signed)).1 = .between ∧
          (d.feed (slipEncode f.signed)).2 = stale.toList ++ [f.signed] := by
        have hbetween := feed_slipEncode (signed_ne_nil f)
        have hopen : d.feed (slipEncode f.signed) =
            ((SlipDecoder.between.feed (slipEncode f.signed)).1,
              stale.toList ++ (SlipDecoder.between.feed (slipEncode f.signed)).2) := rfl
        rw [hopen, hbetween]
        exact ⟨rfl, rfl⟩
      have hrest := @feed_frames (frames.map (·.signed)) fun body hbody => by
        obtain ⟨g, -, rfl⟩ := List.mem_map.mp hbody
        exact signed_ne_nil g
      rw [List.flatMap_map] at hrest
      refine ⟨stale.toList, ?_, ?_, ?_⟩
      · cases stale <;> simp
      · rintro (hout | hempty) <;> simp [stale, *]
      · rw [List.flatMap_cons, feed_append, s2mWire_eq, hfirst.1, hfirst.2]
        show _ ++ (SlipDecoder.between.feed (frames.flatMap fun g => slipEncode g.signed)).2 = _
        rw [hrest]
        simp

/-- The Python decoder returns nothing but what ends at an END byte. -/
theorem feed_cons (d : SlipDecoder) (b : Byte) (data : List Byte) :
    (d.feed (b :: data)).2 = (d.byte b).2.toList ++ ((d.byte b).1.feed data).2 := rfl

/-- In a frame the Lua decoder collects what the Python one does, and checks what that returns. -/
theorem lua_frames (dec : LuaDecoder) (hin : dec.inFrame = true) (data : List Byte) :
    dec.frames data =
      (SlipDecoder.feed ⟨dec.buf, dec.escaped, true⟩ data).2.filterMap luaBody := by
  induction data generalizing dec with
  | nil => rfl
  | cons b data ih =>
      obtain ⟨inFrame, escaped, buf⟩ := dec
      obtain rfl : inFrame = true := hin
      have hcons (dec' : LuaDecoder) (o : Option LuaFrame)
          (h : LuaDecoder.feed ⟨true, escaped, buf⟩ b = (dec', o)) :
          LuaDecoder.frames ⟨true, escaped, buf⟩ (b :: data) = o.toList ++ dec'.frames data := by
        rw [LuaDecoder.frames, Deframer.outputs_cons, h]
        cases o <;> rfl
      rw [feed_cons, List.filterMap_append]
      by_cases hend : b = slipEnd
      · rw [hcons { inFrame := true } (luaBody buf) (by simp [LuaDecoder.feed, hend]),
          ih { inFrame := true } rfl, SlipDecoder.byte, if_pos hend]
        by_cases hempty : buf = []
        · subst hempty
          rfl
        · rw [if_pos ⟨rfl, hempty⟩]
          cases hbody : luaBody buf <;> simp [hbody]
      · rw [SlipDecoder.byte, if_neg hend]
        cases escaped with
        | true =>
            rw [hcons ⟨true, false, buf ++ [if b = slipEscEnd then slipEnd
                else if b = slipEscEsc then slipEsc else b]⟩ none
              (by simp [LuaDecoder.feed, hend]), ih _ rfl]
            rfl
        | false =>
            rw [if_neg Bool.noConfusion]
            by_cases hesc : b = slipEsc
            · subst hesc
              rw [hcons ⟨true, true, buf⟩ none rfl, ih _ rfl, if_pos rfl]
              rfl
            · rw [hcons ⟨true, false, buf ++ [b]⟩ none (by simp [LuaDecoder.feed, hend, hesc]),
                ih _ rfl, if_neg hesc]
              rfl

/-- Whatever the Lua decoder had collected, the frames come after what the first END byte makes
of it. -/
theorem lua_s2m (dec : LuaDecoder) (frames : List (Comm.CommFrame .s2m)) :
    ∃ stale : List LuaFrame, stale.length ≤ 1 ∧ (dec.inFrame = false ∨ dec.buf = [] → stale = []) ∧
      dec.frames (frames.flatMap s2mWire) =
        stale ++ frames.map fun f => toldLua f.info f.payload := by
  have hall : (frames.map (·.signed)).filterMap luaBody =
      frames.map fun f => toldLua f.info f.payload := by
    rw [List.filterMap_map, ← List.filterMap_eq_map]
    exact List.filterMap_congr fun f _ => luaBody_signed f.len
  cases hin : dec.inFrame with
  | true =>
      obtain ⟨stale, hone, hnone, hfeed⟩ := feed_s2m ⟨dec.buf, dec.escaped, true⟩ frames
      refine ⟨stale.filterMap luaBody, (List.length_filterMap_le ..).trans hone, fun h => ?_, ?_⟩
      · rw [hnone h]
        rfl
      · rw [lua_frames dec hin, hfeed, List.filterMap_append, hall]
  | false =>
      refine ⟨[], Nat.zero_le _, fun _ => rfl, ?_⟩
      cases frames with
      | nil => rfl
      | cons f frames =>
          obtain ⟨stale, -, hnone, hfeed⟩ := feed_s2m .between (f :: frames)
          have hopen : dec.frames ((f :: frames).flatMap s2mWire) =
              LuaDecoder.frames { inFrame := true } ((f :: frames).flatMap s2mWire) := by
            rw [LuaDecoder.frames, LuaDecoder.frames, List.flatMap_cons, s2mWire_eq, slipEncode,
              List.cons_append, Deframer.outputs_cons, Deframer.outputs_cons, LuaDecoder.feed,
              if_pos rfl, hin]
            rfl
          rw [hopen, lua_frames _ rfl]
          show ((SlipDecoder.between.feed _).2).filterMap luaBody = _
          rw [hfeed, hnone (.inr rfl), List.nil_append, hall]
          rfl

end SlowBus.Commission
