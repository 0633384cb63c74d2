import SlowBus.Bus.Frame

/-!
# The assembler as a receiver of the frame format

The format of a frame says of the bytes after an address what the assembler has
to make of them. The assembler, with its states, its cursor and an accumulator
that keeps stale bytes, is a receiver of that format.
-/

namespace SlowBus.Bus

open Deframer (Format)

def Message.crc (m : Message) : Byte :=
  busCrc8 ([m.dest, m.src, m.type, m.seq, m.len] ++ m.payload)

/-- The bytes after the destination: header, payload and CRC. -/
def busJudge (dest : Byte) : List Byte → Deframer.Verdict Message
  | src :: type :: seq :: len :: rest =>
      let m : Message := ⟨dest, src, type, seq, len, rest.take len.toNat⟩
      if len > busPayloadMax then .drop
      else if rest.length ≤ len.toNat then .more
      else if rest.drop len.toNat = [m.crc] then .deliver m
      else .drop
  | _ => .more

def busFormat (accepts : Byte → Bool) : Format Byte Byte Message := ⟨accepts, busJudge⟩

def Word.symbol (w : Word) : Deframer.Symbol Byte Byte :=
  if Word.isAddr w then .start (Word.byte w) else .data (Word.byte w)

/-- The destinations an assembler set up so takes. -/
def takes (myAddr : Byte) (promiscuous : Bool) (dest : Byte) : Bool :=
  promiscuous || myAddr == busAddrPromiscuous || dest == myAddr || dest == busAddrBroadcast

/-- The frame that is being assembled. -/
def Asm.pending (a : Asm) : Option (Byte × List Byte) :=
  let f := a.acc
  match a.state with
  | .idle => none
  | .src => some (f.dest, [])
  | .type => some (f.dest, [f.src])
  | .seq => some (f.dest, [f.src, f.type])
  | .len => some (f.dest, [f.src, f.type, f.seq])
  | .payload => some (f.dest, [f.src, f.type, f.seq, f.len] ++ f.payload.toList.take a.idx.toNat)
  | .crc => some (f.dest, [f.src, f.type, f.seq, f.len] ++ f.body)

/-- The cursor is within the announced payload, and that within the buffer. -/
structure Asm.Ok (a : Asm) : Prop where
  cursor : a.state = .payload → a.idx < a.acc.len
  room : a.state = .payload ∨ a.state = .crc → a.acc.len ≤ busPayloadMax

theorem Asm.Ok.cursor_lt {a : Asm} (h : a.Ok) (hstate : a.state = .payload) :
    a.idx.toNat < 240 := by
  have hcursor : a.idx.toNat < a.acc.len.toNat := h.cursor hstate
  have hroom : a.acc.len.toNat ≤ 240 := h.room (Or.inl hstate)
  omega

theorem ok_init (acc : Frame) (myAddr : Byte) (promiscuous : Bool) :
    (Asm.init acc myAddr promiscuous).Ok := ⟨by simp [Asm.init], by simp [Asm.init]⟩

theorem crc_message {f : Frame} : f.message.crc = busFrameCrc f := by
  rw [busFrameCrc_eq]
  rfl

/-! ## Judging a frame as it grows -/

section Judge

variable {f : Frame} {b : Byte} {bs : List Byte}

theorem busJudge_header (h : bs.length < 4) : busJudge f.dest bs = .more := by
  match bs, h with
  | [], _ | [_], _ | [_, _], _ | [_, _, _], _ => rfl

theorem busJudge_long (h : f.len > busPayloadMax) :
    busJudge f.dest ([f.src, f.type, f.seq, f.len] ++ bs) = .drop := if_pos h

theorem busJudge_more (h : f.len ≤ busPayloadMax) (hlen : bs.length ≤ f.len.toNat) :
    busJudge f.dest ([f.src, f.type, f.seq, f.len] ++ bs) = .more := by
  simp only [List.cons_append, List.nil_append, busJudge]
  rw [if_neg (BitVec.not_lt.mpr h), if_pos hlen]

theorem busJudge_last (h : f.len ≤ busPayloadMax) :
    busJudge f.dest ([f.src, f.type, f.seq, f.len] ++ (f.body ++ [b])) =
      if busFrameCrc f = b then .deliver f.message else .drop := by
  have hbody := length_body h
  simp only [List.cons_append, List.nil_append, busJudge]
  rw [if_neg (BitVec.not_lt.mpr h), if_neg (by simp [hbody]),
    List.take_append_of_le_length hbody.ge, List.take_of_length_le hbody.le,
    List.drop_append_of_le_length hbody.ge, List.drop_of_length_le hbody.le, List.nil_append,
    ← crc_message]
  exact if_congr (List.singleton_inj.trans eq_comm) rfl rfl

end Judge

/-! ## Every word is received as the format says -/

section Feed

variable {a : Asm} {w : Word}

theorem feed_addr (h : Word.isAddr w = true) : a.feed w =
    ({ a with
      acc := if a.addrIsForUs (Word.byte w) then { a.acc with dest := Word.byte w } else a.acc
      state := if a.addrIsForUs (Word.byte w) then .src else .idle }, none) := by
  rw [Asm.feed]
  simp only [h, if_true]
  split
  all_goals rfl

theorem addrIsForUs_feed (a : Asm) (w : Word) : (a.feed w).1.addrIsForUs = a.addrIsForUs := by
  unfold Asm.feed
  dsimp only
  repeat' split
  all_goals rfl

theorem take_set_succ {α : Type*} {l : List α} {i : Nat} (hi : i < l.length) (b : α) :
    (l.set i b).take (i + 1) = l.take i ++ [b] := by
  rw [List.take_add_one, List.take_set_of_le le_rfl]
  simp [hi]

/-- The cursor after a payload byte. -/
theorem cursor_succ (h : a.Ok) (hstate : a.state = .payload) :
    (a.idx + 1).toNat = a.idx.toNat + 1 := by
  have hlt := h.cursor_lt hstate
  have hone : (1 : Byte).toNat = 1 := rfl
  rw [BitVec.toNat_add, hone]
  omega

theorem ok_feed (h : a.Ok) (w : Word) : (a.feed w).1.Ok := by
  cases haddr : Word.isAddr w with
  | true =>
      rw [feed_addr haddr]
      constructor <;> intro hstate <;> dsimp only at hstate <;> split at hstate <;> simp at hstate
  | false =>
      cases hstate : a.state with
      | payload =>
          have hroom := h.room (Or.inl hstate)
          simp only [Asm.feed, haddr, hstate, Bool.false_eq_true, if_false]
          refine ⟨fun hnext => ?_, fun _ => hroom⟩
          split at hnext
          next => cases hnext
          next hlt => exact BitVec.not_le.mp hlt
      | len =>
          simp only [Asm.feed, haddr, hstate, Bool.false_eq_true, if_false]
          split
          next => constructor <;> simp
          next hle =>
            refine ⟨fun hnext => ?_, fun _ => BitVec.not_lt.mp hle⟩
            split at hnext
            next => cases hnext
            next hne => exact (BitVec.pos_iff_ne_zero _).mpr hne
      | crc =>
          simp only [Asm.feed, haddr, hstate, Bool.false_eq_true, if_false]
          split <;> constructor <;> simp
      | idle | src | type | seq =>
          simp only [Asm.feed, haddr, hstate, Bool.false_eq_true, if_false]
          constructor <;> simp [hstate]

theorem pending_feed (h : a.Ok) (w : Word) :
    (busFormat a.addrIsForUs).step a.pending (Word.symbol w) =
      ((a.feed w).1.pending, (a.feed w).2.map Frame.message) := by
  cases haddr : Word.isAddr w with
  | true =>
      rw [feed_addr haddr, Word.symbol, if_pos haddr, Deframer.step_start]
      -- an address word opens a frame or closes what was open
      cases hours : a.addrIsForUs (Word.byte w) <;> simp [busFormat, hours, Asm.pending]
  | false =>
      simp only [Word.symbol, Asm.feed, Asm.pending, haddr, Bool.false_eq_true, if_false]
      cases hstate : a.state with
      | idle => simp [hstate]
      | src | type | seq =>
          simp only [Deframer.step_open, busFormat]
          rw [busJudge_header (f := a.acc) (by simp)]
          rfl
      | len =>
          set f : Frame := { a.acc with len := Word.byte w } with hf
          have happend : [a.acc.src, a.acc.type, a.acc.seq] ++ [Word.byte w] =
              [f.src, f.type, f.seq, f.len] ++ [] := rfl
          simp only [Deframer.step_open, busFormat]
          rw [happend, show a.acc.dest = f.dest from rfl]
          by_cases hlong : Word.byte w > busPayloadMax
          · rw [busJudge_long hlong, if_pos hlong]
            rfl
          · rw [busJudge_more (BitVec.not_lt.mp hlong) (Nat.zero_le _), if_neg hlong]
            by_cases hzero : Word.byte w = 0
            · simp [Frame.body, hf, hzero]
            · simp only [hf, if_neg hzero]
              rfl
      | payload =>
          -- the cursor is inside the payload, and the byte is written there
          have hcursor : a.idx.toNat < a.acc.len.toNat := h.cursor hstate
          have hroom := h.room (Or.inl hstate)
          have hlt := h.cursor_lt hstate
          have hwrite := take_set_succ (l := a.acc.payload.toList) (i := a.idx.toNat)
            (by simpa using hlt) (Word.byte w)
          simp only [Deframer.step_open, busFormat, List.append_assoc]
          rw [busJudge_more hroom (by simp; omega)]
          have hbytes : (a.acc.payload.setIfInBounds a.idx.toNat (Word.byte w)).toList.take
              (a.idx + 1).toNat = a.acc.payload.toList.take a.idx.toNat ++ [Word.byte w] := by
            rw [cursor_succ h hstate, Vector.toList_setIfInBounds, hwrite]
          by_cases hend : a.idx + 1 ≥ a.acc.len
          · have hlen : a.acc.len = a.idx + 1 := by
              apply BitVec.eq_of_toNat_eq
              have hge : a.acc.len.toNat ≤ (a.idx + 1).toNat := hend
              rw [cursor_succ h hstate] at hge ⊢
              omega
            simp only [if_pos hend, Frame.body]
            rw [hlen, hbytes]
            rfl
          · simp only [if_neg hend]
            rw [hbytes]
            rfl
      | crc =>
          simp only [Deframer.step_open, busFormat, List.append_assoc]
          rw [busJudge_last (h.room (Or.inr hstate))]
          by_cases hcrc : busFrameCrc a.acc = Word.byte w
          · simp [hcrc]
          · simp [hcrc]

end Feed

end SlowBus.Bus
