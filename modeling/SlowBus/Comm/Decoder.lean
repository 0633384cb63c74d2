import SlowBus.Comm.Frame
import SlowBus.Commission.Slip

/-!
# The incremental decoder

`frame_decoder_feed` is given the bytes of the link one at a time. An END byte opens a frame or
closes the one that is open; a closed frame is handed out if its CRC and its length are right. What
spoils a frame closes it, so that the END byte behind it opens the next.
-/

namespace SlowBus.Comm

open Bus (Byte)
open Commission (M2s encodeM2s)
open Deframer (Cut feedAll outputs)
open Stuffing (Reading)

/-- `frame_decoder_t`; the body is the part of `buf` below `len`. -/
structure FrameDecoder where
  dir : FrameDir
  inEscape : Bool := false
  inFrame : Bool := false
  body : List Byte := []
  deriving DecidableEq, Repr

/-- `frame_decode_result_t`, with what `out_meta` and `out_payload` are filled with. -/
inductive DecodeResult where
  | needMore
  | frameReady (m : FrameMeta) (payload : List Byte)
  | badCrc
  | overflow
  | badLen
  deriving DecidableEq, Repr

/-- `decoder_reset_body` -/
def FrameDecoder.resetBody (d : FrameDecoder) : FrameDecoder :=
  { d with body := [], inEscape := false }

/-- The checks at the trailing END. -/
def FrameDecoder.validate (d : FrameDecoder) : DecodeResult :=
  let hdrLen := d.dir.hdrLen
  let at' (i : Nat) := d.body.getD i 0
  if d.body.length < hdrLen + 1 then .badLen
  else if crc8Autosar (d.body.take (d.body.length - 1)) ≠ at' (d.body.length - 1) then .badCrc
  else
    let declaredLen := at' (hdrLen - 1)
    if declaredLen > commPayloadMax ∨ hdrLen + declaredLen.toNat + 1 ≠ d.body.length then .badLen
    else
      .frameReady
        { addr := at' 0
          cmd := (at' 1).setWidth 16 ||| (at' 2).setWidth 16 <<< 8
          seq := at' 3
          ackSeq := if d.dir = .m2s then 0 else at' 4
          ackStatus := if d.dir = .m2s then 0 else at' 5
          payloadLen := declaredLen }
        ((d.body.drop hdrLen).take declaredLen.toNat)

/-- A byte is put behind the body. -/
def FrameDecoder.store (d : FrameDecoder) (byte : Byte) : FrameDecoder × DecodeResult :=
  if d.body.length ≥ frameBufferMax then ({ d.resetBody with inFrame := false }, .overflow)
  else ({ d with body := d.body ++ [byte] }, .needMore)

def frameDecoderFeed (d : FrameDecoder) (byte : Byte) : FrameDecoder × DecodeResult :=
  if byte = frameEnd then
    if d.inFrame = false then ({ d.resetBody with inFrame := true }, .needMore)
    else if d.body.length = 0 then ({ d with inEscape := false }, .needMore)
    else ({ d.resetBody with inFrame := false }, d.validate)
  else if d.inFrame = false then (d, .needMore)
  else if d.inEscape = true then
    let d := { d with inEscape := false }
    if byte = frameEscEnd then d.store frameEnd
    else if byte = frameEscEsc then d.store frameEsc
    else ({ d.resetBody with inFrame := false }, .badLen)
  else if byte = frameEsc then ({ d with inEscape := true }, .needMore)
  else d.store byte

/-- What the caller of the decoder goes on with. -/
def DecodeResult.frame : DecodeResult → Option (FrameMeta × List Byte)
  | .frameReady m payload => some (m, payload)
  | _ => none

/-- A byte, and the frame that it completes. -/
def FrameDecoder.step (d : FrameDecoder) (byte : Byte) :
    FrameDecoder × Option (FrameMeta × List Byte) :=
  ((frameDecoderFeed d byte).1, (frameDecoderFeed d byte).2.frame)

/-! ## Frames -/

/-- A frame that can be told from its bytes. -/
structure CommFrame (dir : FrameDir) where
  info : FrameMeta
  payload : List Byte
  len : payload.length = info.payloadLen.toNat
  fits : info.payloadLen ≤ commPayloadMax
  acks : dir = .m2s → info.ackSeq = 0 ∧ info.ackStatus = 0

def CommFrame.signed {dir : FrameDir} (f : CommFrame dir) : List Byte :=
  Comm.signed dir f.info f.payload

variable {d : FrameDecoder} {dir : FrameDir} {m : FrameMeta} {payload bs : List Byte} {b : Byte}

/-- The two bytes of a command. -/
theorem cmd_bytes (cmd : BitVec 16) :
    (cmd.setWidth 8).setWidth 16 ||| ((cmd >>> 8).setWidth 8).setWidth 16 <<< 8 = cmd := by
  ext i hi
  simp only [BitVec.getElem_or, BitVec.getElem_setWidth, BitVec.getElem_shiftLeft]
  by_cases h : i < 8
  · simp [h, BitVec.getLsbD_eq_getElem hi]
  · have hback : 8 + (i - 8) = i := by omega
    have hlow : i - 8 < 8 := by omega
    simp [h, hback, hlow, BitVec.getLsbD_eq_getElem hi]

theorem bytes_cmd (lo hi : Byte) :
    (lo.setWidth 16 ||| hi.setWidth 16 <<< 8).setWidth 8 = lo ∧
      ((lo.setWidth 16 ||| hi.setWidth 16 <<< 8) >>> 8).setWidth 8 = hi := by
  constructor
  · ext i h
    simp
  · ext i h
    have hupper : 8 + i < 16 := by omega
    have hlower : ¬ 8 + i < 8 := by omega
    have hbyte : i < 16 := by omega
    simp [hupper, hlower, hbyte, BitVec.getLsbD_eq_getElem h]

theorem CommFrame.length_signed (f : CommFrame dir) :
    f.signed.length = dir.hdrLen + f.info.payloadLen.toNat + 1 := by
  rw [CommFrame.signed, Comm.length_signed, f.len]

/-- A header of m2s has no acknowledgement. -/
def FrameMeta.Plain (m : FrameMeta) (dir : FrameDir) : Prop :=
  dir = .m2s → m.ackSeq = 0 ∧ m.ackStatus = 0

/-- A body that is long enough has a header, a payload and a last byte. -/
theorem exists_hdr (h : dir.hdrLen + 1 ≤ bs.length) :
    ∃ (m : FrameMeta) (payload : List Byte) (c : Byte), m.Plain dir ∧
      bs = m.hdr dir ++ payload ++ [c] := by
  have hback : bs.drop dir.hdrLen ≠ [] := by
    rw [ne_eq, List.drop_eq_nil_iff]
    omega
  have hlast := List.dropLast_append_getLast hback
  have hsplit : bs = bs.take dir.hdrLen ++ (bs.drop dir.hdrLen).dropLast ++
      [(bs.drop dir.hdrLen).getLast hback] := by
    rw [List.append_assoc, hlast, List.take_append_drop]
  have hfront : (bs.take dir.hdrLen).length = dir.hdrLen := by
    rw [List.length_take]
    omega
  suffices hhdr : ∃ m : FrameMeta, m.Plain dir ∧ bs.take dir.hdrLen = m.hdr dir by
    obtain ⟨m, hplain, hm⟩ := hhdr
    exact ⟨m, _, _, hplain, hm ▸ hsplit⟩
  cases dir with
  | m2s =>
      match hbs : bs.take FrameDir.m2s.hdrLen, hfront with
      | [a, lo, hi, sq, len], _ =>
          refine ⟨⟨a, lo.setWidth 16 ||| hi.setWidth 16 <<< 8, sq, 0, 0, len⟩,
            fun _ => ⟨rfl, rfl⟩, ?_⟩
          rw [FrameMeta.hdr, (bytes_cmd lo hi).1, (bytes_cmd lo hi).2]
  | s2m =>
      match hbs : bs.take FrameDir.s2m.hdrLen, hfront with
      | [a, lo, hi, sq, ackSeq, ackStatus, len], _ =>
          refine ⟨⟨a, lo.setWidth 16 ||| hi.setWidth 16 <<< 8, sq, ackSeq, ackStatus, len⟩,
            FrameDir.noConfusion, ?_⟩
          rw [FrameMeta.hdr, (bytes_cmd lo hi).1, (bytes_cmd lo hi).2]

/-- The checks on a body in its parts. -/
theorem validate_eq {c : Byte} (hplain : m.Plain d.dir)
    (hbody : d.body = m.hdr d.dir ++ payload ++ [c]) :
    d.validate =
      if crc8Autosar (m.hdr d.dir ++ payload) ≠ c then .badCrc
      else if m.payloadLen > commPayloadMax ∨ m.payloadLen.toNat ≠ payload.length then .badLen
      else .frameReady m payload := by
  have hlen : d.body.length = (m.hdr d.dir ++ payload).length + 1 := by
    rw [hbody, List.length_append, List.length_singleton]
  have hlong : ¬ d.body.length < d.dir.hdrLen + 1 := by simp [hbody]
  have hfront : d.body.take (d.body.length - 1) = m.hdr d.dir ++ payload := by
    rw [hlen, Nat.add_sub_cancel, hbody, List.take_left]
  have hlast : d.body.getD (d.body.length - 1) 0 = c := by
    rw [hlen, Nat.add_sub_cancel, hbody, List.getD_eq_getElem?_getD, List.getElem?_concat_length]
    rfl
  have hdrop : d.body.drop d.dir.hdrLen = payload ++ [c] := by
    rw [hbody, List.append_assoc, ← length_hdr m, List.drop_left]
  have hdeclared : d.body.getD (d.dir.hdrLen - 1) 0 = m.payloadLen := by
    rw [hbody]
    cases d.dir <;> rfl
  -- the bytes at the offsets of the source are the fields of the header
  have hinfo : (⟨d.body.getD 0 0,
      (d.body.getD 1 0).setWidth 16 ||| (d.body.getD 2 0).setWidth 16 <<< 8, d.body.getD 3 0,
      if d.dir = .m2s then 0 else d.body.getD 4 0, if d.dir = .m2s then 0 else d.body.getD 5 0,
      m.payloadLen⟩ : FrameMeta) = m := by
    obtain ⟨addr, cmd, sq, ackSeq, ackStatus, len⟩ := m
    rw [hbody]
    cases hdir : d.dir with
    | m2s =>
        obtain ⟨rfl, rfl⟩ := hplain hdir
        simp [FrameMeta.hdr, cmd_bytes]
    | s2m => simp [FrameMeta.hdr, cmd_bytes]
  have hdeclares : d.dir.hdrLen + m.payloadLen.toNat + 1 ≠ d.body.length ↔
      m.payloadLen.toNat ≠ payload.length := by
    rw [hlen, List.length_append, length_hdr]
    omega
  unfold FrameDecoder.validate
  simp only [hlong, if_false, hfront, hlast, hdeclared, hdrop, hinfo, hdeclares]
  split
  next => rfl
  next =>
    split
    next => rfl
    next hfits =>
      rw [not_or, not_not] at hfits
      rw [hfits.2, List.take_left]

/-- A closed frame is handed out just when its body is that of a frame. -/
theorem validate_eq_ready_iff :
    d.validate = .frameReady m payload ↔
      ∃ f : CommFrame d.dir, f.info = m ∧ f.payload = payload ∧ d.body = f.signed := by
  constructor
  · intro h
    have hlong : d.dir.hdrLen + 1 ≤ d.body.length := by
      by_contra hshort
      rw [FrameDecoder.validate, if_pos (by omega)] at h
      cases h
    obtain ⟨m', payload', c, hplain, hbody⟩ := exists_hdr hlong
    rw [validate_eq hplain hbody] at h
    split at h
    next => cases h
    next hcrc =>
      split at h
      next => cases h
      next hfits =>
        rw [not_or, not_not] at hfits
        cases h
        refine ⟨⟨m, payload, hfits.2.symm, BitVec.not_lt.mp hfits.1, hplain⟩, rfl, rfl, ?_⟩
        rw [hbody, ← not_not.mp hcrc]
        rfl
  · rintro ⟨f, rfl, rfl, hbody⟩
    rw [validate_eq f.acks hbody, if_neg (by simp), if_neg]
    rw [not_or, not_not]
    exact ⟨BitVec.not_lt.mpr f.fits, f.len.symm⟩

/-! ## Byte by byte -/

/-- The decoder with no frame open. -/
def closed (dir : FrameDir) : FrameDecoder := { dir }

/-- The decoder in a frame, of which it has a part of the body. -/
def collecting (dir : FrameDir) (body : List Byte) : FrameDecoder :=
  { dir, inFrame := true, body }

/-- The next END byte opens a frame, or opens it once more. -/
def FrameDecoder.Between (d : FrameDecoder) : Prop := d.inFrame = false ∨ d.body = []

instance between_decidable (d : FrameDecoder) : Decidable d.Between :=
  inferInstanceAs (Decidable (_ ∨ _))

/-- What the decoder has read since the last END byte. -/
def FrameDecoder.reading (d : FrameDecoder) : Reading Byte :=
  if d.inEscape then .escaped d.body else .body d.body

theorem step_end_between (h : d.Between) : d.step frameEnd = (collecting d.dir [], none) := by
  obtain ⟨dir, inEscape, inFrame, body⟩ := d
  cases inFrame with
  | false => rfl
  | true =>
      obtain rfl : body = [] := h.resolve_left Bool.noConfusion
      rfl

theorem step_end_open (hin : d.inFrame = true) (hbody : d.body ≠ []) :
    d.step frameEnd = (closed d.dir, d.validate.frame) := by
  have hlen : d.body.length ≠ 0 := fun h => hbody (List.length_eq_zero_iff.mp h)
  simp only [FrameDecoder.step, frameDecoderFeed, if_true, hin, Bool.true_eq_false, if_false, hlen]
  rfl

theorem step_closed (hin : d.inFrame = false) (hb : b ≠ frameEnd) : d.step b = (d, none) := by
  simp [FrameDecoder.step, frameDecoderFeed, hb, hin, DecodeResult.frame]

theorem store_eq (d : FrameDecoder) (b : Byte) :
    (d.store b).2.frame = none ∧
      (d.store b).1 = if d.body.length < frameBufferMax then { d with body := d.body ++ [b] }
        else closed d.dir := by
  unfold FrameDecoder.store
  by_cases hroom : d.body.length < frameBufferMax
  · rw [if_neg (by omega), if_pos hroom]
    exact ⟨rfl, rfl⟩
  · rw [if_pos (by omega), if_neg hroom]
    exact ⟨rfl, rfl⟩

theorem dir_step (d : FrameDecoder) (b : Byte) : (d.step b).1.dir = d.dir := by
  have hstore : ∀ (e : FrameDecoder) (x : Byte), (e.store x).1.dir = e.dir := by
    intro e x
    unfold FrameDecoder.store
    split <;> rfl
  unfold FrameDecoder.step frameDecoderFeed
  dsimp only
  split_ifs <;> first | rfl | exact hstore _ _

/-- A byte inside a frame is read, or closes the frame. -/
theorem step_open (hin : d.inFrame = true) (hb : b ≠ frameEnd) :
    (d.step b).2 = none ∧ ((d.step b).1 = closed d.dir ∨
      (d.step b).1.inFrame = true ∧ (d.step b).1.dir = d.dir ∧
        (d.step b).1.reading = frameCode.read d.reading b) := by
  -- a byte that is stored joins the body, or the frame is too long
  have hstore : ∀ (e : FrameDecoder) (x : Byte), e.inFrame = true → e.inEscape = false →
      e.dir = d.dir → frameCode.read d.reading b = .body (e.body ++ [x]) →
      (e.store x).2.frame = none ∧ ((e.store x).1 = closed d.dir ∨
        (e.store x).1.inFrame = true ∧ (e.store x).1.dir = d.dir ∧
          (e.store x).1.reading = frameCode.read d.reading b) := by
    intro e x hopen hplain hdir hread
    obtain ⟨hquiet, hstate⟩ := store_eq e x
    refine ⟨hquiet, ?_⟩
    rw [hstate, hread]
    split
    next => exact .inr ⟨hopen, hdir, by simp [FrameDecoder.reading, hplain]⟩
    next => exact .inl (by rw [hdir])
  unfold FrameDecoder.step frameDecoderFeed
  rw [if_neg hb, if_neg (by simp [hin])]
  by_cases hescape : d.inEscape = true
  · rw [if_pos hescape]
    have hreading : d.reading = .escaped d.body := by simp [FrameDecoder.reading, hescape]
    dsimp only
    by_cases hend : b = frameEscEnd
    · subst hend
      rw [if_pos rfl]
      exact hstore _ _ hin rfl rfl (by rw [hreading]; rfl)
    · by_cases hesc : b = frameEscEsc
      · subst hesc
        rw [if_neg hend, if_pos rfl]
        exact hstore _ _ hin rfl rfl (by rw [hreading]; rfl)
      · rw [if_neg hend, if_neg hesc]
        exact ⟨rfl, .inl rfl⟩
  · rw [if_neg hescape]
    have hplain : d.inEscape = false := Bool.eq_false_of_not_eq_true hescape
    have hreading : d.reading = .body d.body := by simp [FrameDecoder.reading, hescape]
    by_cases hesc : b = frameEsc
    · subst hesc
      rw [if_pos rfl]
      exact ⟨rfl, .inr ⟨hin, rfl, by rw [hreading]; rfl⟩⟩
    · rw [if_neg hesc]
      refine hstore d b hin hplain rfl ?_
      rw [hreading]
      exact if_neg hesc

/-! ## What is handed out stands in the stream -/

/-- The bytes of a frame. An escape byte before the trailing END is passed over. -/
def FrameOn (dir : FrameDir) (got : FrameMeta × List Byte) (seg : List Byte) : Prop :=
  ∃ (f : CommFrame dir) (esc : List Byte), (f.info, f.payload) = got ∧
    (esc = [] ∨ esc = [frameEsc]) ∧
    seg = frameEnd :: (f.signed.flatMap frameCode.stuff ++ esc ++ [frameEnd])

/-- What has been handed out is spelled by the stream, and a frame that is open by its end. -/
def Tracks (dir : FrameDir) (d : FrameDecoder) (xs : List Byte)
    (outs : List (Option (FrameMeta × List Byte))) : Prop :=
  d.dir = dir ∧ ∃ catches rest, Cut (FrameOn dir) xs outs catches rest ∧
    (d.inFrame = true → ∃ noise raw, rest = noise ++ frameEnd :: raw ∧ frameEnd ∉ raw ∧
      raw.foldl frameCode.read (.body []) = d.reading)

variable {xs raw : List Byte} {outs : List (Option (FrameMeta × List Byte))}

/-- A frame that is closed by the END byte and handed out. -/
theorem frameOn_validate (hraw : frameEnd ∉ raw)
    (hread : raw.foldl frameCode.read (.body []) = d.reading) {got : FrameMeta × List Byte}
    (hgot : d.validate.frame = some got) : FrameOn d.dir got (frameEnd :: raw ++ [frameEnd]) := by
  obtain ⟨m, payload⟩ := got
  have hready : d.validate = .frameReady m payload := by
    cases hv : d.validate with
    | frameReady m' payload' =>
        rw [hv] at hgot
        cases hgot
        rfl
    | needMore | badCrc | overflow | badLen =>
        rw [hv] at hgot
        cases hgot
  obtain ⟨f, rfl, rfl, hbody⟩ := validate_eq_ready_iff.mp hready
  have hspells := Stuffing.spells_read (c := frameCode) hraw
  rw [hread, FrameDecoder.reading, hbody] at hspells
  split at hspells
  next => exact ⟨f, [frameEsc], rfl, .inr rfl, by rw [show raw = _ from hspells]; rfl⟩
  next => exact ⟨f, [], rfl, .inl rfl, by rw [show raw = _ from hspells, List.append_nil]; rfl⟩

theorem Tracks.step (h : Tracks dir d xs outs) (b : Byte) :
    Tracks dir (d.step b).1 (xs ++ [b]) (outs ++ [(d.step b).2]) := by
  obtain ⟨rfl, catches, rest, cut, hopen⟩ := h
  by_cases hb : b = frameEnd
  · subst hb
    by_cases hbetween : d.Between
    · rw [step_end_between hbetween]
      exact ⟨rfl, catches, _, cut.quiet frameEnd, fun _ => ⟨rest, [], rfl, by simp, rfl⟩⟩
    · obtain ⟨hin, hbody⟩ := not_or.mp hbetween
      have hin : d.inFrame = true := Bool.eq_true_of_not_eq_false hin
      rw [step_end_open hin hbody]
      obtain ⟨noise, raw, rfl, hraw, hread⟩ := hopen hin
      cases hgot : d.validate.frame with
      | none => exact ⟨rfl, catches, _, cut.quiet frameEnd, fun h => by cases h⟩
      | some got =>
          exact ⟨rfl, _, [], cut.complete (frameOn_validate hraw hread hgot), fun h => by cases h⟩
  · by_cases hin : d.inFrame = true
    · obtain ⟨hquiet, hclosed | ⟨-, hdir, hreading⟩⟩ := step_open hin hb
      · rw [hquiet, hclosed]
        exact ⟨rfl, catches, _, cut.quiet b, fun h => by cases h⟩
      · obtain ⟨noise, raw, rfl, hraw, hread⟩ := hopen hin
        rw [hquiet]
        refine ⟨hdir, catches, _, cut.quiet b, fun _ => ⟨noise, raw ++ [b], ?_, ?_, ?_⟩⟩
        · rw [List.append_assoc]
          rfl
        · rw [List.mem_append, List.mem_singleton, not_or]
          exact ⟨hraw, Ne.symm hb⟩
        · rw [List.foldl_concat, hread, hreading]
    · have hin : d.inFrame = false := Bool.eq_false_of_not_eq_true hin
      rw [step_closed hin hb]
      exact ⟨rfl, catches, _, cut.quiet b, fun h => absurd (hin.symm.trans h) Bool.noConfusion⟩

/-- The body never outgrows the buffer. -/
theorem length_body_step (h : d.body.length ≤ frameBufferMax) (b : Byte) :
    (d.step b).1.body.length ≤ frameBufferMax := by
  have hstore : ∀ (e : FrameDecoder) (x : Byte), e.body = d.body →
      (e.store x).1.body.length ≤ frameBufferMax := by
    intro e x hbody
    unfold FrameDecoder.store
    split
    next => exact Nat.zero_le _
    next hroom =>
      show (e.body ++ [x]).length ≤ frameBufferMax
      rw [List.length_append, List.length_singleton]
      omega
  unfold FrameDecoder.step frameDecoderFeed
  dsimp only
  split_ifs
  · exact Nat.zero_le _
  · exact h
  · exact Nat.zero_le _
  · exact h
  · exact hstore _ _ rfl
  · exact hstore _ _ rfl
  · exact Nat.zero_le _
  · exact h
  · exact hstore _ _ rfl

/-- Whatever the bytes of the link are, the body stays within the buffer, and every frame handed
out stands in them from END byte to END byte, with its CRC and its length; no two frames share a
byte, and they are handed out in order, each at its trailing END. -/
theorem decoder_sound (dir : FrameDir) (xs : List Byte) :
    (feedAll FrameDecoder.step (closed dir) xs).body.length ≤ frameBufferMax ∧
      ∃ catches rest,
        Cut (FrameOn dir) xs (outputs FrameDecoder.step (closed dir) xs) catches rest := by
  refine ⟨Deframer.feedAll_invariant (P := fun d : FrameDecoder => d.body.length ≤ frameBufferMax)
    (fun _ b h => length_body_step h b) (Nat.zero_le _), ?_⟩
  suffices h : Tracks dir (feedAll FrameDecoder.step (closed dir) xs) xs
      (outputs FrameDecoder.step (closed dir) xs) from
    ⟨h.2.choose, h.2.choose_spec.choose, h.2.choose_spec.choose_spec.1⟩
  induction xs using List.reverseRecOn with
  | nil => exact ⟨rfl, [], [], Cut.nil, fun h => by cases h⟩
  | append_singleton xs b ih =>
      rw [Deframer.feedAll_append, Deframer.outputs_append]
      exact ih.step b

/-! ## A frame is handed out -/

/-- What a whole body amounts to. -/
def received (dir : FrameDir) (body : List Byte) : Option (FrameMeta × List Byte) :=
  if body.length ≤ frameBufferMax then (FrameDecoder.validate { dir, body }).frame else none

/-- What is handed out of a stream. -/
def FrameDecoder.delivered (d : FrameDecoder) (xs : List Byte) : List (FrameMeta × List Byte) :=
  (outputs FrameDecoder.step d xs).reduceOption

theorem delivered_append (d : FrameDecoder) (xs ys : List Byte) :
    d.delivered (xs ++ ys) = d.delivered xs ++ (feedAll FrameDecoder.step d xs).delivered ys := by
  rw [FrameDecoder.delivered, Deframer.outputs_append, List.reduceOption_append]
  rfl

/-- Between frames what is not an END byte is skipped. -/
theorem feed_closed (hin : d.inFrame = false) (hxs : frameEnd ∉ xs) :
    feedAll FrameDecoder.step d xs = d ∧ d.delivered xs = [] := by
  induction xs with
  | nil => exact ⟨rfl, rfl⟩
  | cons b xs ih =>
      rw [List.mem_cons, not_or] at hxs
      have hb := step_closed hin (Ne.symm hxs.1)
      obtain ⟨hstate, hnone⟩ := ih hxs.2
      rw [FrameDecoder.delivered] at hnone ⊢
      rw [Deframer.feedAll_cons, Deframer.outputs_cons, hb, List.reduceOption_cons_of_none]
      exact ⟨hstate, hnone⟩

theorem feed_stuff (acc : List Byte) (b : Byte) :
    feedAll FrameDecoder.step (collecting dir acc) (frameCode.stuff b) =
        (if acc.length < frameBufferMax then collecting dir (acc ++ [b]) else closed dir) ∧
      (collecting dir acc).delivered (frameCode.stuff b) = [] := by
  have hstore := store_eq (collecting dir acc)
  by_cases hend : b = frameEnd
  · subst hend
    rw [show frameEnd = frameCode.mark from rfl, Stuffing.stuff_mark]
    exact ⟨(hstore frameEnd).2, congrArg (fun o => [none, o].reduceOption) (hstore frameEnd).1⟩
  · by_cases hesc : b = frameEsc
    · subst hesc
      rw [show frameEsc = frameCode.esc from rfl, Stuffing.stuff_esc]
      exact ⟨(hstore frameEsc).2, congrArg (fun o => [none, o].reduceOption) (hstore frameEsc).1⟩
    · have hstep : (collecting dir acc).step b =
          (((collecting dir acc).store b).1, ((collecting dir acc).store b).2.frame) := by
        simp [FrameDecoder.step, frameDecoderFeed, hend, hesc, collecting]
      rw [Stuffing.stuff_plain (c := frameCode) hend hesc, FrameDecoder.delivered,
        Deframer.feedAll_cons, Deframer.outputs_cons, hstep]
      exact ⟨(hstore b).2, congrArg (fun o => [o].reduceOption) (hstore b).1⟩

/-- A body is collected as long as the buffer has room for it. -/
theorem feed_stuffed {acc : List Byte} (hacc : acc.length ≤ frameBufferMax) (bs : List Byte) :
    feedAll FrameDecoder.step (collecting dir acc) (bs.flatMap frameCode.stuff) =
        (if (acc ++ bs).length ≤ frameBufferMax then collecting dir (acc ++ bs)
          else closed dir) ∧
      (collecting dir acc).delivered (bs.flatMap frameCode.stuff) = [] := by
  induction bs generalizing acc with
  | nil =>
      rw [List.append_nil, if_pos hacc]
      exact ⟨rfl, rfl⟩
  | cons b bs ih =>
      obtain ⟨hstate, hnone⟩ := @feed_stuff dir acc b
      rw [List.flatMap_cons, Deframer.feedAll_append, delivered_append, hstate, hnone,
        List.nil_append]
      by_cases hroom : acc.length < frameBufferMax
      · have hnext : (acc ++ [b]).length ≤ frameBufferMax := by
          rw [List.length_append, List.length_singleton]
          exact hroom
        rw [if_pos hroom, show acc ++ b :: bs = acc ++ [b] ++ bs by simp]
        exact ih hnext
      · have hlong : ¬ (acc ++ b :: bs).length ≤ frameBufferMax := by
          rw [List.length_append, List.length_cons]
          omega
        rw [if_neg hroom, if_neg hlong]
        exact feed_closed rfl (Stuffing.mark_notMem_flatMap (c := frameCode) bs)

/-- Between frames a framed body is received, whatever it is. -/
theorem feed_frame (hd : d.Between) (body : List Byte) :
    (feedAll FrameDecoder.step d
        (frameEnd :: (body.flatMap frameCode.stuff ++ [frameEnd]))).Between ∧
      (feedAll FrameDecoder.step d
        (frameEnd :: (body.flatMap frameCode.stuff ++ [frameEnd]))).dir = d.dir ∧
      d.delivered (frameEnd :: (body.flatMap frameCode.stuff ++ [frameEnd])) =
        (received d.dir body).toList := by
  have hopen := step_end_between hd
  obtain ⟨hstate, hnone⟩ := @feed_stuffed d.dir [] (Nat.zero_le _) body
  rw [List.nil_append] at hstate
  have hdelivered : d.delivered (frameEnd :: (body.flatMap frameCode.stuff ++ [frameEnd])) =
      (feedAll FrameDecoder.step (collecting d.dir []) (body.flatMap frameCode.stuff)).delivered
        [frameEnd] := by
    rw [FrameDecoder.delivered, Deframer.outputs_cons, hopen, List.reduceOption_cons_of_none]
    show (collecting d.dir []).delivered _ = _
    rw [delivered_append, hnone, List.nil_append]
  rw [hdelivered, Deframer.feedAll_cons, hopen, Deframer.feedAll_append, hstate,
    Deframer.feedAll_cons, Deframer.feedAll_nil, FrameDecoder.delivered, Deframer.outputs_cons]
  by_cases hfits : body.length ≤ frameBufferMax
  · rw [if_pos hfits, received, if_pos hfits]
    by_cases hempty : body = []
    · subst hempty
      refine ⟨.inr rfl, rfl, ?_⟩
      cases hdir : d.dir <;> rfl
    · rw [step_end_open (d := collecting d.dir body) rfl hempty]
      refine ⟨.inl rfl, rfl, ?_⟩
      show [((collecting d.dir body).validate).frame].reduceOption = _
      rw [show (collecting d.dir body).validate = FrameDecoder.validate { dir := d.dir, body }
        from rfl]
      cases (FrameDecoder.validate { dir := d.dir, body }).frame <;> rfl
  · rw [if_neg hfits, received, if_neg hfits]
    exact ⟨.inr rfl, rfl, rfl⟩

/-- In a frame that is cut off by the next one, the END byte of that one is taken for its own. -/
theorem feed_lost (hd : ¬ d.Between) (body : List Byte) :
    (feedAll FrameDecoder.step d
        (frameEnd :: (body.flatMap frameCode.stuff ++ [frameEnd]))).Between ∧
      (feedAll FrameDecoder.step d
        (frameEnd :: (body.flatMap frameCode.stuff ++ [frameEnd]))).dir = d.dir ∧
      d.delivered (frameEnd :: (body.flatMap frameCode.stuff ++ [frameEnd])) =
        d.validate.frame.toList := by
  obtain ⟨hin, hbody⟩ := not_or.mp hd
  have hend := step_end_open (Bool.eq_true_of_not_eq_false hin) hbody
  obtain ⟨hstate, hnone⟩ := feed_closed (d := closed d.dir) rfl
    (Stuffing.mark_notMem_flatMap (c := frameCode) body)
  have hopen : (closed d.dir).step frameEnd = (collecting d.dir [], none) :=
    step_end_between (.inl rfl)
  have hdelivered : d.delivered (frameEnd :: (body.flatMap frameCode.stuff ++ [frameEnd])) =
      d.validate.frame.toList := by
    rw [FrameDecoder.delivered, Deframer.outputs_cons, hend, Deframer.outputs_append, hstate,
      Deframer.outputs_cons, hopen]
    show ([d.validate.frame] ++ (outputs FrameDecoder.step (closed d.dir) _ ++ [none])).reduceOption
      = _
    rw [List.reduceOption_append, List.reduceOption_append]
    rw [FrameDecoder.delivered] at hnone
    rw [hnone]
    cases d.validate.frame <;> rfl
  rw [hdelivered, Deframer.feedAll_cons, hend, Deframer.feedAll_append, hstate,
    Deframer.feedAll_cons, hopen]
  exact ⟨.inr rfl, rfl, rfl⟩

/-! ## The frames of the commissioning tool -/

/-- The header of a frame of the master, its fields cut to their places. -/
def info (f : M2s) : FrameMeta where
  addr := .ofNat 8 f.addr
  cmd := .ofNat 16 f.cmd
  seq := .ofNat 8 f.seq
  payloadLen := .ofNat 8 f.payload.length

/-- What a frame of the master is received as, if it is not too long. -/
def arrives (f : M2s) : Option (FrameMeta × List Byte) :=
  if f.payload.length ≤ 128 then some (info f, f.payload) else none

theorem signed_eq (f : M2s) : f.signed = Comm.signed .m2s (info f) f.payload := by
  have hlo : (BitVec.ofNat 16 f.cmd).setWidth 8 = .ofNat 8 f.cmd := by
    apply BitVec.eq_of_toNat_eq
    simp only [BitVec.toNat_setWidth, BitVec.toNat_ofNat]
    omega
  have hhi : (BitVec.ofNat 16 f.cmd >>> 8).setWidth 8 = .ofNat 8 (f.cmd >>> 8) := by
    apply BitVec.eq_of_toNat_eq
    simp only [BitVec.toNat_setWidth, BitVec.toNat_ushiftRight, BitVec.toNat_ofNat,
      Nat.shiftRight_eq_div_pow]
    omega
  have hbody : f.body = (info f).hdr .m2s ++ f.payload := by
    rw [FrameMeta.hdr, info, hlo, hhi]
    rfl
  rw [M2s.signed, hbody]
  rfl

theorem encodeM2s_eq (f : M2s) :
    encodeM2s f = frameEnd :: (f.signed.flatMap frameCode.stuff ++ [frameEnd]) := rfl

/-- A payload that is too long is told by its length, or does not fit into the buffer. -/
theorem received_signed (f : M2s) : received .m2s f.signed = arrives f := by
  have hlen : (FrameDir.hdrLen .m2s) = 5 := rfl
  unfold received arrives
  rw [signed_eq, length_signed, hlen, frameBufferMax]
  by_cases hfits : f.payload.length ≤ 128
  · have hdeclared : (BitVec.ofNat 8 f.payload.length).toNat = f.payload.length := by
      rw [BitVec.toNat_ofNat]
      omega
    let frame : CommFrame .m2s :=
      { info := info f
        payload := f.payload
        len := hdeclared.symm
        fits := by
          rw [BitVec.le_def]
          exact hdeclared.trans_le hfits
        acks := fun _ => ⟨rfl, rfl⟩ }
    rw [if_pos (by omega), if_pos hfits]
    have hready : FrameDecoder.validate { dir := .m2s, body := frame.signed } =
        .frameReady (info f) f.payload := validate_eq_ready_iff.mpr ⟨frame, rfl, rfl, rfl⟩
    exact congrArg DecodeResult.frame hready
  · rw [if_neg hfits]
    by_cases hroom : 5 + f.payload.length + 1 ≤ 7 + 128 + 1
    · have hdeclared : (BitVec.ofNat 8 f.payload.length).toNat = f.payload.length := by
        rw [BitVec.toNat_ofNat]
        omega
      have hlong : (info f).payloadLen > commPayloadMax := by
        rw [gt_iff_lt, BitVec.lt_def]
        exact lt_of_not_ge fun h => hfits (hdeclared.symm.trans_le h)
      rw [if_pos hroom, @validate_eq _ (info f) f.payload _ (fun _ => ⟨rfl, rfl⟩) rfl,
        if_neg (by simp), if_pos (.inl hlong)]
      rfl
    · rw [if_neg hroom]

theorem delivered_frames (hd : d.Between) (hdir : d.dir = .m2s) (frames : List M2s) :
    d.delivered (frames.flatMap encodeM2s) = frames.filterMap arrives := by
  induction frames generalizing d with
  | nil => rfl
  | cons f frames ih =>
      obtain ⟨hbetween, hsame, hgot⟩ := feed_frame hd f.signed
      rw [← encodeM2s_eq] at hbetween hsame hgot
      rw [List.flatMap_cons, delivered_append, hgot, hdir, received_signed,
        ih hbetween (hsame.trans hdir)]
      cases harrives : arrives f with
      | none => rw [List.filterMap_cons_none harrives]; rfl
      | some got => rw [List.filterMap_cons_some harrives]; rfl

/-- Behind whatever bytes, the frames of the master are received in order, each once, but for those
that are too long. Only if a frame was open is the next one lost, and one that was cut off may be
received in its place. -/
theorem delivered_behind (noise : List Byte) (frames : List M2s) :
    let d := feedAll FrameDecoder.step (closed .m2s) noise
    ∃ stale : List (FrameMeta × List Byte), stale.length ≤ 1 ∧ (d.Between → stale = []) ∧
      d.delivered (frames.flatMap encodeM2s) =
        stale ++ (if d.Between then frames else frames.tail).filterMap arrives := by
  intro d
  have hdir : d.dir = .m2s := Deframer.feedAll_invariant (P := fun e : FrameDecoder => e.dir = .m2s)
    (fun e b h => (dir_step e b).trans h) rfl
  by_cases hd : d.Between
  · exact ⟨[], Nat.zero_le _, fun _ => rfl, by rw [delivered_frames hd hdir, if_pos hd]; rfl⟩
  · rw [if_neg hd]
    cases frames with
    | nil => exact ⟨[], Nat.zero_le _, fun _ => rfl, rfl⟩
    | cons f frames =>
        obtain ⟨hbetween, hsame, hgot⟩ := feed_lost hd f.signed
        rw [← encodeM2s_eq] at hbetween hsame hgot
        refine ⟨d.validate.frame.toList, ?_, fun h => absurd h hd, ?_⟩
        · cases d.validate.frame <;> simp
        · rw [List.flatMap_cons, delivered_append, hgot,
            delivered_frames hbetween (hsame.trans hdir), List.tail_cons]

end SlowBus.Comm
