import Mathlib.Data.List.Forall2
import SlowBus.Bus.Frame

/-!
# SLIP framing

The framing layer of the commissioning tool. A body is escaped byte by byte and put
between two END bytes; the decoder is fed whatever the serial port has, in any pieces.
-/

namespace SlowBus.Commission

open Bus (Byte)

def slipEnd : Byte := 0xC0
def slipEsc : Byte := 0xDB
def slipEscEnd : Byte := 0xDC
def slipEscEsc : Byte := 0xDD

/-- What `slip_encode` makes of one byte. -/
def slipEscape (b : Byte) : List Byte :=
  if b = slipEnd then [slipEsc, slipEscEnd]
  else if b = slipEsc then [slipEsc, slipEscEsc]
  else [b]

/-- `slip_encode` -/
def slipEncode (body : List Byte) : List Byte := slipEnd :: (body.flatMap slipEscape ++ [slipEnd])

structure SlipDecoder where
  buf : List Byte := []
  esc : Bool := false
  inFrame : Bool := false
  deriving DecidableEq, Repr

/-- One round of the loop of `feed`: the decoder and the body that it completes. -/
def SlipDecoder.byte (d : SlipDecoder) (b : Byte) : SlipDecoder × Option (List Byte) :=
  if b = slipEnd then
    ({ buf := [], esc := false, inFrame := true },
      if d.inFrame = true ∧ d.buf ≠ [] then some d.buf else none)
  else if d.esc = true then
    let raw := if b = slipEscEnd then slipEnd else if b = slipEscEsc then slipEsc else b
    ({ buf := d.buf ++ [raw], esc := false, inFrame := true }, none)
  else if b = slipEsc then ({ d with esc := true, inFrame := true }, none)
  else ({ d with buf := d.buf ++ [b], inFrame := true }, none)

/-- `SlipDecoder.feed`: the decoder and the bodies it returns. -/
def SlipDecoder.feed (d : SlipDecoder) : List Byte → SlipDecoder × List (List Byte)
  | [] => (d, [])
  | b :: data =>
      let (d, frame) := d.byte b
      let (d, frames) := d.feed data
      (d, frame.toList ++ frames)

/-- One call of `feed` after the other, and the bodies of all of them. -/
def SlipDecoder.feedChunks (d : SlipDecoder) : List (List Byte) → SlipDecoder × List (List Byte)
  | [] => (d, [])
  | data :: chunks =>
      let (d, frames) := d.feed data
      let (d, later) := d.feedChunks chunks
      (d, frames ++ later)

/-! ## Chunks -/

variable {d : SlipDecoder}

theorem feed_append (d : SlipDecoder) (xs ys : List Byte) :
    d.feed (xs ++ ys) = (((d.feed xs).1.feed ys).1, (d.feed xs).2 ++ ((d.feed xs).1.feed ys).2) := by
  induction xs generalizing d with
  | nil => rfl
  | cons b xs ih =>
      simp only [List.cons_append, SlipDecoder.feed, ih, List.append_assoc]

/-- Where the stream is cut makes no difference. -/
theorem feedChunks_eq (d : SlipDecoder) (chunks : List (List Byte)) :
    d.feedChunks chunks = d.feed chunks.flatten := by
  induction chunks generalizing d with
  | nil => rfl
  | cons data chunks ih =>
      rw [List.flatten_cons, feed_append]
      simp only [SlipDecoder.feedChunks, ih]

/-! ## Bodies -/

/-- The decoder behind an END byte. -/
def SlipDecoder.between : SlipDecoder := { buf := [], esc := false, inFrame := true }

theorem feed_end (d : SlipDecoder) (earlier : List Byte) :
    (d.feed (earlier ++ [slipEnd])).1 = .between := by
  rw [feed_append]
  rfl

/-- The escaped bytes of a body are collected. -/
theorem feed_escaped (acc body : List Byte) :
    SlipDecoder.feed { buf := acc, esc := false, inFrame := true } (body.flatMap slipEscape) =
      ({ buf := acc ++ body, esc := false, inFrame := true }, []) := by
  induction body generalizing acc with
  | nil => simp [SlipDecoder.feed]
  | cons b body ih =>
      have hbyte : SlipDecoder.feed { buf := acc, esc := false, inFrame := true } (slipEscape b) =
          ({ buf := acc ++ [b], esc := false, inFrame := true }, []) := by
        unfold slipEscape
        split
        next hend =>
          subst hend
          rfl
        next hend =>
          split
          next hesc =>
            subst hesc
            rfl
          next hesc => simp [SlipDecoder.feed, SlipDecoder.byte, hend, hesc]
      rw [List.flatMap_cons, feed_append, hbyte]
      dsimp only
      rw [ih, List.append_assoc]
      rfl

/-- A frame gives back its body. -/
theorem feed_slipEncode {body : List Byte} (hbody : body ≠ []) :
    SlipDecoder.between.feed (slipEncode body) = (.between, [body]) := by
  have hopen : SlipDecoder.between.feed (slipEncode body) =
      SlipDecoder.between.feed (body.flatMap slipEscape ++ [slipEnd]) := rfl
  have hclose : SlipDecoder.feed { buf := body, esc := false, inFrame := true } [slipEnd] =
      (.between, [body]) := by
    simp [SlipDecoder.feed, SlipDecoder.byte, SlipDecoder.between, hbody]
  rw [hopen, feed_append, SlipDecoder.between, feed_escaped, List.nil_append]
  dsimp only
  rw [hclose]
  rfl

theorem feed_frames {bodies : List (List Byte)} (hbodies : ∀ body ∈ bodies, body ≠ []) :
    SlipDecoder.between.feed (bodies.flatMap slipEncode) = (.between, bodies) := by
  induction bodies with
  | nil => rfl
  | cons body bodies ih =>
      obtain ⟨hbody, hbodies⟩ := List.forall_mem_cons.mp hbodies
      rw [List.flatMap_cons, feed_append, feed_slipEncode hbody]
      dsimp only
      rw [ih hbodies]
      rfl

/-! ## Frames of the master -/

/-- `crc8_autosar`, the CRC of the bus. -/
def crc8Autosar (data : List Byte) : Byte :=
  data.foldl (fun crc b => Nat.iterate Bus.crc8Shift 8 (crc ^^^ b)) 0xFF ^^^ 0xFF

/-- The arguments of `encode_m2s`. -/
structure M2s where
  addr : Nat
  cmd : Nat
  seq : Nat
  payload : List Byte
  deriving DecidableEq, Repr

/-- The header and the payload. -/
def M2s.body (f : M2s) : List Byte :=
  [.ofNat 8 f.addr, .ofNat 8 f.cmd, .ofNat 8 (f.cmd >>> 8), .ofNat 8 f.seq,
    .ofNat 8 f.payload.length] ++ f.payload

def M2s.signed (f : M2s) : List Byte := f.body ++ [crc8Autosar f.body]

/-- `encode_m2s` -/
def encodeM2s (f : M2s) : List Byte := slipEncode f.signed

/-- The fields fit their places in the header. -/
structure M2s.Fits (f : M2s) : Prop where
  addr : f.addr < 256
  cmd : f.cmd < 65536
  seq : f.seq < 256
  payload : f.payload.length ≤ 255

/-- A body has the header fields, the length and the payload of a frame, and ends with the
CRC of what is before it. -/
structure M2s.CarriedBy (f : M2s) (body : List Byte) : Prop where
  addr : ∃ b, body[0]? = some b ∧ b.toNat = f.addr
  cmd : ∃ lo hi, body[1]? = some lo ∧ body[2]? = some hi ∧ lo.toNat + 256 * hi.toNat = f.cmd
  seq : ∃ b, body[3]? = some b ∧ b.toNat = f.seq
  len : ∃ b, body[4]? = some b ∧ b.toNat = f.payload.length
  payload : (body.drop 5).dropLast = f.payload
  crc : body.getLast? = some (crc8Autosar body.dropLast)

theorem M2s.Fits.carried {f : M2s} (h : f.Fits) : f.CarriedBy f.signed where
  addr := ⟨_, rfl, Nat.mod_eq_of_lt h.addr⟩
  cmd := by
    refine ⟨_, _, rfl, rfl, ?_⟩
    have hcmd := h.cmd
    simp only [BitVec.toNat_ofNat, Nat.shiftRight_eq_div_pow]
    omega
  seq := ⟨_, rfl, Nat.mod_eq_of_lt h.seq⟩
  len := ⟨_, rfl, Nat.mod_eq_of_lt (Nat.lt_succ_of_le h.payload)⟩
  payload := by simp [M2s.signed, M2s.body]
  crc := by rw [M2s.signed, List.getLast?_concat, List.dropLast_concat]

/-- Whatever came before an END byte, and wherever the stream behind it is cut, the bodies
framed in it are returned in order; and so are those of the frames of the master. -/
theorem slip_round_trip (earlier : List (List Byte))
    (hearlier : earlier.flatten.getLast? = some slipEnd) :
    let d := (SlipDecoder.feedChunks {} earlier).1
    (∀ (bodies chunks : List (List Byte)), (∀ body ∈ bodies, body ≠ []) →
      chunks.flatten = bodies.flatMap slipEncode → (d.feedChunks chunks).2 = bodies) ∧
    ∀ (frames : List M2s) (chunks : List (List Byte)), (∀ f ∈ frames, f.Fits) →
      chunks.flatten = frames.flatMap encodeM2s →
        List.Forall₂ M2s.CarriedBy frames (d.feedChunks chunks).2 := by
  intro d
  have hd : d = .between := by
    obtain ⟨stream, hstream⟩ := List.getLast?_eq_some_iff.mp hearlier
    show (SlipDecoder.feedChunks {} earlier).1 = _
    rw [feedChunks_eq, hstream, feed_end]
  have hbodies : ∀ (bodies chunks : List (List Byte)), (∀ body ∈ bodies, body ≠ []) →
      chunks.flatten = bodies.flatMap slipEncode → (d.feedChunks chunks).2 = bodies := by
    intro bodies chunks hne hchunks
    rw [feedChunks_eq, hchunks, hd, feed_frames hne]
  refine ⟨hbodies, fun frames chunks hfits hchunks => ?_⟩
  rw [hbodies (frames.map M2s.signed) chunks]
  · exact List.forall₂_map_right_iff.mpr (List.forall₂_same.mpr fun f hf => (hfits f hf).carried)
  · simp [M2s.signed]
  · rw [hchunks, List.flatMap_map]
    rfl

/-- The bytes before are cut inside an escape pair, and so are the frames. -/
theorem slip_round_trip_cut :
    ((SlipDecoder.feedChunks {} [[1, slipEsc], [slipEnd]]).1.feedChunks
      [[0xC0, 0xDB], [], [0xDC, 1, 0xC0, 0xC0, 0xDB, 0xDD], [0xC0]]).2 = [[0xC0, 1], [0xDB]] :=
  (slip_round_trip [[1, slipEsc], [slipEnd]] rfl).1 _ _ (by decide) (by decide)

end SlowBus.Commission
