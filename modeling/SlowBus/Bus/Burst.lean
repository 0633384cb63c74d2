import Mathlib.Data.List.Flatten
import SlowBus.Bus.Transport
import SlowBus.Lib.Crc

/-!
# Bursts are detected

The CRC of a frame is the remainder of its bits, and the check byte brings that
remainder to zero. Bits inverted on the way add a remainder of their own, which is
not zero when they lie within the length of the register. The length word stays, so
the assembler compares the CRC at the word at which it would have, and it fails.
-/

namespace SlowBus.Bus

open Crc (bitsOf)

variable {a : Asm} {f g : Frame} {b c : Byte} {bs e : List Byte} {ws : List Word} {w : Word}

/-! ## The CRC as a register -/

/-- The bits that the CRC goes through, the highest of a byte first. -/
def crcBits (bs : List Byte) : List Bool := bs.flatMap bitsOf

theorem crc8Shift_eq : crc8Shift = Crc.shift 0x2F#8 := by
  funext r
  revert r
  decide +kernel

theorem busCrc8Update_eq (r b : Byte) : busCrc8Update r b = Crc.feed 0x2F#8 r (bitsOf b) := by
  rw [Crc.feed_bitsOf, busCrc8Update, crc8Shift_eq]

theorem foldl_busCrc8Update (r : Byte) (bs : List Byte) :
    bs.foldl busCrc8Update r = Crc.feed 0x2F#8 r (crcBits bs) := by
  induction bs generalizing r with
  | nil => rfl
  | cons b bs ih =>
      rw [List.foldl_cons, ih, busCrc8Update_eq, crcBits, crcBits, List.flatMap_cons,
        Crc.feed_append]

/-- The check byte of equal bytes takes the remainder to zero. -/
theorem busCrc8Update_self (r : Byte) : busCrc8Update r r = 0 := by
  rw [busCrc8Update, BitVec.xor_self]
  decide

theorem busCrc8Update_xor (r s b c : Byte) :
    busCrc8Update (r ^^^ s) (b ^^^ c) = busCrc8Update r b ^^^ busCrc8Update s c := by
  have hbits : bitsOf (b ^^^ c) = List.zipWith (· ^^ ·) (bitsOf b) (bitsOf c) := by
    simp [bitsOf, List.zipWith_map]
  rw [busCrc8Update_eq, hbits, Crc.feed_xor (by simp), ← busCrc8Update_eq, ← busCrc8Update_eq]

/-- What was inverted on the way adds a remainder of its own. -/
theorem foldl_xor (r s : Byte) (h : bs.length = e.length) :
    (List.zipWith (· ^^^ ·) bs e).foldl busCrc8Update (r ^^^ s) =
      bs.foldl busCrc8Update r ^^^ e.foldl busCrc8Update s := by
  induction bs generalizing r s e with
  | nil => cases e <;> simp at h ⊢
  | cons b bs ih =>
      match e, h with
      | c :: e, h =>
          rw [List.zipWith_cons_cons, List.foldl_cons, List.foldl_cons, List.foldl_cons,
            busCrc8Update_xor]
          exact ih _ _ (Nat.succ.inj h)

theorem burst_ne_zero (hburst : Crc.Confined 8 (crcBits e)) (herror : ∃ b ∈ e, b ≠ 0) :
    e.foldl busCrc8Update 0 ≠ 0 := by
  rw [foldl_busCrc8Update]
  apply Crc.feed_ne_zero (by decide) hburst
  obtain ⟨b, hmem, hb⟩ := herror
  apply List.mem_flatMap.mpr ⟨b, hmem, ?_⟩
  by_contra hclear
  apply hb
  apply BitVec.eq_of_getMsbD_eq
  intro i hi
  have hbit : b.getMsbD i ≠ true := by
    intro hset
    exact hclear (List.mem_map.mpr ⟨i, List.mem_range.mpr hi, hset⟩)
  simpa using hbit

/-! ## A damaged frame -/

/-- The data words of an encoded frame with some of their bits inverted. -/
def damagedWords (f : Frame) (e : List Byte) : List Word :=
  List.zipWith (fun w b => w ^^^ wordData b) ((busFrameEncode f).drop 2) e

theorem damagedWords_eq (hlen : f.len ≤ busPayloadMax) :
    damagedWords f e =
      (List.zipWith (· ^^^ ·) (f.bytes ++ [busFrameCrc f]) e).map wordData := by
  rw [damagedWords, busFrameEncode_eq hlen, List.drop_succ_cons, List.drop_succ_cons,
    List.drop_zero, List.zipWith_map_left, List.map_zipWith]
  simp [Frame.bytes, wordData, BitVec.setWidth_xor]

/-- Any header with a length the payload has room for begins a frame. -/
theorem exists_frame (dest : Byte) {len : Byte} (hlen : len ≤ busPayloadMax)
    (hlength : bs.length = len.toNat + 4) (hkeep : bs[3]? = some len) :
    ∃ g : Frame, g.dest = dest ∧ g.len = len ∧ g.bytes = bs := by
  match bs, hlength, hkeep with
  | s :: t :: q :: l :: rest, hlength, hkeep =>
      obtain rfl : l = len := by simpa using hkeep
      have hrest : rest.length = l.toNat := by simpa using hlength
      have hroom : l.toNat ≤ 240 := hlen
      refine ⟨⟨dest, s, t, q, l, Vector.ofFn fun i => rest.getD i.val 0⟩, rfl, rfl, ?_⟩
      have hbody : (Vector.ofFn fun i : Fin 240 => rest.getD i.val 0).toList.take l.toNat =
          rest := by
        apply List.ext_getElem
        · simp [hrest, hroom]
        · intro i hi hi'
          simp [hi']
      exact congrArg ([s, t, q, l] ++ ·) hbody

/-- What the damaged words say is a frame too, up to its check byte. -/
theorem exists_damaged (hlen : f.len ≤ busPayloadMax) (hlength : e.length = f.len.toNat + 5)
    (hkeep : e[3]? = some 0) : ∃ c, ∃ g : Frame, g.dest = f.dest ∧ g.len = f.len ∧
      List.zipWith (· ^^^ ·) (f.bytes ++ [busFrameCrc f]) e = g.bytes ++ [c] := by
  have hbytes := length_bytes hlen
  set received := List.zipWith (· ^^^ ·) (f.bytes ++ [busFrameCrc f]) e with hreceived
  have hcount : received.length = f.len.toNat + 5 := by
    rw [hreceived, List.length_zipWith, List.length_append, hbytes, hlength, List.length_singleton]
    omega
  have hne : received ≠ [] := by
    intro hnil
    rw [hnil] at hcount
    simp at hcount
  have hlenWord : received.dropLast[3]? = some f.len := by
    rw [List.getElem?_dropLast, if_pos (by omega), hreceived, List.getElem?_zipWith, hkeep]
    simp [Frame.bytes]
  obtain ⟨g, hdest, hglen, hg⟩ := exists_frame f.dest hlen
    (by rw [List.length_dropLast, hcount]; rfl) hlenWord
  refine ⟨received.getLast hne, g, hdest, hglen, ?_⟩
  rw [hg, List.dropLast_append_getLast]

theorem busFrameCrc_bytes (f : Frame) :
    busFrameCrc f = (f.dest :: f.bytes).foldl busCrc8Update 0xFF ^^^ 0xFF := by
  rw [busFrameCrc_eq]
  rfl

/-- The check byte of a damaged frame does not fit what the others have become. -/
theorem busFrameCrc_damaged (hdest : g.dest = f.dest) (hlength : e.length = f.bytes.length + 1)
    (hburst : Crc.Confined 8 (crcBits e)) (herror : ∃ b ∈ e, b ≠ 0)
    (hbytes : List.zipWith (· ^^^ ·) (f.bytes ++ [busFrameCrc f]) e = g.bytes ++ [c]) :
    busFrameCrc g ≠ c := by
  obtain ⟨es, d, rfl⟩ : ∃ es d, e = es ++ [d] := by
    refine ⟨e.dropLast, e.getLast ?_, (List.dropLast_append_getLast _).symm⟩
    rintro rfl
    simp at hlength
  have hes : f.bytes.length = es.length := by simpa using hlength.symm
  rw [List.zipWith_append hes, List.zipWith_cons_cons, List.zipWith_nil_left] at hbytes
  obtain ⟨hg, hc⟩ := List.append_inj' hbytes rfl
  obtain rfl : busFrameCrc f ^^^ d = c := (List.cons.inj hc).1
  have hcovered : g.dest :: g.bytes = List.zipWith (· ^^^ ·) (f.dest :: f.bytes) (0 :: es) := by
    rw [List.zipWith_cons_cons, hg, hdest]
    exact congrArg (· :: g.bytes) BitVec.xor_zero.symm
  have hremainder : (g.dest :: g.bytes).foldl busCrc8Update 0xFF =
      (f.dest :: f.bytes).foldl busCrc8Update 0xFF ^^^ es.foldl busCrc8Update 0 := by
    rw [hcovered]
    exact foldl_xor 0xFF 0 (by rw [List.length_cons, List.length_cons, hes])
  intro hfits
  apply burst_ne_zero hburst herror
  -- The inverted bits would have to leave the remainder that the check byte lost.
  have hlast : es.foldl busCrc8Update 0 = d := by
    rw [busFrameCrc_bytes, busFrameCrc_bytes, hremainder, BitVec.xor_assoc, BitVec.xor_assoc,
      BitVec.xor_right_inj, BitVec.xor_comm, BitVec.xor_right_inj] at hfits
    exact hfits
  rw [List.foldl_append, List.foldl_cons, List.foldl_nil, hlast, busCrc8Update_self]

/-! ## The assembler at a damaged frame -/

theorem run_concat (a : Asm) (ws : List Word) (w : Word) :
    a.run (ws ++ [w]) = ((a.run ws).feed w).1 := Deframer.feedAll_append

theorem noise_wordData (bs : List Byte) : Noise (bs.map wordData) := by
  intro w hw
  obtain ⟨b, _, rfl⟩ := List.mem_map.mp hw
  exact isAddr_wordData b

theorem run_idle (h : Noise ws) (hidle : a.state = .idle) :
    a.run ws = a ∧ a.returns ws = List.replicate ws.length none := by
  induction ws with
  | nil => exact ⟨rfl, rfl⟩
  | cons w ws ih =>
      obtain ⟨hw, hws⟩ := List.forall_mem_cons.mp h
      have hfeed : a.feed w = (a, none) := by simp [Asm.feed, hw, hidle]
      have htail := ih hws
      rw [Asm.run, Asm.returns, Deframer.feedAll_cons, Deframer.outputs_cons, hfeed,
        List.length_cons, List.replicate_succ]
      exact ⟨htail.1, congrArg _ htail.2⟩

theorem counters_feed_open (hopen : (a.feed w).1.state ≠ .idle) :
    (a.feed w).1.framesOk = a.framesOk ∧ (a.feed w).1.crcFail = a.crcFail := by
  unfold Asm.feed at hopen ⊢
  dsimp only at hopen ⊢
  split at hopen
  next haddr =>
    rw [if_pos haddr]
    split <;> exact ⟨rfl, rfl⟩
  next haddr =>
    rw [if_neg haddr]
    cases hstate : a.state with
    | crc =>
        simp only [hstate] at hopen
        split at hopen <;> exact absurd rfl hopen
    | len =>
        simp only
        split <;> exact ⟨rfl, rfl⟩
    | _ => exact ⟨rfl, rfl⟩

/-- While a frame is open nothing is counted. -/
theorem counters_open (h : Noise ws) (hopen : (a.run ws).state ≠ .idle) :
    (a.run ws).framesOk = a.framesOk ∧ (a.run ws).crcFail = a.crcFail := by
  induction ws generalizing a with
  | nil => exact ⟨rfl, rfl⟩
  | cons w ws ih =>
      obtain ⟨_, hws⟩ := List.forall_mem_cons.mp h
      have htail := ih hws hopen
      -- Data words do not open a frame again.
      have hfeed : (a.feed w).1.state ≠ .idle := by
        intro hidle
        apply hopen
        rw [show a.run (w :: ws) = (a.feed w).1.run ws from rfl, (run_idle hws hidle).1, hidle]
      have hword := counters_feed_open hfeed
      exact ⟨htail.1.trans hword.1, htail.2.trans hword.2⟩

/-- All of a frame but its CRC has come. -/
theorem crc_of_pending (h : a.Ok) (hlen : g.len ≤ busPayloadMax)
    (hpending : a.pending = some (g.dest, g.bytes)) :
    a.state = .crc ∧ busFrameCrc a.acc = busFrameCrc g := by
  unfold Asm.pending at hpending
  dsimp only at hpending
  have hfour : 4 ≤ g.bytes.length := by rw [length_bytes hlen]; omega
  cases hstate : a.state with
  | crc =>
      rw [hstate] at hpending
      obtain ⟨hdest, hbytes⟩ := Prod.mk.inj (Option.some.inj hpending)
      refine ⟨rfl, ?_⟩
      rw [busFrameCrc_bytes, busFrameCrc_bytes, ← hdest, ← hbytes]
      rfl
  | payload =>
      rw [hstate] at hpending
      obtain ⟨hdest, hbytes⟩ := Prod.mk.inj (Option.some.inj hpending)
      exfalso
      have hcursor : a.idx.toNat < a.acc.len.toNat := h.cursor hstate
      have hshort := congrArg List.length hbytes
      have hheader : a.acc.len = g.len := by
        have h3 := congrArg (fun bs : List Byte => bs[3]?) hbytes
        simpa [Frame.bytes] using h3
      rw [length_bytes hlen, ← hheader, List.length_append, List.length_take] at hshort
      simp at hshort
      omega
  | idle =>
      rw [hstate] at hpending
      cases hpending
  | src | type | seq | len =>
      rw [hstate] at hpending
      obtain ⟨_, hbytes⟩ := Prod.mk.inj (Option.some.inj hpending)
      rw [← hbytes] at hfour
      simp at hfour

/-- An open assembler at the data words of a frame whose CRC does not fit. -/
theorem run_damaged (h : a.Ok) (hlen : g.len ≤ busPayloadMax)
    (hopen : a.pending = some (g.dest, [])) (hcrc : busFrameCrc g ≠ c) :
    a.returns ((g.bytes ++ [c]).map wordData) = List.replicate (g.bytes.length + 1) none ∧
      (a.run ((g.bytes ++ [c]).map wordData)).framesOk = a.framesOk ∧
      (a.run ((g.bytes ++ [c]).map wordData)).crcFail = a.crcFail + 1 := by
  have hsymbols : (g.bytes.map wordData).map Word.symbol = g.bytes.map .data := by
    simp [symbol_wordData, Function.comp_def]
  have hjudge : ∀ n, ([] : List Byte).length < n → n ≤ ([] ++ g.bytes).length →
      (busFormat a.addrIsForUs).judge g.dest (([] ++ g.bytes).take n) = .more :=
    fun n _ _ => busJudge_prefix hlen
  have hmore := Deframer.open_more [] hjudge
  obtain ⟨hpending, hreturns⟩ := pending_run h (g.bytes.map wordData)
  rw [hopen, hsymbols, hmore.1] at hpending
  rw [hopen, hsymbols, hmore.2] at hreturns
  have hquiet : a.returns (g.bytes.map wordData) = List.replicate g.bytes.length none := by
    apply List.eq_replicate_iff.mpr
    refine ⟨by simp [Asm.returns], ?_⟩
    intro o ho
    have hmap := List.mem_map_of_mem (f := Option.map Frame.message) ho
    rw [← hreturns] at hmap
    exact Option.map_eq_none_iff.mp (List.eq_of_mem_replicate hmap)
  obtain ⟨hstate, hacc⟩ := crc_of_pending (ok_run h _) hlen hpending.symm
  have hcounters := counters_open (a := a) (noise_wordData g.bytes) (by rw [hstate]; simp)
  have hlast : ((a.run (g.bytes.map wordData)).feed (wordData c)) =
      ({ a.run (g.bytes.map wordData) with
        state := .idle
        crcFail := (a.run (g.bytes.map wordData)).crcFail + 1 }, none) := by
    simp [Asm.feed, hstate, hacc, hcrc]
  have hlastReturn : (a.run (g.bytes.map wordData)).returns [wordData c] = [none] := by
    rw [Asm.returns, Deframer.outputs_cons, hlast, Deframer.outputs_nil]
  rw [List.map_append, List.map_singleton, run_concat, hlast, List.replicate_succ', ← hquiet,
    ← hlastReturn]
  exact ⟨Deframer.outputs_append, hcounters.1, congrArg (· + 1) hcounters.2⟩

/-- After its address word a frame is open if it is addressed. -/
theorem pending_start (a : Asm) (ws : List Word) (hdest : f.dest ≤ busAddrMask)
    (hlen : f.len ≤ busPayloadMax) : (a.run (ws ++ (busFrameEncode f).take 2)).pending =
      if a.addrIsForUs f.dest then some (f.dest, []) else none := by
  have htake : (busFrameEncode f).take 2 = [busPreambleWord] ++ [wordAddr f.dest] := by
    rw [busFrameEncode_eq hlen]
    rfl
  have hours := addrIsForUs_run a (ws ++ [busPreambleWord])
  rw [htake, ← List.append_assoc, run_concat, feed_addr (isAddr_wordAddr f.dest),
    byte_wordAddr hdest, hours]
  cases a.addrIsForUs f.dest <;> rfl

/-- Whatever an assembler has received, when bits of an encoded frame are inverted
after its address word, not in its length, and all within eight consecutive bits of
the string that the CRC covers, no frame is returned at any of its words. If the
frame is addressed exactly one failure is counted, and no frame. -/
theorem burst_detected (acc : Frame) (myAddr : Byte) (promiscuous : Bool) (before : List Word)
    (f : Frame) (e : List Byte) (hdest : f.dest ≤ busAddrMask) (hlen : f.len ≤ busPayloadMax)
    (hlength : e.length = f.len.toNat + 5) (hkeep : e[3]? = some 0)
    (hburst : Crc.Confined 8 (crcBits e)) (herror : ∃ b ∈ e, b ≠ 0) :
    let a := (Asm.init acc myAddr promiscuous).run (before ++ (busFrameEncode f).take 2)
    a.returns (damagedWords f e) = List.replicate (f.len.toNat + 5) none ∧
      (a.run (damagedWords f e)).framesOk = a.framesOk ∧
      (a.run (damagedWords f e)).crcFail =
        a.crcFail + if takes myAddr promiscuous f.dest then 1 else 0 := by
  intro a
  have hok : a.Ok := ok_run (ok_init acc myAddr promiscuous) _
  obtain ⟨c, g, hdest', hlen', hbytes⟩ := exists_damaged hlen hlength hkeep
  have hcrc := busFrameCrc_damaged hdest' (by rw [hlength, length_bytes hlen]) hburst herror hbytes
  have hstart : a.pending =
      if takes myAddr promiscuous f.dest then some (f.dest, []) else none := by
    exact pending_start _ before hdest hlen
  rw [damagedWords_eq hlen, hbytes]
  have hroom : g.len ≤ busPayloadMax := by rw [hlen']; exact hlen
  have hcount : g.bytes.length = f.len.toNat + 4 := by rw [length_bytes hroom, hlen']
  cases htakes : takes myAddr promiscuous f.dest with
  | true =>
      rw [htakes, if_pos rfl, ← hdest'] at hstart
      have hrun := run_damaged hok hroom hstart hcrc
      rw [hcount] at hrun
      exact hrun
  | false =>
      rw [htakes] at hstart
      obtain ⟨hrun, hreturns⟩ := run_idle (noise_wordData (g.bytes ++ [c]))
        (pending_eq_none.mp hstart)
      rw [hrun, hreturns, List.length_map, List.length_append, hcount]
      exact ⟨rfl, rfl, (BitVec.add_zero _).symm⟩

/-- A burst of two bits, one in the source and one in the type. -/
theorem burst_detected_short :
    let a := (Asm.init shortFrame 5 false).run
      ([0x105, 0x042] ++ (busFrameEncode shortFrame).take 2)
    let damaged := damagedWords shortFrame [0x01, 0x80, 0, 0, 0]
    damaged ≠ (busFrameEncode shortFrame).drop 2 ∧ a.returns damaged = List.replicate 5 none ∧
      (a.run damaged).framesOk = a.framesOk ∧ (a.run damaged).crcFail = a.crcFail + 1 := by
  have hbits : ∀ i < 40, (crcBits [0x01, 0x80, 0, 0, 0])[i]? = some true → 7 ≤ i ∧ i < 7 + 8 := by
    decide +kernel
  refine ⟨by decide +kernel, ?_⟩
  apply burst_detected shortFrame 5 false [0x105, 0x042] shortFrame [0x01, 0x80, 0, 0, 0]
    (by decide) (by decide) (by decide) rfl
  · refine ⟨7, fun i hi => hbits i ?_ hi⟩
    exact (List.getElem?_eq_some_iff.mp hi).1
  · exact ⟨0x01, by simp, by decide⟩

end SlowBus.Bus
