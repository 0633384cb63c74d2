import Mathlib.Algebra.Ring.Nat
import Mathlib.Data.List.Basic
import Mathlib.Logic.Function.Iterate
import Mathlib.Order.Basic
import SlowBus.Lib.Deframer

/-!
# Frames on the wire

The frame of the bus, its encoding as 9-bit words and the reassembly of received
words. Bit 8 marks the destination address; the bytes that follow it carry the
source, the type, a sequence number, the length, the payload and a CRC.
-/

namespace SlowBus.Bus

open Deframer (feedAll outputs)

abbrev Byte := BitVec 8

/-- A word as the PHY hands it over; only the low nine bits matter. -/
abbrev Word := BitVec 16

def busAddrMaster : Byte := 0x00
def busAddrBroadcast : Byte := 0x7F
def busAddrPromiscuous : Byte := 0xFF
def busAddrMask : Byte := 0x7F
def busPayloadMax : Byte := 240
def busPreambleWord : Word := 0x0FF

/-- `BUS_WORD_ADDR` -/
def wordAddr (a : Byte) : Word := 0x100#16 ||| (a &&& busAddrMask).setWidth 16

/-- `BUS_WORD_DATA` -/
def wordData (b : Byte) : Word := b.setWidth 16

/-- `BUS_WORD_IS_ADDR` -/
def Word.isAddr (w : Word) : Bool := w &&& 0x100#16 ≠ 0

/-- `BUS_WORD_DATA_MASK` -/
def Word.byte (w : Word) : Byte := (w &&& 0xFF#16).setWidth 8

@[simp] theorem isAddr_wordAddr (a : Byte) : Word.isAddr (wordAddr a) = true := by
  revert a; decide +kernel

@[simp] theorem isAddr_wordData (b : Byte) : Word.isAddr (wordData b) = false := by
  revert b; decide +kernel

@[simp] theorem byte_wordData (b : Byte) : Word.byte (wordData b) = b := by
  revert b; decide +kernel

theorem byte_wordAddr {a : Byte} (h : a ≤ busAddrMask) : Word.byte (wordAddr a) = a := by
  revert a; decide +kernel

@[simp] theorem wordData_preamble : wordData 0xFF = busPreambleWord := by decide

/-! ## CRC-8/AUTOSAR -/

/-- One round of the loop of `bus_crc8_update`. -/
def crc8Shift (crc : Byte) : Byte :=
  if crc &&& 0x80#8 ≠ 0 then (crc <<< 1) ^^^ 0x2F#8 else crc <<< 1

def busCrc8Update (crc byte : Byte) : Byte := Nat.iterate crc8Shift 8 (crc ^^^ byte)

def busCrc8 (data : List Byte) : Byte := data.foldl busCrc8Update 0xFF ^^^ 0xFF

/-- The reference vector of the algorithm: the digits 1 to 9. -/
example : busCrc8 [0x31, 0x32, 0x33, 0x34, 0x35, 0x36, 0x37, 0x38, 0x39] = 0xDF := by decide +kernel

/-! ## Frames -/

/-- `bus_frame_t`. Of the payload only the first `len` bytes count; the rest is
whatever the memory held before. -/
structure Frame where
  dest : Byte
  src : Byte
  type : Byte
  seq : Byte
  len : Byte
  payload : Vector Byte 240
  deriving DecidableEq, Repr

/-- The bytes of the payload that count. -/
def Frame.body (f : Frame) : List Byte := f.payload.toList.take f.len.toNat

/-- What a frame says. -/
structure Message where
  dest : Byte
  src : Byte
  type : Byte
  seq : Byte
  len : Byte
  payload : List Byte
  deriving DecidableEq, Repr

def Frame.message (f : Frame) : Message := ⟨f.dest, f.src, f.type, f.seq, f.len, f.body⟩

/-- `bus_frame_crc`, for a length the payload has room for. -/
def busFrameCrc (f : Frame) : Byte :=
  let c := busCrc8Update 0xFF f.dest
  let c := busCrc8Update c f.src
  let c := busCrc8Update c f.type
  let c := busCrc8Update c f.seq
  let c := busCrc8Update c f.len
  f.body.foldl busCrc8Update c ^^^ 0xFF

/-- `bus_frame_encode` -/
def busFrameEncode (f : Frame) : List Word :=
  let f := { f with len := if f.len > busPayloadMax then busPayloadMax else f.len }
  busPreambleWord :: wordAddr f.dest ::
    (([f.src, f.type, f.seq, f.len] ++ f.body ++ [busFrameCrc f]).map wordData)

theorem busFrameCrc_eq (f : Frame) :
    busFrameCrc f = busCrc8 ([f.dest, f.src, f.type, f.seq, f.len] ++ f.body) := by
  simp [busFrameCrc, busCrc8]

theorem length_body {f : Frame} (h : f.len ≤ busPayloadMax) : f.body.length = f.len.toNat := by
  have hlen : f.len.toNat ≤ 240 := h
  simp [Frame.body, hlen]

theorem busFrameEncode_eq {f : Frame} (h : f.len ≤ busPayloadMax) :
    busFrameEncode f = busPreambleWord :: wordAddr f.dest ::
      (([f.src, f.type, f.seq, f.len] ++ f.body ++ [busFrameCrc f]).map wordData) := by
  have hlen : ¬ f.len > busPayloadMax := by
    intro hgt
    exact absurd h (BitVec.not_le.mpr hgt)
  rw [busFrameEncode, if_neg hlen]

/-! ## The assembler -/

/-- `bus_asm_state_t` -/
inductive AsmState where
  | idle | src | type | seq | len | payload | crc
  deriving DecidableEq, Repr

/-- `bus_asm_t` -/
structure Asm where
  state : AsmState
  acc : Frame
  idx : Byte
  myAddr : Byte
  promiscuous : Bool
  crcFail : BitVec 32
  framesOk : BitVec 32
  deriving Repr

/-- `bus_asm_init`; it leaves the accumulator as it finds it. -/
def Asm.init (acc : Frame) (myAddr : Byte) (promiscuous : Bool) : Asm where
  state := .idle
  acc := acc
  idx := 0
  myAddr := myAddr
  promiscuous := promiscuous || myAddr == busAddrPromiscuous
  crcFail := 0
  framesOk := 0

def Asm.addrIsForUs (a : Asm) (dest : Byte) : Bool :=
  a.promiscuous || dest == a.myAddr || dest == busAddrBroadcast

/-- `bus_asm_feed`: the frame is there when it returns true. -/
def Asm.feed (a : Asm) (word9 : Word) : Asm × Option Frame :=
  let b := Word.byte word9
  if Word.isAddr word9 then
    -- An address word restarts the assembler in every state.
    if a.addrIsForUs b then ({ a with acc := { a.acc with dest := b }, state := .src }, none)
    else ({ a with state := .idle }, none)
  else
    match a.state with
    | .src => ({ a with acc := { a.acc with src := b }, state := .type }, none)
    | .type => ({ a with acc := { a.acc with type := b }, state := .seq }, none)
    | .seq => ({ a with acc := { a.acc with seq := b }, state := .len }, none)
    | .len =>
        if b > busPayloadMax then ({ a with state := .idle }, none)
        else ({ a with
          acc := { a.acc with len := b }
          idx := 0
          state := if b = 0 then .crc else .payload }, none)
    | .payload =>
        let acc := { a.acc with payload := a.acc.payload.setIfInBounds a.idx.toNat b }
        let idx := a.idx + 1
        ({ a with
          acc
          idx
          state := if idx ≥ acc.len then .crc else .payload }, none)
    | .crc =>
        if busFrameCrc a.acc = b then
          ({ a with state := .idle, framesOk := a.framesOk + 1 }, some a.acc)
        else ({ a with state := .idle, crcFail := a.crcFail + 1 }, none)
    | .idle => (a, none)

/-- The assembler after a stream of words. -/
def Asm.run (a : Asm) (ws : List Word) : Asm := feedAll Asm.feed a ws

/-- What `bus_asm_feed` returns, word by word. -/
def Asm.returns (a : Asm) (ws : List Word) : List (Option Frame) := outputs Asm.feed a ws

end SlowBus.Bus
