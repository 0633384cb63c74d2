import SlowBus.Boot.Cbor

/-!
# The readers of the boot files

Each of the files 'idnt', 'slvr', 'hwio' and 'neti' is a map from short text keys. A reader
opens the map and goes through its pairs; it knows some keys and passes over the values of the
others. What it returns is a code, with what it leaves in the structure it fills.
-/

namespace SlowBus.Boot

open Prog
open Cbor (Octets)

/-! ## The loop over the pairs of a map -/

section Pairs

variable {ε α β : Type}

/-- The bytes of a text in the source. -/
def ascii (text : List Char) : Octets := text.map fun ch => BitVec.ofNat 8 ch.toNat

/-- Bytes are read from an address, as `memcpy` and `memcmp` do. -/
def readBytes (mem : Mem) (q n : Nat) : Decode ε Octets := fun c =>
  ⟨.ok (bytesAt mem q n), c, (List.range n).map fun i => .read (ptrAdd q i)⟩

/-- `CBOR_KEY`: the lengths are compared before the bytes are. -/
def cborKey (mem : Mem) (k : Slice) (s : Octets) : Decode ε Bool :=
  if k.len = s.length then do
    let w ← readBytes mem k.ptr k.len
    pure (decide (w = s))
  else pure false

/-- The keys a reader knows, with what it does with the value of each. -/
abbrev Keys (ε α : Type) := List (Octets × (α → Decode ε α))

/-- The chain of comparisons with the known keys. -/
def onKey (mem : Mem) (k : Slice) (other : α → Decode ε α) : Keys ε α → α → Decode ε α
  | [], acc => other acc
  | (s, m) :: keys, acc => do
      let hit ← cborKey mem k s
      if hit then m acc else onKey mem k other keys acc

/-- `else if (!cbor_skip(&c)) return e;` -/
def skipValue (mem : Mem) (fuel : Nat) (e : α → ε) (acc : α) : Decode ε α := do
  (cborSkip mem fuel).orFail (e acc)
  pure acc

/-- One pair: a text, and the value of the key it is. -/
def onePair (mem : Mem) (fuel : Nat) (e : α → ε) (keys : Keys ε α) (acc : α) : Decode ε α := do
  let k ← (cborStr mem cborText).orFail (e acc)
  onKey mem k (skipValue mem fuel e) keys acc

/-- The map at the cursor, pair by pair. -/
def readPairs (mem : Mem) (fuel : Nat) (e : α → ε) (keys : Keys ε α) (acc : α) : Decode ε α := do
  let np ← (cborOpen mem cborMap).orFail (e acc)
  loop (fun _ acc => onePair mem fuel e keys acc) 0 np acc

/-- `if (!cbor_uint(&c, &x)) return e;`, and what is done with `x`. -/
def uintInto (mem : Mem) (e : α → ε) (set : α → Nat → α) (acc : α) : Decode ε α := do
  let x ← (cborUint mem).orFail (e acc)
  pure (set acc x)

/-- `copy_text`: the text is cut to fit and ends with a zero. -/
def copyText (mem : Mem) (dst : Octets) (cap : Nat) (s : Slice) : Decode ε Octets := do
  let n := if s.len ≥ cap then cap - 1 else s.len
  let w ← readBytes mem s.ptr n
  pure (w ++ 0 :: dst.drop (n + 1))

/-- A text copied into a field of `cap` bytes. -/
def textInto (mem : Mem) (e : α → ε) (cap : Nat) (get : α → Octets) (set : α → Octets → α)
    (acc : α) : Decode ε α := do
  let s ← (cborStr mem cborText).orFail (e acc)
  let w ← copyText mem (get acc) cap s
  pure (set acc w)

/-- A reader on a file that `cfg_load` put into the buffer at `buf`, or did not find. -/
def onFile (missing : β) (buf : Nat) (load : Option Nat) (read : Decode β β) :
    Run Cursor Access β β :=
  match load with
  | none => ⟨.ok missing, cborInit buf 0, []⟩
  | some len => read (cborInit buf len)

/-- What a reader returned, unless it did not return. -/
def returned : Run Cursor Access β β → Option β
  | ⟨.ok b, _, _⟩ => some b
  | ⟨.fail b, _, _⟩ => some b
  | ⟨.spent, _, _⟩ => none

end Pairs

/-! ## The identity -/

section Identity

inductive IdentCode where
  | ok | missing | format | schema | chip | variant | uuid | addr
deriving DecidableEq

/-- `identity_t`. -/
structure Identity where
  chip : Nat
  variant : Nat
  addr : Nat
  baud : Nat
  uuid : Octets

/-- The locals of `boot_read_identity`; `uid` points into the buffer. -/
structure IdentLocals where
  v : Nat := 0
  ch : Nat := 2 ^ 64 - 1
  vr : Nat := 2 ^ 64 - 1
  ad : Nat := 2 ^ 64 - 1
  sp : Nat := 0
  uid : Slice := ⟨0, 0⟩
  seen : BitVec 8 := 0

def identSchemaVer : Nat := 1
def busAddrMaster : Nat := 0x00
def busAddrSlaveMin : Nat := 0x01
def busAddrSlaveMax : Nat := 0x7E

def variantIsMaster (v : Nat) : Bool := v = 1 ∨ v = 2

def variantSupported (v : Nat) : Bool := v = 1 ∨ v = 3

def identUid (mem : Mem) (l : IdentLocals) : Decode IdentCode IdentLocals := do
  let s ← (cborStr mem cborBytes).orFail .format
  pure { l with uid := s, seen := l.seen ||| 16 }

def identKeys (mem : Mem) : Keys IdentCode IdentLocals :=
  let e := fun _ : IdentLocals => IdentCode.format
  [(ascii ['v'], uintInto mem e fun l x => { l with v := x, seen := l.seen ||| 1 }),
   (ascii ['c', 'h'], uintInto mem e fun l x => { l with ch := x, seen := l.seen ||| 2 }),
   (ascii ['v', 'r'], uintInto mem e fun l x => { l with vr := x, seen := l.seen ||| 4 }),
   (ascii ['a', 'd'], uintInto mem e fun l x => { l with ad := x, seen := l.seen ||| 8 }),
   (ascii ['s', 'p'], uintInto mem e fun l x => { l with sp := x }),
   (ascii ['i', 'd'], identUid mem)]

/-- The checks after the loop, for the chip the image is built for and the id of the board. -/
def identCheck (mem : Mem) (buildChip : Nat) (board : Vector (BitVec 8) 8) (l : IdentLocals) :
    Decode IdentCode Identity :=
  if l.seen ≠ 31 then fail .format
  else if l.v ≠ identSchemaVer then fail .schema
  else if l.ch ≠ buildChip then fail .chip
  else if ¬variantSupported (l.vr % 256) then fail .variant
  else if l.uid.len ≠ 8 then fail .uuid
  else do
    let uid ← readBytes mem l.uid.ptr l.uid.len
    if uid ≠ board.toList then fail .uuid
    else if variantIsMaster (l.vr % 256) ∧ l.ad ≠ busAddrMaster then fail .addr
    else if ¬variantIsMaster (l.vr % 256) ∧ (l.ad < busAddrSlaveMin ∨ l.ad > busAddrSlaveMax) then
      fail .addr
    else do
      let uuid ← readBytes mem l.uid.ptr l.uid.len
      pure { chip := l.ch % 256, variant := l.vr % 256, addr := l.ad % 256,
             baud := l.sp % 2 ^ 32, uuid := uuid }

/-- `boot_read_identity` on the buffer; `out` is filled on success only. -/
def parseIdentity (mem : Mem) (fuel buildChip : Nat) (board : Vector (BitVec 8) 8)
    (out : Identity) : Decode (IdentCode × Identity) (IdentCode × Identity) :=
  Prog.mapFail (fun code => (code, out)) do
    let l ← readPairs mem fuel (fun _ => .format) (identKeys mem) {}
    let identity ← identCheck mem buildChip board l
    pure (.ok, identity)

def bootReadIdentity (mem : Mem) (fuel buildChip : Nat) (board : Vector (BitVec 8) 8)
    (buf : Nat) (load : Option Nat) (out : Identity) :
    Run Cursor Access (IdentCode × Identity) (IdentCode × Identity) :=
  onFile (.missing, out) buf load (parseIdentity mem fuel buildChip board out)

end Identity

/-! ## The roster -/

section Roster

inductive RosterCode where
  | ok | missing | format | schema
deriving DecidableEq

/-- `roster_slave_t`. -/
structure RosterSlave where
  addr : Nat := 0
  variant : Nat := 0
  flags : Nat := 0
deriving DecidableEq

def rosterFileMax : Nat := 32

/-- `roster_cfg_t`, zeroed. -/
structure RosterCfg where
  grantPeriodMs : Nat := 0
  windowUs : Nat := 0
  maxMisses : Nat := 0
  tcpRetries : Nat := 0
  n : Nat := 0
  s : List RosterSlave := List.replicate rosterFileMax {}
deriving DecidableEq

/-- The locals of `boot_read_roster`, and `*out`. -/
structure RosterLocals where
  v : Nat := 0
  p : Nat := 0
  w : Nat := 0
  m : Nat := 0
  r : Nat := 0
  gotV : Bool := false
  out : RosterCfg := {}

def rosterSchemaVer : Nat := 1

def RosterLocals.badFormat (l : RosterLocals) : RosterCode × RosterCfg := (.format, l.out)

/-- A slave is kept while there is room. -/
def RosterCfg.add (out : RosterCfg) (slave : RosterSlave) : RosterCfg :=
  if out.n < rosterFileMax then { out with s := out.s.set out.n slave, n := out.n + 1 } else out

/-- One element of 's': three numbers, and what else a later version puts there. -/
def rosterSlave (mem : Mem) (fuel : Nat) (l : RosterLocals) :
    Decode (RosterCode × RosterCfg) RosterLocals := do
  let nf ← (cborOpen mem cborArray).orFail l.badFormat
  if nf < 3 then fail l.badFormat
  else do
    let addr ← (cborUint mem).orFail l.badFormat
    let variant ← (cborUint mem).orFail l.badFormat
    let flags ← (cborUint mem).orFail l.badFormat
    loop (fun _ _ => (cborSkip mem fuel).orFail l.badFormat) 3 (nf - 3) ()
    pure { l with out := l.out.add ⟨addr % 256, variant % 256, flags % 256⟩ }

def rosterSlaves (mem : Mem) (fuel : Nat) (l : RosterLocals) :
    Decode (RosterCode × RosterCfg) RosterLocals := do
  let ns ← (cborOpen mem cborArray).orFail l.badFormat
  loop (fun _ l => rosterSlave mem fuel l) 0 ns l

def rosterKeys (mem : Mem) (fuel : Nat) : Keys (RosterCode × RosterCfg) RosterLocals :=
  let e := RosterLocals.badFormat
  [(ascii ['v'], uintInto mem e fun l x => { l with v := x, gotV := true }),
   (ascii ['p'], uintInto mem e fun l x => { l with p := x }),
   (ascii ['w'], uintInto mem e fun l x => { l with w := x }),
   (ascii ['m'], uintInto mem e fun l x => { l with m := x }),
   (ascii ['r'], uintInto mem e fun l x => { l with r := x }),
   (ascii ['s'], rosterSlaves mem fuel)]

def rosterResult (l : RosterLocals) : RosterCode × RosterCfg :=
  if ¬l.gotV then l.badFormat
  else if l.v ≠ rosterSchemaVer then (.schema, l.out)
  else (.ok, { l.out with
    grantPeriodMs := l.p % 65536, windowUs := l.w % 65536, maxMisses := l.m % 256,
    tcpRetries := l.r % 256 })

/-- `boot_read_roster` on the buffer. -/
def parseRoster (mem : Mem) (fuel : Nat) :
    Decode (RosterCode × RosterCfg) (RosterCode × RosterCfg) := do
  let l ← readPairs mem fuel RosterLocals.badFormat (rosterKeys mem fuel) {}
  pure (rosterResult l)

def bootReadRoster (mem : Mem) (fuel buf : Nat) (load : Option Nat) :
    Run Cursor Access (RosterCode × RosterCfg) (RosterCode × RosterCfg) :=
  onFile (.missing, {}) buf load (parseRoster mem fuel)

end Roster

/-! ## The pins -/

section Hwio

inductive HwioCode where
  | ok | missing | format | schema | role
deriving DecidableEq

def hwioLabelMax : Nat := 16
def hwioUnitMax : Nat := 8
def hwioAdcNch : Nat := 3
def hilGpioCount : Nat := 8
def hwioModeMax : Nat := 7
def hwioSchemaVer : Nat := 2

/-- `hwio_adc_t`, zeroed. -/
structure HwioAdc where
  label : Octets := List.replicate hwioLabelMax 0
  unit : Octets := List.replicate hwioUnitMax 0
  scaleNum : Nat := 0
  scaleDen : Nat := 0

/-- `hwio_t` with the defaults: the mode is GPIO, every pin is unused. -/
structure Hwio where
  ioMode : Nat := 1
  pin : List Nat := List.replicate hilGpioCount 0
  adc : List HwioAdc := List.replicate hwioAdcNch {}

/-- The locals of `boot_read_hwio`. -/
structure HwioLocals where
  v : Nat := 0
  seenV : Bool := false
  tmp : Hwio := {}

def adcKeys (mem : Mem) : Keys HwioCode HwioAdc :=
  let e := fun _ : HwioAdc => HwioCode.format
  [(ascii ['l'], textInto mem e hwioLabelMax HwioAdc.label fun a w => { a with label := w }),
   (ascii ['u'], textInto mem e hwioUnitMax HwioAdc.unit fun a w => { a with unit := w }),
   (ascii ['n'], uintInto mem e fun a x => { a with scaleNum := x % 2 ^ 32 }),
   (ascii ['d'], uintInto mem e fun a x => { a with scaleDen := x % 2 ^ 32 })]

def parseAdcEntry (mem : Mem) (fuel : Nat) (a : HwioAdc) : Decode HwioCode HwioAdc :=
  readPairs mem fuel (fun _ => .format) (adcKeys mem) a

def HwioLocals.setPin (l : HwioLocals) (j b : Nat) : HwioLocals :=
  { l with tmp := { l.tmp with pin := l.tmp.pin.set j b } }

def HwioLocals.setAdc (l : HwioLocals) (j : Nat) (a : HwioAdc) : HwioLocals :=
  { l with tmp := { l.tmp with adc := l.tmp.adc.set j a } }

def hwioMode (mem : Mem) (l : HwioLocals) : Decode HwioCode HwioLocals := do
  let m ← (cborUint mem).orFail .format
  if m ≥ hwioModeMax then fail .role
  else pure { l with tmp := { l.tmp with ioMode := m % 256 } }

def hwioPin (mem : Mem) (j : Nat) (l : HwioLocals) : Decode HwioCode HwioLocals := do
  let b ← (cborUint mem).orFail .format
  if b > 0xFF then fail .role else pure (l.setPin j (b % 256))

def hwioPins (mem : Mem) (l : HwioLocals) : Decode HwioCode HwioLocals := do
  let n ← (cborOpen mem cborArray).orFail .format
  if n > hilGpioCount then fail .role else loop (hwioPin mem) 0 n l

def hwioChannel (mem : Mem) (fuel j : Nat) (l : HwioLocals) : Decode HwioCode HwioLocals :=
  if j < hwioAdcNch then do
    let a ← parseAdcEntry mem fuel (l.tmp.adc.getD j {})
    pure (l.setAdc j a)
  else skipValue mem fuel (fun _ => .format) l

def hwioChannels (mem : Mem) (fuel : Nat) (l : HwioLocals) : Decode HwioCode HwioLocals := do
  let n ← (cborOpen mem cborArray).orFail .format
  loop (hwioChannel mem fuel) 0 n l

def hwioKeys (mem : Mem) (fuel : Nat) : Keys HwioCode HwioLocals :=
  [(ascii ['v'], uintInto mem (fun _ => .format) fun l x => { l with v := x, seenV := true }),
   (ascii ['m'], hwioMode mem),
   (ascii ['i', 'o'], hwioPins mem),
   (ascii ['a', 'd'], hwioChannels mem fuel)]

def hwioResult (l : HwioLocals) : HwioCode × Hwio :=
  if ¬l.seenV then (.format, {})
  else if l.v ≠ hwioSchemaVer then (.schema, {})
  else (.ok, l.tmp)

/-- `boot_read_hwio` on the buffer: `*out` has the defaults until everything is read. -/
def parseHwio (mem : Mem) (fuel : Nat) : Decode (HwioCode × Hwio) (HwioCode × Hwio) :=
  Prog.mapFail (fun code => (code, {})) do
    let l ← readPairs mem fuel (fun _ => .format) (hwioKeys mem fuel) {}
    pure (hwioResult l)

def bootReadHwio (mem : Mem) (fuel buf : Nat) (load : Option Nat) :
    Run Cursor Access (HwioCode × Hwio) (HwioCode × Hwio) :=
  onFile (.missing, {}) buf load (parseHwio mem fuel)

end Hwio

/-! ## The networks -/

section Netcfg

inductive NetiCode where
  | ok | missing | format | schema
deriving DecidableEq

def netiSsidMax : Nat := 33
def netiPassMax : Nat := 64
def netiApMax : Nat := 4
def netiSchemaMin : Nat := 1
def netiSchemaMax : Nat := 2

/-- `netap_t`, zeroed. -/
structure NetAp where
  ssid : Octets := List.replicate netiSsidMax 0
  pass : Octets := List.replicate netiPassMax 0

/-- `netcfg_t`, zeroed. -/
structure Netcfg where
  nAp : Nat := 0
  present : Nat := 0
  ip : Octets := List.replicate 4 0
  port : Nat := 0
  ap : List NetAp := List.replicate netiApMax {}

/-- The locals of `boot_parse_netcfg`, and `*out`. -/
structure NetiLocals where
  v : Nat := 0
  seenV : Bool := false
  out : Netcfg := {}

def NetiLocals.badFormat (l : NetiLocals) : NetiCode × Netcfg := (.format, l.out)

def NetiLocals.ap (l : NetiLocals) (j : Nat) : NetAp := l.out.ap.getD j {}

def NetiLocals.setAp (l : NetiLocals) (j : Nat) (ap : NetAp) : NetiLocals :=
  { l with out := { l.out with ap := l.out.ap.set j ap } }

/-- `if (out->n_ap < 1) out->n_ap = 1;` -/
def NetiLocals.someAp (l : NetiLocals) : NetiLocals :=
  { l with out := { l.out with nAp := if l.out.nAp < 1 then 1 else l.out.nAp } }

def apKeys (mem : Mem) : Keys NetAp NetAp :=
  [(ascii ['s', 's'], textInto mem id netiSsidMax NetAp.ssid fun ap w => { ap with ssid := w }),
   (ascii ['p', 'w'], textInto mem id netiPassMax NetAp.pass fun ap w => { ap with pass := w })]

/-- `parse_ap`: a failure leaves in `*ap` what was read before. -/
def parseAp (mem : Mem) (fuel : Nat) (ap : NetAp) : Decode NetAp NetAp :=
  readPairs mem fuel id (apKeys mem) ap

def netiIp (mem : Mem) (l : NetiLocals) : Decode (NetiCode × Netcfg) NetiLocals := do
  let s ← (cborStr mem cborBytes).orFail l.badFormat
  if s.len ≠ 4 then fail l.badFormat
  else do
    let w ← readBytes mem s.ptr 4
    pure { l with out := { l.out with ip := w } }

def netiAp (mem : Mem) (fuel j : Nat) (l : NetiLocals) : Decode (NetiCode × Netcfg) NetiLocals :=
  if j < netiApMax then do
    let ap ← (parseAp mem fuel (l.ap j)).mapFail fun ap => (l.setAp j ap).badFormat
    pure (l.setAp j ap)
  else skipValue mem fuel NetiLocals.badFormat l

def netiAps (mem : Mem) (fuel : Nat) (l : NetiLocals) :
    Decode (NetiCode × Netcfg) NetiLocals := do
  let na ← (cborOpen mem cborArray).orFail l.badFormat
  let l ← loop (netiAp mem fuel) 0 na l
  pure { l with out := { l.out with nAp := if na > netiApMax then netiApMax else na % 256 } }

def netiKeys (mem : Mem) (fuel : Nat) : Keys (NetiCode × Netcfg) NetiLocals :=
  let e := NetiLocals.badFormat
  [(ascii ['v'], uintInto mem e fun l x => { l with v := x, seenV := true }),
   (ascii ['i', 'p'], netiIp mem),
   (ascii ['p', 't'], uintInto mem e fun l x =>
      { l with out := { l.out with port := x % 65536 } }),
   (ascii ['s', 's'], textInto mem e netiSsidMax (fun l => (l.ap 0).ssid) fun l w =>
      (l.setAp 0 { l.ap 0 with ssid := w }).someAp),
   (ascii ['p', 'w'], textInto mem e netiPassMax (fun l => (l.ap 0).pass) fun l w =>
      (l.setAp 0 { l.ap 0 with pass := w }).someAp),
   (ascii ['a', 'p', 's'], netiAps mem fuel)]

def netiResult (l : NetiLocals) : NetiCode × Netcfg :=
  if ¬l.seenV then l.badFormat
  else if l.v < netiSchemaMin ∨ l.v > netiSchemaMax then (.schema, l.out)
  else if l.out.nAp = 0 ∨ (l.ap 0).ssid.head? = some 0 then l.badFormat
  else (.ok, { l.out with present := 1 })

/-- `boot_parse_netcfg`. -/
def bootParseNetcfg (mem : Mem) (fuel : Nat) :
    Decode (NetiCode × Netcfg) (NetiCode × Netcfg) := do
  let l ← readPairs mem fuel NetiLocals.badFormat (netiKeys mem fuel) {}
  pure (netiResult l)

def bootReadNetcfg (mem : Mem) (fuel buf : Nat) (load : Option Nat) :
    Run Cursor Access (NetiCode × Netcfg) (NetiCode × Netcfg) :=
  onFile (.missing, {}) buf load (bootParseNetcfg mem fuel)

end Netcfg

end SlowBus.Boot
