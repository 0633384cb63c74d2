import SlowBus.Boot.ForwardCompat
import Mathlib.Data.List.GetD

/-!
# The numbers in a boot file

A number in a file is read into 64 bits and then put into a field of 8, 16 or 32. Next to each
reader stands one that keeps the numbers of the file as they are; where both accept a file, the
structure has the numbers of the file if these fit the fields.
-/

namespace SlowBus.Boot

open Prog
open Cbor (Octets)

/-! ## Readers that keep the numbers -/

/-- The pairs of an identity file; the locals keep its numbers. -/
def identPairs (mem : Mem) (fuel : Nat) : Decode IdentCode IdentLocals :=
  readPairs mem fuel (fun _ => .format) (identKeys mem) {}

/-- One more slave, with room for all of them. -/
def RosterLocals.addWhole (l : RosterLocals) (slave : RosterSlave) : RosterLocals :=
  { l with out := { l.out with s := l.out.s ++ [slave] } }

/-- `rosterSlave`, with the numbers as they are. -/
def rosterSlaveWhole (mem : Mem) (fuel : Nat) (l : RosterLocals) :
    Decode (RosterCode × RosterCfg) RosterLocals := do
  let nf ← (cborOpen mem cborArray).orFail l.badFormat
  if nf < 3 then fail l.badFormat
  else do
    let addr ← (cborUint mem).orFail l.badFormat
    let variant ← (cborUint mem).orFail l.badFormat
    let flags ← (cborUint mem).orFail l.badFormat
    loop (fun _ _ => (cborSkip mem fuel).orFail l.badFormat) 3 (nf - 3) ()
    pure (l.addWhole ⟨addr, variant, flags⟩)

def rosterSlavesWhole (mem : Mem) (fuel : Nat) (l : RosterLocals) :
    Decode (RosterCode × RosterCfg) RosterLocals := do
  let ns ← (cborOpen mem cborArray).orFail l.badFormat
  loop (fun _ l => rosterSlaveWhole mem fuel l) 0 ns l

/-- `rosterKeys`, with the numbers of the slaves as they are. -/
def rosterKeysWhole (mem : Mem) (fuel : Nat) : Keys (RosterCode × RosterCfg) RosterLocals :=
  let e := RosterLocals.badFormat
  [(ascii ['v'], uintInto mem e fun l x => { l with v := x, gotV := true }),
   (ascii ['p'], uintInto mem e fun l x => { l with p := x }),
   (ascii ['w'], uintInto mem e fun l x => { l with w := x }),
   (ascii ['m'], uintInto mem e fun l x => { l with m := x }),
   (ascii ['r'], uintInto mem e fun l x => { l with r := x }),
   (ascii ['s'], rosterSlavesWhole mem fuel)]

/-- The pairs of a roster file; every slave of the file is kept. -/
def rosterPairs (mem : Mem) (fuel : Nat) : Decode (RosterCode × RosterCfg) RosterLocals :=
  readPairs mem fuel RosterLocals.badFormat (rosterKeysWhole mem fuel) { out := { s := [] } }

/-- `adcKeys`, with the scale as it is. -/
def adcKeysWhole (mem : Mem) : Keys HwioCode HwioAdc :=
  let e := fun _ : HwioAdc => HwioCode.format
  [(ascii ['l'], textInto mem e hwioLabelMax HwioAdc.label fun a w => { a with label := w }),
   (ascii ['u'], textInto mem e hwioUnitMax HwioAdc.unit fun a w => { a with unit := w }),
   (ascii ['n'], uintInto mem e fun a x => { a with scaleNum := x }),
   (ascii ['d'], uintInto mem e fun a x => { a with scaleDen := x })]

/-- `hwioMode`, with the number as it is. -/
def hwioModeWhole (mem : Mem) (l : HwioLocals) : Decode HwioCode HwioLocals := do
  let m ← (cborUint mem).orFail .format
  if m ≥ hwioModeMax then fail .role
  else pure { l with tmp := { l.tmp with ioMode := m } }

/-- `hwioPin`, with the number as it is. -/
def hwioPinWhole (mem : Mem) (j : Nat) (l : HwioLocals) : Decode HwioCode HwioLocals := do
  let b ← (cborUint mem).orFail .format
  if b > 0xFF then fail .role else pure (l.setPin j b)

def hwioPinsWhole (mem : Mem) (l : HwioLocals) : Decode HwioCode HwioLocals := do
  let n ← (cborOpen mem cborArray).orFail .format
  if n > hilGpioCount then fail .role else loop (hwioPinWhole mem) 0 n l

def hwioChannelWhole (mem : Mem) (fuel j : Nat) (l : HwioLocals) : Decode HwioCode HwioLocals :=
  if j < hwioAdcNch then do
    let a ← readPairs mem fuel (fun _ => .format) (adcKeysWhole mem) (l.tmp.adc.getD j {})
    pure (l.setAdc j a)
  else skipValue mem fuel (fun _ => .format) l

def hwioChannelsWhole (mem : Mem) (fuel : Nat) (l : HwioLocals) : Decode HwioCode HwioLocals := do
  let n ← (cborOpen mem cborArray).orFail .format
  loop (hwioChannelWhole mem fuel) 0 n l

def hwioKeysWhole (mem : Mem) (fuel : Nat) : Keys HwioCode HwioLocals :=
  [(ascii ['v'], uintInto mem (fun _ => .format) fun l x => { l with v := x, seenV := true }),
   (ascii ['m'], hwioModeWhole mem),
   (ascii ['i', 'o'], hwioPinsWhole mem),
   (ascii ['a', 'd'], hwioChannelsWhole mem fuel)]

/-- The pairs of a pin file. -/
def hwioPairs (mem : Mem) (fuel : Nat) : Decode HwioCode HwioLocals :=
  readPairs mem fuel (fun _ => .format) (hwioKeysWhole mem fuel) {}

/-- `netiKeys`, with the port as it is. -/
def netiKeysWhole (mem : Mem) (fuel : Nat) : Keys (NetiCode × Netcfg) NetiLocals :=
  let e := NetiLocals.badFormat
  [(ascii ['v'], uintInto mem e fun l x => { l with v := x, seenV := true }),
   (ascii ['i', 'p'], netiIp mem),
   (ascii ['p', 't'], uintInto mem e fun l x => { l with out := { l.out with port := x } }),
   (ascii ['s', 's'], textInto mem e netiSsidMax (fun l => (l.ap 0).ssid) fun l w =>
      (l.setAp 0 { l.ap 0 with ssid := w }).someAp),
   (ascii ['p', 'w'], textInto mem e netiPassMax (fun l => (l.ap 0).pass) fun l w =>
      (l.setAp 0 { l.ap 0 with pass := w }).someAp),
   (ascii ['a', 'p', 's'], netiAps mem fuel)]

/-- The pairs of a network file. -/
def netiPairs (mem : Mem) (fuel : Nat) : Decode (NetiCode × Netcfg) NetiLocals :=
  readPairs mem fuel NetiLocals.badFormat (netiKeysWhole mem fuel) {}

/-- What a reader of its pairs finds in a file. -/
def content {ε α : Type} (pairs : Decode ε α) (b : Buffer) : Option α :=
  match (pairs (cborInit b.base b.len)).outcome with
  | .ok a => some a
  | _ => none

/-- A reader returns another code with its structure. -/
def Refused {κ β : Type} (ok : κ) (r : κ × β) : Prop := r.1 ≠ ok

/-! ## Reading the same pairs -/

section Rules

variable {ε α α' β : Type} {mem : Mem} {fuel : Nat} {A : α → α' → Prop} {E : ε → Prop}
  {e : α → ε} {e' : α' → ε} {acc : α} {acc' : α'}

/-- What a reader returns, unless it fails, is what its pairs have. -/
theorem content_of_returned {m : Decode β β} {pairs : Decode ε α} {A : β → α → Prop}
    {E : β → Prop} (h : Mirrors m pairs A E) {b : Buffer} {r : β}
    (hr : returned (m (cborInit b.base b.len)) = some r) (hE : ¬E r) :
    ∃ a, content pairs b = some a ∧ A r a := by
  have hends := h (cborInit b.base b.len)
  unfold Ends at hends
  generalize m (cborInit b.base b.len) = run at hr hends
  obtain ⟨out, t, evs⟩ := run
  cases out with
  | ok a =>
      obtain rfl : a = r := Option.some.inj hr
      obtain ⟨a', ⟨hout, -⟩, ha⟩ := hends.1 a t ⟨rfl, rfl⟩
      refine ⟨a', ?_, ha⟩
      rw [content, hout]
  | fail a =>
      obtain rfl : a = r := Option.some.inj hr
      exact absurd (hends.2 a t ⟨rfl, rfl⟩) hE
  | spent => cases hr

theorem readBytes_mirrors (q n : Nat) :
    Mirrors (readBytes mem q n) (readBytes mem q n : Decode ε Octets) Eq E :=
  .same fun _ _ _ hends => by cases hends.1

theorem cborKey_mirrors (k : Slice) (s : Octets) :
    Mirrors (cborKey mem k s) (cborKey mem k s : Decode ε Bool) Eq E :=
  .ite (fun _ => (readBytes_mirrors _ _).bind fun _ _ h => .pure (h ▸ rfl)) fun _ => .pure rfl

theorem copyText_mirrors (dst : Octets) (cap : Nat) (s : Slice) :
    Mirrors (copyText mem dst cap s) (copyText mem dst cap s : Decode ε Octets) Eq E :=
  (readBytes_mirrors _ _).bind fun _ _ h => .pure (h ▸ rfl)

theorem uintInto_mirrors {set : α → Nat → α} {set' : α' → Nat → α'} (hE : E (e acc))
    (hset : ∀ x, A (set acc x) (set' acc' x)) :
    Mirrors (uintInto mem e set acc) (uintInto mem e' set' acc') A E :=
  (Mirrors.orFail hE).bind fun x _ h => .pure (h ▸ hset x)

theorem textInto_mirrors {cap : Nat} {get : α → Octets} {get' : α' → Octets}
    {set : α → Octets → α} {set' : α' → Octets → α'} (hE : E (e acc)) (hget : get acc = get' acc')
    (hset : ∀ w, A (set acc w) (set' acc' w)) :
    Mirrors (textInto mem e cap get set acc) (textInto mem e' cap get' set' acc') A E := by
  refine (Mirrors.orFail hE).bind fun s s' hs => ?_
  subst hs
  rw [← hget]
  exact (copyText_mirrors _ cap s).bind fun w _ h => .pure (h ▸ hset w)

theorem skipValue_mirrors (hE : E (e acc)) (h : A acc acc') :
    Mirrors (skipValue mem fuel e acc) (skipValue mem fuel e' acc') A E :=
  (Mirrors.orFail hE).bind fun _ _ _ => .pure h

/-- The same keys, and for each what finds the same. -/
def KeysMirror (A : α → α' → Prop) (E : ε → Prop) (keys : Keys ε α) (keys' : Keys ε α') : Prop :=
  List.Forall₂ (fun x x' => x.1 = x'.1 ∧ ∀ acc acc', A acc acc' →
    Mirrors (x.2 acc) (x'.2 acc') A E) keys keys'

theorem onKey_mirrors {other : α → Decode ε α} {other' : α' → Decode ε α'} {keys : Keys ε α}
    {keys' : Keys ε α'} (hkeys : KeysMirror A E keys keys')
    (hother : Mirrors (other acc) (other' acc') A E) (h : A acc acc') (k : Slice) :
    Mirrors (onKey mem k other keys acc) (onKey mem k other' keys' acc') A E := by
  induction hkeys with
  | nil => exact hother
  | cons hx _ ih =>
      unfold onKey
      rw [hx.1]
      refine (cborKey_mirrors k _).bind fun hit hit' hsame => ?_
      subst hsame
      exact .ite (fun _ => hx.2 acc acc' h) fun _ => ih

theorem readPairs_mirrors {keys : Keys ε α} {keys' : Keys ε α'} (hkeys : KeysMirror A E keys keys')
    (hE : ∀ acc, E (e acc)) (h : A acc acc') :
    Mirrors (readPairs mem fuel e keys acc) (readPairs mem fuel e' keys' acc') A E := by
  refine (Mirrors.orFail (hE acc)).bind fun np np' hnp => ?_
  subst hnp
  refine .loop (fun i l l' hl => ?_) 0 np h
  refine (Mirrors.orFail (hE l)).bind fun k k' hk => ?_
  subst hk
  exact onKey_mirrors hkeys (skipValue_mirrors (hE l) hl) hl k

end Rules

/-! ## The identity -/

section Identity

variable {mem : Mem} {fuel chip : Nat} {board : Vector (BitVec 8) 8} {i out : Identity}
  {l : IdentLocals}

/-- What the checks let through. -/
structure IdentPassed (i : Identity) (l : IdentLocals) : Prop where
  chip : i.chip = l.ch % 256
  variant : i.variant = l.vr % 256
  addr : i.addr = l.ad % 256
  baud : i.baud = l.sp % 2 ^ 32
  supported : variantSupported (l.vr % 256)
  addrRange : l.ad ≤ busAddrSlaveMax

theorem identCheck_mirrors (l : IdentLocals) :
    Mirrors (identCheck mem chip board l) (pure l : Decode IdentCode IdentLocals) IdentPassed
      (· ≠ .ok) := by
  have hread (q n : Nat) : Mirrors (readBytes mem q n) (pure () : Decode IdentCode Unit)
      (fun _ _ => True) (· ≠ IdentCode.ok) :=
    fun s => ⟨fun _ _ hends => ⟨(), ⟨rfl, hends.2⟩, trivial⟩, fun _ _ hends => by cases hends.1⟩
  refine .ite_left (fun _ => .fail (by decide)) fun _ => ?_
  refine .ite_left (fun _ => .fail (by decide)) fun _ => ?_
  refine .ite_left (fun _ => .fail (by decide)) fun _ => ?_
  refine .ite_left (fun _ => .fail (by decide)) fun hvariant => ?_
  refine .ite_left (fun _ => .fail (by decide)) fun _ => .bind_left (hread _ _) fun uid => ?_
  -- the address is compared as it is in the file
  refine .ite_left (fun _ => .fail (by decide)) fun _ => ?_
  refine .ite_left (fun _ => .fail (by decide)) fun hmaster => ?_
  refine .ite_left (fun _ => .fail (by decide)) fun hslave =>
    .bind_left (hread _ _) fun uuid => .pure ?_
  refine ⟨rfl, rfl, rfl, rfl, not_not.mp hvariant, ?_⟩
  by_cases h : variantIsMaster (l.vr % 256)
  · have haddr : l.ad = busAddrMaster := by_contra fun hne => hmaster ⟨h, hne⟩
    rw [haddr]
    decide
  · by_contra hgt
    exact hslave ⟨h, .inr (not_le.mp hgt)⟩

theorem identKeys_mirror : KeysMirror Eq (· ≠ .ok) (identKeys mem) (identKeys mem) := by
  have hnum (set : IdentLocals → Nat → IdentLocals) (l l' : IdentLocals) (h : l = l') :
      Mirrors (uintInto mem (fun _ => IdentCode.format) set l)
        (uintInto mem (fun _ => IdentCode.format) set l') Eq (· ≠ .ok) := by
    subst h
    exact uintInto_mirrors (by decide) fun _ => rfl
  have huid (l l' : IdentLocals) (h : l = l') :
      Mirrors (identUid mem l) (identUid mem l') Eq (· ≠ .ok) := by
    subst h
    exact (Mirrors.orFail (by decide)).bind fun _ _ h => .pure (h ▸ rfl)
  exact .cons ⟨rfl, hnum _⟩ <| .cons ⟨rfl, hnum _⟩ <| .cons ⟨rfl, hnum _⟩ <|
    .cons ⟨rfl, hnum _⟩ <| .cons ⟨rfl, hnum _⟩ <| .cons ⟨rfl, huid⟩ .nil

theorem parseIdentity_mirrors :
    Mirrors (parseIdentity mem fuel chip board out) (identPairs mem fuel)
      (fun r l => ∃ i, r = (.ok, i) ∧ IdentPassed i l) (fun r => r.1 ≠ .ok) := by
  have hpairs : Mirrors (readPairs mem fuel (fun _ => .format) (identKeys mem) {})
      (identPairs mem fuel) Eq (· ≠ .ok) :=
    readPairs_mirrors identKeys_mirror (fun _ => by decide) rfl
  rw [← mapFail_id (identPairs mem fuel), ← Prog.bind_pure (identPairs mem fuel)]
  refine Mirrors.mapFail (hpairs.bind fun l l' h => ?_) fun _ he => he
  subst h
  rw [← Prog.bind_pure (pure l)]
  exact (identCheck_mirrors l).bind fun i l' h => .pure ⟨i, rfl, h⟩

/-- The identity has the numbers of the file, and its variant is one of the image. -/
structure IdentityExact (i : Identity) (l : IdentLocals) : Prop where
  chip : i.chip = l.ch
  variant : i.variant = l.vr
  addr : i.addr = l.ad
  baud : i.baud = l.sp
  supported : variantSupported l.vr

/-- The numbers that are not compared before they are cut fit their fields. -/
structure IdentFits (l : IdentLocals) : Prop where
  chip : l.ch < 256
  variant : l.vr < 256
  baud : l.sp < 2 ^ 32

theorem identityExact_iff (h : IdentPassed i l) : IdentityExact i l ↔ IdentFits l := by
  constructor
  · rintro ⟨hchip, hvariant, haddr, hbaud, -⟩
    refine ⟨?_, ?_, ?_⟩
    · rw [← hchip, h.chip]
      exact Nat.mod_lt _ (by decide)
    · rw [← hvariant, h.variant]
      exact Nat.mod_lt _ (by decide)
    · rw [← hbaud, h.baud]
      exact Nat.mod_lt _ (by decide)
  · rintro ⟨hchip, hvariant, hbaud⟩
    have haddr : l.ad < 256 := h.addrRange.trans_lt (by decide)
    have hsupported := h.supported
    rw [Nat.mod_eq_of_lt hvariant] at hsupported
    exact ⟨h.chip.trans (Nat.mod_eq_of_lt hchip), h.variant.trans (Nat.mod_eq_of_lt hvariant),
      h.addr.trans (Nat.mod_eq_of_lt haddr), h.baud.trans (Nat.mod_eq_of_lt hbaud), hsupported⟩

end Identity

/-! ## The roster -/

section Roster

variable {mem : Mem} {fuel : Nat}

def RosterSlave.cut (s : RosterSlave) : RosterSlave :=
  ⟨s.addr % 256, s.variant % 256, s.flags % 256⟩

/-- The slaves there is room for, each number cut, and empty places. -/
def storedSlaves (slaves : List RosterSlave) : List RosterSlave :=
  (slaves.take rosterFileMax).map RosterSlave.cut ++
    List.replicate (rosterFileMax - slaves.length) ({} : RosterSlave)

/-- What the structure has of a roster with all its slaves. -/
def RosterCfg.stored (out : RosterCfg) : RosterCfg :=
  { out with n := min out.s.length rosterFileMax, s := storedSlaves out.s }

def RosterLocals.stored (l : RosterLocals) : RosterLocals := { l with out := l.out.stored }

theorem RosterLocals.badFormat_refused (l : RosterLocals) : Refused .ok l.badFormat := nofun

theorem storedSlaves_room {slaves : List RosterSlave} (h : slaves.length < rosterFileMax)
    (slave : RosterSlave) :
    storedSlaves (slaves ++ [slave]) = (storedSlaves slaves).set slaves.length slave.cut := by
  have hgap : rosterFileMax - slaves.length = rosterFileMax - (slaves.length + 1) + 1 := by omega
  have htake : (slaves ++ [slave]).take rosterFileMax = slaves ++ [slave] :=
    List.take_of_length_le (by rwa [List.length_append])
  have hlen : (slaves.map RosterSlave.cut).length = slaves.length := List.length_map _
  unfold storedSlaves
  rw [htake, List.take_of_length_le h.le, List.map_append, List.length_append, hgap,
    List.replicate_succ, List.set_append_right _ _ hlen.le, hlen, Nat.sub_self,
    List.append_assoc]
  rfl

theorem storedSlaves_full {slaves : List RosterSlave} (h : rosterFileMax ≤ slaves.length)
    (slave : RosterSlave) : storedSlaves (slaves ++ [slave]) = storedSlaves slaves := by
  unfold storedSlaves
  rw [List.take_append_of_le_length h, List.length_append, Nat.sub_eq_zero_of_le h,
    Nat.sub_eq_zero_of_le (h.trans (Nat.le_add_right _ _))]

theorem stored_add (out : RosterCfg) (slave : RosterSlave) :
    out.stored.add slave.cut = ({ out with s := out.s ++ [slave] } : RosterCfg).stored := by
  unfold RosterCfg.add RosterCfg.stored
  by_cases hroom : out.s.length < rosterFileMax
  · have hlen : (out.s ++ [slave]).length = out.s.length + 1 := List.length_append
    simp only [hlen, Nat.min_eq_left hroom.le, Nat.min_eq_left hroom, hroom, if_true,
      storedSlaves_room hroom]
  · have hfull : rosterFileMax ≤ out.s.length := not_lt.mp hroom
    have hlen : rosterFileMax ≤ (out.s ++ [slave]).length := by
      rw [List.length_append]
      exact hfull.trans (Nat.le_add_right _ _)
    simp only [Nat.min_eq_right hfull, Nat.min_eq_right hlen, lt_irrefl, if_false,
      storedSlaves_full hfull]

theorem rosterSlave_mirrors {l l' : RosterLocals} (h : l = l'.stored) :
    Mirrors (rosterSlave mem fuel l) (rosterSlaveWhole mem fuel l') (fun l l' => l = l'.stored)
      (Refused .ok) := by
  subst h
  have hbad := l'.stored.badFormat_refused
  refine (Mirrors.orFail hbad).bind fun nf nf' hnf => ?_
  subst hnf
  refine .ite (fun _ => .fail hbad) fun _ => ?_
  refine (Mirrors.orFail hbad).bind fun addr addr' haddr => ?_
  refine (Mirrors.orFail hbad).bind fun variant variant' hvariant => ?_
  refine (Mirrors.orFail hbad).bind fun flags flags' hflags => ?_
  subst haddr hvariant hflags
  refine Mirrors.bind (.loop (fun _ _ _ _ => .orFail hbad) 3 _ rfl) fun _ _ _ => ?_
  have hadd := stored_add l'.out ⟨addr, variant, flags⟩
  exact .pure (congrArg (fun out => { l'.stored with out := out }) hadd)

/-- A number of the locals, read alike by both. -/
theorem rosterNum_mirrors {set : RosterLocals → Nat → RosterLocals}
    (hset : ∀ l x, set l.stored x = (set l x).stored) (l l' : RosterLocals) (h : l = l'.stored) :
    Mirrors (uintInto mem RosterLocals.badFormat set l)
      (uintInto mem RosterLocals.badFormat set l') (fun l l' => l = l'.stored)
      (Refused .ok) := by
  subst h
  exact uintInto_mirrors l'.stored.badFormat_refused (hset l')

theorem parseRoster_mirrors : Mirrors (parseRoster mem fuel) (rosterPairs mem fuel)
    (fun r l => r = rosterResult l.stored) (Refused .ok) := by
  have hslaves (l l' : RosterLocals) (h : l = l'.stored) :
      Mirrors (rosterSlaves mem fuel l) (rosterSlavesWhole mem fuel l')
        (fun l l' => l = l'.stored) (Refused .ok) := by
    refine (Mirrors.orFail l.badFormat_refused).bind fun ns ns' hns => ?_
    subst hns
    exact .loop (fun _ _ _ hl => rosterSlave_mirrors hl) 0 ns h
  have hkeys : KeysMirror (fun l l' => l = l'.stored) (Refused .ok) (rosterKeys mem fuel)
      (rosterKeysWhole mem fuel) :=
    .cons ⟨rfl, rosterNum_mirrors fun _ _ => rfl⟩ <|
      .cons ⟨rfl, rosterNum_mirrors fun _ _ => rfl⟩ <|
      .cons ⟨rfl, rosterNum_mirrors fun _ _ => rfl⟩ <|
      .cons ⟨rfl, rosterNum_mirrors fun _ _ => rfl⟩ <|
      .cons ⟨rfl, rosterNum_mirrors fun _ _ => rfl⟩ <| .cons ⟨rfl, hslaves⟩ .nil
  have hpairs : Mirrors (readPairs mem fuel RosterLocals.badFormat (rosterKeys mem fuel) {})
      (rosterPairs mem fuel) (fun l l' => l = l'.stored) (Refused .ok) :=
    readPairs_mirrors hkeys RosterLocals.badFormat_refused rfl
  rw [← Prog.bind_pure (rosterPairs mem fuel)]
  exact hpairs.bind fun l l' h => .pure (congrArg rosterResult h)

/-- The roster has the numbers of the file, and the file no slave with a number out of range. -/
structure RosterExact (cfg : RosterCfg) (l : RosterLocals) : Prop where
  grantPeriodMs : cfg.grantPeriodMs = l.p
  windowUs : cfg.windowUs = l.w
  maxMisses : cfg.maxMisses = l.m
  tcpRetries : cfg.tcpRetries = l.r
  slaves : cfg.s.take cfg.n = l.out.s.take rosterFileMax
  inRange : ∀ s ∈ l.out.s, s.variant < 256 ∧ s.flags < 256
  addr : ∀ s ∈ l.out.s, busAddrSlaveMin ≤ s.addr ∧ s.addr ≤ busAddrSlaveMax

/-- The numbers fit their fields, and the addresses are addresses of slaves. -/
structure RosterFits (l : RosterLocals) : Prop where
  grantPeriodMs : l.p < 65536
  windowUs : l.w < 65536
  maxMisses : l.m < 256
  tcpRetries : l.r < 256
  slaves : ∀ s ∈ l.out.s, (busAddrSlaveMin ≤ s.addr ∧ s.addr ≤ busAddrSlaveMax) ∧
    s.variant < 256 ∧ s.flags < 256

theorem RosterSlave.cut_eq {s : RosterSlave} (haddr : s.addr < 256) (hvariant : s.variant < 256)
    (hflags : s.flags < 256) : s.cut = s := by
  rw [RosterSlave.cut, Nat.mod_eq_of_lt haddr, Nat.mod_eq_of_lt hvariant, Nat.mod_eq_of_lt hflags]

theorem rosterExact_iff {cfg : RosterCfg} {l : RosterLocals}
    (h : rosterResult l.stored = (.ok, cfg)) : RosterExact cfg l ↔ RosterFits l := by
  unfold rosterResult at h
  split at h
  next => cases h
  next =>
  split at h
  next => cases h
  next =>
  obtain rfl := (Prod.mk.inj h).2
  constructor
  · rintro ⟨hp, hw, hm, hr, hslaves, hrange, haddr⟩
    refine ⟨?_, ?_, ?_, ?_, fun s hs => ⟨haddr s hs, hrange s hs⟩⟩
    · exact hp ▸ Nat.mod_lt _ (by decide)
    · exact hw ▸ Nat.mod_lt _ (by decide)
    · exact hm ▸ Nat.mod_lt _ (by decide)
    · exact hr ▸ Nat.mod_lt _ (by decide)
  · rintro ⟨hp, hw, hm, hr, hslaves⟩
    refine ⟨Nat.mod_eq_of_lt hp, Nat.mod_eq_of_lt hw, Nat.mod_eq_of_lt hm, Nat.mod_eq_of_lt hr, ?_,
      fun s hs => (hslaves s hs).2, fun s hs => (hslaves s hs).1⟩
    have hcut : ∀ s ∈ l.out.s.take rosterFileMax, s.cut = s := by
      intro s hs
      obtain ⟨⟨-, hmax⟩, hvariant, hflags⟩ := hslaves s (List.mem_of_mem_take hs)
      exact RosterSlave.cut_eq (hmax.trans_lt (by decide)) hvariant hflags
    show (storedSlaves l.out.s).take (min l.out.s.length rosterFileMax) = _
    have hlen : min l.out.s.length rosterFileMax =
        ((l.out.s.take rosterFileMax).map RosterSlave.cut).length := by
      rw [List.length_map, List.length_take, Nat.min_comm]
    rw [storedSlaves, hlen, List.take_left]
    exact (List.map_congr_left hcut).trans (List.map_id' _)

end Roster

/-! ## The pins -/

section Hwio

variable {mem : Mem} {fuel : Nat}

def HwioAdc.cut (a : HwioAdc) : HwioAdc :=
  { a with scaleNum := a.scaleNum % 2 ^ 32, scaleDen := a.scaleDen % 2 ^ 32 }

/-- The mode and the pins are compared before they are cut. -/
def Hwio.cut (h : Hwio) : Hwio := { h with adc := h.adc.map HwioAdc.cut }

def HwioLocals.cut (l : HwioLocals) : HwioLocals := { l with tmp := l.tmp.cut }

theorem adcKeys_mirror :
    KeysMirror (fun a a' => a = a'.cut) (· ≠ .ok) (adcKeys mem) (adcKeysWhole mem) := by
  have hnum {set set' : HwioAdc → Nat → HwioAdc} (hset : ∀ a x, set a.cut x = (set' a x).cut)
      (a a' : HwioAdc) (h : a = a'.cut) :
      Mirrors (uintInto mem (fun _ => HwioCode.format) set a)
        (uintInto mem (fun _ => HwioCode.format) set' a') (fun a a' => a = a'.cut) (· ≠ .ok) := by
    subst h
    exact uintInto_mirrors (by decide) (hset a')
  have htext {cap : Nat} {get : HwioAdc → Octets} {set : HwioAdc → Octets → HwioAdc}
      (hget : ∀ a, get a.cut = get a) (hset : ∀ a w, set a.cut w = (set a w).cut)
      (a a' : HwioAdc) (h : a = a'.cut) :
      Mirrors (textInto mem (fun _ => HwioCode.format) cap get set a)
        (textInto mem (fun _ => HwioCode.format) cap get set a') (fun a a' => a = a'.cut)
        (· ≠ .ok) := by
    subst h
    exact textInto_mirrors (by decide) (hget a') (hset a')
  exact .cons ⟨rfl, htext (fun _ => rfl) fun _ _ => rfl⟩ <|
    .cons ⟨rfl, htext (fun _ => rfl) fun _ _ => rfl⟩ <|
    .cons ⟨rfl, hnum fun _ _ => rfl⟩ <| .cons ⟨rfl, hnum fun _ _ => rfl⟩ .nil

theorem hwioMode_mirrors {l l' : HwioLocals} (h : l = l'.cut) :
    Mirrors (hwioMode mem l) (hwioModeWhole mem l') (fun l l' => l = l'.cut) (· ≠ .ok) := by
  subst h
  refine (Mirrors.orFail (e := HwioCode.format) (by decide)).bind fun m m' hm => ?_
  subst hm
  refine .ite (fun _ => .fail (by decide)) fun hle => .pure ?_
  have hlt : m < 256 := (not_le.mp hle).trans (by decide)
  rw [Nat.mod_eq_of_lt hlt]
  rfl

theorem hwioPin_mirrors (j : Nat) {l l' : HwioLocals} (h : l = l'.cut) :
    Mirrors (hwioPin mem j l) (hwioPinWhole mem j l') (fun l l' => l = l'.cut) (· ≠ .ok) := by
  subst h
  refine (Mirrors.orFail (e := HwioCode.format) (by decide)).bind fun b b' hb => ?_
  subst hb
  refine .ite (fun _ => .fail (by decide)) fun hle => .pure ?_
  rw [Nat.mod_eq_of_lt (Nat.lt_succ_of_le (not_lt.mp hle))]
  rfl

theorem hwioChannel_mirrors (j : Nat) {l l' : HwioLocals} (h : l = l'.cut) :
    Mirrors (hwioChannel mem fuel j l) (hwioChannelWhole mem fuel j l') (fun l l' => l = l'.cut)
      (· ≠ .ok) := by
  subst h
  refine .ite (fun _ => ?_) fun _ => skipValue_mirrors (by decide) rfl
  have hfrom : l'.cut.tmp.adc.getD j {} = (l'.tmp.adc.getD j {}).cut :=
    List.getD_map _ ({} : HwioAdc) HwioAdc.cut
  refine (readPairs_mirrors adcKeys_mirror (fun _ => by decide) hfrom).bind fun a a' ha => .pure ?_
  subst ha
  have hset : (l'.tmp.adc.map HwioAdc.cut).set j a'.cut = (l'.tmp.adc.set j a').map HwioAdc.cut :=
    List.map_set.symm
  exact congrArg (fun adc => { l' with tmp := { l'.tmp with adc := adc } }) hset

theorem parseHwio_mirrors : Mirrors (parseHwio mem fuel) (hwioPairs mem fuel)
    (fun r l => r = hwioResult l.cut) (Refused .ok) := by
  have hver (l l' : HwioLocals) (h : l = l'.cut) :
      Mirrors
        (uintInto mem (fun _ => HwioCode.format) (fun l x => { l with v := x, seenV := true }) l)
        (uintInto mem (fun _ => HwioCode.format) (fun l x => { l with v := x, seenV := true }) l')
        (fun l l' => l = l'.cut) (· ≠ .ok) := by
    subst h
    exact uintInto_mirrors (by decide) fun _ => rfl
  have hpins (l l' : HwioLocals) (h : l = l'.cut) :
      Mirrors (hwioPins mem l) (hwioPinsWhole mem l') (fun l l' => l = l'.cut) (· ≠ .ok) := by
    refine (Mirrors.orFail (e := HwioCode.format) (by decide)).bind fun n n' hn => ?_
    subst hn
    exact .ite (fun _ => .fail (by decide)) fun _ =>
      .loop (fun j _ _ hl => hwioPin_mirrors j hl) 0 n h
  have hchannels (l l' : HwioLocals) (h : l = l'.cut) :
      Mirrors (hwioChannels mem fuel l) (hwioChannelsWhole mem fuel l') (fun l l' => l = l'.cut)
        (· ≠ .ok) := by
    refine (Mirrors.orFail (e := HwioCode.format) (by decide)).bind fun n n' hn => ?_
    subst hn
    exact .loop (fun j _ _ hl => hwioChannel_mirrors j hl) 0 n h
  have hkeys : KeysMirror (fun l l' => l = l'.cut) (· ≠ .ok) (hwioKeys mem fuel)
      (hwioKeysWhole mem fuel) :=
    .cons ⟨rfl, hver⟩ <| .cons ⟨rfl, fun _ _ => hwioMode_mirrors⟩ <| .cons ⟨rfl, hpins⟩ <|
      .cons ⟨rfl, hchannels⟩ .nil
  have hpairs : Mirrors (readPairs mem fuel (fun _ => .format) (hwioKeys mem fuel) {})
      (hwioPairs mem fuel) (fun l l' => l = l'.cut) (· ≠ .ok) :=
    readPairs_mirrors hkeys (fun _ => by decide) rfl
  rw [← mapFail_id (hwioPairs mem fuel), ← Prog.bind_pure (hwioPairs mem fuel)]
  exact Mirrors.mapFail (hpairs.bind fun l l' h => .pure (congrArg hwioResult h)) fun _ he => he

/-- Every scale of the file fits. -/
def HwioFits (l : HwioLocals) : Prop :=
  ∀ a ∈ l.tmp.adc, a.scaleNum < 2 ^ 32 ∧ a.scaleDen < 2 ^ 32

theorem HwioAdc.cut_eq_iff {a : HwioAdc} :
    a.cut = a ↔ a.scaleNum < 2 ^ 32 ∧ a.scaleDen < 2 ^ 32 := by
  constructor
  · intro h
    rw [← congrArg HwioAdc.scaleNum h, ← congrArg HwioAdc.scaleDen h]
    exact ⟨Nat.mod_lt _ (by decide), Nat.mod_lt _ (by decide)⟩
  · rintro ⟨hnum, hden⟩
    rw [HwioAdc.cut, Nat.mod_eq_of_lt hnum, Nat.mod_eq_of_lt hden]

theorem hwioExact_iff {h : Hwio} {l : HwioLocals} (hr : hwioResult l.cut = (.ok, h)) :
    h = l.tmp ↔ HwioFits l := by
  unfold hwioResult at hr
  split at hr
  next => cases hr
  next =>
  split at hr
  next => cases hr
  next =>
  obtain rfl := (Prod.mk.inj hr).2
  constructor
  · intro heq a ha
    have hmap : l.tmp.adc.map HwioAdc.cut = l.tmp.adc.map id :=
      (congrArg Hwio.adc heq).trans (List.map_id _).symm
    exact HwioAdc.cut_eq_iff.mp (List.map_inj_left.mp hmap a ha)
  · intro hfits
    have hmap : l.tmp.adc.map HwioAdc.cut = l.tmp.adc.map id :=
      List.map_congr_left fun a ha => HwioAdc.cut_eq_iff.mpr (hfits a ha)
    exact congrArg (fun adc => { l.tmp with adc := adc }) (hmap.trans (List.map_id _))

end Hwio

/-! ## The networks -/

section Netcfg

variable {mem : Mem} {fuel : Nat}

def NetiLocals.cut (l : NetiLocals) : NetiLocals :=
  { l with out := { l.out with port := l.out.port % 65536 } }

theorem NetiLocals.badFormat_refused (l : NetiLocals) : Refused .ok l.badFormat := nofun

theorem netiNum_mirrors {set set' : NetiLocals → Nat → NetiLocals}
    (hset : ∀ l x, set l.cut x = (set' l x).cut) (l l' : NetiLocals) (h : l = l'.cut) :
    Mirrors (uintInto mem NetiLocals.badFormat set l) (uintInto mem NetiLocals.badFormat set' l')
      (fun l l' => l = l'.cut) (Refused .ok) := by
  subst h
  exact uintInto_mirrors l'.cut.badFormat_refused (hset l')

theorem netiText_mirrors {cap : Nat} {get : NetiLocals → Octets}
    {set : NetiLocals → Octets → NetiLocals} (hget : ∀ l, get l.cut = get l)
    (hset : ∀ l w, set l.cut w = (set l w).cut) (l l' : NetiLocals) (h : l = l'.cut) :
    Mirrors (textInto mem NetiLocals.badFormat cap get set l)
      (textInto mem NetiLocals.badFormat cap get set l') (fun l l' => l = l'.cut)
      (Refused .ok) := by
  subst h
  exact textInto_mirrors l'.cut.badFormat_refused (hget l') (hset l')

theorem netiIp_mirrors (l l' : NetiLocals) (h : l = l'.cut) :
    Mirrors (netiIp mem l) (netiIp mem l') (fun l l' => l = l'.cut) (Refused .ok) := by
  subst h
  have hbad := l'.cut.badFormat_refused
  refine (Mirrors.orFail hbad).bind fun s s' hs => ?_
  subst hs
  refine .ite (fun _ => .fail hbad) fun _ => (readBytes_mirrors _ _).bind fun w w' hw => .pure ?_
  subst hw
  rfl

theorem parseAp_mirrors (ap : NetAp) :
    Mirrors (parseAp mem fuel ap) (parseAp mem fuel ap) Eq fun _ => True := by
  have htext {cap : Nat} {get : NetAp → Octets} {set : NetAp → Octets → NetAp} (ap ap' : NetAp)
      (h : ap = ap') : Mirrors (textInto mem id cap get set ap) (textInto mem id cap get set ap') Eq
        fun _ => True := by
    subst h
    exact textInto_mirrors trivial rfl fun _ => rfl
  exact readPairs_mirrors (.cons ⟨rfl, htext⟩ <| .cons ⟨rfl, htext⟩ .nil) (fun _ => trivial) rfl

theorem netiAp_mirrors (j : Nat) {l l' : NetiLocals} (h : l = l'.cut) :
    Mirrors (netiAp mem fuel j l) (netiAp mem fuel j l') (fun l l' => l = l'.cut)
      (Refused .ok) := by
  subst h
  refine .ite (fun _ => ?_) fun _ => skipValue_mirrors l'.cut.badFormat_refused rfl
  have hap : Mirrors
      ((parseAp mem fuel (l'.cut.ap j)).mapFail fun ap => (l'.cut.setAp j ap).badFormat)
      ((parseAp mem fuel (l'.ap j)).mapFail fun ap => (l'.setAp j ap).badFormat) Eq (Refused .ok) :=
    (parseAp_mirrors _).mapFail fun ap _ => (l'.cut.setAp j ap).badFormat_refused
  exact hap.bind fun ap ap' hsame => .pure (hsame ▸ rfl)

theorem netiAps_mirrors (l l' : NetiLocals) (h : l = l'.cut) :
    Mirrors (netiAps mem fuel l) (netiAps mem fuel l') (fun l l' => l = l'.cut) (Refused .ok) := by
  refine (Mirrors.orFail l.badFormat_refused).bind fun na na' hna => ?_
  subst hna
  have hloop : Mirrors (loop (netiAp mem fuel) 0 na l) (loop (netiAp mem fuel) 0 na l')
      (fun l l' => l = l'.cut) (Refused .ok) := .loop (fun j _ _ hl => netiAp_mirrors j hl) 0 na h
  exact hloop.bind fun l l' hl => .pure (hl ▸ rfl)

theorem bootParseNetcfg_mirrors : Mirrors (bootParseNetcfg mem fuel) (netiPairs mem fuel)
    (fun r l => r = netiResult l.cut) (Refused .ok) := by
  have hkeys : KeysMirror (fun l l' => l = l'.cut) (Refused .ok) (netiKeys mem fuel)
      (netiKeysWhole mem fuel) :=
    .cons ⟨rfl, netiNum_mirrors fun _ _ => rfl⟩ <| .cons ⟨rfl, netiIp_mirrors⟩ <|
      .cons ⟨rfl, netiNum_mirrors fun _ _ => rfl⟩ <|
      .cons ⟨rfl, netiText_mirrors (fun _ => rfl) fun _ _ => rfl⟩ <|
      .cons ⟨rfl, netiText_mirrors (fun _ => rfl) fun _ _ => rfl⟩ <|
      .cons ⟨rfl, netiAps_mirrors⟩ .nil
  have hpairs : Mirrors (readPairs mem fuel NetiLocals.badFormat (netiKeys mem fuel) {})
      (netiPairs mem fuel) (fun l l' => l = l'.cut) (Refused .ok) :=
    readPairs_mirrors hkeys NetiLocals.badFormat_refused rfl
  rw [← Prog.bind_pure (netiPairs mem fuel)]
  exact hpairs.bind fun l l' h => .pure (congrArg netiResult h)

theorem netcfgExact_iff {cfg : Netcfg} {l : NetiLocals} (hr : netiResult l.cut = (.ok, cfg)) :
    cfg.port = l.out.port ↔ l.out.port < 65536 := by
  unfold netiResult at hr
  split at hr
  next => cases hr
  next =>
  split at hr
  next => cases hr
  next =>
  split at hr
  next => cases hr
  next =>
  obtain rfl := (Prod.mk.inj hr).2
  show l.out.port % 65536 = l.out.port ↔ _
  exact ⟨fun h => h ▸ Nat.mod_lt _ (by decide), Nat.mod_eq_of_lt⟩

end Netcfg

/-! ## The four files -/

/-- What an accepted file leaves in the structure are the numbers of the file if and only if those
that are cut fit their fields; a roster names only addresses of slaves if and only if the file
does. -/
theorem accepted_exact_iff (mem : Mem) (fuel : Nat) (b : Buffer) (chip : Nat)
    (board : Vector (BitVec 8) 8) (out : Identity) :
    (∀ i, returned (identityReading chip board out mem fuel b) = some (.ok, i) →
      ∃ l, content (identPairs mem fuel) b = some l ∧ (IdentityExact i l ↔ IdentFits l)) ∧
    (∀ cfg, returned (rosterReading mem fuel b) = some (.ok, cfg) →
      ∃ l, content (rosterPairs mem fuel) b = some l ∧ (RosterExact cfg l ↔ RosterFits l)) ∧
    (∀ h, returned (hwioReading mem fuel b) = some (.ok, h) →
      ∃ l, content (hwioPairs mem fuel) b = some l ∧ (h = l.tmp ↔ HwioFits l)) ∧
    ∀ cfg, returned (netcfgReading mem fuel b) = some (.ok, cfg) →
      ∃ l, content (netiPairs mem fuel) b = some l ∧
        (cfg.port = l.out.port ↔ l.out.port < 65536) := by
  refine ⟨fun i hi => ?_, fun cfg hcfg => ?_, fun h hh => ?_, fun cfg hcfg => ?_⟩
  · obtain ⟨l, hl, i', heq, hpassed⟩ :=
      content_of_returned parseIdentity_mirrors hi (not_not.mpr rfl)
    cases heq
    exact ⟨l, hl, identityExact_iff hpassed⟩
  · obtain ⟨l, hl, heq⟩ := content_of_returned parseRoster_mirrors hcfg (not_not.mpr rfl)
    exact ⟨l, hl, rosterExact_iff heq.symm⟩
  · obtain ⟨l, hl, heq⟩ := content_of_returned parseHwio_mirrors hh (not_not.mpr rfl)
    exact ⟨l, hl, hwioExact_iff heq.symm⟩
  · obtain ⟨l, hl, heq⟩ := content_of_returned bootParseNetcfg_mirrors hcfg (not_not.mpr rfl)
    exact ⟨l, hl, netcfgExact_iff heq.symm⟩

deriving instance DecidableEq for RosterLocals
deriving instance DecidableEq for IdentLocals
deriving instance DecidableEq for Identity

/-- A roster file with the version and a slave at address 5. -/
def goodRoster : Octets := [0xA2, 0x61, 0x76, 0x01, 0x61, 0x73, 0x81, 0x83, 0x05, 0x03, 0x01]

theorem accepted_exact_iff_roster : ∃ cfg l,
    returned (rosterReading (memOf 0x20040000 goodRoster) 1 (bufferOf goodRoster (by decide))) =
      some (.ok, cfg) ∧
    content (rosterPairs (memOf 0x20040000 goodRoster) 1) (bufferOf goodRoster (by decide)) =
      some l ∧ RosterExact cfg l := by
  have hok : returned (rosterReading (memOf 0x20040000 goodRoster) 1
      (bufferOf goodRoster (by decide))) =
        some (.ok, ({ s := [⟨5, 3, 1⟩] } : RosterCfg).stored) := by decide +kernel
  have hcontent : content (rosterPairs (memOf 0x20040000 goodRoster) 1)
      (bufferOf goodRoster (by decide)) =
        some { v := 1, gotV := true, out := { s := [⟨5, 3, 1⟩] } } := by decide +kernel
  obtain ⟨l, hl, hiff⟩ := (accepted_exact_iff (memOf 0x20040000 goodRoster) 1
    (bufferOf goodRoster (by decide)) 0 (.replicate 8 0) ⟨0, 0, 0, 0, []⟩).2.1 _ hok
  obtain rfl := Option.some.inj (hcontent.symm.trans hl)
  refine ⟨_, _, hok, hl, hiff.mpr ⟨by decide, by decide, by decide, by decide, ?_⟩⟩
  decide

/-- A roster file with a slave at address 0x105. -/
def wideRoster : Octets :=
  [0xA2, 0x61, 0x76, 0x01, 0x61, 0x73, 0x81, 0x83, 0x19, 0x01, 0x05, 0x03, 0x01]

/-- An identity file of a master with the variant 0x101, for a board whose bytes are zero. -/
def wideIdentity : Octets :=
  [0xA5, 0x61, 0x76, 0x01, 0x62, 0x63, 0x68, 0x01, 0x62, 0x76, 0x72, 0x19, 0x01, 0x01, 0x62, 0x61,
    0x64, 0x00, 0x62, 0x69, 0x64, 0x48, 0, 0, 0, 0, 0, 0, 0, 0]

/-- A variant that no image has is accepted as 1, and an address that no slave has as 5. -/
theorem not_accepted_exact : ∃ b b' : Buffer,
    (∃ i l, returned (identityReading 1 (.replicate 8 0) ⟨0, 0, 0, 0, []⟩
        (memOf 0x20040000 wideIdentity) 1 b) = some (.ok, i) ∧
      content (identPairs (memOf 0x20040000 wideIdentity) 1) b = some l ∧
      l.vr = 0x101 ∧ i.variant = 1 ∧ ¬IdentityExact i l) ∧
    ∃ cfg l, returned (rosterReading (memOf 0x20040000 wideRoster) 1 b') = some (.ok, cfg) ∧
      content (rosterPairs (memOf 0x20040000 wideRoster) 1) b' = some l ∧
      l.out.s = [⟨0x105, 3, 1⟩] ∧ cfg.s.take cfg.n = [⟨5, 3, 1⟩] ∧ ¬RosterExact cfg l := by
  have hok : returned (identityReading 1 (.replicate 8 0) ⟨0, 0, 0, 0, []⟩
      (memOf 0x20040000 wideIdentity) 1 (bufferOf wideIdentity (by decide))) =
        some (.ok, ⟨1, 1, 0, 0, List.replicate 8 0⟩) := by decide +kernel
  have hcontent : content (identPairs (memOf 0x20040000 wideIdentity) 1)
      (bufferOf wideIdentity (by decide)) = some
        { v := 1, ch := 1, vr := 0x101, ad := 0, uid := ⟨0x20040016, 8⟩, seen := 31 } := by
    decide +kernel
  have hok' : returned (rosterReading (memOf 0x20040000 wideRoster) 1
      (bufferOf wideRoster (by decide))) =
        some (.ok, ({ s := [⟨5, 3, 1⟩] } : RosterCfg).stored) := by decide +kernel
  have hcontent' : content (rosterPairs (memOf 0x20040000 wideRoster) 1)
      (bufferOf wideRoster (by decide)) =
        some { v := 1, gotV := true, out := { s := [⟨0x105, 3, 1⟩] } } := by decide +kernel
  refine ⟨_, _, ⟨_, _, hok, hcontent, rfl, rfl, fun h => ?_⟩,
    ⟨_, _, hok', hcontent', rfl, rfl, fun h => ?_⟩⟩
  · exact absurd h.variant (by decide)
  · exact absurd h.slaves (by decide)

end SlowBus.Boot
