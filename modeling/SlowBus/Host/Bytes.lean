import SlowBus.Commission.Reply
import SlowBus.Host.Echo

/-!
# The host link in bytes

`core/host_link.c` with its ring and its decoder. Bytes of the host complete frames, the frames
that answer them are encoded into the ring, and the ring is drained into the serial port. Seen from
the frames this is the ladder, in which the room that the ring has decides what is staged.
-/

namespace SlowBus.Host

open Bus (Byte)
open Comm (CommFrame FrameDecoder FrameMeta FrameRing collecting closed frameDecoderFeed
  frameEncodeS2m frameRingInit frameRingReadDrain)
open Commission (LuaDecoder LuaFrame S2m SlipDecoder)
open Runs (run)

/-- `host_link_t`; the ring has `HOST_LINK_TX_RING_SIZE` bytes. -/
structure ByteLink where
  link : HostLink
  tx : FrameRing 10
  rx : FrameDecoder
  rxMsgs : BitVec 32

/-- The meta of a frame that `emit_s2m` stages. -/
def S2mFrame.info (f : S2mFrame) : FrameMeta where
  addr := f.addr
  cmd := f.cmd
  seq := f.seq
  payloadLen := .ofNat 8 f.payload.length

/-- `emit_s2m`; a payload has as many bytes as its length, a byte, says. -/
def ByteLink.emitS2m (l : ByteLink) (addr : Byte) (opcode : BitVec 16) (payload : List Byte) :
    ByteLink × List S2mFrame :=
  let m : FrameMeta :=
    { addr, cmd := opcode, seq := l.link.seq, payloadLen := .ofNat 8 payload.length }
  let (tx, ok) := frameEncodeS2m m payload l.tx
  if ok then
    ({ l with tx, link := { l.link with seq := l.link.seq + 1, txMsgs := l.link.txMsgs + 1 } },
      [⟨addr, opcode, l.link.seq, payload⟩])
  else ({ l with tx }, [])

/-- `emit_register` -/
def ByteLink.emitRegister (l : ByteLink) : ByteLink × List S2mFrame :=
  l.emitS2m 1 opRegister l.link.cfg.register

/-- The payload of `emit_manifest`. -/
def LinkCfg.manifest (c : LinkCfg) : List Byte :=
  wrU32 c.schemaHash ++ wrU32 c.fwVersion ++ [.ofNat 8 m2sOps.length] ++ m2sOps.flatMap wrU16

/-- `emit_manifest` -/
def ByteLink.emitManifest (l : ByteLink) : ByteLink × List S2mFrame :=
  l.emitS2m 1 opManifestReply l.link.cfg.manifest

def ByteLink.setState (l : ByteLink) (state : LinkState) : ByteLink :=
  { l with link := { l.link with state } }

/-- `on_frame` -/
def ByteLink.onFrame (l : ByteLink) (m : FrameMeta) : ByteLink × List S2mFrame :=
  if m.addr ≠ 0 then (l, [])
  else if m.cmd = opRegisterAck then
    (if l.link.state = .boot then l.setState .l1Acked else l, [])
  else if m.cmd = opGetManifest then
    let (l, staged) := l.emitManifest
    (if l.link.state = .boot ∨ l.link.state = .l1Acked then l.setState .manifest else l, staged)
  else if m.cmd = opOperationalBegin then
    ({ l with link := { l.link with state := .operational, nextHeartbeatMs := 0 } }, [])
  else if m.cmd = opPing then l.emitS2m 1 opPong []
  else (l, [])

/-- `host_link_feed` -/
def ByteLink.feed (l : ByteLink) (byte : Byte) : ByteLink × List S2mFrame :=
  match frameDecoderFeed l.rx byte with
  | (rx, .frameReady m _) => { l with rx, rxMsgs := l.rxMsgs + 1 }.onFrame m
  | (rx, _) => ({ l with rx }, [])

/-- `host_link_tick` -/
def ByteLink.tick (l : ByteLink) (now : BitVec 32) (connected : Bool) :
    ByteLink × List S2mFrame :=
  if connected = false then (l, [])
  else if l.link.state ≠ .operational then
    if 0 ≤ (now - l.link.nextRegisterMs).toInt then
      let (l, staged) := l.emitRegister
      ({ l with link := { l.link with
          nextRegisterMs := now + .ofNat 32 hlRegisterPeriodMs } }, staged)
    else (l, [])
  else if 0 ≤ (now - l.link.nextHeartbeatMs).toInt then
    let (l, staged) := l.emitS2m 1 opHeartbeat []
    ({ l with link := { l.link with
        nextHeartbeatMs := now + .ofNat 32 hlHeartbeatPeriodMs } }, staged)
  else (l, [])

/-- `host_link_reset_boot` -/
def ByteLink.resetBoot (l : ByteLink) : ByteLink :=
  { l with link := l.link.resetBoot, tx := frameRingInit l.tx, rx := closed .m2s }

/-- `host_link_shell_reply` -/
def ByteLink.shellReply (l : ByteLink) (reqId : BitVec 16) (status : Byte) (result : List Byte) :
    ByteLink × List S2mFrame :=
  l.emitS2m 0 opShellReply (wrU16 reqId ++ [status] ++ result.take (128 - 3))

/-- `host_link_tx_drain` -/
def ByteLink.txDrain (l : ByteLink) (max : BitVec 32) : ByteLink × List Byte :=
  let (tx, drained) := frameRingReadDrain l.tx max
  ({ l with tx }, drained)

/-! ## Runs -/

inductive LinkCall where
  | feed (byte : Byte)
  | tick (now : BitVec 32) (connected : Bool)
  | s2m (addr : Byte) (opcode : BitVec 16) (payload : List Byte)
  | shellReply (reqId : BitVec 16) (status : Byte) (result : List Byte)
  | drain (max : BitVec 32)
  deriving DecidableEq, Repr

/-- The length of a payload is passed as a byte. -/
def LinkCall.Sized : LinkCall → Prop
  | .s2m _ _ payload => payload.length < 256
  | _ => True

instance : (c : LinkCall) → Decidable c.Sized
  | .s2m _ _ payload => inferInstanceAs (Decidable (payload.length < 256))
  | .feed _ | .tick _ _ | .shellReply _ _ _ | .drain _ => isTrue trivial

/-- A link, the frames that it has staged and the bytes drained from it. -/
structure LinkRun where
  at' : ByteLink
  staged : List S2mFrame := []
  drained : List Byte := []

/-- The link after a call, the frames that it stages and the bytes that it drains. -/
def ByteLink.call (l : ByteLink) : LinkCall → ByteLink × List S2mFrame × List Byte
  | .feed byte => ((l.feed byte).1, (l.feed byte).2, [])
  | .tick now connected => ((l.tick now connected).1, (l.tick now connected).2, [])
  | .s2m addr opcode payload =>
      ((l.emitS2m addr opcode payload).1, (l.emitS2m addr opcode payload).2, [])
  | .shellReply reqId status result =>
      ((l.shellReply reqId status result).1, (l.shellReply reqId status result).2, [])
  | .drain max => ((l.txDrain max).1, [], (l.txDrain max).2)

def LinkRun.next (r : LinkRun) (c : LinkCall) : LinkRun where
  at' := (r.at'.call c).1
  staged := r.staged ++ (r.at'.call c).2.1
  drained := r.drained ++ (r.at'.call c).2.2

/-! ## What a call stages -/

/-- The bytes of a frame. -/
def S2mFrame.wire (f : S2mFrame) : List Byte := Comm.wire .s2m f.info f.payload

/-- From one link to another these frames were staged: they stand at the end of the ring, in order,
numbered from the number of the first link on. -/
structure Stages (l l' : ByteLink) (staged : List S2mFrame) : Prop where
  contents : l'.tx.contents = l.tx.contents ++ staged.flatMap S2mFrame.wire
  room : l'.tx.count ≤ 2 ^ 10
  seq : l'.link.seq = l.link.seq + .ofNat 8 staged.length
  numbered : ∀ i f, staged[i]? = some f → f.seq = l.link.seq + .ofNat 8 i
  short : ∀ f ∈ staged, f.payload.length ≤ 128

variable {l l' : ByteLink} {staged : List S2mFrame}

theorem Stages.nothing (h : l.tx.count ≤ 2 ^ 10) (htx : l'.tx = l.tx)
    (hseq : l'.link.seq = l.link.seq) : Stages l l' [] where
  contents := by simp [htx]
  room := htx ▸ h
  seq := by simp [hseq]
  numbered := by simp
  short := by simp

theorem Stages.congr (h : Stages l l' staged) {k k' : ByteLink} (htx : k.tx = l.tx)
    (hseq : k.link.seq = l.link.seq) (htx' : k'.tx = l'.tx) (hseq' : k'.link.seq = l'.link.seq) :
    Stages k k' staged where
  contents := by rw [htx', htx, h.contents]
  room := htx' ▸ h.room
  seq := by rw [hseq', hseq, h.seq]
  numbered := by simpa [hseq] using h.numbered
  short := h.short

theorem Stages.setState (h : Stages l l' staged) (state : LinkState) :
    Stages l (l'.setState state) staged := h.congr rfl rfl rfl rfl

/-- What a tick does besides. -/
theorem Stages.setDeadlines (h : Stages l l' staged) (register heartbeat : BitVec 32) :
    Stages l { l' with link := { l'.link with
      nextRegisterMs := register, nextHeartbeatMs := heartbeat } } staged := h.congr rfl rfl rfl rfl

/-- A frame is staged as a whole or not at all. -/
theorem emitS2m_stages (h : l.tx.count ≤ 2 ^ 10) (addr : Byte) (opcode : BitVec 16)
    {payload : List Byte} (hpayload : payload.length < 256) :
    Stages l (l.emitS2m addr opcode payload).1 (l.emitS2m addr opcode payload).2 := by
  let m : FrameMeta :=
    { addr, cmd := opcode, seq := l.link.seq, payloadLen := .ofNat 8 payload.length }
  have hlen : m.payloadLen.toNat = payload.length := by
    show (BitVec.ofNat 8 payload.length).toNat = _
    rw [BitVec.toNat_ofNat, Nat.mod_eq_of_lt hpayload]
  obtain ⟨hok, hcontents, hroom⟩ :=
    Comm.frameEncodeCommon_spec (k := 10) (by decide) h m payload .s2m
  rw [hlen, List.take_length] at hok hcontents
  unfold ByteLink.emitS2m frameEncodeS2m
  dsimp only
  rw [show ({ addr, cmd := opcode, seq := l.link.seq, payloadLen := .ofNat 8 payload.length } :
    FrameMeta) = m from rfl]
  cases hcase : (Comm.frameEncodeCommon m payload l.tx .s2m).2 with
  | true =>
      have hfits := (hok.mp hcase).1
      rw [hcase, if_pos rfl] at hcontents
      rw [if_pos rfl]
      refine ⟨?_, hroom, rfl, ?_, ?_⟩
      · rw [hcontents, List.flatMap_singleton]
        rfl
      · intro i f hf
        obtain ⟨rfl, rfl⟩ : i = 0 ∧ _ = f := by
          cases i with
          | zero => exact ⟨rfl, Option.some.inj hf⟩
          | succ i => cases hf
        exact (BitVec.add_zero _).symm
      · rintro f hf
        rw [List.mem_singleton.mp hf]
        rw [BitVec.le_def, hlen] at hfits
        exact hfits
  | false =>
      rw [hcase] at hcontents
      rw [if_neg Bool.noConfusion]
      exact ⟨by simpa using hcontents, hroom, by simp, by simp, by simp⟩

theorem length_register (c : LinkCfg) : c.register.length = 38 := by
  simp [LinkCfg.register, wrU16, wrU32]

theorem length_manifest (c : LinkCfg) : c.manifest.length = 23 := rfl

theorem emitManifest_stages (h : l.tx.count ≤ 2 ^ 10) :
    Stages l l.emitManifest.1 l.emitManifest.2 :=
  emitS2m_stages h 1 opManifestReply (by rw [length_manifest]; omega)

theorem onFrame_stages (h : l.tx.count ≤ 2 ^ 10) (m : FrameMeta) :
    Stages l (l.onFrame m).1 (l.onFrame m).2 := by
  have hmanifest := emitManifest_stages h
  unfold ByteLink.onFrame
  generalize l.emitManifest = manifest at hmanifest ⊢
  split
  next => exact .nothing h rfl rfl
  split
  next => split <;> exact .nothing h rfl rfl
  split
  next =>
    dsimp only
    split
    next => exact hmanifest.setState .manifest
    next => exact hmanifest
  split
  next => exact .nothing h rfl rfl
  split
  next => exact emitS2m_stages h 1 opPong (by decide)
  next => exact .nothing h rfl rfl

theorem feed_eq (l : ByteLink) (byte : Byte) :
    l.feed byte =
      match (l.rx.step byte).2 with
      | some (m, _) => { l with rx := (l.rx.step byte).1, rxMsgs := l.rxMsgs + 1 }.onFrame m
      | none => ({ l with rx := (l.rx.step byte).1 }, []) := by
  unfold ByteLink.feed FrameDecoder.step
  rcases frameDecoderFeed l.rx byte with ⟨rx, result⟩
  cases result <;> rfl

theorem feed_stages (h : l.tx.count ≤ 2 ^ 10) (byte : Byte) :
    Stages l (l.feed byte).1 (l.feed byte).2 := by
  rw [feed_eq]
  cases (l.rx.step byte).2 with
  | none => exact .nothing h rfl rfl
  | some got => exact (onFrame_stages (by exact h) got.1).congr rfl rfl rfl rfl

theorem emitRegister_stages (h : l.tx.count ≤ 2 ^ 10) :
    Stages l l.emitRegister.1 l.emitRegister.2 :=
  emitS2m_stages h 1 opRegister (by rw [length_register]; omega)

theorem tick_stages (h : l.tx.count ≤ 2 ^ 10) (now : BitVec 32) (connected : Bool) :
    Stages l (l.tick now connected).1 (l.tick now connected).2 := by
  have hregister := emitRegister_stages h
  have hheartbeat := @emitS2m_stages l h 1 opHeartbeat [] (by decide)
  unfold ByteLink.tick
  generalize l.emitRegister = register at hregister ⊢
  generalize l.emitS2m 1 opHeartbeat [] = heartbeat at hheartbeat ⊢
  split
  next => exact .nothing h rfl rfl
  split
  next =>
    split
    next => exact hregister.setDeadlines _ _
    next => exact .nothing h rfl rfl
  split
  next => exact hheartbeat.setDeadlines _ _
  next => exact .nothing h rfl rfl

theorem shellReply_stages (h : l.tx.count ≤ 2 ^ 10) (reqId : BitVec 16) (status : Byte)
    (result : List Byte) :
    Stages l (l.shellReply reqId status result).1 (l.shellReply reqId status result).2 := by
  refine emitS2m_stages h 0 opShellReply ?_
  rw [List.length_append, List.length_append, List.length_take, wrU16]
  simp only [List.length_cons, List.length_nil]
  omega

/-- No call overfills the ring. -/
theorem call_count {c : LinkCall} (h : l.tx.count ≤ 2 ^ 10) (hc : c.Sized) :
    (l.call c).1.tx.count ≤ 2 ^ 10 := by
  cases c with
  | feed byte => exact (feed_stages h byte).room
  | tick now connected => exact (tick_stages h now connected).room
  | s2m addr opcode payload => exact (emitS2m_stages h addr opcode hc).room
  | shellReply reqId status result => exact (shellReply_stages h reqId status result).room
  | drain max => exact (Comm.frameRingReadDrain_eq (by decide) l.tx max).2.2.trans h

/-- Nothing else touches the bytes in the ring. -/
theorem call_bytes {c : LinkCall} (h : l.tx.count ≤ 2 ^ 10) (hc : c.Sized) :
    (l.call c).2.2 ++ (l.call c).1.tx.contents =
      l.tx.contents ++ (l.call c).2.1.flatMap S2mFrame.wire := by
  cases c with
  | feed byte => exact (feed_stages h byte).contents
  | tick now connected => exact (tick_stages h now connected).contents
  | s2m addr opcode payload => exact (emitS2m_stages h addr opcode hc).contents
  | shellReply reqId status result => exact (shellReply_stages h reqId status result).contents
  | drain max =>
      obtain ⟨hdrained, hrest, -⟩ := Comm.frameRingReadDrain_eq (by decide) l.tx max
      show (frameRingReadDrain l.tx max).2 ++ (frameRingReadDrain l.tx max).1.contents = _
      rw [hdrained, hrest, List.take_append_drop]
      exact (List.append_nil _).symm

/-- A run stages frames; what was drained and what is in the ring grow by their bytes. -/
theorem run_bytes {r : LinkRun} {cs : List LinkCall} (hroom : r.at'.tx.count ≤ 2 ^ 10)
    (hcs : ∀ c ∈ cs, c.Sized) :
    let r' := run LinkRun.next r cs
    ∃ added, r'.staged = r.staged ++ added ∧ r'.at'.tx.count ≤ 2 ^ 10 ∧
      r'.drained ++ r'.at'.tx.contents =
        r.drained ++ r.at'.tx.contents ++ added.flatMap S2mFrame.wire := by
  induction cs generalizing r with
  | nil => exact ⟨[], (List.append_nil _).symm, hroom, (List.append_nil _).symm⟩
  | cons c cs ih =>
      obtain ⟨hc, hcs⟩ := List.forall_mem_cons.mp hcs
      have hnext : (r.next c).at'.tx.count ≤ 2 ^ 10 := call_count hroom hc
      obtain ⟨added, hstaged, hcount, hbytes⟩ := ih hnext hcs
      refine ⟨(r.at'.call c).2.1 ++ added, ?_, hcount, ?_⟩
      · rw [← List.append_assoc]
        exact hstaged
      · have hcall := call_bytes hroom hc
        refine hbytes.trans ?_
        show r.drained ++ (r.at'.call c).2.2 ++ (r.at'.call c).1.tx.contents ++ _ = _
        rw [List.append_assoc r.drained, hcall, List.flatMap_append]
        simp only [List.append_assoc]

/-! ## From the ring to the tools -/

/-- Since a link was as `l`, what has been staged is what was drained and what is in the ring. -/
structure Uplink (l : ByteLink) (r : LinkRun) : Prop where
  bytes : r.drained ++ r.at'.tx.contents = r.staged.flatMap S2mFrame.wire
  room : r.at'.tx.count ≤ 2 ^ 10
  seq : r.at'.link.seq = l.link.seq + .ofNat 8 r.staged.length
  numbered : ∀ i f, r.staged[i]? = some f → f.seq = l.link.seq + .ofNat 8 i
  short : ∀ f ∈ r.staged, f.payload.length ≤ 128

variable {r : LinkRun} {c : LinkCall} {cs : List LinkCall}

theorem Uplink.stage (h : Uplink l r) (hstages : Stages r.at' l' staged) :
    Uplink l ⟨l', r.staged ++ staged, r.drained ++ []⟩ where
  bytes := by
    rw [List.append_nil, hstages.contents, ← List.append_assoc, h.bytes, List.flatMap_append]
  room := hstages.room
  seq := by
    rw [hstages.seq, h.seq, List.length_append, BitVec.ofNat_add, BitVec.add_assoc]
  numbered := by
    intro i f hf
    rcases Nat.lt_or_ge i r.staged.length with hi | hi
    · rw [List.getElem?_append_left hi] at hf
      exact h.numbered i f hf
    · rw [List.getElem?_append_right hi] at hf
      rw [hstages.numbered _ f hf, h.seq, BitVec.add_assoc, ← BitVec.ofNat_add,
        Nat.add_sub_cancel' hi]
  short := by
    intro f hf
    rcases List.mem_append.mp hf with hf | hf
    · exact h.short f hf
    · exact hstages.short f hf

theorem Uplink.next (h : Uplink l r) (hc : c.Sized) : Uplink l (r.next c) := by
  cases c with
  | feed byte => exact h.stage (feed_stages h.room byte)
  | tick now connected => exact h.stage (tick_stages h.room now connected)
  | s2m addr opcode payload => exact h.stage (emitS2m_stages h.room addr opcode hc)
  | shellReply reqId status result => exact h.stage (shellReply_stages h.room reqId status result)
  | drain max =>
      have hstaged : (r.next (.drain max)).staged = r.staged := List.append_nil _
      refine ⟨?_, call_count h.room hc, ?_, ?_, ?_⟩
      · have hdrained := call_bytes h.room hc
        rw [hstaged, ← h.bytes, ← List.append_nil r.at'.tx.contents]
        exact (List.append_assoc r.drained _ _).trans (congrArg (r.drained ++ ·) hdrained)
      · rw [hstaged]
        exact h.seq
      · rw [hstaged]
        exact h.numbered
      · rw [hstaged]
        exact h.short

theorem Uplink.start (l : ByteLink) : Uplink l ⟨l.resetBoot, [], []⟩ where
  bytes := by
    show [] ++ (frameRingInit l.tx).contents = []
    rw [List.nil_append, RingBuffer.Buffer.contents_eq_nil_iff]
    rfl
  room := by
    show (0#32 - 0#32).toNat ≤ 2 ^ 10
    decide
  seq := (BitVec.add_zero _).symm
  numbered := by simp
  short := by simp

theorem Uplink.run (h : Uplink l r) (hcs : ∀ c ∈ cs, c.Sized) :
    Uplink l (run LinkRun.next r cs) := by
  induction cs generalizing r with
  | nil => exact h
  | cons c cs ih =>
      obtain ⟨hc, hcs⟩ := List.forall_mem_cons.mp hcs
      exact ih (h.next hc) hcs

/-- A frame as the Python tool and as the Lua tool have it. -/
def S2mFrame.told (f : S2mFrame) : S2m := Commission.told f.info f.payload

def S2mFrame.toldLua (f : S2mFrame) : LuaFrame := Commission.toldLua f.info f.payload

theorem exists_frames {fs : List S2mFrame} (h : ∀ f ∈ fs, f.payload.length ≤ 128) :
    ∃ frames : List (CommFrame .s2m), frames.flatMap Commission.s2mWire = fs.flatMap S2mFrame.wire ∧
      frames.map (fun g => (g.info, g.payload)) = fs.map fun f => (f.info, f.payload) := by
  induction fs with
  | nil => exact ⟨[], rfl, rfl⟩
  | cons f fs ih =>
      obtain ⟨hf, hfs⟩ := List.forall_mem_cons.mp h
      obtain ⟨frames, hwire, hmap⟩ := ih hfs
      have hlen : f.info.payloadLen.toNat = f.payload.length := by
        show (BitVec.ofNat 8 f.payload.length).toNat = _
        rw [BitVec.toNat_ofNat]
        omega
      let g : CommFrame .s2m :=
        { info := f.info
          payload := f.payload
          len := hlen.symm
          fits := by
            rw [BitVec.le_def]
            exact hlen.trans_le hf
          acks := Comm.FrameDir.noConfusion }
      refine ⟨g :: frames, ?_, ?_⟩
      · rw [List.flatMap_cons, List.flatMap_cons, hwire]
        rfl
      · rw [List.map_cons, List.map_cons, hmap]

/-- From a reset of the link on, through any calls, what the tools have read of the drained bytes
and what they will read of those in the ring are the frames staged, in order and each once, behind
at most one that was left from before. The frames are numbered one after the other. -/
theorem uplink_delivers (l : ByteLink) {cs : List LinkCall} (hcs : ∀ c ∈ cs, c.Sized) :
    let r := run LinkRun.next ⟨l.resetBoot, [], []⟩ cs
    (∀ i f, r.staged[i]? = some f → f.seq = l.link.seq + .ofNat 8 i) ∧
    (∀ (d : SlipDecoder) (chunks : List (List Byte)), chunks.flatten = r.drained →
      ∃ stale : List S2m, stale.length ≤ 1 ∧ (d.inFrame = false ∨ d.buf = [] → stale = []) ∧
        ((d.feedChunks chunks).2 ++ ((d.feedChunks chunks).1.feed r.at'.tx.contents).2).filterMap
          Commission.parsed = stale ++ r.staged.map S2mFrame.told) ∧
    ∀ dec : LuaDecoder, ∃ stale : List LuaFrame, stale.length ≤ 1 ∧
      (dec.inFrame = false ∨ dec.buf = [] → stale = []) ∧
        dec.frames r.drained ++
            (Deframer.feedAll LuaDecoder.feed dec r.drained).frames r.at'.tx.contents =
          stale ++ r.staged.map S2mFrame.toldLua := by
  intro r
  have huplink : Uplink l r := (Uplink.start l).run hcs
  -- the staged frames are frames of the format, as their payloads are short
  obtain ⟨frames, hwire, hmap⟩ := exists_frames huplink.short
  refine ⟨huplink.numbered, ?_, ?_⟩
  · intro d chunks hchunks
    obtain ⟨stale, hone, hnone, hfeed⟩ := Commission.feed_s2m d frames
    refine ⟨stale.filterMap Commission.parsed, (List.length_filterMap_le ..).trans hone,
      fun h => by rw [hnone h]; rfl, ?_⟩
    have hall := Commission.feed_append d r.drained r.at'.tx.contents
    rw [huplink.bytes, ← hwire] at hall
    have hbodies : (d.feed r.drained).2 ++
        ((d.feed r.drained).1.feed r.at'.tx.contents).2 = stale ++ frames.map (·.signed) :=
      (congrArg Prod.snd hall).symm.trans hfeed
    rw [Commission.feedChunks_eq, hchunks, hbodies, List.filterMap_append]
    refine congrArg _ ?_
    have htold : r.staged.map S2mFrame.told =
        (frames.map fun g => (g.info, g.payload)).map fun p => Commission.told p.1 p.2 := by
      rw [hmap, List.map_map]
      rfl
    rw [htold, List.filterMap_map, List.map_map, ← List.filterMap_eq_map]
    refine List.filterMap_congr fun g _ => ?_
    show (Commission.parseS2m g.signed).toOption = _
    rw [CommFrame.signed, Commission.parseS2m_signed g.len]
    rfl
  · intro dec
    obtain ⟨stale, hone, hnone, hframes⟩ := Commission.lua_s2m dec frames
    refine ⟨stale, hone, hnone, ?_⟩
    have htold : r.staged.map S2mFrame.toldLua =
        (frames.map fun g => (g.info, g.payload)).map fun p => Commission.toldLua p.1 p.2 := by
      rw [hmap, List.map_map]
      rfl
    rw [htold, List.map_map, LuaDecoder.frames, LuaDecoder.frames, ← List.reduceOption_append,
      ← Deframer.outputs_append, huplink.bytes, ← hwire]
    exact hframes

/-! ## Frames received -/

/-- The byte of the host that a call brings. -/
def LinkCall.fed : LinkCall → Option Byte
  | .feed byte => some byte
  | _ => none

/-- The frame that `on_frame` is called with by a call, if there is one. -/
def ByteLink.hands (l : ByteLink) : LinkCall → List (FrameMeta × List Byte)
  | .feed byte => (l.rx.step byte).2.toList
  | _ => []

/-- The frames that `on_frame` is called with along a run of calls. -/
def ByteLink.handed : ByteLink → List LinkCall → List (FrameMeta × List Byte)
  | _, [] => []
  | l, c :: cs => l.hands c ++ (l.call c).1.handed cs

theorem emitS2m_rx (l : ByteLink) (addr : Byte) (opcode : BitVec 16) (payload : List Byte) :
    (l.emitS2m addr opcode payload).1.rx = l.rx ∧
      (l.emitS2m addr opcode payload).1.rxMsgs = l.rxMsgs := by
  unfold ByteLink.emitS2m
  dsimp only
  split <;> exact ⟨rfl, rfl⟩

theorem onFrame_rx (l : ByteLink) (m : FrameMeta) :
    (l.onFrame m).1.rx = l.rx ∧ (l.onFrame m).1.rxMsgs = l.rxMsgs := by
  have hmanifest : l.emitManifest.1.rx = l.rx ∧ l.emitManifest.1.rxMsgs = l.rxMsgs := by
    rw [ByteLink.emitManifest]
    exact emitS2m_rx ..
  unfold ByteLink.onFrame
  generalize l.emitManifest = manifest at hmanifest ⊢
  split
  next => exact ⟨rfl, rfl⟩
  split
  next => split <;> exact ⟨rfl, rfl⟩
  split
  next =>
    dsimp only
    split <;> exact hmanifest
  split
  next => exact ⟨rfl, rfl⟩
  split
  next => exact emitS2m_rx ..
  next => exact ⟨rfl, rfl⟩

theorem feed_rx (l : ByteLink) (byte : Byte) :
    (l.feed byte).1.rx = (l.rx.step byte).1 ∧
      (l.feed byte).1.rxMsgs = l.rxMsgs + .ofNat 32 (l.rx.step byte).2.toList.length := by
  rw [feed_eq]
  cases (l.rx.step byte).2 with
  | none => exact ⟨rfl, (BitVec.add_zero _).symm⟩
  | some got => exact onFrame_rx ..

theorem tick_rx (l : ByteLink) (now : BitVec 32) (connected : Bool) :
    (l.tick now connected).1.rx = l.rx ∧ (l.tick now connected).1.rxMsgs = l.rxMsgs := by
  have hregister : l.emitRegister.1.rx = l.rx ∧ l.emitRegister.1.rxMsgs = l.rxMsgs := by
    rw [ByteLink.emitRegister]
    exact emitS2m_rx ..
  have hheartbeat := emitS2m_rx l 1 opHeartbeat []
  unfold ByteLink.tick
  generalize l.emitRegister = register at hregister ⊢
  generalize l.emitS2m 1 opHeartbeat [] = heartbeat at hheartbeat ⊢
  split
  next => exact ⟨rfl, rfl⟩
  split
  next =>
    split
    next => exact hregister
    next => exact ⟨rfl, rfl⟩
  split
  next => exact hheartbeat
  next => exact ⟨rfl, rfl⟩

/-- The decoder is moved by the bytes of the host alone. -/
theorem call_rx (l : ByteLink) (hfed : c.fed = none) :
    (l.call c).1.rx = l.rx ∧ (l.call c).1.rxMsgs = l.rxMsgs := by
  cases c with
  | feed byte => cases hfed
  | tick now connected => exact tick_rx l now connected
  | s2m addr opcode payload => exact emitS2m_rx ..
  | shellReply reqId status result => exact emitS2m_rx ..
  | drain max => exact ⟨rfl, rfl⟩

theorem rxMsgs_run (r : LinkRun) (cs : List LinkCall) :
    (run LinkRun.next r cs).at'.rxMsgs =
      r.at'.rxMsgs + .ofNat 32 (r.at'.handed cs).length := by
  induction cs generalizing r with
  | nil => exact (BitVec.add_zero _).symm
  | cons c cs ih =>
      rw [Runs.run_cons, ih, ByteLink.handed, List.length_append, BitVec.ofNat_add]
      have hat : (r.next c).at' = (r.at'.call c).1 := rfl
      rw [hat, ← BitVec.add_assoc]
      cases c with
      | feed byte =>
          show (r.at'.feed byte).1.rxMsgs + _ = _
          rw [(feed_rx r.at' byte).2]
          rfl
      | tick | s2m | shellReply | drain => rw [(call_rx r.at' rfl).2]; simp [ByteLink.hands]

/-! ## The ladder -/

/-- The ring has room for a frame. -/
def ByteLink.room (l : ByteLink) (addr : Byte) (opcode : BitVec 16) (payload : List Byte) : Bool :=
  payload.length ≤ 128 ∧
    l.tx.count + (S2mFrame.wire ⟨addr, opcode, l.link.seq, payload⟩).length ≤ 1024

/-- What a call is to the ladder. -/
def ByteLink.event (l : ByteLink) : LinkCall → Option LinkEvent
  | .feed byte => (l.rx.step byte).2.map fun got =>
      .frame got.1.addr got.1.cmd
        (if got.1.cmd = opGetManifest then l.room 1 opManifestReply l.link.cfg.manifest
          else l.room 1 opPong [])
  | .tick now connected =>
      some (.tick now.toNat connected
        (if l.link.state ≠ .operational then l.room 1 opRegister l.link.cfg.register
          else l.room 1 opHeartbeat []))
  | .s2m addr opcode payload => some (.s2m addr opcode payload (l.room addr opcode payload))
  | .shellReply reqId status result =>
      let payload := wrU16 reqId ++ [status] ++ result.take (128 - 3)
      some (.s2m 0 opShellReply payload (l.room 0 opShellReply payload))
  | .drain _ => none

/-- What a run of calls is to the ladder. -/
def ByteLink.events : ByteLink → List LinkCall → List LinkEvent
  | _, [] => []
  | l, c :: cs => (l.event c).toList ++ (l.call c).1.events cs

/-- The link after events, and the frames staged by them. -/
def HostLink.after (h : HostLink) : List LinkEvent → HostLink × List S2mFrame
  | [] => (h, [])
  | e :: es =>
      let (h, staged) := h.step e
      let (h, later) := h.after es
      (h, staged ++ later)

/-- The encoder stages a frame just when the ring has room for it. -/
theorem emitS2m_link (h : l.tx.count ≤ 2 ^ 10) (addr : Byte) (opcode : BitVec 16)
    {payload : List Byte} (hpayload : payload.length < 256) :
    ((l.emitS2m addr opcode payload).1.link, (l.emitS2m addr opcode payload).2) =
      l.link.emitS2m (l.room addr opcode payload) addr opcode payload := by
  let m : FrameMeta :=
    { addr, cmd := opcode, seq := l.link.seq, payloadLen := .ofNat 8 payload.length }
  have hlen : m.payloadLen.toNat = payload.length := by
    show (BitVec.ofNat 8 payload.length).toNat = _
    rw [BitVec.toNat_ofNat, Nat.mod_eq_of_lt hpayload]
  have hok := (Comm.frameEncodeCommon_spec (k := 10) (by decide) h m payload .s2m).1
  rw [hlen, List.take_length, BitVec.le_def, hlen] at hok
  have hroom : (Comm.frameEncodeCommon m payload l.tx .s2m).2 = l.room addr opcode payload :=
    Bool.eq_iff_iff.mpr (hok.trans decide_eq_true_iff.symm)
  unfold ByteLink.emitS2m frameEncodeS2m HostLink.emitS2m
  dsimp only
  rw [show ({ addr, cmd := opcode, seq := l.link.seq, payloadLen := .ofNat 8 payload.length } :
    FrameMeta) = m from rfl, hroom]
  cases l.room addr opcode payload <;> rfl

theorem emitManifest_eq (h : HostLink) (room : Bool) :
    h.emitManifest room = h.emitS2m room 1 opManifestReply h.cfg.manifest := rfl

theorem onFrame_link (h : l.tx.count ≤ 2 ^ 10) (m : FrameMeta) :
    ((l.onFrame m).1.link, (l.onFrame m).2) = l.link.onFrame m.addr m.cmd
      (if m.cmd = opGetManifest then l.room 1 opManifestReply l.link.cfg.manifest
        else l.room 1 opPong []) := by
  have hmanifest : (l.emitManifest.1.link, l.emitManifest.2) =
      l.link.emitManifest (l.room 1 opManifestReply l.link.cfg.manifest) := by
    rw [emitManifest_eq, ByteLink.emitManifest]
    exact emitS2m_link h 1 opManifestReply (by rw [length_manifest]; omega)
  have hpong := @emitS2m_link l h 1 opPong [] (by decide)
  unfold ByteLink.onFrame HostLink.onFrame
  by_cases haddr : m.addr ≠ 0
  · rw [if_pos haddr, if_pos haddr]
  rw [if_neg haddr, if_neg haddr]
  by_cases hack : m.cmd = opRegisterAck
  · rw [if_pos hack, if_pos hack]
    dsimp only
    split <;> rfl
  rw [if_neg hack, if_neg hack]
  by_cases hget : m.cmd = opGetManifest
  · rw [if_pos hget, if_pos hget, if_pos hget, ← hmanifest]
    generalize l.emitManifest = manifest
    dsimp only
    split <;> rfl
  rw [if_neg hget, if_neg hget, if_neg hget]
  by_cases hbegin : m.cmd = opOperationalBegin
  · rw [if_pos hbegin, if_pos hbegin]
  rw [if_neg hbegin, if_neg hbegin]
  by_cases hping : m.cmd = opPing
  · rw [if_pos hping, if_pos hping, hpong]
  · rw [if_neg hping, if_neg hping]

theorem tick_link (h : l.tx.count ≤ 2 ^ 10) (now : BitVec 32) (connected : Bool) :
    ((l.tick now connected).1.link, (l.tick now connected).2) = l.link.tick now connected
      (if l.link.state ≠ .operational then l.room 1 opRegister l.link.cfg.register
        else l.room 1 opHeartbeat []) := by
  have hregister : (l.emitRegister.1.link, l.emitRegister.2) =
      l.link.emitRegister (l.room 1 opRegister l.link.cfg.register) :=
    emitS2m_link h 1 opRegister (by rw [length_register]; omega)
  have hheartbeat := @emitS2m_link l h 1 opHeartbeat [] (by decide)
  unfold ByteLink.tick HostLink.tick
  by_cases hdown : connected = false
  · rw [if_pos hdown, if_pos hdown]
  rw [if_neg hdown, if_neg hdown]
  by_cases hladder : l.link.state ≠ .operational
  · rw [if_pos hladder, if_pos hladder, if_pos hladder, ← hregister]
    generalize l.emitRegister = register
    split <;> rfl
  · rw [if_neg hladder, if_neg hladder, if_neg hladder, ← hheartbeat]
    generalize l.emitS2m 1 opHeartbeat [] = heartbeat
    split <;> rfl

theorem call_link (h : l.tx.count ≤ 2 ^ 10) (hc : c.Sized) :
    ((l.call c).1.link, (l.call c).2.1) = (l.event c).elim (l.link, []) l.link.step := by
  cases c with
  | feed byte =>
      show ((l.feed byte).1.link, (l.feed byte).2) = _
      rw [feed_eq, ByteLink.event]
      cases (l.rx.step byte).2 with
      | none => rfl
      | some got => exact onFrame_link (by exact h) got.1
  | tick now connected =>
      have hnow : BitVec.ofNat 32 now.toNat = now := by
        rw [BitVec.ofNat_toNat, BitVec.setWidth_eq]
      show _ = l.link.tick (.ofNat 32 now.toNat) connected _
      rw [hnow]
      exact tick_link h now connected
  | s2m addr opcode payload => exact emitS2m_link h addr opcode hc
  | shellReply reqId status result =>
      refine emitS2m_link h 0 opShellReply ?_
      rw [List.length_append, List.length_append, List.length_take, wrU16]
      simp only [List.length_cons, List.length_nil]
      omega
  | drain max => rfl

/-- A frame that does not fit leaves the link and the bytes in the ring as they were. -/
theorem emitS2m_full (h : l.tx.count ≤ 2 ^ 10) {addr : Byte} {opcode : BitVec 16}
    {payload : List Byte} (hpayload : payload.length < 256)
    (hfull : l.room addr opcode payload = false) :
    (l.emitS2m addr opcode payload).2 = [] ∧
      (l.emitS2m addr opcode payload).1.link = l.link ∧
      (l.emitS2m addr opcode payload).1.tx.contents = l.tx.contents := by
  have hlink := emitS2m_link h addr opcode hpayload
  rw [hfull] at hlink
  have hnone : (l.emitS2m addr opcode payload).2 = [] := congrArg Prod.snd hlink
  have hcontents := (emitS2m_stages h addr opcode hpayload).contents
  rw [hnone] at hcontents
  exact ⟨hnone, congrArg Prod.fst hlink, hcontents.trans (List.append_nil _)⟩

/-- The link climbs the ladder and stages frames as the events of the run tell it to. -/
theorem run_link (hroom : r.at'.tx.count ≤ 2 ^ 10) (hcs : ∀ c ∈ cs, c.Sized) :
    (run LinkRun.next r cs).at'.link = (r.at'.link.after (r.at'.events cs)).1 ∧
      (run LinkRun.next r cs).staged =
        r.staged ++ (r.at'.link.after (r.at'.events cs)).2 := by
  induction cs generalizing r with
  | nil => exact ⟨rfl, (List.append_nil _).symm⟩
  | cons c cs ih =>
      obtain ⟨hc, hcs⟩ := List.forall_mem_cons.mp hcs
      have hnext : (r.next c).at'.tx.count ≤ 2 ^ 10 := call_count hroom hc
      obtain ⟨hlink, hstaged⟩ := ih hnext hcs
      have hcall := call_link hroom hc
      rw [Runs.run_cons, hlink, hstaged]
      show _ = (r.at'.link.after ((r.at'.event c).toList ++ (r.at'.call c).1.events cs)).1 ∧ _ =
        r.staged ++ (r.at'.link.after ((r.at'.event c).toList ++ (r.at'.call c).1.events cs)).2
      cases hevent : r.at'.event c with
      | none =>
          rw [hevent] at hcall
          obtain ⟨hsame, hnone⟩ := Prod.mk.injEq .. ▸ hcall
          have hkept : (r.next c).at'.link = r.at'.link := hsame
          have hempty : (r.next c).staged = r.staged := by
            show r.staged ++ (r.at'.call c).2.1 = r.staged
            rw [hnone, List.append_nil]
          rw [hkept, hempty]
          exact ⟨rfl, rfl⟩
      | some e =>
          rw [hevent] at hcall
          obtain ⟨hstep, hadds⟩ := Prod.mk.injEq .. ▸ hcall
          have hat : (r.next c).at'.link = (r.at'.link.step e).1 := hstep
          have hadd : (r.next c).staged = r.staged ++ (r.at'.link.step e).2 := congrArg _ hadds
          rw [hat, hadd, List.append_assoc]
          exact ⟨rfl, rfl⟩

/-- Through any calls, the link climbs the ladder, counts and stages frames as the frames that it
receives and its ticks tell it to. A frame that does not fit into the ring is left out as a whole,
and nothing else: the bytes drained and those in the ring are the ones of the frames staged. -/
theorem link_refines (hroom : r.at'.tx.count ≤ 2 ^ 10) (hcs : ∀ c ∈ cs, c.Sized) :
    let r' := run LinkRun.next r cs
    let ladder := r.at'.link.after (r.at'.events cs)
    r'.at'.link = ladder.1 ∧ r'.staged = r.staged ++ ladder.2 ∧
      r'.at'.rxMsgs = r.at'.rxMsgs + .ofNat 32 (r.at'.handed cs).length ∧
      r'.drained ++ r'.at'.tx.contents =
        r.drained ++ r.at'.tx.contents ++ ladder.2.flatMap S2mFrame.wire ∧
      ∀ addr opcode payload, payload.length < 256 → r'.at'.room addr opcode payload = false →
        let l := r'.at'.emitS2m addr opcode payload
        l.2 = [] ∧ l.1.link = r'.at'.link ∧ l.1.tx.contents = r'.at'.tx.contents := by
  obtain ⟨hlink, hstaged⟩ := run_link hroom hcs
  obtain ⟨added, hadded, hcount, hbytes⟩ := run_bytes hroom hcs
  obtain rfl := List.append_cancel_left (hadded.symm.trans hstaged)
  exact ⟨hlink, hstaged, rxMsgs_run r cs, hbytes, fun _ _ _ hpayload hfull =>
    emitS2m_full hcount hpayload hfull⟩

def idleLink : ByteLink where
  link := { cfg := ⟨1, 0, 0, .replicate 16 0, 0, 0, 0, 0, 0⟩ }
  tx := ⟨fun _ => 0, 0, 0⟩
  rx := closed .m2s
  rxMsgs := 0

/-- A reply, a drain that stops in the middle of it, and the announcement of a tick. -/
def replyCalls : List LinkCall := [.s2m 2 0x0011 [0xDB, 0xC0], .drain 8, .tick 0 true]

/-- Tools that start with the link read the two frames. -/
theorem uplink_delivers_reply :
    let r := run LinkRun.next ⟨idleLink.resetBoot, [], []⟩ replyCalls
    r.drained.length = 8 ∧ r.staged.map (fun f => (f.seq, f.cmd)) = [(0, 0x0011), (1, 0x0001)] ∧
      ((({} : SlipDecoder).feedChunks [r.drained]).2 ++
        ((({} : SlipDecoder).feedChunks [r.drained]).1.feed r.at'.tx.contents).2).filterMap
          Commission.parsed = r.staged.map S2mFrame.told ∧
      ({} : LuaDecoder).frames r.drained ++
          (Deframer.feedAll LuaDecoder.feed {} r.drained).frames r.at'.tx.contents =
        r.staged.map S2mFrame.toldLua := by
  intro r
  obtain ⟨-, hslip, hlua⟩ :=
    @uplink_delivers idleLink replyCalls (by decide)
  obtain ⟨stale, -, hstale, hparsed⟩ := hslip {} [r.drained] (List.append_nil _)
  obtain ⟨staleLua, -, hstaleLua, hframes⟩ := hlua {}
  refine ⟨by decide +kernel, by decide +kernel, ?_, ?_⟩
  · rw [hparsed, hstale (Or.inl rfl), List.nil_append]
  · rw [hframes, hstaleLua (Or.inl rfl), List.nil_append]

/-- The same link with 1000 bytes in its ring. -/
def crowdedLink : ByteLink := { idleLink with tx := ⟨fun _ => 0, 1000, 0⟩ }

/-- A frame that fits and one that does not, the acknowledgement of the host, a drain and a tick. -/
def crowdedCalls : List LinkCall :=
  [.s2m 2 0x0011 [0xDB], .s2m 2 0x0011 (.replicate 16 0xDB)] ++
    (Commission.encodeM2s ⟨0, 0x0103, 1, []⟩).map .feed ++ [.drain 64, .tick 0 true]

theorem link_refines_crowded :
    let r := run LinkRun.next ⟨crowdedLink, [], []⟩ crowdedCalls
    (r.at'.link.state, r.at'.link.txMsgs, r.at'.rxMsgs) = (.l1Acked, 2, 1) ∧
      r.staged.map (fun f => (f.seq, f.cmd)) = [(0, 0x0011), (1, 0x0001)] ∧
      r.drained ++ r.at'.tx.contents =
        crowdedLink.tx.contents ++ r.staged.flatMap S2mFrame.wire ∧
      (r.at'.emitS2m 2 0x0011 (.replicate 16 0xDB)).1.tx.contents = r.at'.tx.contents := by
  have hrefines := @link_refines ⟨crowdedLink, [], []⟩ crowdedCalls (by decide +kernel)
    (by decide +kernel)
  dsimp only at hrefines ⊢
  obtain ⟨hlink, hstaged, hcounted, hbytes, hfull⟩ := hrefines
  have hcrowded : (run LinkRun.next ⟨crowdedLink, [], []⟩ crowdedCalls).at'.room 2 0x0011
      (.replicate 16 0xDB) = false := by
    decide +kernel
  obtain ⟨-, -, hsame⟩ := hfull 2 0x0011 (.replicate 16 0xDB) (by decide) hcrowded
  refine ⟨?_, ?_, ?_, hsame⟩
  · rw [hlink, hcounted]
    decide +kernel
  · rw [hstaged]
    decide +kernel
  · rw [hbytes, hstaged, List.nil_append, List.nil_append]

/-! ## From the tools to the ladder -/

/-- Whatever is called in between, the frames are those of the bytes that were fed. -/
theorem handed_eq (l : ByteLink) (cs : List LinkCall) :
    l.handed cs = l.rx.delivered (cs.filterMap LinkCall.fed) := by
  induction cs generalizing l with
  | nil => rfl
  | cons c cs ih =>
      rw [ByteLink.handed, ih]
      cases c with
      | feed byte =>
          show (l.rx.step byte).2.toList ++ (l.feed byte).1.rx.delivered _ =
            l.rx.delivered (byte :: cs.filterMap LinkCall.fed)
          rw [(feed_rx l byte).1, FrameDecoder.delivered, FrameDecoder.delivered,
            Deframer.outputs_cons]
          cases (l.rx.step byte).2 <;> rfl
      | tick | s2m | shellReply | drain => rw [(call_rx l rfl).1]; rfl

/-- From a reset of the link on, with ticks, replies and drains at any point between the bytes, the
frames of the tools that come behind whatever bytes reach the ladder in order and each once, but
for those that are too long. Only if a frame was open then is the next one lost, and one that was
cut off may take its place. Every frame that reaches the ladder is counted. -/
theorem downlink_delivers (l : ByteLink) {noise : List Byte} {frames : List Commission.M2s}
    (hfed : cs.filterMap LinkCall.fed = noise ++ frames.flatMap Commission.encodeM2s) :
    let d := Deframer.feedAll FrameDecoder.step (closed .m2s) noise
    ∃ stale : List (FrameMeta × List Byte), stale.length ≤ 1 ∧ (d.Between → stale = []) ∧
      l.resetBoot.handed cs = (closed .m2s).delivered noise ++ stale ++
        (if d.Between then frames else frames.tail).filterMap Comm.arrives ∧
      (run LinkRun.next ⟨l.resetBoot, [], []⟩ cs).at'.rxMsgs =
        l.rxMsgs + .ofNat 32 (l.resetBoot.handed cs).length := by
  intro d
  obtain ⟨stale, hone, hnone, hall⟩ := Comm.delivered_behind noise frames
  refine ⟨stale, hone, hnone, ?_, rxMsgs_run _ cs⟩
  rw [handed_eq, hfed]
  show (closed .m2s).delivered _ = _
  rw [Comm.delivered_append, hall, List.append_assoc]

theorem filterMap_feed (bytes : List Byte) :
    (bytes.map LinkCall.feed).filterMap LinkCall.fed = bytes := by
  rw [List.filterMap_map]
  exact List.filterMap_some ..

/-- A PING behind noise, with a tick before it. -/
def pingCalls : List LinkCall :=
  .feed 0x55 :: .tick 0 true :: (Commission.encodeM2s ⟨0, 0x0104, 1, []⟩).map .feed

theorem downlink_delivers_ping :
    ∃ stale : List (FrameMeta × List Byte), stale.length ≤ 1 ∧
      idleLink.resetBoot.handed pingCalls = stale ++ [(⟨0, 0x0104, 1, 0, 0, 0⟩, [])] := by
  obtain ⟨stale, hone, -, hall, -⟩ := @downlink_delivers pingCalls idleLink [0x55]
    [⟨0, 0x0104, 1, []⟩]
    (by rw [List.flatMap_singleton]; exact congrArg (List.cons 0x55) (filterMap_feed _))
  exact ⟨stale, hone, hall⟩

end SlowBus.Host
