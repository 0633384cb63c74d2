import SlowBus.Engine.Heap
import SlowBus.Lib.Tiles

/-!
# The blocks in the bytes

The pool is tiled by blocks: each has a header that says what it is and a footer behind its
data. The calls of the allocator are followed on that list: an allocation splits or takes one
free block, a release marks one, and joining neighbours leaves the others where they are.
-/

namespace SlowBus.Engine

open Bus (Byte)
open Tiles (starts stop joinFrom Settled)

/-! ## Reading what was written -/

section Memory

variable {m m' m'' : Mem} {a c lo hi v x : Nat}

/-- Only bytes between the bounds have changed. -/
def Mem.Within (lo hi : Nat) (m m' : Mem) : Prop :=
  ∀ x, x < lo ∨ hi ≤ x → m'.byte x = m.byte x

theorem Mem.Within.trans (h : Mem.Within lo hi m m') (h' : Mem.Within lo hi m' m'') :
    Mem.Within lo hi m m'' := fun x hx => (h' x hx).trans (h x hx)

theorem Mem.Within.mono (h : Mem.Within lo hi m m') {lo' hi' : Nat} (hlo : lo' ≤ lo)
    (hhi : hi ≤ hi') : Mem.Within lo' hi' m m' := fun x hx => h x (by omega)

theorem Mem.Within.u16 (h : Mem.Within lo hi m m') (hc : c + 2 ≤ lo ∨ hi ≤ c) :
    m'.u16 c = m.u16 c := by
  rw [Mem.u16, Mem.u16, h c (by omega), h (c + 1) (by omega)]

theorem within_setU16 (hlo : lo ≤ a) (hhi : a + 2 ≤ hi) : Mem.Within lo hi m (m.setU16 a v) := by
  intro x hx
  unfold Mem.setU16 Mem.set
  dsimp only
  rw [Function.update_of_ne (by omega), Function.update_of_ne (by omega)]

theorem u16_setU16 (hv : v < 2 ^ 16) : (m.setU16 a v).u16 a = v := by
  unfold Mem.u16 Mem.setU16 Mem.set
  dsimp only
  rw [Function.update_self, Function.update_of_ne (by omega), Function.update_self]
  rw [BitVec.toNat_ofNat, BitVec.toNat_ofNat]
  omega

theorem u16_setU16_of_ne (h : c + 2 ≤ a ∨ a + 2 ≤ c) : (m.setU16 a v).u16 c = m.u16 c :=
  (within_setU16 le_rfl le_rfl).u16 h

theorem u16_lt (m : Mem) (a : Nat) : m.u16 a < 2 ^ 16 := by
  have hlow := (m.byte a).isLt
  have hhigh := (m.byte (a + 1)).isLt
  unfold Mem.u16
  omega

end Memory

/-! ## Headers -/

structure Owner where
  node : Nat
  padding : Nat

/-- A block, with what its header says when it is allocated. -/
structure Blk where
  size : Nat
  owner : Option Owner := none

def Blk.free (b : Blk) : Bool := b.owner.isNone

def Blk.len (b : Blk) : Nat := headerSize + b.size + footerSize

/-- The bytes at an offset are the header and the footer of the block. -/
structure Header (m : Mem) (a : Nat) (b : Blk) : Prop where
  magic : blockMagic m a = if b.free then magicFree else magicAlloc
  size : blockSize m a = b.size
  flags : blockFlags m a = if b.free then 0 else 1
  node : blockNode m a = b.owner.elim nodeIdNone Owner.node
  padding : blockPadding m a = b.owner.elim 0 Owner.padding
  footer : m.u16 (a + headerSize + b.size) = footerMagic

/-- The blocks lie one behind the other from the offset on. -/
def Laid (m : Mem) (a : Nat) (bs : List Blk) : Prop :=
  ∀ p ∈ starts Blk.len a bs, Header m p.1 p.2

section Headers

variable {m m' : Mem} {a lo hi size padding needed node next x : Nat} {b c : Blk}
  {bs cs : List Blk}

theorem laid_nil : Laid m a [] := nofun

theorem laid_cons : Laid m a (b :: bs) ↔ Header m a b ∧ Laid m (a + b.len) bs :=
  List.forall_mem_cons

theorem laid_append : Laid m a (bs ++ cs) ↔ Laid m a bs ∧ Laid m (stop Blk.len a bs) cs := by
  unfold Laid
  rw [Tiles.starts_append]
  exact List.forall_mem_append

theorem laid_singleton : Laid m a [b] ↔ Header m a b := by
  rw [laid_cons]
  exact and_iff_left laid_nil

/-- Blocks that nothing has been written to. -/
theorem Laid.congr (h : Laid m a bs) (hwithin : Mem.Within lo hi m m')
    (hout : stop Blk.len a bs ≤ lo ∨ hi ≤ a) : Laid m' a bs := by
  intro p hp
  obtain ⟨hlo, hhi⟩ := Tiles.bounds_of_mem hp
  obtain ⟨hmagic, hsize, hflags, hnode, hpadding, hfooter⟩ := h p hp
  have hsame : ∀ k, p.1 ≤ k → k + 2 ≤ p.1 + p.2.len → m'.u16 k = m.u16 k := fun k hk hk' =>
    hwithin.u16 (by omega)
  simp only [Blk.len, headerSize, footerSize] at hsame
  constructor
  · exact (hsame _ (by omega) (by omega)).trans hmagic
  · exact (hsame _ (by omega) (by omega)).trans hsize
  · exact (hsame _ (by omega) (by omega)).trans hflags
  · exact (hsame _ (by omega) (by omega)).trans hnode
  · exact (hsame _ (by omega) (by omega)).trans hpadding
  · exact (hsame _ (by unfold headerSize; omega) (by unfold headerSize; omega)).trans hfooter

theorem Header.isAllocated (h : Header m a b) : isAllocated m a = !b.free := by
  rw [Engine.isAllocated, h.flags]
  cases b.free <;> rfl

theorem Header.validateBlock (h : Header m a b) : validateBlock m a = true := by
  have hfooter : m.u16 (footerPtr m a) = footerMagic := by rw [footerPtr, h.size, h.footer]
  rw [Engine.validateBlock, hfooter, h.magic]
  cases b.free <;> decide

theorem Header.dataPtr (h : Header m a b) :
    dataPtr m a = a + headerSize + b.owner.elim 0 Owner.padding := by
  rw [Engine.dataPtr, h.padding]

/-- The fields that were written last. -/
theorem header_of_fields {owner : Option Owner}
    (hmagic : m.u16 a = if owner.isNone then magicFree else magicAlloc)
    (hsize : m.u16 (a + 2) = size) (hflags : m.u16 (a + 4) = if owner.isNone then 0 else 1)
    (hnode : m.u16 (a + 6) = owner.elim nodeIdNone Owner.node)
    (hpadding : m.u16 (a + 8) = owner.elim 0 Owner.padding)
    (hfooter : m.u16 (a + 10 + size) = footerMagic) : Header m a { size, owner } :=
  ⟨hmagic, hsize, hflags, hnode, hpadding, hfooter⟩

theorem within_freeBlock (hsize : size < 2 ^ 16) :
    Mem.Within a (a + (headerSize + size + footerSize)) m (freeBlock m a size) := by
  unfold freeBlock setFooter footerPtr blockSize headerSize footerSize
  dsimp only
  simp (disch := omega) only [u16_setU16_of_ne, u16_setU16]
  refine Mem.Within.trans ?_ (within_setU16 (by omega) (by omega))
  refine Mem.Within.trans ?_ (within_setU16 (by omega) (by omega))
  refine Mem.Within.trans ?_ (within_setU16 (by omega) (by omega))
  refine Mem.Within.trans ?_ (within_setU16 (by omega) (by omega))
  refine Mem.Within.trans ?_ (within_setU16 (by omega) (by omega))
  exact within_setU16 (by omega) (by omega)

theorem header_freeBlock (hsize : size < 2 ^ 16) : Header (freeBlock m a size) a { size } := by
  unfold freeBlock setFooter footerPtr blockSize headerSize
  dsimp only
  simp (disch := omega) only [u16_setU16_of_ne, u16_setU16]
  apply header_of_fields
  any_goals simp (disch := omega) only [u16_setU16_of_ne]
  · exact u16_setU16 (by decide)
  · exact u16_setU16 hsize
  · exact u16_setU16 (by decide)
  · exact u16_setU16 (by decide)
  · exact u16_setU16 (by decide)
  · exact u16_setU16 (by decide)

/-! ## Taking, joining and releasing -/

/-- The blocks that a free block of this size becomes. -/
def takenBlocks (size padding needed node : Nat) : List Blk :=
  if size - needed ≥ headerSize + minBlockSize + footerSize then
    [{ size := needed, owner := some ⟨node, padding⟩ },
      { size := size - needed - headerSize - footerSize }]
  else [{ size, owner := some ⟨node, padding⟩ }]

theorem stop_takenBlocks (hneeded : needed ≤ size) :
    stop Blk.len a (takenBlocks size padding needed node) = stop Blk.len a [{ size }] := by
  unfold takenBlocks
  split
  next h =>
    simp only [Tiles.stop_cons, Tiles.stop_nil, Blk.len, headerSize, footerSize,
      minBlockSize] at h ⊢
    omega
  next => rfl

/-- A free header that is marked as allocated, whatever is where its footer will be. -/
theorem mark_header (hnode : node < 2 ^ 16) (hpadding : padding < 2 ^ 16)
    (hsize : m.u16 (a + 2) = size) (hflags : m.u16 (a + 4) = 0) :
    let m' := setFooter (markAllocated (m.setU16 (a + 8) padding) a node) a
    Mem.Within a (a + (headerSize + size + footerSize)) m m' ∧
      Header m' a { size, owner := some ⟨node, padding⟩ } := by
  intro m'
  have hm' : m' = ((((m.setU16 (a + 8) padding).setU16 (a + 4) 1).setU16 a magicAlloc).setU16
      (a + 6) node).setU16 (a + headerSize + size) footerMagic := by
    simp only [m', setFooter, footerPtr, blockSize, markAllocated, blockFlags]
    simp (disch := omega) only [u16_setU16_of_ne]
    rw [hsize, hflags]
    rfl
  rw [hm']
  unfold headerSize footerSize
  constructor
  · refine Mem.Within.trans ?_ (within_setU16 (by omega) (by omega))
    refine Mem.Within.trans ?_ (within_setU16 (by omega) (by omega))
    refine Mem.Within.trans ?_ (within_setU16 (by omega) (by omega))
    refine Mem.Within.trans ?_ (within_setU16 (by omega) (by omega))
    exact within_setU16 (by omega) (by omega)
  · apply header_of_fields
    any_goals simp (disch := omega) only [u16_setU16_of_ne]
    · exact u16_setU16 (by decide)
    · exact hsize
    · exact u16_setU16 (by decide)
    · exact u16_setU16 hnode
    · exact u16_setU16 hpadding
    · exact u16_setU16 (by decide)

/-- A free block that is taken, split or whole. -/
theorem takeBlock_laid (hnode : node < 2 ^ 16) (hpadding : padding < 2 ^ 16)
    (hsize : size < 2 ^ 16) (h : Header m a { size }) :
    Mem.Within a (a + (headerSize + size + footerSize)) m (takeBlock m a padding needed node) ∧
      Laid (takeBlock m a padding needed node) a (takenBlocks size padding needed node) := by
  have hsize' : m.u16 (a + 2) = size := h.size
  have hflags : m.u16 (a + 4) = 0 := h.flags
  unfold takeBlock splitBlock takenBlocks
  rw [h.size]
  dsimp only
  split
  next hroom =>
    unfold headerSize footerSize minBlockSize at hroom
    generalize hrest : size - needed - headerSize - footerSize = rest
    unfold headerSize footerSize at hrest
    -- the rest of the block, behind what is needed
    generalize hc : a + headerSize + needed + footerSize = c
    unfold headerSize footerSize at hc
    have hfree : Header (freeBlock m c rest) c { size := rest } := header_freeBlock (by omega)
    have hwithin : Mem.Within c (c + (headerSize + rest + footerSize)) m (freeBlock m c rest) :=
      within_freeBlock (by omega)
    have hflags' : ((freeBlock m c rest).setU16 (a + 2) needed).u16 (a + 4) = 0 := by
      rw [u16_setU16_of_ne (by omega), hwithin.u16 (by omega), hflags]
    obtain ⟨hmarked, hheader⟩ := mark_header hnode hpadding
      (u16_setU16 (m := freeBlock m c rest) (by omega)) hflags'
    have hshrunk : Mem.Within a c (freeBlock m c rest)
        ((freeBlock m c rest).setU16 (a + 2) needed) := within_setU16 (by omega) (by omega)
    have hend : a + (headerSize + needed + footerSize) = c := by
      unfold headerSize footerSize
      omega
    rw [hend] at hmarked
    constructor
    · unfold headerSize footerSize at hwithin ⊢
      refine (hwithin.mono (by omega) (by omega)).trans ?_
      exact (hshrunk.trans hmarked).mono (by omega) (by omega)
    · refine laid_cons.mpr ⟨hheader, ?_⟩
      show Laid _ (a + (headerSize + needed + footerSize)) _
      rw [hend]
      exact (laid_singleton.mpr hfree).congr (hshrunk.trans hmarked) (Or.inr le_rfl)
  next =>
    obtain ⟨hmarked, hheader⟩ := mark_header hnode hpadding hsize' hflags
    exact ⟨hmarked, laid_singleton.mpr hheader⟩

/-- The block that two free neighbours become. -/
def Blk.join (b c : Blk) : Blk := { size := b.size + (headerSize + c.size + footerSize) }

theorem len_join (b c : Blk) : (b.join c).len = b.len + c.len := by
  simp only [Blk.len, Blk.join]
  omega

theorem joinBlocks_header (hb : Header m a b) (hfree : b.free = true)
    (hc : Header m (a + b.len) c) (hlt : b.len + c.len < 2 ^ 16) :
    Mem.Within a (a + (b.len + c.len)) m (joinBlocks m a (a + b.len)) ∧
      Header (joinBlocks m a (a + b.len)) a (b.join c) := by
  have hsize : (blockSize m a + (headerSize + blockSize m (a + b.len) + footerSize)) % 2 ^ 16 =
      (b.join c).size := by
    rw [hb.size, hc.size]
    simp only [Blk.len, headerSize, footerSize] at hlt
    simp only [Blk.join, headerSize, footerSize]
    omega
  have hlen : headerSize + (b.join c).size + footerSize = b.len + c.len := len_join b c
  generalize hj : (b.join c).size = j at hsize hlen
  have hm' : joinBlocks m a (a + b.len) =
      ((m.setU16 (a + 2) j).setU16 (a + 8) 0).setU16 (a + headerSize + j) footerMagic := by
    unfold joinBlocks setFooter footerPtr
    dsimp only
    rw [hsize, blockSize, u16_setU16_of_ne (by omega), u16_setU16 (by
      unfold headerSize footerSize at hlen
      omega)]
  have howner : b.owner = none := Option.isNone_iff_eq_none.mp hfree
  have hmagic : m.u16 a = magicFree := by
    have h := hb.magic
    rw [hfree] at h
    exact h
  have hflags : m.u16 (a + 4) = 0 := by
    have h := hb.flags
    rw [hfree] at h
    exact h
  have hnode : m.u16 (a + 6) = nodeIdNone := by
    have h := hb.node
    rw [howner] at h
    exact h
  have hblock : b.join c = { size := j } := by
    rw [← hj]
    rfl
  -- three words are written: the size, the padding and the footer at the new end
  rw [hm', hblock]
  simp only [headerSize, footerSize] at hlen ⊢
  constructor
  · refine Mem.Within.trans ?_ (within_setU16 (by omega) (by omega))
    refine Mem.Within.trans ?_ (within_setU16 (by omega) (by omega))
    exact within_setU16 (by omega) (by omega)
  · apply header_of_fields
    any_goals simp (disch := omega) only [u16_setU16_of_ne]
    · exact hmagic
    · exact u16_setU16 (by omega)
    · exact hflags
    · exact hnode
    · exact u16_setU16 (by decide)
    · exact u16_setU16 (by decide)

/-- An allocated block that is marked as free. -/
theorem release_header (h : Header m a b) :
    let m' := setFooter ((markFree m a).setU16 (a + 8) 0) a
    Mem.Within a (a + b.len) m m' ∧ Header m' a { size := b.size } := by
  intro m'
  have hsize : m.u16 (a + 2) = b.size := h.size
  have hflags : clearBits (m.u16 (a + 4)) 1 = 0 := by
    have hf : m.u16 (a + 4) = if b.free then 0 else 1 := h.flags
    rw [hf]
    cases b.free <;> rfl
  have hm' : m' = ((((m.setU16 (a + 4) 0).setU16 a magicFree).setU16 (a + 6) nodeIdNone).setU16
      (a + 8) 0).setU16 (a + headerSize + b.size) footerMagic := by
    simp only [m', setFooter, footerPtr, blockSize, markFree, blockFlags]
    simp (disch := omega) only [u16_setU16_of_ne]
    rw [hsize, hflags]
  rw [hm']
  unfold Blk.len headerSize footerSize
  constructor
  · refine Mem.Within.trans ?_ (within_setU16 (by omega) (by omega))
    refine Mem.Within.trans ?_ (within_setU16 (by omega) (by omega))
    refine Mem.Within.trans ?_ (within_setU16 (by omega) (by omega))
    refine Mem.Within.trans ?_ (within_setU16 (by omega) (by omega))
    exact within_setU16 (by omega) (by omega)
  · apply header_of_fields
    any_goals simp (disch := omega) only [u16_setU16_of_ne]
    · exact u16_setU16 (by decide)
    · exact hsize
    · exact u16_setU16 (by decide)
    · exact u16_setU16 (by decide)
    · exact u16_setU16 (by decide)
    · exact u16_setU16 (by decide)

end Headers

end SlowBus.Engine
