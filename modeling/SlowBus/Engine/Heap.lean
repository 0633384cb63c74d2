import SlowBus.Bus.Frame

/-!
# The heap of the engine

The allocator works on the bytes of its pool: each block is a header, its data and a footer, and
the next block starts where the footer ends. Offsets are counted from the start of the pool. An
`EXCEPTION` spins until the watchdog fires, so a call that raises one returns no heap.
-/

namespace SlowBus.Engine

open Bus (Byte)

/-! ## Memory -/

structure Mem where
  byte : Nat → Byte

def Mem.set (m : Mem) (a : Nat) (v : Byte) : Mem := ⟨Function.update m.byte a v⟩

/-- A `uint16_t`, low byte first. -/
def Mem.u16 (m : Mem) (a : Nat) : Nat := (m.byte a).toNat + 256 * (m.byte (a + 1)).toNat

def Mem.setU16 (m : Mem) (a v : Nat) : Mem :=
  (m.set a (.ofNat 8 v)).set (a + 1) (.ofNat 8 (v / 256))

/-- Memory after `memset` to 0. -/
def Mem.zero : Mem := ⟨fun _ => 0⟩

/-- `x & ~mask` -/
def clearBits (x mask : Nat) : Nat := x - (x &&& mask)

/-! ## Blocks -/

/-- `BLOCK_MAGIC_FREE`, `BLOCK_MAGIC_ALLOC` and `BLOCK_FOOTER_MAGIC` -/
def magicFree : Nat := 0xF2EE
def magicAlloc : Nat := 0xA10C
def footerMagic : Nat := 0xF007

/-- `NODE_ID_NONE` -/
def nodeIdNone : Nat := 0xFFFF

def headerSize : Nat := 10
def footerSize : Nat := 2

/-- `BLOCK_ALIGNMENT` and `MIN_BLOCK_SIZE` of a 32-bit platform. -/
def blockAlignment : Nat := 4
def minBlockSize : Nat := 8

section Blocks

variable (m : Mem) (b : Nat)

def blockMagic : Nat := m.u16 b
def blockSize : Nat := m.u16 (b + 2)
def blockFlags : Nat := m.u16 (b + 4)
def blockNode : Nat := m.u16 (b + 6)
def blockPadding : Nat := m.u16 (b + 8)

/-- `is_allocated` -/
def isAllocated : Bool := blockFlags m b &&& 1 != 0

/-- `mark_allocated` -/
def markAllocated (node : Nat) : Mem :=
  ((m.setU16 (b + 4) (blockFlags m b ||| 1)).setU16 b magicAlloc).setU16 (b + 6) node

/-- `mark_free` -/
def markFree : Mem :=
  ((m.setU16 (b + 4) (clearBits (blockFlags m b) 1)).setU16 b magicFree).setU16 (b + 6) nodeIdNone

/-- `get_footer_ptr` -/
def footerPtr : Nat := b + headerSize + blockSize m b

/-- `set_footer` -/
def setFooter : Mem := m.setU16 (footerPtr m b) footerMagic

/-- `validate_block` -/
def validateBlock : Bool :=
  (blockMagic m b == magicFree || blockMagic m b == magicAlloc) &&
    m.u16 (footerPtr m b) == footerMagic

/-- `block_to_data_ptr` -/
def dataPtr : Nat := b + headerSize + blockPadding m b

/-- A free block of the given size, as `cfl_heap_reset` and a split write it. -/
def freeBlock (size : Nat) : Mem :=
  let m := m.setU16 b magicFree
  let m := m.setU16 (b + 2) size
  let m := m.setU16 (b + 4) 0
  let m := m.setU16 (b + 6) nodeIdNone
  let m := m.setU16 (b + 8) 0
  setFooter m b

end Blocks

/-! ## The heap -/

/-- `CflHeapStats` -/
structure HeapStats where
  totalAllocations : Nat := 0
  totalFrees : Nat := 0
  currentBlocks : Nat := 0
  currentUsedBytes : Nat := 0
  peakUsedBytes : Nat := 0
  largestFreeBlock : Nat := 0
  freeBlocks : Nat := 0
  allocatedBlocks : Nat := 0
  deriving DecidableEq, Repr

structure CflHeap where
  /-- The address of the pool. -/
  base : Nat
  poolSize : Nat
  mem : Mem
  initialized : Bool := true
  stats : HeapStats := {}

/-- What the allocator raises an `EXCEPTION` for. -/
inductive HeapFault where
  | bufferTooSmall
  | notInitialized
  | zeroSize
  | badAlignment
  | corruption
  | outOfMemory
  | invalidIndex
  | notFound
  | outOfBounds
  | doubleFree
  /-- Not raised: the loop that joins blocks does not end. -/
  | endless
  deriving DecidableEq, Repr

/-- `get_next_block` -/
def CflHeap.nextBlock (h : CflHeap) (b : Nat) : Option Nat :=
  let ptr := b + headerSize + blockSize h.mem b + footerSize
  if ptr ≥ h.poolSize then none else some ptr

theorem nextBlock_lt {h : CflHeap} {b n : Nat} (hn : h.nextBlock b = some n) :
    b < n ∧ n < h.poolSize := by
  unfold CflHeap.nextBlock at hn
  dsimp only at hn
  split at hn
  next => cases hn
  next hlt =>
    cases hn
    unfold headerSize at hlt ⊢
    omega

/-- The blocks that a loop over `get_next_block` visits, from one of them on. -/
def CflHeap.blocksFrom (h : CflHeap) (b : Nat) : List Nat :=
  b :: match _hn : h.nextBlock b with
    | none => []
    | some n => h.blocksFrom n
termination_by h.poolSize - b
decreasing_by
  have hlt := nextBlock_lt _hn
  omega

/-! ## Statistics -/

/-- The locals of `update_stats`. -/
structure Tally where
  used : Nat := 0
  freeBlocks : Nat := 0
  allocatedBlocks : Nat := 0
  largestFree : Nat := 0
  totalBlocks : Nat := 0

/-- A turn of the loop of `update_stats`. -/
def Tally.count (m : Mem) (t : Tally) (b : Nat) : Tally :=
  let t := { t with totalBlocks := t.totalBlocks + 1 }
  if isAllocated m b then
    { t with
      allocatedBlocks := t.allocatedBlocks + 1
      used := (t.used + (headerSize + blockSize m b + footerSize)) % 2 ^ 16 }
  else
    { t with
      freeBlocks := t.freeBlocks + 1
      largestFree := if blockSize m b > t.largestFree then blockSize m b else t.largestFree }

/-- `update_stats` -/
def CflHeap.updateStats (h : CflHeap) : CflHeap :=
  let t := (h.blocksFrom 0).foldl (Tally.count h.mem) {}
  { h with
    stats := { h.stats with
      currentBlocks := t.totalBlocks
      allocatedBlocks := t.allocatedBlocks
      freeBlocks := t.freeBlocks
      currentUsedBytes := t.used
      largestFreeBlock := t.largestFree
      peakUsedBytes := if t.used > h.stats.peakUsedBytes then t.used else h.stats.peakUsedBytes } }

/-! ## Starting -/

/-- `cfl_heap_reset` -/
def CflHeap.reset (h : CflHeap) : CflHeap :=
  { h with
    mem := freeBlock .zero 0 (h.poolSize - headerSize - footerSize)
    initialized := true
    stats := {} }.updateStats

/-- `cfl_heap_init`, with the pool at an address that the permanent allocator has given. -/
def CflHeap.init (base bufferSize : Nat) : Except HeapFault CflHeap :=
  if bufferSize < headerSize + minBlockSize + footerSize then .error .bufferTooSmall
  else .ok (CflHeap.reset { base, poolSize := bufferSize, mem := .zero })

/-! ## Allocating -/

/-- `align_up` -/
def alignUp (value alignment : Nat) : Nat :=
  clearBits (value + alignment - 1) (alignment - 1) % 2 ^ 16

def isPowerOf2 (value : Nat) : Bool := value != 0 && value &&& (value - 1) == 0

/-- The size of the data that a request is given. -/
def requestSize (sizeBytes : Nat) : Nat :=
  let size := alignUp sizeBytes blockAlignment
  if size < minBlockSize then minBlockSize else size

/-- The first aligned address from the data of a block on. -/
def CflHeap.alignedAddr (h : CflHeap) (b alignment : Nat) : Nat :=
  clearBits (h.base + b + headerSize + alignment - 1) (alignment - 1)

/-- The padding in front of an aligned address, and what a request needs with it. -/
def CflHeap.paddingAt (h : CflHeap) (b alignment : Nat) : Nat :=
  (h.alignedAddr b alignment - (h.base + b + headerSize)) % 2 ^ 16

def CflHeap.neededAt (h : CflHeap) (b size alignment : Nat) : Nat :=
  (h.paddingAt b alignment + size) % 2 ^ 16

/-- The block is split when what it has left makes a block of its own. -/
def splitBlock (m : Mem) (b needed : Nat) : Mem :=
  let remainder := blockSize m b - needed
  if remainder ≥ headerSize + minBlockSize + footerSize then
    (freeBlock m (b + headerSize + needed + footerSize)
      (remainder - headerSize - footerSize)).setU16 (b + 2) needed
  else m

/-- A free block becomes the one that is allocated. -/
def takeBlock (m : Mem) (b padding needed node : Nat) : Mem :=
  let m := splitBlock m b needed
  let m := m.setU16 (b + 8) padding
  let m := markAllocated m b node
  setFooter m b

/-- The index returned and the heap when a free block is allocated. -/
def CflHeap.allocAt (h : CflHeap) (node size alignment b : Nat) : Nat × CflHeap :=
  let mem := takeBlock h.mem b (h.paddingAt b alignment) (h.neededAt b size alignment) node
  let stats := { h.stats with totalAllocations := (h.stats.totalAllocations + 1) % 2 ^ 16 }
  ((h.alignedAddr b alignment - h.base) % 2 ^ 16, { h with mem, stats }.updateStats)

/-- The loop of `cfl_heap_arena_alloc_aligned` over the blocks. -/
def CflHeap.firstFit (h : CflHeap) (node size alignment : Nat) :
    List Nat → Except HeapFault (Nat × CflHeap)
  | [] => .error .outOfMemory
  | b :: bs =>
      if !validateBlock h.mem b then .error .corruption
      else if !isAllocated h.mem b && blockSize h.mem b ≥ h.neededAt b size alignment then
        .ok (h.allocAt node size alignment b)
      else h.firstFit node size alignment bs

/-- `cfl_heap_arena_alloc_aligned` -/
def CflHeap.arenaAllocAligned (h : CflHeap) (node sizeBytes alignment : Nat) :
    Except HeapFault (Nat × CflHeap) :=
  if !h.initialized then .error .notInitialized
  else if sizeBytes = 0 then .error .zeroSize
  else if alignment = 0 || !isPowerOf2 alignment then .error .badAlignment
  else h.firstFit node (requestSize sizeBytes) alignment (h.blocksFrom 0)

/-- `cfl_heap_malloc` -/
def CflHeap.malloc (h : CflHeap) (sizeBytes : Nat) : Except HeapFault (Nat × CflHeap) :=
  h.arenaAllocAligned nodeIdNone sizeBytes blockAlignment

/-! ## Freeing -/

/-- Two free neighbours become one block. -/
def joinBlocks (m : Mem) (b next : Nat) : Mem :=
  let m := m.setU16 (b + 2)
    ((blockSize m b + (headerSize + blockSize m next + footerSize)) % 2 ^ 16)
  let m := m.setU16 (b + 8) 0
  setFooter m b

/-- The loop of `coalesce_free_blocks`, which stays at a block that it has joined; none when it
goes on for longer than that. -/
def CflHeap.coalesceFrom (h : CflHeap) : Nat → Nat → Option Mem
  | 0, _ => none
  | fuel + 1, b =>
      match h.nextBlock b with
      | none => some h.mem
      | some next =>
          if !isAllocated h.mem b && !isAllocated h.mem next then
            CflHeap.coalesceFrom { h with mem := joinBlocks h.mem b next } fuel b
          else h.coalesceFrom fuel next

/-- Whether the data of the block reaches over the index. -/
def coversIndex (m : Mem) (idx b : Nat) : Bool :=
  decide (dataPtr m b ≤ idx ∧ idx < dataPtr m b + blockSize m b - blockPadding m b)

/-- `cfl_heap_free` -/
def CflHeap.free (h : CflHeap) (idx : Nat) : Except HeapFault CflHeap :=
  if !h.initialized then .error .notInitialized
  else if idx ≥ h.poolSize then .error .invalidIndex
  else
    match (h.blocksFrom 0).find? (coversIndex h.mem idx) with
    | none => .error .notFound
    | some b =>
        if b ≥ h.poolSize then .error .outOfBounds
        else if !validateBlock h.mem b then .error .corruption
        else if !isAllocated h.mem b then .error .doubleFree
        else
          let mem := setFooter ((markFree h.mem b).setU16 (b + 8) 0) b
          let stats := { h.stats with totalFrees := (h.stats.totalFrees + 1) % 2 ^ 16 }
          match CflHeap.coalesceFrom { h with mem } h.poolSize 0 with
          | none => .error .endless
          | some mem => .ok { h with mem, stats }.updateStats

/-! ## Diagnostics -/

/-- The loop of `cfl_heap_validate`. -/
def CflHeap.validateFrom (h : CflHeap) : Nat → List Nat → Bool
  | _, [] => true
  | total, b :: bs =>
      if !validateBlock h.mem b then false
      else
        let total := (total + (headerSize + blockSize h.mem b + footerSize)) % 2 ^ 16
        if total > h.poolSize then false else h.validateFrom total bs

/-- `cfl_heap_validate` -/
def CflHeap.validate (h : CflHeap) : Bool := h.initialized && h.validateFrom 0 (h.blocksFrom 0)

/-- What `cfl_heap_walk` reports of a block. -/
structure WalkEntry where
  ptr : Nat
  size : Nat
  allocated : Bool
  node : Nat
  deriving DecidableEq, Repr

def walkEntry (m : Mem) (b : Nat) : WalkEntry where
  ptr := dataPtr m b
  size := (blockSize m b - blockPadding m b) % 2 ^ 16
  allocated := isAllocated m b
  node := blockNode m b

/-- `cfl_heap_walk` -/
def CflHeap.walk (h : CflHeap) : List WalkEntry :=
  if !h.initialized then []
  else ((h.blocksFrom 0).filter (validateBlock h.mem)).map (walkEntry h.mem)

/-- `cfl_heap_get_node_id` -/
def CflHeap.nodeId (h : CflHeap) (idx : Nat) : Except HeapFault Nat :=
  if !h.initialized then .error .notInitialized
  else if idx ≥ h.poolSize then .error .invalidIndex
  else
    match (h.blocksFrom 0).find? (coversIndex h.mem idx) with
    | none => .error .notFound
    | some b => .ok (blockNode h.mem b)

end SlowBus.Engine
