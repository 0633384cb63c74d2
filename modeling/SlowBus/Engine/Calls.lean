import SlowBus.Engine.Loops

/-!
# The calls on a tiled pool

What each call makes of the blocks: an allocation replaces the first free block that has room
by the allocated one and the rest, a release makes a block free and joins free neighbours, and a
call that fails says why.
-/

namespace SlowBus.Engine

open Tiles (starts stop joinFrom joinAll Settled)

/-! ## Alignment -/

/-- The bits of an alignment cleared: the next multiple. -/
theorem clearBits_aligned {alignment : Nat} (h : isPowerOf2 alignment = true) (x : Nat) :
    let r := clearBits (x + alignment - 1) (alignment - 1)
    alignment ∣ r ∧ x ≤ r ∧ r < x + alignment := by
  intro r
  have hpow : alignment ≠ 0 ∧ alignment &&& (alignment - 1) = 0 := by
    simpa [isPowerOf2] using h
  obtain ⟨k, rfl⟩ := Nat.ne_zero_and_sub_one_eq_zero_iff_isPowerOfTwo.mp hpow
  have hr : r = x + 2 ^ k - 1 - (x + 2 ^ k - 1) % 2 ^ k := by
    rw [← Nat.and_two_pow_sub_one_eq_mod]
    rfl
  have hlt := Nat.mod_lt (x + 2 ^ k - 1) (Nat.two_pow_pos k)
  have hle := Nat.mod_le (x + 2 ^ k - 1) (2 ^ k)
  refine ⟨?_, by omega, by omega⟩
  rw [hr]
  exact Nat.dvd_sub_mod _

/-- What is asked for can be counted in the 16 bits of the code, with its padding. -/
structure NoWrap (sizeBytes alignment : Nat) : Prop where
  size : sizeBytes ≤ 65532
  needed : requestSize sizeBytes + alignment ≤ 2 ^ 16

theorem le_requestSize {n : Nat} (hn : n ≤ 65532) : n ≤ requestSize n := by
  obtain ⟨hdvd, hle, hlt⟩ := @clearBits_aligned 4 (by decide) n
  have hmod : alignUp n 4 = clearBits (n + 4 - 1) (4 - 1) := Nat.mod_eq_of_lt (by omega)
  unfold requestSize minBlockSize blockAlignment
  dsimp only
  rw [hmod]
  split <;> omega

section Request

variable {h : CflHeap} {a alignment sizeBytes size : Nat}

theorem alignedAddr_eq (halign : isPowerOf2 alignment = true)
    (hwrap : size + alignment ≤ 2 ^ 16) :
    h.alignedAddr a alignment = h.base + a + headerSize + h.paddingAt a alignment ∧
      h.neededAt a size alignment = h.paddingAt a alignment + size := by
  obtain ⟨-, hle, hlt⟩ := clearBits_aligned halign (h.base + a + headerSize)
  have halign : h.alignedAddr a alignment =
      clearBits (h.base + a + headerSize + alignment - 1) (alignment - 1) := rfl
  rw [← halign] at hle hlt
  have hpadding : h.paddingAt a alignment =
      h.alignedAddr a alignment - (h.base + a + headerSize) := Nat.mod_eq_of_lt (by omega)
  refine ⟨by omega, ?_⟩
  exact Nat.mod_eq_of_lt (by omega)

end Request

/-! ## Tiled pools -/

/-- The pool is tiled by the blocks, and no two neighbours are free. -/
structure Tiled (h : CflHeap) (bs : List Blk) : Prop where
  initialized : h.initialized = true
  pool_lt : h.poolSize < 2 ^ 16
  stop_eq : stop Blk.len 0 bs = h.poolSize
  ne : bs ≠ []
  laid : Laid h.mem 0 bs
  settled : Settled Blk.free bs
  padding : ∀ b ∈ bs, ∀ o ∈ b.owner, o.padding ≤ b.size

section Calls

variable {h h' : CflHeap} {pre post bs : List Blk} {b : Blk} {size alignment node idx : Nat}

theorem Tiled.blocksFrom (ht : Tiled h bs) :
    h.blocksFrom 0 = (starts Blk.len 0 bs).map Prod.fst := by
  cases bs with
  | nil => exact absurd rfl ht.ne
  | cons b bs => exact blocksFrom_eq ht.laid ht.stop_eq

theorem Tiled.updateStats (ht : Tiled h bs) :
    Tiled h.updateStats bs ∧ Counted h.updateStats.stats bs := by
  have htally := tally_eq (t := {}) ht.laid (by
    have hle := @usedBytes_le 0 bs
    rw [ht.stop_eq] at hle
    have hlt := ht.pool_lt
    dsimp only
    omega)
  rw [← ht.blocksFrom] at htally
  refine ⟨⟨ht.initialized, ht.pool_lt, ht.stop_eq, ht.ne, ht.laid, ht.settled, ht.padding⟩, ?_⟩
  unfold CflHeap.updateStats
  rw [htally]
  constructor <;> simp only [Nat.zero_add]
  · rfl
  · split <;> omega

/-- A heap that starts, or is reset, is one free block. -/
theorem reset_tiled (hpool : h.poolSize < 2 ^ 16) (hmin : 20 ≤ h.poolSize) :
    Tiled h.reset [{ size := h.poolSize - 12 }] ∧
      Counted h.reset.stats [{ size := h.poolSize - 12 }] := by
  apply Tiled.updateStats
  refine ⟨rfl, hpool, ?_, List.cons_ne_nil _ _, ?_, List.isChain_singleton _, ?_⟩
  · simp only [Tiles.stop_cons, Tiles.stop_nil, Blk.len, headerSize, footerSize]
    omega
  · exact laid_singleton.mpr (header_freeBlock (by unfold headerSize footerSize; omega))
  · intro b hb o ho
    cases List.mem_singleton.mp hb
    cases ho

/-! ## Allocating -/

/-- The allocated block has at least what is needed; a rest is a free block. -/
theorem takenBlocks_cases {padding needed : Nat} (hneeded : needed ≤ size) :
    ∃ s rest, takenBlocks size padding needed node = { size := s, owner := some ⟨node, padding⟩ }
      :: rest ∧ needed ≤ s ∧ (rest = [] ∨ ∃ r, rest = [{ size := r }]) := by
  unfold takenBlocks
  split
  · exact ⟨_, _, rfl, le_rfl, Or.inr ⟨_, rfl⟩⟩
  · exact ⟨_, _, rfl, hneeded, Or.inl rfl⟩

theorem Tiled.taken (ht : Tiled h (pre ++ { size } :: post)) {padding needed : Nat}
    (hneeded : needed ≤ size) (hpadding : padding ≤ needed) :
    Settled Blk.free (pre ++ (takenBlocks size padding needed node ++ post)) ∧
      ∀ b ∈ pre ++ (takenBlocks size padding needed node ++ post),
        ∀ o ∈ b.owner, o.padding ≤ b.size := by
  obtain ⟨s, rest, htaken, hs, hrest⟩ := takenBlocks_cases hneeded
  rw [htaken]
  have hfree : Blk.free { size } = true := rfl
  constructor
  · rcases hrest with rfl | ⟨r, rfl⟩
    · exact ht.settled.replace rfl
    · exact ht.settled.split hfree rfl rfl
  · intro b hb o ho
    have hkept : ∀ b ∈ pre ++ { size } :: post, ∀ o ∈ b.owner, o.padding ≤ b.size := ht.padding
    rcases List.mem_append.mp hb with hb | hb
    · exact hkept b (List.mem_append_left _ hb) o ho
    rcases List.mem_append.mp hb with hb | hb
    · rcases List.mem_cons.mp hb with rfl | hb
      · cases ho
        exact hpadding.trans hs
      · rcases hrest with rfl | ⟨r, rfl⟩
        · cases hb
        · cases List.mem_singleton.mp hb
          cases ho
    · exact hkept b (List.mem_append_right _ (List.mem_cons_of_mem _ hb)) o ho

theorem Tiled.lt_pool (ht : Tiled h (pre ++ b :: post)) :
    stop Blk.len 0 pre + b.len ≤ h.poolSize := by
  rw [← ht.stop_eq, Tiles.stop_append]
  exact Tiles.le_stop

/-- A free block has been taken where it is: the object is aligned and lies inside of it. -/
structure Allocated (h : CflHeap) (pre : List Blk) (size : Nat) (post : List Blk)
    (node asked alignment padding idx : Nat) (h' : CflHeap) : Prop where
  base : h'.base = h.base
  poolSize : h'.poolSize = h.poolSize
  room : padding + asked ≤ size
  index : idx = stop Blk.len 0 pre + headerSize + padding
  aligned : alignment ∣ h.base + idx
  tiled : Tiled h' (pre ++ (takenBlocks size padding (padding + asked) node ++ post))
  counted : Counted h'.stats (pre ++ (takenBlocks size padding (padding + asked) node ++ post))
  within : Mem.Within (stop Blk.len 0 pre)
    (stop Blk.len 0 pre + (headerSize + size + footerSize)) h.mem h'.mem

theorem allocAt_tiled (ht : Tiled h (pre ++ { size } :: post)) (hnode : node < 2 ^ 16)
    (halign : isPowerOf2 alignment = true) {asked : Nat} (hwrap : asked + alignment ≤ 2 ^ 16)
    (hfits : h.neededAt (stop Blk.len 0 pre) asked alignment ≤ size) :
    let k := stop Blk.len 0 pre
    let padding := h.paddingAt k alignment
    let r := h.allocAt node asked alignment k
    Allocated h pre size post node asked alignment padding r.1 r.2 := by
  intro k padding r
  obtain ⟨haddr, hneeded⟩ := alignedAddr_eq (h := h) (a := k) halign hwrap
  have hroom : padding + asked ≤ size := hneeded ▸ hfits
  have hend : k + (headerSize + size + footerSize) ≤ h.poolSize := ht.lt_pool
  have hpool := ht.pool_lt
  have hidx : r.1 = k + headerSize + padding := by
    have hsub : h.alignedAddr k alignment - h.base = k + headerSize + padding := by omega
    have hr : r.1 = (h.alignedAddr k alignment - h.base) % 2 ^ 16 := rfl
    rw [hr, hsub]
    exact Nat.mod_eq_of_lt (by omega)
  obtain ⟨hpre, hrest⟩ := laid_append.mp ht.laid
  obtain ⟨hheader, hpost⟩ := laid_cons.mp hrest
  have hlt : padding < 2 ^ 16 ∧ size < 2 ^ 16 := by omega
  obtain ⟨hwithin, htaken⟩ :=
    @takeBlock_laid h.mem k size padding (padding + asked) node hnode hlt.1 hlt.2 hheader
  obtain ⟨hsettled, hpads⟩ :=
    @Tiled.taken h pre post size node ht padding (padding + asked) hroom (Nat.le_add_right _ _)
  have hstop : stop Blk.len k (takenBlocks size padding (padding + asked) node) =
      stop Blk.len k [{ size }] := stop_takenBlocks hroom
  -- the block is replaced by the taken one and, if it was split, the rest behind it
  have htiled : Tiled
      { h with
        mem := takeBlock h.mem k padding (padding + asked) node
        stats := { h.stats with
          totalAllocations := (h.stats.totalAllocations + 1) % 2 ^ 16 } }
      (pre ++ (takenBlocks size padding (padding + asked) node ++ post)) := by
    refine ⟨ht.initialized, hpool, ?_, ?_, ?_, hsettled, hpads⟩
    · rw [Tiles.stop_append, Tiles.stop_append, hstop, ← ht.stop_eq, Tiles.stop_append]
      rfl
    · obtain ⟨s, rest, heq, -⟩ := @takenBlocks_cases size node padding (padding + asked) hroom
      rw [heq]
      exact List.append_ne_nil_of_right_ne_nil _ (List.cons_ne_nil _ _)
    · refine laid_append.mpr ⟨hpre.congr hwithin (Or.inl le_rfl), ?_⟩
      refine laid_append.mpr ⟨htaken, ?_⟩
      rw [hstop]
      exact hpost.congr hwithin (Or.inr le_rfl)
  have hr : r.2 = CflHeap.updateStats
      { h with
        mem := takeBlock h.mem k padding (padding + asked) node
        stats := { h.stats with
          totalAllocations := (h.stats.totalAllocations + 1) % 2 ^ 16 } } := by
    rw [← hneeded]
    rfl
  rw [hr]
  have hdvd : alignment ∣ h.base + r.1 := by
    rw [hidx, ← Nat.add_assoc, ← Nat.add_assoc, ← haddr]
    exact (clearBits_aligned halign _).1
  exact ⟨rfl, rfl, hroom, hidx, hdvd, htiled.updateStats.1, htiled.updateStats.2, hwithin⟩

/-! ## Releasing -/

/-- The blocks after a release. -/
def releasedBlocks (pre : List Blk) (size : Nat) (post : List Blk) : List Blk :=
  joinAll Blk.free Blk.join (pre ++ { size } :: post)

theorem Blk.free_iff : b.free = true ↔ b.owner = none := Option.isNone_iff_eq_none

theorem length_le_stop {a : Nat} : a + bs.length ≤ stop Blk.len a bs := by
  induction bs generalizing a with
  | nil => exact le_rfl
  | cons b bs ih =>
      have hrest := @ih (a + b.len)
      have hpos := len_pos b
      rw [Tiles.stop_cons, List.length_cons]
      omega

/-- The block is marked and free neighbours are joined; no other allocated byte changes. -/
theorem release_tiled (ht : Tiled h (pre ++ b :: post)) :
    let k := stop Blk.len 0 pre
    let mem := setFooter ((markFree h.mem k).setU16 (k + 8) 0) k
    ∃ m', CflHeap.coalesceFrom { h with mem } h.poolSize 0 = some m' ∧
      (∀ stats, Tiled { h with mem := m', stats } (releasedBlocks pre b.size post)) ∧
      ∀ x, Spared 0 (pre ++ { size := b.size } :: post) x → m'.byte x = h.mem.byte x := by
  intro k mem
  obtain ⟨hpre, hrest⟩ := laid_append.mp ht.laid
  obtain ⟨hheader, hpost⟩ := laid_cons.mp hrest
  obtain ⟨hwithin, hfreed⟩ := release_header hheader
  -- before the neighbours are joined the pool is laid out as before, the block free
  have hlaid : Laid mem 0 (pre ++ { size := b.size } :: post) := by
    refine laid_append.mpr ⟨hpre.congr hwithin (Or.inl le_rfl), laid_cons.mpr ⟨hfreed, ?_⟩⟩
    exact hpost.congr hwithin (Or.inr le_rfl)
  have hstop : stop Blk.len 0 (pre ++ { size := b.size } :: post) = h.poolSize := by
    rw [← ht.stop_eq, Tiles.stop_append, Tiles.stop_append]
    rfl
  have hpads : ∀ c ∈ pre ++ { size := b.size } :: post, ∀ o ∈ c.owner, o.padding ≤ c.size := by
    intro c hc o ho
    rcases List.mem_append.mp hc with hc | hc
    · exact ht.padding c (List.mem_append_left _ hc) o ho
    rcases List.mem_cons.mp hc with rfl | hc
    · cases ho
    · exact ht.padding c (List.mem_append_right _ (List.mem_cons_of_mem _ hc)) o ho
  have hmarked : ∀ x, Spared 0 (pre ++ { size := b.size } :: post) x →
      mem.byte x = h.mem.byte x := fun x hx =>
    hwithin x (hx (k, { size := b.size }) (Tiles.mem_starts_append pre post _) rfl)
  unfold releasedBlocks
  generalize pre ++ { size := b.size } :: post = cs at hlaid hstop hpads hmarked
  cases cs with
  | nil =>
      have hpos := ht.lt_pool
      have hlen := len_pos b
      rw [← hstop, Tiles.stop_nil] at hpos
      omega
  | cons c cs =>
      have hfuel : cs.length < h.poolSize := by
        rw [← hstop]
        have hle := @length_le_stop (c :: cs) 0
        rw [List.length_cons] at hle
        omega
      obtain ⟨m', hrun, hlaid', hkept⟩ :=
        @coalesceFrom_eq { h with mem } 0 c cs h.poolSize hfuel ht.pool_lt hlaid hstop
      refine ⟨m', hrun, fun stats => ?_, fun x hx => (hkept x hx).trans (hmarked x hx)⟩
      refine ⟨ht.initialized, ht.pool_lt, ?_, ?_, hlaid', Tiles.settled_joinFrom free_join, ?_⟩
      · exact (Tiles.stop_joinFrom len_join).trans hstop
      · obtain ⟨d, ds, heq, -⟩ := @Tiles.joinFrom_head Blk c cs Blk.free Blk.join free_join
        rw [joinAll, heq]
        exact List.cons_ne_nil d ds
      · intro d hd o ho
        have hfree : d.free = false := by
          rw [Blk.free, Option.mem_def.mp ho]
          rfl
        exact hpads d (Tiles.mem_of_mem_joinFrom len_join free_join hd hfree) o ho

/-! ## What each call does -/

/-- What `cfl_heap_arena_alloc_aligned` does on a tiled pool. -/
theorem alloc_cases (ht : Tiled h bs) (hnode : node < 2 ^ 16) {sizeBytes : Nat}
    (hpos : sizeBytes ≠ 0) (halign : isPowerOf2 alignment = true)
    (hwrap : NoWrap sizeBytes alignment) :
    ((∀ p ∈ starts Blk.len 0 bs, h.fits (requestSize sizeBytes) alignment p = false) ∧
      h.arenaAllocAligned node sizeBytes alignment = .error .outOfMemory) ∨
    ∃ (pre : List Blk) (size : Nat) (post : List Blk) (padding idx : Nat) (h' : CflHeap),
      bs = pre ++ { size } :: post ∧
      h.fits (requestSize sizeBytes) alignment (stop Blk.len 0 pre, { size }) = true ∧
      h.arenaAllocAligned node sizeBytes alignment = .ok (idx, h') ∧
      Allocated h pre size post node (requestSize sizeBytes) alignment padding idx h' := by
  have hloop : h.arenaAllocAligned node sizeBytes alignment =
      h.firstFit node (requestSize sizeBytes) alignment (h.blocksFrom 0) := by
    have hne : alignment ≠ 0 := by
      rintro rfl
      cases halign
    unfold CflHeap.arenaAllocAligned
    rw [ht.initialized, halign, if_neg (by decide), if_neg hpos, if_neg (by simp [hne])]
  rw [hloop, ht.blocksFrom, firstFit_eq node _ alignment ht.laid]
  cases hfind : (starts Blk.len 0 bs).find? (h.fits (requestSize sizeBytes) alignment) with
  | none =>
      refine Or.inl ⟨fun p hp => ?_, rfl⟩
      exact eq_false_of_ne_true (List.find?_eq_none.mp hfind p hp)
  | some p =>
      obtain ⟨k, b⟩ := p
      have hfits := List.find?_some hfind
      obtain ⟨pre, post, rfl, rfl⟩ := Tiles.exists_of_mem_starts (List.mem_of_find?_eq_some hfind)
      obtain ⟨size, owner⟩ := b
      have howner : owner = none := Blk.free_iff.mp ((Bool.and_eq_true _ _).mp hfits).1
      subst howner
      exact Or.inr ⟨pre, size, post, _, _, _, rfl, hfits, rfl, allocAt_tiled ht hnode halign
        hwrap.needed (of_decide_eq_true ((Bool.and_eq_true _ _).mp hfits).2)⟩

/-- What `cfl_heap_free` does on a tiled pool. -/
theorem free_cases (ht : Tiled h bs) (idx : Nat) :
    (h.poolSize ≤ idx ∧ h.free idx = .error .invalidIndex) ∨
    (idx < h.poolSize ∧ (∀ p ∈ starts Blk.len 0 bs, ¬Covers idx p) ∧
      h.free idx = .error .notFound) ∨
    ∃ pre b post, bs = pre ++ b :: post ∧ Covers idx (stop Blk.len 0 pre, b) ∧
      (b.free = true ∧ h.free idx = .error .doubleFree ∨
        b.free = false ∧ ∃ h', h.free idx = .ok h' ∧ h'.base = h.base ∧
          h'.poolSize = h.poolSize ∧ Tiled h' (releasedBlocks pre b.size post) ∧
          Counted h'.stats (releasedBlocks pre b.size post) ∧
          ∀ x, Spared 0 (pre ++ { size := b.size } :: post) x →
            h'.mem.byte x = h.mem.byte x) := by
  have hstarted : ¬(!h.initialized) = true := by rw [ht.initialized, Bool.not_true]; decide
  unfold CflHeap.free
  rw [if_neg hstarted, ht.blocksFrom, find_covers_eq ht.laid]
  by_cases hidx : idx ≥ h.poolSize
  · exact Or.inl ⟨hidx, if_pos hidx⟩
  rw [if_neg hidx]
  have hlt := Nat.not_le.mp hidx
  -- the walk stops at the block that covers the index
  cases hfind : (starts Blk.len 0 bs).find? (fun p => decide (Covers idx p)) with
  | none =>
      refine Or.inr (Or.inl ⟨hlt, fun p hp hcovers => ?_, rfl⟩)
      exact List.find?_eq_none.mp hfind p hp (decide_eq_true hcovers)
  | some p =>
      obtain ⟨k, b⟩ := p
      have hsome := List.find?_some hfind
      have hcovers : Covers idx (k, b) := of_decide_eq_true hsome
      obtain ⟨pre, post, rfl, rfl⟩ := Tiles.exists_of_mem_starts (List.mem_of_find?_eq_some hfind)
      refine Or.inr (Or.inr ⟨pre, b, post, rfl, hcovers, ?_⟩)
      have hin : ¬stop Blk.len 0 pre ≥ h.poolSize := by
        have hle := ht.lt_pool
        have hpos := len_pos b
        omega
      have hheader := (laid_cons.mp (laid_append.mp ht.laid).2).1
      dsimp only [Option.map_some]
      rw [if_neg hin, hheader.validateBlock, if_neg (by decide), hheader.isAllocated]
      cases hfree : b.free with
      | true => exact Or.inl ⟨rfl, rfl⟩
      | false =>
          obtain ⟨m', hrun, htiled, hkept⟩ := release_tiled ht
          refine Or.inr ⟨rfl, ?_⟩
          rw [if_neg (by decide), hrun]
          exact ⟨_, rfl, rfl, rfl, (htiled _).updateStats.1, (htiled _).updateStats.2, hkept⟩

end Calls

end SlowBus.Engine
