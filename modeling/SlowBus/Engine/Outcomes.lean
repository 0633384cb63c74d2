import SlowBus.Engine.HeapRuns

/-!
# When the calls return

In every state of a heap that has started an allocation returns exactly when a free block has an
aligned place that is large enough, a release exactly when an object has the index, and the
statistics are those of the walk.
-/

namespace SlowBus.Engine

open Runs (Steps)
open Tiles (starts stop joinFrom joinAll Settled)

/-- A free block has an aligned place for so many bytes. -/
def CflHeap.HasRoom (h : CflHeap) (size alignment : Nat) : Prop :=
  ∃ e ∈ h.walk, e.allocated = false ∧
    ∃ x, e.ptr ≤ x ∧ alignment ∣ h.base + x ∧ x + size ≤ e.ptr + e.size

/-- The index is in the data of a free block. -/
def CflHeap.FreeAt (h : CflHeap) (idx : Nat) : Prop :=
  ∃ e ∈ h.walk, e.allocated = false ∧ e.ptr ≤ idx ∧ idx < e.ptr + e.size

/-- The free blocks that the walk reports. -/
def CflHeap.freeEntries (h : CflHeap) : List WalkEntry := h.walk.filter fun e => !e.allocated

section Outcomes

variable {h h' : CflHeap} {bs : List Blk} {base poolSize asked alignment k size idx : Nat}
  {p q : Nat × Blk}

/-! ## Room -/

/-- Padding leads to the first aligned place: a block fits when it has any. -/
theorem fits_iff (halign : isPowerOf2 alignment = true) (hwrap : asked + alignment ≤ 2 ^ 16) :
    h.fits asked alignment (k, { size }) = true ↔
      ∃ x, k + headerSize ≤ x ∧ alignment ∣ h.base + x ∧ x + asked ≤ k + headerSize + size := by
  obtain ⟨haddr, hneeded⟩ := alignedAddr_eq (h := h) (a := k) halign hwrap
  obtain ⟨hdvd, -, hlt⟩ := clearBits_aligned halign (h.base + k + headerSize)
  have hdef : h.alignedAddr k alignment =
      clearBits (h.base + k + headerSize + alignment - 1) (alignment - 1) := rfl
  rw [← hdef] at hdvd hlt
  have hfits : h.fits asked alignment (k, { size }) =
      decide (h.paddingAt k alignment + asked ≤ size) := by
    rw [CflHeap.fits, hneeded]
    rfl
  rw [hfits, decide_eq_true_iff]
  constructor
  · intro hroom
    refine ⟨k + headerSize + h.paddingAt k alignment, Nat.le_add_right _ _, ?_, by omega⟩
    rwa [← Nat.add_assoc, ← Nat.add_assoc, ← haddr]
  · rintro ⟨x, hx, hx', hroom⟩
    have hfirst : h.alignedAddr k alignment ≤ h.base + x := by
      by_contra hgt
      have hle := Nat.le_of_dvd (by omega) (Nat.dvd_sub hdvd hx')
      omega
    omega

theorem entryOf_free (hfree : p.2.free = true) :
    entryOf p = ⟨p.1 + headerSize, p.2.size, false, nodeIdNone⟩ := by
  rw [entryOf, hfree, Blk.free_iff.mp hfree]
  rfl

theorem allocated_eq_false_iff : (entryOf p).allocated = false ↔ p.2.free = true := by
  unfold entryOf
  cases p.2.free <;> simp

theorem Tiled.mem_walk_free (ht : Tiled h bs) {e : WalkEntry} :
    (e ∈ h.walk ∧ e.allocated = false) ↔
      ∃ p ∈ starts Blk.len 0 bs, p.2.free = true ∧ e = entryOf p := by
  rw [ht.walk, List.mem_map]
  constructor
  · rintro ⟨⟨p, hp, rfl⟩, hfree⟩
    exact ⟨p, hp, allocated_eq_false_iff.mp hfree, rfl⟩
  · rintro ⟨p, hp, hfree, rfl⟩
    exact ⟨⟨p, hp, rfl⟩, allocated_eq_false_iff.mpr hfree⟩

theorem Tiled.hasRoom_iff (ht : Tiled h bs) (halign : isPowerOf2 alignment = true)
    (hwrap : asked + alignment ≤ 2 ^ 16) :
    h.HasRoom asked alignment ↔ ∃ p ∈ starts Blk.len 0 bs, h.fits asked alignment p = true := by
  constructor
  · rintro ⟨e, he, hfree, hroom⟩
    obtain ⟨p, hp, hpfree, rfl⟩ := ht.mem_walk_free.mp ⟨he, hfree⟩
    rw [entryOf_free hpfree] at hroom
    obtain ⟨k, size, owner⟩ := p
    cases Blk.free_iff.mp hpfree
    exact ⟨_, hp, (fits_iff halign hwrap).mpr hroom⟩
  · rintro ⟨p, hp, hfits⟩
    have hfree := ((Bool.and_eq_true _ _).mp hfits).1
    obtain ⟨he, hfree'⟩ := ht.mem_walk_free.mpr ⟨p, hp, hfree, rfl⟩
    refine ⟨entryOf p, he, hfree', ?_⟩
    rw [entryOf_free hfree]
    obtain ⟨k, size, owner⟩ := p
    cases Blk.free_iff.mp hfree
    exact (fits_iff halign hwrap).mp hfits

/-! ## Indices -/

theorem covers_unique (hp : p ∈ starts Blk.len 0 bs) (hq : q ∈ starts Blk.len 0 bs)
    (hpx : Covers idx p) (hqx : Covers idx q) : p = q :=
  Tiles.eq_of_covers hp hq hpx.bounds hqx.bounds

theorem Tiled.freeAt_iff (ht : Tiled h bs) :
    h.FreeAt idx ↔ ∃ p ∈ starts Blk.len 0 bs, p.2.free = true ∧ Covers idx p := by
  have hcovers : ∀ p : Nat × Blk, p.2.free = true →
      ((entryOf p).ptr ≤ idx ∧ idx < (entryOf p).ptr + (entryOf p).size ↔ Covers idx p) := by
    intro p hfree
    rw [entryOf_free hfree, Covers, Blk.free_iff.mp hfree]
    exact Iff.rfl
  constructor
  · rintro ⟨e, he, hfree, hhas⟩
    obtain ⟨p, hp, hpfree, rfl⟩ := ht.mem_walk_free.mp ⟨he, hfree⟩
    exact ⟨p, hp, hpfree, (hcovers p hpfree).mp hhas⟩
  · rintro ⟨p, hp, hfree, hhas⟩
    obtain ⟨he, hfree'⟩ := ht.mem_walk_free.mpr ⟨p, hp, hfree, rfl⟩
    exact ⟨entryOf p, he, hfree', (hcovers p hfree).mpr hhas⟩

theorem Tiled.has_iff (ht : Tiled h bs) :
    (∃ o ∈ h.objects, o.Has idx) ↔
      ∃ p ∈ starts Blk.len 0 bs, p.2.free = false ∧ Covers idx p := by
  rw [ht.objects]
  have hcovers : ∀ p ∈ starts Blk.len 0 bs, ∀ o ∈ objOf h.mem p, (o.Has idx ↔ Covers idx p) := by
    intro p hp o ho
    obtain ⟨-, -, hstop⟩ := objOf_bounds (ht.padding p.2 (Tiles.snd_mem hp)) ho
    obtain ⟨w, hw, rfl⟩ := Option.map_eq_some_iff.mp ho
    rw [Obj.Has, hstop, Covers, hw]
    exact Iff.rfl
  constructor
  · rintro ⟨o, ho, hhas⟩
    obtain ⟨p, hp, ho⟩ := List.mem_filterMap.mp ho
    have hfree := (objOf_bounds (ht.padding p.2 (Tiles.snd_mem hp)) ho).1
    exact ⟨p, hp, hfree, (hcovers p hp o ho).mp hhas⟩
  · rintro ⟨p, hp, hfree, hhas⟩
    cases hobj : objOf h.mem p with
    | none =>
        have howner := Option.map_eq_none_iff.mp hobj
        cases (Blk.free_iff.mpr howner).symm.trans hfree
    | some o =>
        exact ⟨o, List.mem_filterMap.mpr ⟨p, hp, hobj⟩, (hcovers p hp o hobj).mpr hhas⟩

/-! ## Outcomes -/

theorem alloc_outcome (ht : Tiled h bs) {node sizeBytes : Nat} (hnode : node < 2 ^ 16)
    (hpos : sizeBytes ≠ 0) (halign : isPowerOf2 alignment = true)
    (hwrap : NoWrap sizeBytes alignment) :
    (h.HasRoom (requestSize sizeBytes) alignment →
        ∃ r, h.arenaAllocAligned node sizeBytes alignment = .ok r) ∧
      (¬h.HasRoom (requestSize sizeBytes) alignment →
        h.arenaAllocAligned node sizeBytes alignment = .error .outOfMemory) := by
  rw [ht.hasRoom_iff halign hwrap.needed]
  rcases alloc_cases ht hnode hpos halign hwrap with
    ⟨hnone, herror⟩ | ⟨pre, size, post, padding, idx, h', rfl, hfits, hok, -⟩
  · refine ⟨?_, fun _ => herror⟩
    rintro ⟨p, hp, hfits⟩
    cases hfits.symm.trans (hnone p hp)
  · exact ⟨fun _ => ⟨_, hok⟩, fun hnone => absurd ⟨_, Tiles.mem_starts_append .., hfits⟩ hnone⟩

theorem free_outcome (ht : Tiled h bs) (idx : Nat) :
    ((∃ o ∈ h.objects, o.Has idx) → ∃ h', h.free idx = .ok h') ∧
      (h.FreeAt idx → h.free idx = .error .doubleFree) ∧
      (¬(∃ o ∈ h.objects, o.Has idx) → ¬h.FreeAt idx →
        h.free idx = .error (if h.poolSize ≤ idx then .invalidIndex else .notFound)) := by
  rw [ht.has_iff, ht.freeAt_iff]
  have houtside : ∀ p ∈ starts Blk.len 0 bs, Covers idx p → idx < h.poolSize := by
    intro p hp hcovers
    have hle := (Tiles.bounds_of_mem hp).2
    rw [ht.stop_eq] at hle
    exact hcovers.bounds.2.trans_le hle
  rcases free_cases ht idx with ⟨hpool, herror⟩ | ⟨hpool, hnone, herror⟩ |
    ⟨pre, b, post, rfl, hcovers, hresult⟩
  · refine ⟨?_, ?_, fun _ _ => by rw [herror, if_pos hpool]⟩
    · rintro ⟨p, hp, -, hcovers⟩
      exact absurd (houtside p hp hcovers) (Nat.not_lt.mpr hpool)
    · rintro ⟨p, hp, -, hcovers⟩
      exact absurd (houtside p hp hcovers) (Nat.not_lt.mpr hpool)
  · refine ⟨?_, ?_, fun _ _ => by rw [herror, if_neg (Nat.not_le.mpr hpool)]⟩
    · rintro ⟨p, hp, -, hcovers⟩
      exact absurd hcovers (hnone p hp)
    · rintro ⟨p, hp, -, hcovers⟩
      exact absurd hcovers (hnone p hp)
  · -- the index is in the data of this block and of no other
    have hmem : (stop Blk.len 0 pre, b) ∈ starts Blk.len 0 (pre ++ b :: post) :=
      Tiles.mem_starts_append pre post b
    rcases hresult with ⟨hfree, herror⟩ | ⟨hfree, h', hok, -⟩
    · refine ⟨?_, fun _ => herror, fun _ hnone => absurd ⟨_, hmem, hfree, hcovers⟩ hnone⟩
      rintro ⟨p, hp, hpfree, hpcovers⟩
      cases covers_unique hp hmem hpcovers hcovers
      cases hfree.symm.trans hpfree
    · refine ⟨fun _ => ⟨h', hok⟩, ?_, fun hnone => absurd ⟨_, hmem, hfree, hcovers⟩ hnone⟩
      rintro ⟨p, hp, hpfree, hpcovers⟩
      cases covers_unique hp hmem hpcovers hcovers
      cases hfree.symm.trans hpfree

/-- Sizes that 16 bits cannot round up are taken for the smallest one. -/
theorem malloc_wrap {n : Nat} (hlo : 65533 ≤ n) (hhi : n < 2 ^ 16) : h.malloc n = h.malloc 8 := by
  have hsize : requestSize n = requestSize 8 := by
    obtain rfl | rfl | rfl : n = 65533 ∨ n = 65534 ∨ n = 65535 := by omega
    · decide
    · decide
    · decide
  have hpos : n ≠ 0 := by omega
  unfold CflHeap.malloc CflHeap.arenaAllocAligned
  rw [hsize, if_neg hpos, if_neg (show (8 : Nat) ≠ 0 by decide)]

/-- Whether a call returns, in every state of a heap that has started; a call that does not
raises one fault, and never that of a damaged heap. -/
theorem heap_outcomes {bufferSize : Nat} {es : List HeapEvent} (hlt : bufferSize < 2 ^ 16)
    (hinit : CflHeap.init base bufferSize = .ok h) (hrun : Steps HeapStep h es h') :
    (∀ node sizeBytes alignment, node < 2 ^ 16 → sizeBytes ≠ 0 →
      isPowerOf2 alignment = true → NoWrap sizeBytes alignment →
      (h'.HasRoom (requestSize sizeBytes) alignment →
          ∃ r, h'.arenaAllocAligned node sizeBytes alignment = .ok r) ∧
        (¬h'.HasRoom (requestSize sizeBytes) alignment →
          h'.arenaAllocAligned node sizeBytes alignment = .error .outOfMemory)) ∧
    (∀ n, 65533 ≤ n → n < 2 ^ 16 → h'.malloc n = h'.malloc 8) ∧
    ∀ idx, ((∃ o ∈ h'.objects, o.Has idx) → ∃ h'', h'.free idx = .ok h'') ∧
      (h'.FreeAt idx → h'.free idx = .error .doubleFree) ∧
      (¬(∃ o ∈ h'.objects, o.Has idx) → ¬h'.FreeAt idx →
        h'.free idx = .error (if bufferSize ≤ idx then .invalidIndex else .notFound)) := by
  obtain ⟨-, hpool, bs, ht, -⟩ := (heap_run hrun (init_sound hlt hinit).1).1
  refine ⟨fun node sizeBytes alignment hnode hpos halign hwrap => ?_, fun n hlo hhi => ?_,
    fun idx => ?_⟩
  · exact alloc_outcome ht hnode hpos halign hwrap
  · exact malloc_wrap hlo hhi
  · rw [← hpool]
    exact free_outcome ht idx

/-- After the release, room is left for 40 bytes and not for 48. -/
theorem heap_outcomes_two : ∃ h', Steps HeapStep hundred twoObjects h' ∧
    (∃ r, h'.arenaAllocAligned nodeIdNone 40 4 = .ok r) ∧
    h'.arenaAllocAligned nodeIdNone 48 4 = .error .outOfMemory ∧
    h'.malloc 65533 = h'.malloc 8 ∧ (∃ h'', h'.free 32 = .ok h'') ∧
    h'.free 12 = .error .doubleFree ∧ h'.free 25 = .error .notFound ∧
    h'.free 100 = .error .invalidIndex := by
  let h' := (hundred.play twoObjects).get (by decide +kernel)
  have hrun : Steps HeapStep hundred twoObjects h' := steps_play (Option.some_get _).symm
  have hinit : CflHeap.init 0 100 = .ok hundred := rfl
  obtain ⟨halloc, hwrap, hfree⟩ := heap_outcomes (by decide) hinit hrun
  have hwalk : h'.walk = [⟨10, 10, false, nodeIdNone⟩, ⟨32, 8, true, nodeIdNone⟩,
      ⟨52, 46, false, nodeIdNone⟩] := by
    decide +kernel
  have hobjects : ∀ idx, (∃ o ∈ h'.objects, o.Has idx) ↔ 32 ≤ idx ∧ idx < 40 := by
    have hone : h'.objects =
        [{ ptr := 32, node := nodeIdNone, data := [0, 0x5A, 0, 0, 0, 0, 0, 0] }] := by
      decide +kernel
    simp [hone, Obj.Has, Obj.stop]
  have hfreeAt : ∀ idx, h'.FreeAt idx ↔ 10 ≤ idx ∧ idx < 20 ∨ 52 ≤ idx ∧ idx < 98 := by
    simp [CflHeap.FreeAt, hwalk]
  have hroom : h'.HasRoom (requestSize 40) 4 :=
    ⟨⟨52, 46, false, nodeIdNone⟩, by rw [hwalk]; decide, rfl, 52, by decide +kernel⟩
  have hnoRoom : ¬h'.HasRoom (requestSize 48) 4 := by
    rintro ⟨e, he, hunused, x, hlo, -, hhi⟩
    have hsize : requestSize 48 = 48 := by decide
    rw [hwalk] at he
    simp only [List.mem_cons, List.not_mem_nil, or_false] at he
    rcases he with rfl | rfl | rfl
    · dsimp only at hlo hhi
      omega
    · cases hunused
    · dsimp only at hlo hhi
      omega
  have hwrap40 : NoWrap 40 4 := ⟨by decide, by decide⟩
  have hwrap48 : NoWrap 48 4 := ⟨by decide, by decide⟩
  refine ⟨h', hrun, (halloc nodeIdNone 40 4 (by decide) (by decide) (by decide) hwrap40).1 hroom,
    (halloc nodeIdNone 48 4 (by decide) (by decide) (by decide) hwrap48).2 hnoRoom,
    hwrap 65533 (by decide) (by decide), (hfree 32).1 ((hobjects 32).mpr (by decide)),
    (hfree 12).2.1 ((hfreeAt 12).mpr (by decide)), ?_, ?_⟩
  · exact (hfree 25).2.2 (mt (hobjects 25).mp (by decide)) (mt (hfreeAt 25).mp (by decide))
  · exact (hfree 100).2.2 (mt (hobjects 100).mp (by decide)) (mt (hfreeAt 100).mp (by decide))

/-! ## Accounts -/

theorem Tiled.freeEntries_map {γ : Type*} {f : WalkEntry → γ} {g : Blk → γ} (ht : Tiled h bs)
    (hfg : ∀ p : Nat × Blk, p.2.free = true → f (entryOf p) = g p.2) :
    h.freeEntries.map f = (bs.filter Blk.free).map g := by
  have hsnd : (bs.filter Blk.free) =
      ((starts Blk.len 0 bs).filter fun p => p.2.free).map Prod.snd := by
    conv_lhs => rw [← @Tiles.map_snd_starts Blk Blk.len 0 bs, List.filter_map]
    rfl
  rw [CflHeap.freeEntries, ht.walk, List.filter_map, hsnd, List.map_map, List.map_map]
  have hpred : ((fun e : WalkEntry => !e.allocated) ∘ entryOf) = fun p => p.2.free := by
    funext p
    exact Bool.not_not _
  rw [hpred]
  apply List.map_congr_left
  intro p hp
  exact hfg p (List.mem_filter.mp hp).2

theorem length_objsOf {m : Mem} {a : Nat} :
    (objsOf m a bs).length = bs.countP fun b => !b.free := by
  induction bs generalizing a with
  | nil => rfl
  | cons b bs ih =>
      rw [objsOf_cons, List.length_append, ih, List.countP_cons]
      obtain ⟨size, owner⟩ := b
      cases owner with
      | none => exact Nat.zero_add _
      | some o => exact Nat.add_comm ..

/-- What is used and what is free make up the pool. -/
theorem used_add_free {a : Nat} :
    a + (usedBytes bs + ((bs.filter Blk.free).map Blk.len).sum) = stop Blk.len a bs := by
  induction bs generalizing a with
  | nil => rfl
  | cons b bs ih =>
      rw [usedBytes_cons, Tiles.stop_cons, ← ih]
      cases hb : b.free with
      | true =>
          rw [List.filter_cons_of_pos hb, List.map_cons, List.sum_cons, if_pos rfl]
          omega
      | false =>
          rw [List.filter_cons_of_neg (by rw [hb]; decide), if_neg Bool.false_ne_true]
          omega

/-- The statistics are those of the walk in every state of a heap that has started. Free blocks are
at most one more than objects, and with the last object the heap is one free block again. -/
theorem heap_accounts {bufferSize : Nat} {es : List HeapEvent} (hlt : bufferSize < 2 ^ 16)
    (hinit : CflHeap.init base bufferSize = .ok h) (hrun : Steps HeapStep h es h') :
    h'.stats.currentBlocks = h'.walk.length ∧ h'.stats.allocatedBlocks = h'.objects.length ∧
      h'.stats.freeBlocks = h'.freeEntries.length ∧
      h'.stats.largestFreeBlock = (h'.freeEntries.map WalkEntry.size).foldl max 0 ∧
      h'.stats.currentUsedBytes +
        (h'.freeEntries.map fun e => headerSize + e.size + footerSize).sum = bufferSize ∧
      h'.stats.currentUsedBytes ≤ h'.stats.peakUsedBytes ∧
      h'.freeEntries.length ≤ h'.objects.length + 1 ∧
      (h'.objects = [] → h'.walk = [{
        ptr := headerSize
        size := bufferSize - headerSize - footerSize
        allocated := false
        node := nodeIdNone }]) := by
  obtain ⟨-, hpool, bs, ht, hcounted⟩ := (heap_run hrun (init_sound hlt hinit).1).1
  have hsizes : h'.freeEntries.map WalkEntry.size = (bs.filter Blk.free).map Blk.size :=
    ht.freeEntries_map fun p hfree => by rw [entryOf_free hfree]
  have hlens : (h'.freeEntries.map fun e => headerSize + e.size + footerSize) =
      (bs.filter Blk.free).map Blk.len :=
    ht.freeEntries_map fun p hfree => by
      rw [entryOf_free hfree]
      rfl
  -- every count is one of the blocks that tile the pool
  have hfree : h'.freeEntries.length = bs.countP Blk.free := by
    rw [← List.length_map WalkEntry.size, hsizes, List.length_map, ← List.countP_eq_length_filter]
  have hobjects : h'.objects.length = bs.countP fun b => !b.free := by
    rw [ht.objects, length_objsOf]
  refine ⟨?_, ?_, ?_, ?_, ?_, hcounted.peak, ?_, fun hempty => ?_⟩
  · rw [hcounted.current, ht.walk, List.length_map, Tiles.length_starts]
  · rw [hcounted.allocated, hobjects]
  · rw [hcounted.free, hfree]
  · rw [hcounted.largest, hsizes]
    rfl
  · rw [hcounted.used, hlens, ← hpool, ← ht.stop_eq, ← used_add_free, Nat.zero_add]
  · rw [hfree, hobjects]
    exact ht.settled.countP_le.1
  · -- settled blocks that are all free are a single one
    rw [hempty] at hobjects
    have hall : ∀ b ∈ bs, b.free = true := fun b hb => by
      have hzero := List.countP_eq_zero.mp hobjects.symm b hb
      by_contra hne
      exact hzero (by rw [eq_false_of_ne_true hne, Bool.not_false])
    have hone := Tiles.length_le_one_of_settled ht.settled hall
    cases bs with
    | nil => exact absurd rfl ht.ne
    | cons b bs =>
        cases bs with
        | cons c cs =>
            rw [List.length_cons, List.length_cons] at hone
            omega
        | nil =>
            have hb : b.free = true := hall b List.mem_cons_self
            have hstop : 0 + b.len = bufferSize := ht.stop_eq.trans hpool
            have hlen : b.len = headerSize + b.size + footerSize := rfl
            have hsize : b.size = bufferSize - headerSize - footerSize := by omega
            rw [ht.walk, Tiles.starts_cons, Tiles.starts_nil, List.map_cons, List.map_nil,
              entryOf_free hb, hsize]
            rfl

/-- Two free blocks beside one object, and one free block when that is released too. -/
theorem heap_accounts_two : ∃ h' h'', Steps HeapStep hundred twoObjects h' ∧
    Steps HeapStep hundred (twoObjects ++ [.free 32]) h'' ∧
    h'.stats.currentBlocks = 3 ∧ h'.stats.allocatedBlocks = 1 ∧ h'.stats.freeBlocks = 2 ∧
    h'.stats.largestFreeBlock = 46 ∧ h'.stats.currentUsedBytes + (22 + 58) = 100 ∧
    h''.walk = [{ ptr := 10, size := 88, allocated := false, node := nodeIdNone }] := by
  let h' := (hundred.play twoObjects).get (by decide +kernel)
  let h'' := (hundred.play (twoObjects ++ [.free 32])).get (by decide +kernel)
  have hrun : Steps HeapStep hundred twoObjects h' := steps_play (Option.some_get _).symm
  have hrun' : Steps HeapStep hundred (twoObjects ++ [.free 32]) h'' :=
    steps_play (Option.some_get _).symm
  have hinit : CflHeap.init 0 100 = .ok hundred := rfl
  obtain ⟨hblocks, hallocated, hfree, hlargest, hused, -⟩ := heap_accounts (by decide) hinit hrun
  obtain ⟨-, -, -, -, -, -, -, hwhole⟩ := heap_accounts (by decide) hinit hrun'
  have hwalk : h'.walk.length = 3 := by decide +kernel
  have hentries : h'.freeEntries = [⟨10, 10, false, nodeIdNone⟩, ⟨52, 46, false, nodeIdNone⟩] := by
    decide +kernel
  have hobjects : h'.objects.length = 1 := by decide +kernel
  rw [hentries] at hfree hlargest hused
  exact ⟨h', h'', hrun, hrun', hblocks.trans hwalk, hallocated.trans hobjects, hfree, hlargest,
    hused, hwhole (by decide +kernel)⟩

end Outcomes

end SlowBus.Engine
