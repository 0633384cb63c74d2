import SlowBus.Engine.Blocks

/-!
# The loops over the blocks

On a pool that is tiled the loops of the allocator visit each block once: the search stops at
the first one that fits, joining leaves no two free neighbours, and the statistics count what is
there.
-/

namespace SlowBus.Engine

open Tiles (starts stop joinFrom Settled)

variable {h : CflHeap} {m : Mem} {a idx x : Nat} {b c : Blk} {bs : List Blk}

/-! ## Visiting -/

theorem len_pos (b : Blk) : 0 < b.len := by
  unfold Blk.len headerSize
  omega

theorem nextBlock_eq (hb : Header h.mem a b) :
    h.nextBlock a = if a + b.len ≥ h.poolSize then none else some (a + b.len) := by
  have hptr : a + headerSize + blockSize h.mem a + footerSize = a + b.len := by
    rw [hb.size, Blk.len]
    omega
  rw [CflHeap.nextBlock, hptr]

/-- The block behind the last one ends the loop. -/
theorem nextBlock_last (hb : Header h.mem a b) (hstop : stop Blk.len a [b] = h.poolSize) :
    h.nextBlock a = none := by
  rw [nextBlock_eq hb]
  exact if_pos (Nat.le_of_eq hstop.symm)

theorem nextBlock_cons (hb : Header h.mem a b)
    (hstop : stop Blk.len a (b :: c :: bs) = h.poolSize) : h.nextBlock a = some (a + b.len) := by
  rw [nextBlock_eq hb]
  apply if_neg
  rw [← hstop, Tiles.stop_cons, Tiles.stop_cons]
  have hle : a + b.len + c.len ≤ stop Blk.len (a + b.len + c.len) bs := Tiles.le_stop
  have hpos := len_pos c
  omega

theorem blocksFrom_eq (hlaid : Laid h.mem a (b :: bs))
    (hstop : stop Blk.len a (b :: bs) = h.poolSize) :
    h.blocksFrom a = (starts Blk.len a (b :: bs)).map Prod.fst := by
  induction bs generalizing a b with
  | nil =>
      have hnext := nextBlock_last (laid_singleton.mp hlaid) hstop
      rw [CflHeap.blocksFrom]
      split
      next => rfl
      next heq => cases hnext.symm.trans heq
  | cons c bs ih =>
      obtain ⟨hb, hrest⟩ := laid_cons.mp hlaid
      have hnext := nextBlock_cons hb hstop
      rw [CflHeap.blocksFrom]
      split
      next heq => cases hnext.symm.trans heq
      next heq =>
        cases hnext.symm.trans heq
        rw [ih hrest hstop]
        rfl

/-! ## Joining -/

/-- No free block has the byte. -/
def Spared (a : Nat) (bs : List Blk) (x : Nat) : Prop :=
  ∀ p ∈ starts Blk.len a bs, p.2.free = true → x < p.1 ∨ p.1 + p.2.len ≤ x

theorem spared_of_lt (hx : x < a) : Spared a bs x := fun _ hp _ =>
  Or.inl (hx.trans_le (Tiles.bounds_of_mem hp).1)

theorem spared_of_stop_le (hx : stop Blk.len a bs ≤ x) : Spared a bs x := fun _ hp _ =>
  Or.inr ((Tiles.bounds_of_mem hp).2.trans hx)

theorem spared_join (hb : b.free = true) (hc : c.free = true) (h : Spared a (b :: c :: bs) x) :
    Spared a (b.join c :: bs) x := by
  obtain ⟨hxb, hrest⟩ := List.forall_mem_cons.mp h
  obtain ⟨hxc, hrest⟩ := List.forall_mem_cons.mp hrest
  refine List.forall_mem_cons.mpr ⟨fun _ => ?_, ?_⟩
  · have hxb := hxb hb
    have hxc := hxc hc
    dsimp only at hxb hxc ⊢
    rw [len_join]
    omega
  · rw [len_join, ← Nat.add_assoc]
    exact hrest

theorem free_join (b c : Blk) (_ : b.free = true) (_ : c.free = true) : (b.join c).free = true :=
  rfl

/-- The loop joins the free neighbours from a block on, and touches free blocks only. -/
theorem coalesceFrom_eq {fuel : Nat} (hfuel : bs.length < fuel) (hpool : h.poolSize < 2 ^ 16)
    (hlaid : Laid h.mem a (b :: bs)) (hstop : stop Blk.len a (b :: bs) = h.poolSize) :
    ∃ m', h.coalesceFrom fuel a = some m' ∧ Laid m' a (joinFrom Blk.free Blk.join b bs) ∧
      ∀ x, Spared a (b :: bs) x → m'.byte x = h.mem.byte x := by
  induction bs generalizing h a b fuel with
  | nil =>
      cases fuel with
      | zero => cases hfuel
      | succ fuel =>
          refine ⟨h.mem, ?_, hlaid, fun _ _ => rfl⟩
          rw [CflHeap.coalesceFrom, nextBlock_last (laid_singleton.mp hlaid) hstop]
  | cons c bs ih =>
      obtain ⟨hb, hrest⟩ := laid_cons.mp hlaid
      obtain ⟨hc, htail⟩ := laid_cons.mp hrest
      cases fuel with
      | zero => cases hfuel
      | succ fuel =>
          have hfuel := Nat.lt_of_succ_lt_succ hfuel
          rw [CflHeap.coalesceFrom, nextBlock_cons hb hstop]
          dsimp only
          rw [hb.isAllocated, hc.isAllocated, Bool.not_not, Bool.not_not, joinFrom]
          split
          next hboth =>
            obtain ⟨hbfree, hcfree⟩ := (Bool.and_eq_true _ _).mp hboth
            have hlt : b.len + c.len < 2 ^ 16 := by
              have hle : a + b.len + c.len ≤ stop Blk.len (a + b.len + c.len) bs := Tiles.le_stop
              rw [← Tiles.stop_cons, ← Tiles.stop_cons, hstop] at hle
              omega
            obtain ⟨hwithin, hjoined⟩ := joinBlocks_header hb hbfree hc hlt
            have htail' : Laid (joinBlocks h.mem a (a + b.len)) (a + (b.join c).len) bs := by
              rw [len_join, ← Nat.add_assoc]
              exact htail.congr hwithin (Or.inr (Nat.le_of_eq (Nat.add_assoc ..).symm))
            have hstop' : stop Blk.len a (b.join c :: bs) = h.poolSize := by
              rw [Tiles.stop_cons, len_join, ← Nat.add_assoc]
              exact hstop
            obtain ⟨m', hrun, hlaid', hkept⟩ :=
              @ih { h with mem := joinBlocks h.mem a (a + b.len) } a (b.join c) fuel hfuel hpool
                (laid_cons.mpr ⟨hjoined, htail'⟩) hstop'
            refine ⟨m', hrun, hlaid', fun x hx => ?_⟩
            have hx' := spared_join hbfree hcfree hx
            refine (hkept x hx').trans (hwithin x ?_)
            have hout := hx' (a, b.join c) List.mem_cons_self rfl
            rwa [len_join] at hout
          next hboth =>
            obtain ⟨m', hrun, hlaid', hkept⟩ := ih hfuel hpool hrest hstop
            refine ⟨m', hrun, laid_cons.mpr ⟨?_, hlaid'⟩, fun x hx => ?_⟩
            · have hwithin : Mem.Within (a + b.len) h.poolSize h.mem m' := by
                rintro x (hx | hx)
                · exact hkept x (spared_of_lt hx)
                · exact hkept x (spared_of_stop_le (hstop ▸ hx))
              exact laid_singleton.mp ((laid_singleton.mpr hb).congr hwithin (Or.inl le_rfl))
            · exact hkept x (List.forall_mem_cons.mp hx).2

/-! ## Searching -/

/-- A free block that has room for the request. -/
def CflHeap.fits (h : CflHeap) (size alignment : Nat) (p : Nat × Blk) : Bool :=
  p.2.free && decide (h.neededAt p.1 size alignment ≤ p.2.size)

theorem firstFit_eq (node size alignment : Nat) (hlaid : Laid h.mem a bs) :
    h.firstFit node size alignment ((starts Blk.len a bs).map Prod.fst) =
      match (starts Blk.len a bs).find? (h.fits size alignment) with
      | none => .error .outOfMemory
      | some p => .ok (h.allocAt node size alignment p.1) := by
  induction bs generalizing a with
  | nil => rfl
  | cons b bs ih =>
      obtain ⟨hb, hrest⟩ := laid_cons.mp hlaid
      have hfits : (!isAllocated h.mem a &&
          decide (blockSize h.mem a ≥ h.neededAt a size alignment)) =
          h.fits size alignment (a, b) := by
        rw [hb.isAllocated, Bool.not_not, hb.size]
        rfl
      rw [Tiles.starts_cons, List.map_cons, CflHeap.firstFit, hb.validateBlock,
        if_neg (by decide), hfits]
      cases hcase : h.fits size alignment (a, b) with
      | true => rw [if_pos rfl, List.find?_cons_of_pos hcase]
      | false =>
          rw [if_neg (by decide), List.find?_cons_of_neg (by simp [hcase])]
          exact ih hrest

/-- The data of a block reaches over the index. -/
def Covers (idx : Nat) (p : Nat × Blk) : Prop :=
  p.1 + headerSize + p.2.owner.elim 0 Owner.padding ≤ idx ∧ idx < p.1 + headerSize + p.2.size

instance instDecidableCovers (idx : Nat) (p : Nat × Blk) : Decidable (Covers idx p) :=
  inferInstanceAs (Decidable (_ ∧ _))

theorem coversIndex_eq (hb : Header m a b) : coversIndex m idx a = decide (Covers idx (a, b)) := by
  have hend : dataPtr m a + blockSize m a - blockPadding m a = a + headerSize + b.size := by
    rw [hb.dataPtr, hb.size, hb.padding]
    omega
  rw [coversIndex, hend, hb.dataPtr]
  rfl

theorem find_covers_eq (hlaid : Laid m a bs) :
    ((starts Blk.len a bs).map Prod.fst).find? (coversIndex m idx) =
      ((starts Blk.len a bs).find? fun p => decide (Covers idx p)).map Prod.fst := by
  induction bs generalizing a with
  | nil => rfl
  | cons b bs ih =>
      obtain ⟨hb, hrest⟩ := laid_cons.mp hlaid
      rw [Tiles.starts_cons, List.map_cons, List.find?_cons, List.find?_cons, coversIndex_eq hb,
        ih hrest]
      split <;> rfl

theorem Covers.bounds {p : Nat × Blk} (h : Covers idx p) : p.1 ≤ idx ∧ idx < p.1 + p.2.len := by
  have hlen : p.2.len = headerSize + p.2.size + footerSize := rfl
  obtain ⟨hlo, hhi⟩ := h
  omega

/-! ## Counting -/

def usedBytes (bs : List Blk) : Nat := ((bs.filter fun b => !b.free).map Blk.len).sum

def largestFree (bs : List Blk) : Nat := ((bs.filter Blk.free).map Blk.size).foldl max 0

/-- The statistics are those of the blocks. -/
structure Counted (s : HeapStats) (bs : List Blk) : Prop where
  current : s.currentBlocks = bs.length
  allocated : s.allocatedBlocks = bs.countP fun b => !b.free
  free : s.freeBlocks = bs.countP Blk.free
  used : s.currentUsedBytes = usedBytes bs
  largest : s.largestFreeBlock = largestFree bs
  peak : s.currentUsedBytes ≤ s.peakUsedBytes

theorem usedBytes_cons (b : Blk) (bs : List Blk) :
    usedBytes (b :: bs) = (if b.free then 0 else b.len) + usedBytes bs := by
  unfold usedBytes
  rw [List.filter_cons]
  cases b.free <;> simp

theorem usedBytes_le : a + usedBytes bs ≤ stop Blk.len a bs := by
  induction bs generalizing a with
  | nil => exact le_rfl
  | cons b bs ih =>
      have hrest := @ih (a + b.len)
      rw [usedBytes_cons, Tiles.stop_cons]
      split <;> omega

theorem tally_eq {t : Tally} (hlaid : Laid m a bs) (hused : t.used + usedBytes bs < 2 ^ 16) :
    ((starts Blk.len a bs).map Prod.fst).foldl (Tally.count m) t =
      { used := t.used + usedBytes bs
        freeBlocks := t.freeBlocks + bs.countP Blk.free
        allocatedBlocks := t.allocatedBlocks + bs.countP fun b => !b.free
        largestFree := ((bs.filter Blk.free).map Blk.size).foldl max t.largestFree
        totalBlocks := t.totalBlocks + bs.length } := by
  induction bs generalizing a t with
  | nil => rfl
  | cons b bs ih =>
      obtain ⟨hb, hrest⟩ := laid_cons.mp hlaid
      rw [usedBytes_cons] at hused ⊢
      rw [Tiles.starts_cons, List.map_cons, List.foldl_cons, List.length_cons]
      have hcount : Tally.count m t a =
          { used := t.used + if b.free then 0 else b.len
            freeBlocks := t.freeBlocks + if b.free then 1 else 0
            allocatedBlocks := t.allocatedBlocks + if b.free then 0 else 1
            largestFree := if b.free then max t.largestFree b.size else t.largestFree
            totalBlocks := t.totalBlocks + 1 } := by
        unfold Tally.count
        dsimp only
        rw [hb.isAllocated, hb.size]
        cases hfree : b.free with
        | true =>
            rw [hfree] at hused
            have hmax : (if b.size > t.largestFree then b.size else t.largestFree) =
                max t.largestFree b.size := by
              split <;> omega
            simp only [Bool.not_true, Bool.false_eq_true, if_false, if_true, hmax, Nat.add_zero]
        | false =>
            rw [hfree, if_neg (by decide)] at hused
            have hmod : (t.used + (headerSize + b.size + footerSize)) % 2 ^ 16 =
                t.used + b.len := Nat.mod_eq_of_lt (by
              have hlen : b.len = headerSize + b.size + footerSize := rfl
              omega)
            simp only [Bool.not_false, Bool.false_eq_true, if_false, if_true, hmod, Nat.add_zero]
      rw [hcount, ih hrest (by dsimp only; omega)]
      cases hfree : b.free <;> simp [hfree] <;> omega

end SlowBus.Engine
