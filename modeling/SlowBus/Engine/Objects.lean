import SlowBus.Engine.Calls

/-!
# Objects in the heap

An object is what a block that is allocated has behind its padding, with the bytes it holds. The
objects of a tiled pool lie apart; an allocation adds one, a release takes one away, and neither
changes a byte of another.
-/

namespace SlowBus.Engine

open Bus (Byte)
open Tiles (starts stop joinFrom joinAll Settled)

/-! ## Objects -/

structure Obj where
  ptr : Nat
  node : Nat
  data : List Byte
  deriving DecidableEq

def Obj.stop (o : Obj) : Nat := o.ptr + o.data.length

/-- The index is one of a byte of the object. -/
def Obj.Has (o : Obj) (x : Nat) : Prop := o.ptr ≤ x ∧ x < o.stop

instance (o : Obj) (x : Nat) : Decidable (o.Has x) := inferInstanceAs (Decidable (_ ∧ _))

/-- The bytes from an address on. -/
def Mem.read (m : Mem) (a n : Nat) : List Byte := (List.range n).map fun i => m.byte (a + i)

/-- What `cfl_heap_walk` reports as allocated, with the bytes that are there. -/
def CflHeap.objects (h : CflHeap) : List Obj :=
  (h.walk.filter WalkEntry.allocated).map fun e =>
    { ptr := e.ptr, node := e.node, data := h.mem.read e.ptr e.size }

section Objects

variable {h h' : CflHeap} {m m' : Mem} {a n x lo hi : Nat} {bs pre post : List Blk} {b : Blk}
  {o : Obj} {p : Nat × Blk}

@[simp] theorem length_read : (m.read a n).length = n := by
  rw [Mem.read, List.length_map, List.length_range]

theorem read_congr (hsame : ∀ x, a ≤ x → x < a + n → m'.byte x = m.byte x) :
    m'.read a n = m.read a n := by
  apply List.map_congr_left
  intro i hi
  rw [List.mem_range] at hi
  exact hsame _ (Nat.le_add_right a i) (by omega)

theorem read_set {v : Byte} (hlo : a ≤ x) :
    (m.set x v).read a n = (m.read a n).set (x - a) v := by
  apply List.ext_getElem
  · rw [List.length_set, length_read, length_read]
  · intro i hi _
    simp only [Mem.read, Mem.set, List.getElem_map, List.getElem_range, List.getElem_set]
    by_cases heq : x - a = i
    · rw [if_pos heq, show a + i = x by omega, Function.update_self]
    · rw [if_neg heq, Function.update_of_ne (by omega)]

theorem within_set {v : Byte} : Mem.Within x (x + 1) m (m.set x v) := fun y hy =>
  Function.update_of_ne (by omega) _ _

/-- A store into the data of a block leaves its header and its footer. -/
theorem Header.set {v : Byte} (hb : Header m a b) (hlo : a + headerSize ≤ x)
    (hhi : x < a + headerSize + b.size) : Header (m.set x v) a b := by
  have hsame : ∀ c, c + 2 ≤ a + headerSize ∨ a + headerSize + b.size ≤ c →
      (m.set x v).u16 c = m.u16 c := fun c hc => within_set.u16 (by omega)
  unfold headerSize at hsame
  constructor
  · exact (hsame _ (by omega)).trans hb.magic
  · exact (hsame _ (by omega)).trans hb.size
  · exact (hsame _ (by omega)).trans hb.flags
  · exact (hsame _ (by omega)).trans hb.node
  · exact (hsame _ (by omega)).trans hb.padding
  · exact (hsame _ (Or.inr le_rfl)).trans hb.footer

/-- The object of a block. -/
def objOf (m : Mem) (p : Nat × Blk) : Option Obj :=
  p.2.owner.map fun o =>
    { ptr := p.1 + headerSize + o.padding
      node := o.node
      data := m.read (p.1 + headerSize + o.padding) (p.2.size - o.padding) }

def objsOf (m : Mem) (a : Nat) (bs : List Blk) : List Obj :=
  (starts Blk.len a bs).filterMap (objOf m)

theorem objsOf_append :
    objsOf m a (bs ++ post) = objsOf m a bs ++ objsOf m (stop Blk.len a bs) post := by
  unfold objsOf
  rw [Tiles.starts_append, List.filterMap_append]

theorem objsOf_cons :
    objsOf m a (b :: bs) = (objOf m (a, b)).toList ++ objsOf m (a + b.len) bs := by
  unfold objsOf
  rw [Tiles.starts_cons, List.filterMap_cons]
  cases objOf m (a, b) <;> rfl

theorem objsOf_free (hfree : ∀ b ∈ bs, b.owner = none) : objsOf m a bs = [] := by
  apply List.filterMap_eq_nil_iff.mpr
  intro p hp
  rw [objOf, hfree p.2 (Tiles.snd_mem hp)]
  rfl

/-- What the walk reports of a block. -/
def entryOf (p : Nat × Blk) : WalkEntry where
  ptr := p.1 + headerSize + p.2.owner.elim 0 Owner.padding
  size := p.2.size - p.2.owner.elim 0 Owner.padding
  allocated := !p.2.free
  node := p.2.owner.elim nodeIdNone Owner.node

theorem walk_laid (hlaid : Laid m a bs) :
    (((starts Blk.len a bs).map Prod.fst).filter (validateBlock m)).map (walkEntry m) =
      (starts Blk.len a bs).map entryOf := by
  induction bs generalizing a with
  | nil => rfl
  | cons b bs ih =>
      obtain ⟨hb, hrest⟩ := laid_cons.mp hlaid
      have hsize : b.size < 2 ^ 16 := hb.size ▸ u16_lt m (a + 2)
      have hentry : walkEntry m a = entryOf (a, b) := by
        rw [walkEntry, hb.dataPtr, hb.isAllocated, hb.node, hb.size, hb.padding,
          Nat.mod_eq_of_lt (by omega)]
        rfl
      rw [Tiles.starts_cons, List.map_cons, List.filter_cons_of_pos hb.validateBlock,
        List.map_cons, List.map_cons, hentry, ih hrest]

theorem Tiled.walk (ht : Tiled h bs) : h.walk = (starts Blk.len 0 bs).map entryOf := by
  have hstarted : ¬(!h.initialized) = true := by rw [ht.initialized]; decide
  rw [CflHeap.walk, if_neg hstarted, ht.blocksFrom, walk_laid ht.laid]

/-- The walk finds the objects of the blocks. -/
theorem Tiled.objects (ht : Tiled h bs) : h.objects = objsOf h.mem 0 bs := by
  unfold CflHeap.objects objsOf
  rw [ht.walk]
  induction starts Blk.len 0 bs with
  | nil => rfl
  | cons p ps ih =>
      rw [List.map_cons, List.filterMap_cons]
      obtain ⟨k, size, owner⟩ := p
      cases owner with
      | none => exact (congrArg _ (List.filter_cons_of_neg Bool.false_ne_true)).trans ih
      | some o =>
          rw [List.filter_cons_of_pos rfl]
          exact congrArg _ ih

/-- An object lies inside the data of its block. -/
theorem objOf_bounds (hpad : ∀ o ∈ p.2.owner, o.padding ≤ p.2.size) (ho : o ∈ objOf m p) :
    p.2.free = false ∧ p.1 + headerSize ≤ o.ptr ∧ o.stop = p.1 + headerSize + p.2.size := by
  obtain ⟨w, hw, rfl⟩ := Option.map_eq_some_iff.mp ho
  have hle := hpad w hw
  refine ⟨?_, Nat.le_add_right _ _, ?_⟩
  · rw [Blk.free, hw]
    rfl
  · rw [Obj.stop, length_read]
    dsimp only
    omega

theorem objOf_congr (hsame : ∀ x, p.1 ≤ x → x < p.1 + p.2.len → m'.byte x = m.byte x) :
    objOf m' p = objOf m p := by
  unfold objOf
  cases howner : p.2.owner with
  | none => rfl
  | some o =>
      have hlen : p.2.len = headerSize + p.2.size + footerSize := rfl
      have hread := @read_congr m m' (p.1 + headerSize + o.padding) (p.2.size - o.padding)
        fun x hx hx' => hsame x (by omega) (by omega)
      rw [Option.map_some, Option.map_some, hread]

/-- Blocks that nothing has been written to keep their objects. -/
theorem objsOf_congr (hsame : ∀ p ∈ starts Blk.len a bs, p.2.free = false →
    ∀ x, p.1 ≤ x → x < p.1 + p.2.len → m'.byte x = m.byte x) :
    objsOf m' a bs = objsOf m a bs := by
  apply List.filterMap_congr
  intro p hp
  cases hfree : p.2.free with
  | true =>
      unfold objOf
      rw [Blk.free_iff.mp hfree]
      rfl
  | false => exact objOf_congr (hsame p hp hfree)

theorem objsOf_within (hwithin : Mem.Within lo hi m m')
    (hout : stop Blk.len a bs ≤ lo ∨ hi ≤ a) : objsOf m' a bs = objsOf m a bs := by
  apply objsOf_congr
  intro p hp _ x hx hx'
  obtain ⟨hlo, hhi⟩ := Tiles.bounds_of_mem hp
  exact hwithin x (by omega)

theorem spared_of_allocated {q : Nat × Blk} (hq : q ∈ starts Blk.len a bs)
    (hfree : q.2.free = false) (hlo : q.1 ≤ x) (hhi : x < q.1 + q.2.len) : Spared a bs x := by
  intro p hp hpfree
  by_contra hcovers
  have heq := @Tiles.eq_of_covers Blk Blk.len a x bs p q hp hq (by omega) ⟨hlo, hhi⟩
  rw [heq, hfree] at hpfree
  cases hpfree

/-- Joining free blocks leaves the objects. -/
theorem objsOf_joinAll : objsOf m a (joinAll Blk.free Blk.join bs) = objsOf m a bs := by
  have hallocated : ∀ cs, objsOf m a cs =
      ((starts Blk.len a cs).filter fun p => !p.2.free).filterMap (objOf m) := by
    intro cs
    rw [List.filterMap_filter]
    apply List.filterMap_congr
    intro p _
    cases hfree : p.2.free with
    | true =>
        rw [objOf, Blk.free_iff.mp hfree]
        rfl
    | false => rfl
  cases bs with
  | nil => rfl
  | cons b bs =>
      rw [hallocated, hallocated]
      exact congrArg _ (Tiles.kept_joinFrom len_join free_join)

/-- Objects lie in the order of the blocks, each before the next ones. -/
theorem objsOf_pairwise (hpad : ∀ b ∈ bs, ∀ o ∈ b.owner, o.padding ≤ b.size) :
    (objsOf m a bs).Pairwise fun o o' => o.stop ≤ o'.ptr := by
  apply List.pairwise_filterMap.mpr
  refine Tiles.pairwise_starts.imp_of_mem ?_
  intro p q hp hq hpq o ho o' ho'
  obtain ⟨-, -, hstop⟩ := objOf_bounds (hpad p.2 (Tiles.snd_mem hp)) ho
  obtain ⟨-, hptr, -⟩ := objOf_bounds (hpad q.2 (Tiles.snd_mem hq)) ho'
  have hlen : p.2.len = headerSize + p.2.size + footerSize := rfl
  omega

theorem objsOf_bounds (hpad : ∀ b ∈ bs, ∀ o ∈ b.owner, o.padding ≤ b.size)
    (ho : o ∈ objsOf m a bs) : a ≤ o.ptr ∧ o.stop ≤ stop Blk.len a bs := by
  obtain ⟨p, hp, ho⟩ := List.mem_filterMap.mp ho
  obtain ⟨-, hptr, hstop⟩ := objOf_bounds (hpad p.2 (Tiles.snd_mem hp)) ho
  obtain ⟨hlo, hhi⟩ := Tiles.bounds_of_mem hp
  have hlen : p.2.len = headerSize + p.2.size + footerSize := rfl
  omega

end Objects

end SlowBus.Engine
