import SlowBus.Engine.Objects
import SlowBus.Lib.Steps

/-!
# Runs of the heap

The calls on a heap, and the stores of its users into their objects, refine a store of objects
that lie apart: an allocation adds one that is large enough and aligned, a release takes away
the one that has the index, and nothing else changes a byte of an object.
-/

namespace SlowBus.Engine

open Bus (Byte)
open Runs (Steps)
open Tiles (starts stop joinFrom joinAll Settled)

/-! ## The store of objects -/

/-- A call that returns, with the index that an allocation gives; or a store of a user. -/
inductive HeapEvent where
  | alloc (node sizeBytes alignment idx : Nat)
  | free (idx : Nat)
  | store (x : Nat) (v : Byte)

def Obj.Apart (o p : Obj) : Prop := o.stop ≤ p.ptr ∨ p.stop ≤ o.ptr

/-- What is promised of a heap: objects in a pool at an address. -/
inductive StoreStep (base poolSize : Nat) : List Obj → HeapEvent → List Obj → Prop
  | alloc {os os' : List Obj} {o : Obj} {sizeBytes alignment : Nat}
      (hsize : sizeBytes ≤ o.data.length) (haligned : alignment ∣ base + o.ptr)
      (hstop : o.stop ≤ poolSize) (hapart : ∀ p ∈ os ++ os', o.Apart p) :
      StoreStep base poolSize (os ++ os') (.alloc o.node sizeBytes alignment o.ptr)
        (os ++ o :: os')
  | free {os os' : List Obj} {o : Obj} {idx : Nat} (hhas : o.Has idx) :
      StoreStep base poolSize (os ++ o :: os') (.free idx) (os ++ os')
  | store {os os' : List Obj} {o : Obj} {x : Nat} {v : Byte} (hhas : o.Has x) :
      StoreStep base poolSize (os ++ o :: os') (.store x v)
        (os ++ { o with data := o.data.set (x - o.ptr) v } :: os')

/-! ## The heap -/

/-- What the callers keep to: sizes that 16 bits can count, and stores into objects only. -/
def HeapEvent.Proper (h : CflHeap) : HeapEvent → Prop
  | .alloc node sizeBytes alignment _ => node < 2 ^ 16 ∧ NoWrap sizeBytes alignment
  | .free _ => True
  | .store x _ => ∃ o ∈ h.objects, o.Has x

def HeapEvent.Returns (h : CflHeap) : HeapEvent → CflHeap → Prop
  | .alloc node sizeBytes alignment idx, h' =>
      h.arenaAllocAligned node sizeBytes alignment = .ok (idx, h')
  | .free idx, h' => h.free idx = .ok h'
  | .store x v, h' => h' = { h with mem := h.mem.set x v }

def HeapStep (h : CflHeap) (e : HeapEvent) (h' : CflHeap) : Prop := e.Proper h ∧ e.Returns h h'

/-- The pool is tiled and the statistics are true. -/
def CflHeap.Sound (base poolSize : Nat) (h : CflHeap) : Prop :=
  h.base = base ∧ h.poolSize = poolSize ∧ ∃ bs, Tiled h bs ∧ Counted h.stats bs

section Runs

variable {h h' : CflHeap} {base poolSize : Nat} {bs pre post : List Blk} {b : Blk}
  {node sizeBytes alignment idx size x : Nat} {v : Byte} {o : Obj}

theorem init_sound {bufferSize : Nat} (hlt : bufferSize < 2 ^ 16)
    (hinit : CflHeap.init base bufferSize = .ok h) : h.Sound base bufferSize ∧ h.objects = [] := by
  unfold CflHeap.init headerSize minBlockSize footerSize at hinit
  split at hinit
  next => cases hinit
  next hmin =>
    cases hinit
    obtain ⟨ht, hcounted⟩ := @reset_tiled { base, poolSize := bufferSize, mem := .zero } hlt
      (Nat.not_lt.mp hmin)
    refine ⟨⟨rfl, rfl, _, ht, hcounted⟩, ?_⟩
    rw [ht.objects]
    rfl

theorem alloc_proper (halloc : h.arenaAllocAligned node sizeBytes alignment = .ok (idx, h')) :
    sizeBytes ≠ 0 ∧ isPowerOf2 alignment = true := by
  unfold CflHeap.arenaAllocAligned at halloc
  split at halloc
  next => cases halloc
  next =>
    split at halloc
    next => cases halloc
    next hpos =>
      split at halloc
      next => cases halloc
      next halign =>
        refine ⟨hpos, ?_⟩
        by_contra hpow
        exact halign (by rw [eq_false_of_ne_true hpow]; simp)

/-- An allocation adds its object where the free block was. -/
theorem alloc_step (ht : Tiled h bs) (hproper : node < 2 ^ 16 ∧ NoWrap sizeBytes alignment)
    (halloc : h.arenaAllocAligned node sizeBytes alignment = .ok (idx, h')) :
    h'.Sound h.base h.poolSize ∧
      StoreStep h.base h.poolSize h.objects (.alloc node sizeBytes alignment idx) h'.objects := by
  obtain ⟨hnode, hwrap⟩ := hproper
  obtain ⟨hpos, halign⟩ := alloc_proper halloc
  rcases alloc_cases ht hnode hpos halign hwrap with
    ⟨-, herror⟩ | ⟨pre, size, post, padding, idx, h', rfl, hfits, hok, hnew⟩
  · cases herror.symm.trans halloc
  cases hok.symm.trans halloc
  refine ⟨⟨hnew.base, hnew.poolSize, _, hnew.tiled, hnew.counted⟩, ?_⟩
  obtain ⟨s, rest, htaken, hs, hrest⟩ := @takenBlocks_cases size node padding
    (padding + requestSize sizeBytes) hnew.room
  generalize hk : stop Blk.len 0 pre = k at hfits
  -- the new object, between those of the blocks before and behind
  let o : Obj :=
    { ptr := k + headerSize + padding
      node
      data := h'.mem.read (k + headerSize + padding) (s - padding) }
  have hbefore : h.objects = objsOf h.mem 0 pre ++
      objsOf h.mem (k + (headerSize + size + footerSize)) post := by
    rw [ht.objects, objsOf_append, objsOf_cons, hk]
    rfl
  -- a block of the rest, if there is one, holds no object
  have hafter : h'.objects = objsOf h.mem 0 pre ++
      o :: objsOf h.mem (k + (headerSize + size + footerSize)) post := by
    have hwithin := hnew.within
    have hstop := @stop_takenBlocks k size padding (padding + requestSize sizeBytes) node hnew.room
    have hrest : objsOf h'.mem (k + Blk.len { size := s, owner := some ⟨node, padding⟩ }) rest =
        [] := by
      apply objsOf_free
      rcases hrest with rfl | ⟨r, rfl⟩
      · exact nofun
      · intro b hb
        cases List.mem_singleton.mp hb
        rfl
    rw [htaken] at hstop
    rw [hk] at hwithin
    have hpost : objsOf h'.mem (stop Blk.len k [{ size }]) post =
        objsOf h.mem (k + (headerSize + size + footerSize)) post :=
      objsOf_within hwithin (Or.inr le_rfl)
    rw [hnew.tiled.objects, htaken, objsOf_append, objsOf_append, objsOf_cons, hk, hrest, hstop,
      objsOf_within hwithin (Or.inl hk.le), hpost]
    rfl
  have hpairs := @objsOf_pairwise h'.mem 0 _ hnew.tiled.padding
  have hbounds := fun o => @objsOf_bounds h'.mem 0 _ o hnew.tiled.padding
  rw [← hnew.tiled.objects, hafter] at hpairs hbounds
  have hidx : idx = o.ptr := by
    rw [hnew.index, hk]
  rw [hbefore, hafter, hidx]
  refine StoreStep.alloc ?_ (hidx ▸ hnew.aligned) ?_ fun p hp => ?_
  · have hsize := le_requestSize hwrap.size
    have hlen : o.data.length = s - padding := length_read
    omega
  · have hstop := (hbounds o (List.mem_append_right _ List.mem_cons_self)).2
    rwa [hnew.tiled.stop_eq, hnew.poolSize] at hstop
  · obtain ⟨-, hlater, hearlier⟩ := List.pairwise_append.mp hpairs
    rcases List.mem_append.mp hp with hp | hp
    · exact Or.inr (hearlier p hp o List.mem_cons_self)
    · exact Or.inl ((List.pairwise_cons.mp hlater).1 p hp)

/-- The objects around the one of an allocated block. -/
theorem Tiled.objects_split (ht : Tiled h (pre ++ b :: post)) (hb : b.free = false) :
    ∃ o, objOf h.mem (stop Blk.len 0 pre, b) = some o ∧ h.objects =
      objsOf h.mem 0 pre ++ o :: objsOf h.mem (stop Blk.len 0 pre + b.len) post := by
  rw [ht.objects, objsOf_append, objsOf_cons]
  cases howner : b.owner with
  | none => cases (Blk.free_iff.mpr howner).symm.trans hb
  | some w =>
      rw [objOf, howner]
      exact ⟨_, rfl, rfl⟩

/-- A release takes its object away. -/
theorem free_step (ht : Tiled h bs) (hfree : h.free idx = .ok h') :
    h'.Sound h.base h.poolSize ∧
      StoreStep h.base h.poolSize h.objects (.free idx) h'.objects := by
  rcases free_cases ht idx with ⟨-, herror⟩ | ⟨-, -, herror⟩ |
    ⟨pre, b, post, rfl, hcovers, ⟨-, herror⟩ | ⟨hb, h', hok, hbase, hpool, ht', hcounted, hsame⟩⟩
  · cases herror.symm.trans hfree
  · cases herror.symm.trans hfree
  · cases herror.symm.trans hfree
  cases hok.symm.trans hfree
  refine ⟨⟨hbase, hpool, _, ht', hcounted⟩, ?_⟩
  obtain ⟨o, ho, hbefore⟩ := ht.objects_split hb
  have hafter : h'.objects =
      objsOf h.mem 0 pre ++ objsOf h.mem (stop Blk.len 0 pre + b.len) post := by
    rw [ht'.objects, releasedBlocks, objsOf_joinAll]
    have hkept : objsOf h'.mem 0 (pre ++ { size := b.size } :: post) =
        objsOf h.mem 0 (pre ++ { size := b.size } :: post) :=
      objsOf_congr fun p hp hpfree x hlo hhi => hsame x (spared_of_allocated hp hpfree hlo hhi)
    rw [hkept, objsOf_append, objsOf_cons]
    rfl
  obtain ⟨-, -, hstop⟩ := objOf_bounds (ht.padding b (by simp)) ho
  have hptr : o.ptr = stop Blk.len 0 pre + headerSize + b.owner.elim 0 Owner.padding := by
    obtain ⟨w, hw, rfl⟩ := Option.map_eq_some_iff.mp ho
    rw [hw]
    rfl
  rw [hbefore, hafter]
  exact StoreStep.free ⟨hptr ▸ hcovers.1, hstop ▸ hcovers.2⟩

/-- A store into an object changes that byte of it. -/
theorem store_step (ht : Tiled h bs) (hcounted : Counted h.stats bs)
    (hproper : ∃ o ∈ h.objects, o.Has x) :
    CflHeap.Sound h.base h.poolSize { h with mem := h.mem.set x v } ∧
      StoreStep h.base h.poolSize h.objects (.store x v)
        (CflHeap.objects { h with mem := h.mem.set x v }) := by
  obtain ⟨o, ho, hhas⟩ := hproper
  rw [ht.objects] at ho
  obtain ⟨⟨k, b⟩, hp, ho⟩ := List.mem_filterMap.mp ho
  obtain ⟨pre, post, rfl, rfl⟩ := Tiles.exists_of_mem_starts hp
  obtain ⟨hb, hptr, hstop⟩ := objOf_bounds (ht.padding b (by simp)) ho
  dsimp only at hb hptr hstop
  have hlo : stop Blk.len 0 pre + headerSize ≤ x := hptr.trans hhas.1
  have hhi : x < stop Blk.len 0 pre + headerSize + b.size := hstop ▸ hhas.2
  have hlen : b.len = headerSize + b.size + footerSize := rfl
  have hwithin : Mem.Within x (x + 1) h.mem (h.mem.set x v) := within_set
  have hbefore : stop Blk.len 0 pre ≤ x := by omega
  have hbehind : x + 1 ≤ stop Blk.len 0 pre + b.len := by omega
  have ht' : Tiled { h with mem := h.mem.set x v } (pre ++ b :: post) := by
    obtain ⟨hpre, hrest⟩ := laid_append.mp ht.laid
    obtain ⟨hheader, hpost⟩ := laid_cons.mp hrest
    refine ⟨ht.initialized, ht.pool_lt, ht.stop_eq, ht.ne, ?_, ht.settled, ht.padding⟩
    refine laid_append.mpr ⟨hpre.congr hwithin (Or.inl hbefore), laid_cons.mpr ⟨?_, ?_⟩⟩
    · exact hheader.set hlo hhi
    · exact hpost.congr hwithin (Or.inr hbehind)
  refine ⟨⟨rfl, rfl, _, ht', hcounted⟩, ?_⟩
  obtain ⟨o₁, ho₁, hobjects⟩ := ht.objects_split hb
  cases ho₁.symm.trans ho
  obtain ⟨o', ho', hobjects'⟩ := ht'.objects_split hb
  have hset : o' = { o with data := o.data.set (x - o.ptr) v } := by
    obtain ⟨w, hw, rfl⟩ := Option.map_eq_some_iff.mp ho
    rw [objOf, hw] at ho'
    dsimp only [Option.map_some] at ho'
    rw [read_set hhas.1] at ho'
    exact (Option.some.inj ho').symm
  rw [hobjects, hobjects', hset, objsOf_within hwithin (Or.inl hbefore),
    objsOf_within hwithin (Or.inr hbehind)]
  exact StoreStep.store hhas

/-! ## Runs -/

theorem heap_step {e : HeapEvent} (hs : h.Sound base poolSize) (hstep : HeapStep h e h') :
    h'.Sound base poolSize ∧ StoreStep base poolSize h.objects e h'.objects := by
  obtain ⟨rfl, rfl, bs, ht, hcounted⟩ := hs
  obtain ⟨hproper, hreturns⟩ := hstep
  cases e with
  | alloc node sizeBytes alignment idx => exact alloc_step ht hproper hreturns
  | free idx => exact free_step ht hreturns
  | store x v =>
      cases hreturns
      exact store_step ht hcounted hproper

theorem heap_run {es : List HeapEvent} (hrun : Steps HeapStep h es h')
    (hs : h.Sound base poolSize) :
    h'.Sound base poolSize ∧ Steps (StoreStep base poolSize) h.objects es h'.objects := by
  apply hrun.refines (I := CflHeap.Sound base poolSize) (f := CflHeap.objects) _ hs
  intro s e t hs hstep
  exact heap_step hs hstep

/-- The event releases the object or stores into it. -/
def HeapEvent.Touches (o : Obj) : HeapEvent → Prop
  | .alloc _ _ _ _ => False
  | .free idx => o.Has idx
  | .store x _ => o.Has x

theorem StoreStep.keeps {os os' : List Obj} {e : HeapEvent}
    (hstep : StoreStep base poolSize os e os') (hquiet : ¬e.Touches o) (ho : o ∈ os) :
    o ∈ os' := by
  cases hstep with
  | alloc =>
      rcases List.mem_append.mp ho with ho | ho
      · exact List.mem_append_left _ ho
      · exact List.mem_append_right _ (List.mem_cons_of_mem _ ho)
  | free hhas =>
      rcases List.mem_append.mp ho with ho | ho
      · exact List.mem_append_left _ ho
      · rcases List.mem_cons.mp ho with rfl | ho
        · exact absurd hhas hquiet
        · exact List.mem_append_right _ ho
  | store hhas =>
      rcases List.mem_append.mp ho with ho | ho
      · exact List.mem_append_left _ ho
      · rcases List.mem_cons.mp ho with rfl | ho
        · exact absurd hhas hquiet
        · exact List.mem_append_right _ (List.mem_cons_of_mem _ ho)

theorem CflHeap.Sound.validate (hs : h.Sound base poolSize) : h.validate = true := by
  obtain ⟨rfl, rfl, bs, ht, -⟩ := hs
  have hloop : ∀ {a : Nat} {cs : List Blk}, Laid h.mem a cs → stop Blk.len a cs ≤ h.poolSize →
      h.validateFrom a ((starts Blk.len a cs).map Prod.fst) = true := by
    intro a cs hlaid hstop
    induction cs generalizing a with
    | nil => rfl
    | cons c cs ih =>
        obtain ⟨hc, hrest⟩ := laid_cons.mp hlaid
        have hle : a + c.len ≤ stop Blk.len (a + c.len) cs := Tiles.le_stop
        rw [Tiles.stop_cons] at hstop
        have hpool := ht.pool_lt
        have hlen : c.len = headerSize + c.size + footerSize := rfl
        have htotal : (a + (headerSize + c.size + footerSize)) % 2 ^ 16 = a + c.len :=
          Nat.mod_eq_of_lt (by omega)
        rw [Tiles.starts_cons, List.map_cons, CflHeap.validateFrom, hc.validateBlock, hc.size]
        dsimp only
        rw [htotal, if_neg (by decide), if_neg (by omega)]
        exact ih hrest hstop
  rw [CflHeap.validate, ht.initialized, ht.blocksFrom, Bool.true_and]
  exact hloop ht.laid ht.stop_eq.le

/-- From the start of a heap on the calls that return and the stores into objects refine a store
of objects that lie apart in the pool. An object stays as it is until it is released or stored
into, whatever else is called. -/
theorem heap_refines_store {bufferSize : Nat} {es : List HeapEvent} (hlt : bufferSize < 2 ^ 16)
    (hinit : CflHeap.init base bufferSize = .ok h) (hrun : Steps HeapStep h es h') :
    Steps (StoreStep base bufferSize) [] es h'.objects ∧ h'.validate = true ∧
      h'.objects.Pairwise (fun o p => o.stop ≤ p.ptr) ∧
      (∀ o ∈ h'.objects, o.stop ≤ bufferSize) ∧
      ∀ es' h'' o, Steps HeapStep h' es' h'' → o ∈ h'.objects →
        (∀ e ∈ es', ¬e.Touches o) → o ∈ h''.objects := by
  obtain ⟨hs, hempty⟩ := init_sound hlt hinit
  obtain ⟨hs', hsteps⟩ := heap_run hrun hs
  rw [hempty] at hsteps
  refine ⟨hsteps, hs'.validate, ?_, fun o ho => ?_, fun es' h'' o hmore ho hquiet => ?_⟩
  · obtain ⟨-, -, bs, ht, -⟩ := hs'
    rw [ht.objects]
    exact objsOf_pairwise ht.padding
  · obtain ⟨-, hpool, bs, ht, -⟩ := hs'
    rw [ht.objects] at ho
    have hstop := (objsOf_bounds ht.padding ho).2
    rwa [ht.stop_eq, hpool] at hstop
  · obtain ⟨-, hsteps'⟩ := heap_run hmore hs'
    apply hsteps'.preserves_of (P := fun os => o ∈ os) (C := fun e => ¬e.Touches o) _ hquiet ho
    intro os e os' hquiet ho hstep
    exact hstep.keeps hquiet ho

/-- The heap after an event, if the event is proper and returns. -/
def HeapEvent.after (e : HeapEvent) (h : CflHeap) : Option CflHeap :=
  match e with
  | .alloc node sizeBytes alignment idx =>
      match h.arenaAllocAligned node sizeBytes alignment with
      | .ok (i, h') =>
          if i = idx ∧ node < 2 ^ 16 ∧ sizeBytes ≤ 65532 ∧
              requestSize sizeBytes + alignment ≤ 2 ^ 16 then some h'
          else none
      | .error _ => none
  | .free idx => (h.free idx).toOption
  | .store x v =>
      if h.objects.any (fun o => o.Has x) then some { h with mem := h.mem.set x v } else none

/-- The heap after a list of events. -/
def CflHeap.play : CflHeap → List HeapEvent → Option CflHeap
  | h, [] => some h
  | h, e :: es => (e.after h).bind (·.play es)

theorem heapStep_after {e : HeapEvent} (he : e.after h = some h') : HeapStep h e h' := by
  cases e with
  | alloc node sizeBytes alignment idx =>
      unfold HeapEvent.after at he
      dsimp only at he
      split at he
      next i h₁ hok =>
        split at he
        next hproper =>
          cases he
          obtain ⟨rfl, hnode, hsize, hneeded⟩ := hproper
          exact ⟨⟨hnode, hsize, hneeded⟩, hok⟩
        next => cases he
      next => cases he
  | free idx =>
      refine ⟨trivial, ?_⟩
      show h.free idx = .ok h'
      unfold HeapEvent.after at he
      dsimp only at he
      generalize h.free idx = result at he ⊢
      cases result with
      | ok h₁ => cases he; rfl
      | error fault => cases he
  | store x v =>
      unfold HeapEvent.after at he
      dsimp only at he
      split at he
      next hany =>
        cases he
        obtain ⟨o, ho, hhas⟩ := List.any_eq_true.mp hany
        exact ⟨⟨o, ho, of_decide_eq_true hhas⟩, rfl⟩
      next => cases he

theorem steps_play {es : List HeapEvent} (hes : h.play es = some h') :
    Steps HeapStep h es h' := by
  induction es generalizing h with
  | nil => exact Option.some.inj hes ▸ .refl h
  | cons e es ih =>
      obtain ⟨h₁, hfirst, hrest⟩ := Option.bind_eq_some_iff.mp hes
      exact .head (heapStep_after hfirst) (ih hrest)

/-- A pool of 100 bytes. -/
def hundred : CflHeap := .reset { base := 0, poolSize := 100, mem := .zero }

/-- Two objects of 8 bytes, a byte of the second is stored and the first is released. -/
def twoObjects : List HeapEvent :=
  [.alloc nodeIdNone 8 4 12, .alloc nodeIdNone 8 4 32, .store 33 0x5A, .free 12]

theorem heap_refines_store_two : ∃ h', Steps HeapStep hundred twoObjects h' ∧
    Steps (StoreStep 0 100) [] twoObjects h'.objects ∧ h'.validate = true ∧
    h'.objects = [{ ptr := 32, node := nodeIdNone, data := [0, 0x5A, 0, 0, 0, 0, 0, 0] }] := by
  let h' := (hundred.play twoObjects).get (by decide +kernel)
  have hrun : Steps HeapStep hundred twoObjects h' := steps_play (Option.some_get _).symm
  have hinit : CflHeap.init 0 100 = .ok hundred := rfl
  obtain ⟨hsteps, hvalid, -⟩ := heap_refines_store (by decide) hinit hrun
  exact ⟨h', hrun, hsteps, hvalid, by decide +kernel⟩

end Runs

end SlowBus.Engine
