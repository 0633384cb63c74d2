import SlowBus.Bus.Node

/-!
# The outbound queue is first in, first out

The order of the queue is not stored: it is that of the slots, because the slots in
use form a prefix. A call keeps it so between windows, and a window drains it.
-/

namespace SlowBus.Bus

open Runs (run Along)

/-! ## Slots -/

/-- The slots in use form a prefix. -/
def Packed (slots : List TxqSlot) : Prop :=
  slots.Pairwise fun s t => t.inUse = true → s.inUse = true

/-- The frames in use, in slot order. -/
def queuedFrames (slots : List TxqSlot) : List Frame :=
  (slots.filter (·.inUse)).map (·.frame)

section Slots

variable {fill : Frame → Frame} {slots slots' : List TxqSlot} {s : TxqSlot}

@[simp] theorem queuedFrames_cons : queuedFrames (s :: slots) =
    if s.inUse then s.frame :: queuedFrames slots else queuedFrames slots := by
  unfold queuedFrames
  rw [List.filter_cons]
  split <;> simp

@[simp] theorem queuedFrames_nil : queuedFrames [] = [] := rfl

theorem queuedFrames_free (h : ∀ s ∈ slots, s.inUse = false) : queuedFrames slots = [] := by
  rw [queuedFrames, List.filter_eq_nil_iff.mpr (by simpa using h), List.map_nil]

theorem packed_free (h : ∀ s ∈ slots, s.inUse = false) : Packed slots := by
  apply List.Pairwise.imp_of_mem _ (List.pairwise_of_forall (R := fun _ _ => True) (by simp))
  intro s t _ ht _ hinUse
  rw [h t ht] at hinUse
  cases hinUse

/-- Filling the first free slot adds its frame behind all others. -/
theorem storeFirstFree_packed (hpacked : Packed slots)
    (h : storeFirstFree fill slots = some slots') :
    Packed slots' ∧ ∃ old, queuedFrames slots' = queuedFrames slots ++ [fill old] := by
  induction slots generalizing slots' with
  | nil => cases h
  | cons s rest ih =>
      obtain ⟨hs, hrest⟩ := List.pairwise_cons.mp hpacked
      unfold storeFirstFree at h
      split at h
      next hinUse =>
        obtain ⟨rest', hrest', rfl⟩ := Option.map_eq_some_iff.mp h
        obtain ⟨hpacked', old, hframes⟩ := ih hrest hrest'
        refine ⟨List.pairwise_cons.mpr ⟨fun _ _ _ => hinUse, hpacked'⟩, old, ?_⟩
        simp only [queuedFrames_cons, hinUse, if_true, hframes, List.cons_append]
      next hfree =>
        cases h
        have hempty : ∀ t ∈ rest, t.inUse = false := by
          intro t ht
          rw [← Bool.not_eq_true]
          exact fun hinUse => hfree (hs t ht hinUse)
        refine ⟨List.pairwise_cons.mpr ⟨fun _ _ _ => rfl, packed_free hempty⟩, s.frame, ?_⟩
        simp only [queuedFrames_cons, hfree, if_true, queuedFrames_free hempty, List.nil_append,
          Bool.false_eq_true, if_false]

theorem storeFirstFree_mem (h : storeFirstFree fill slots = some slots') (hs : s ∈ slots') :
    s ∈ slots ∨ ∃ old, s.frame = fill old := by
  induction slots generalizing slots' with
  | nil => cases h
  | cons t rest ih =>
      unfold storeFirstFree at h
      split at h
      next =>
        obtain ⟨rest', hrest', rfl⟩ := Option.map_eq_some_iff.mp h
        rcases List.mem_cons.mp hs with rfl | hs
        · exact Or.inl List.mem_cons_self
        · exact (ih hrest' hs).imp_left (List.mem_cons_of_mem _)
      next =>
        cases h
        rcases List.mem_cons.mp hs with rfl | hs
        · exact Or.inr ⟨t.frame, rfl⟩
        · exact Or.inl (List.mem_cons_of_mem _ hs)

theorem storeFirstFree_length (h : storeFirstFree fill slots = some slots') :
    slots'.length = slots.length := by
  induction slots generalizing slots' with
  | nil => cases h
  | cons s rest ih =>
      unfold storeFirstFree at h
      split at h
      next =>
        obtain ⟨rest', hrest', rfl⟩ := Option.map_eq_some_iff.mp h
        rw [List.length_cons, List.length_cons, ih hrest']
      next =>
        cases h
        rfl

/-- The slot looked at is the first of those still to be drained. -/
theorem drop_slot {i : Nat} (h : slots[i]? = some s) :
    queuedFrames (slots.drop i) =
      if s.inUse then s.frame :: queuedFrames (slots.drop (i + 1))
      else queuedFrames (slots.drop (i + 1)) := by
  obtain ⟨hi, rfl⟩ := List.getElem?_eq_some_iff.mp h
  rw [List.drop_eq_getElem_cons hi, queuedFrames_cons]

end Slots

/-! ## The frame of a call -/

theorem encode_message {f : Frame} (h : f.len ≤ busPayloadMax) :
    busFrameEncode f = f.message.words := by
  rw [busFrameEncode_eq h, Message.words, crc_message]
  rfl

theorem encode_controlFrame (src type : Byte) :
    busFrameEncode (controlFrame src type) = (controlFrame src type).message.words :=
  encode_message (by show (0 : Byte) ≤ busPayloadMax; decide)

theorem message_fill {c : QueueCall} (h : c.len ≤ busPayloadMax) (myAddr : Byte) (old : Frame) :
    (c.fill myAddr old).message = c.message myAddr := by
  have hlen : c.len.toNat ≤ 240 := h
  have hbody : (c.fill myAddr old).body = (List.range c.len.toNat).map c.payload := by
    apply List.ext_getElem
    · simp [Frame.body, QueueCall.fill, hlen]
    · intro i hi hi'
      have hlt : i < c.len.toNat := by simpa using hi'
      simp [Frame.body, QueueCall.fill, hlt]
  rw [Frame.message, hbody]
  rfl

/-! ## What is due after a longer log -/

section Log

variable {myAddr : Byte} {log : List Entry} {e : Entry}

@[simp] theorem due_concat : due myAddr (log ++ [e]) = (due myAddr log).after myAddr e := by
  simp [due]

theorem obeys_nil : Obeys myAddr [] := by
  intro before e after h
  simp at h

theorem obeys_concat (h : Obeys myAddr log) (he : (due myAddr log).Allows e) :
    Obeys myAddr (log ++ [e]) := by
  intro before e' after heq
  rcases List.eq_nil_or_concat after with rfl | ⟨after, last, rfl⟩
  · obtain ⟨rfl, hlast⟩ := List.append_inj' heq rfl
    cases hlast
    exact he
  · have hsplit : log ++ [e] = (before ++ e' :: after) ++ [last] := by simpa using heq
    obtain ⟨hlog, _⟩ := List.append_inj' hsplit rfl
    exact h before e' after hlog

theorem obeys_init (h : Obeys myAddr (log ++ [e])) :
    Obeys myAddr log ∧ (due myAddr log).Allows e :=
  ⟨fun before e' after heq => h before e' (after ++ [e]) (by simp [heq]), h log e [] rfl⟩

/-- What a frame makes due leaves what is to be shipped as it is. -/
theorem toShip_granted {d : Due} (h : d.now = []) (m : Message) :
    (d.granted myAddr m).toShip = d.toShip := by
  simp only [Due.granted, Due.toShip]
  split
  next => simp [h, List.filter_append, List.filter_map, Function.comp_def]
  next =>
    split
    next => simp [h]
    next => rfl

/-- In a log that obeys, the frames accepted are those shipped and those still to
be shipped, in order. -/
theorem shipped_in_order (h : Obeys myAddr log) :
    (log.filterMap Entry.accepts).map Message.words =
      log.filterMap Entry.ships ++ (due myAddr log).toShip := by
  induction log using List.reverseRecOn with
  | nil => rfl
  | append_singleton log e ih =>
      obtain ⟨hlog, he⟩ := obeys_init h
      have hrest := ih hlog
      rw [due_concat, List.filterMap_append, List.filterMap_append, List.map_append, hrest]
      cases e with
      | accepted m => simp [Entry.accepts, Entry.ships, Due.after, Due.toShip]
      | received m =>
          simp [Entry.accepts, Entry.ships, Due.after, toShip_granted he, List.filterMap_cons]
      | sent origin words =>
          obtain ⟨rest, hnow⟩ := List.head?_eq_some_iff.mp he
          cases origin <;>
            simp [Entry.accepts, Entry.ships, Due.after, Due.toShip, hnow, List.filterMap_cons]

end Log

/-! ## The queue holds what is due -/

/-- Between windows the slots hold what waits for the next POLL. -/
structure Node.Waiting (n : Node) (myAddr : Byte) (now : List (Origin × List Word)) : Prop where
  addr : n.myAddr = myAddr
  idle : n.window = none
  length : n.txq.length = nodeTxqLen
  packed : Packed n.txq
  fits : ∀ s ∈ n.txq, s.inUse = true → s.frame.len ≤ busPayloadMax
  obeys : Obeys myAddr n.log
  now_eq : (due myAddr n.log).now = now
  later_eq : (due myAddr n.log).later = (queuedFrames n.txq).map Frame.message

/-- The rest of a window: the slots from `i` on and the terminator. -/
def windowFrom (myAddr : Byte) (txq : List TxqSlot) (i : Nat) : List (Origin × List Word) :=
  (queuedFrames (txq.drop i)).map (fun f => (.queued, f.message.words)) ++
    [(.terminator, (controlFrame myAddr busFtNoMessage).message.words)]

/-- In a window the slots before `i` are free and the rest is due now. -/
structure Node.Draining (n : Node) (myAddr : Byte) (i : Nat) : Prop where
  addr : n.myAddr = myAddr
  busy : n.window = some i
  length : n.txq.length = nodeTxqLen
  inside : i ≤ nodeTxqLen
  drained : ∀ s ∈ n.txq.take i, s.inUse = false
  fits : ∀ s ∈ n.txq, s.inUse = true → s.frame.len ≤ busPayloadMax
  obeys : Obeys myAddr n.log
  now_eq : (due myAddr n.log).now = windowFrom myAddr n.txq i
  later_eq : (due myAddr n.log).later = []

section Steps

variable {n : Node} {myAddr : Byte} {now : List (Origin × List Word)}

theorem waiting_init (memory : Vector Frame nodeTxqLen) (acc : Frame) (myAddr : Byte) :
    (Node.init memory acc myAddr).Waiting myAddr [] := by
  have hfree : ∀ s ∈ (Node.init memory acc myAddr).txq, s.inUse = false := by
    simp [Node.init]
  refine ⟨rfl, rfl, by simp [Node.init], packed_free hfree, ?_, obeys_nil, rfl, ?_⟩
  · intro s hs hinUse
    rw [hfree s hs] at hinUse
    cases hinUse
  · rw [queuedFrames_free hfree]
    rfl

/-- A call between windows adds its frame to what waits. -/
theorem Node.Waiting.queue (h : n.Waiting myAddr now) (c : QueueCall) :
    (n.queue c).Waiting myAddr now := by
  unfold Node.queue
  split
  next => exact h
  next hlen =>
    have hroom : c.len ≤ busPayloadMax := BitVec.not_lt.mp hlen
    split
    next => exact h
    next txq hstore =>
      obtain ⟨hpacked, old, hframes⟩ := storeFirstFree_packed h.packed hstore
      refine ⟨h.addr, h.idle, (storeFirstFree_length hstore).trans h.length, hpacked, ?_,
        obeys_concat h.obeys trivial, ?_, ?_⟩
      · intro s hs hinUse
        rcases storeFirstFree_mem hstore hs with hold | ⟨old, hnew⟩
        · exact h.fits s hold hinUse
        · rw [hnew]
          exact hroom
      · rw [due_concat]
        exact h.now_eq
      · rw [due_concat, hframes, List.map_append, List.map_singleton, message_fill hroom,
          ← h.later_eq]
        rfl

theorem Node.Waiting.calls (h : n.Waiting myAddr now) (calls : List QueueCall) :
    (calls.foldl Node.queue n).Waiting myAddr now := by
  induction calls generalizing n with
  | nil => exact h
  | cons c calls ih => exact ih (h.queue c)

theorem queue_myAddr (n : Node) (c : QueueCall) : (n.queue c).myAddr = n.myAddr := by
  unfold Node.queue
  repeat' split
  all_goals rfl

theorem calls_myAddr (n : Node) (calls : List QueueCall) :
    (calls.foldl Node.queue n).myAddr = n.myAddr := by
  induction calls generalizing n with
  | nil => rfl
  | cons c calls ih => exact (ih (n.queue c)).trans (queue_myAddr n c)

/-- An ACK that is due. -/
theorem Node.Waiting.emitAck
    (h : n.Waiting myAddr [(.ack, (controlFrame myAddr busFtAck).message.words)]) :
    n.emitAck.Waiting myAddr [] := by
  refine ⟨h.addr, h.idle, h.length, h.packed, h.fits, obeys_concat h.obeys ?_, ?_, ?_⟩
  · rw [Due.Allows, h.now_eq, encode_controlFrame, h.addr]
    rfl
  · rw [Node.emitAck, due_concat, Due.after, h.now_eq]
    rfl
  · rw [Node.emitAck, due_concat]
    exact h.later_eq

/-- The frame is recorded: what it makes due is due. -/
theorem Node.Waiting.received (h : n.Waiting myAddr []) (m : Message)
    (hgrant : ((due myAddr n.log).granted myAddr m).later = (due myAddr n.log).later) :
    Node.Waiting { n with log := n.log ++ [.received m] } myAddr
      ((due myAddr n.log).granted myAddr m).now := by
  refine ⟨h.addr, h.idle, h.length, h.packed, h.fits, obeys_concat h.obeys h.now_eq, ?_, ?_⟩
  · rw [due_concat]
    rfl
  · rw [due_concat]
    exact hgrant.trans h.later_eq

theorem granted_data (myAddr : Byte) {d : Due} {f : Frame} (h : f.type &&& busFtMask = busFtData) :
    d.granted myAddr f.message =
      if f.src = busAddrMaster ∧ f.dest = myAddr then
        { d with now := [(.ack, (controlFrame myAddr busFtAck).message.words)] }
      else d := by
  have hpoll : busFtData ≠ busFtPoll := by decide
  simp only [Due.granted, Frame.message, h, hpoll, false_and, if_false, true_and]

theorem granted_poll (myAddr : Byte) {d : Due} {f : Frame} (h : f.type &&& busFtMask ≠ busFtData) :
    d.granted myAddr f.message =
      if f.type &&& busFtMask = busFtPoll ∧ f.dest = myAddr then
        { now := d.later.map (fun m => (.queued, m.words)) ++
            [(.terminator, (controlFrame myAddr busFtNoMessage).message.words)]
          later := [] }
      else d := by
  simp only [Due.granted, Frame.message, h, false_and, if_false]

/-- A frame handled: an ACK at most, or a window that drains what waited. -/
theorem Node.Waiting.handle (h : n.Waiting myAddr []) (f : Frame) (calls : List QueueCall) :
    (n.handle f calls).Waiting myAddr [] ∨ (n.handle f calls).Draining myAddr 0 := by
  obtain rfl := h.addr
  have hnow := h.now_eq
  unfold Node.handle
  dsimp only
  split
  next hdata =>
    have hgrant := granted_data n.myAddr (d := due n.myAddr n.log) hdata
    rw [calls_myAddr]
    left
    split
    next hmine =>
      rw [if_pos hmine] at hgrant
      have hrecv := h.received f.message (by rw [hgrant])
      rw [hgrant] at hrecv
      exact (hrecv.calls calls).emitAck
    next hother =>
      rw [if_neg hother] at hgrant
      have hrecv := h.received f.message (by rw [hgrant])
      rw [hgrant, hnow] at hrecv
      exact hrecv.calls calls
  next hdata =>
    have hgrant := granted_poll n.myAddr (d := due n.myAddr n.log) hdata
    split
    next hpoll =>
      right
      rw [if_pos hpoll] at hgrant
      refine ⟨rfl, rfl, h.length, Nat.zero_le _, by simp, h.fits, obeys_concat h.obeys hnow, ?_, ?_⟩
      · rw [due_concat, Due.after, hgrant, h.later_eq]
        simp [windowFrom]
      · rw [due_concat, Due.after, hgrant]
    next hother =>
      left
      rw [if_neg hother] at hgrant
      have hrecv := h.received f.message (by rw [hgrant])
      rwa [hgrant, hnow] at hrecv

/-- One slot of a window, or its terminator. -/
theorem Node.Draining.advance {i : Nat} (h : n.Draining myAddr i) :
    n.advance.Waiting myAddr [] ∨ n.advance.Draining myAddr (i + 1) := by
  rw [Node.advance, h.busy]
  dsimp only
  split
  next s hslot =>
    right
    obtain ⟨hi, hget⟩ := List.getElem?_eq_some_iff.mp hslot
    have hdrop := drop_slot hslot
    have hinside : i + 1 ≤ nodeTxqLen := h.length ▸ hi
    split
    -- the frame of the slot is the next one that is due
    next hinUse =>
      rw [if_pos hinUse] at hdrop
      have hfits : s.frame.len ≤ busPayloadMax :=
        h.fits s (List.mem_of_getElem? hslot) hinUse
      have hnow := h.now_eq
      rw [windowFrom, hdrop, List.map_cons, List.cons_append] at hnow
      refine ⟨h.addr, rfl, by simpa using h.length, hinside, ?_, ?_, obeys_concat h.obeys ?_, ?_, ?_⟩
      · intro t ht
        rw [take_set_succ hi] at ht
        rcases List.mem_append.mp ht with ht | ht
        · exact h.drained t ht
        · rw [List.mem_singleton.mp ht]
      · intro t ht htUse
        rcases List.mem_or_eq_of_mem_set ht with ht | rfl
        · exact h.fits t ht htUse
        · cases htUse
      · rw [Due.Allows, hnow, encode_message hfits]
        rfl
      · rw [due_concat, Due.after, hnow, windowFrom, List.drop_set_of_lt (Nat.lt_succ_self i)]
        rfl
      · rw [due_concat]
        exact h.later_eq
    -- a free slot sends nothing
    next hfree =>
      rw [if_neg hfree] at hdrop
      refine ⟨h.addr, rfl, h.length, hinside, ?_, h.fits, h.obeys, ?_, h.later_eq⟩
      · intro t ht
        rw [List.take_add_one, hslot] at ht
        rcases List.mem_append.mp ht with ht | ht
        · exact h.drained t ht
        · rw [List.mem_singleton.mp ht]
          simpa using hfree
      · rw [h.now_eq, windowFrom, hdrop, windowFrom]
  -- behind the last slot the terminator is due
  next hend =>
    left
    have hlen : n.txq.length ≤ i := List.getElem?_eq_none_iff.mp hend
    have hfree : ∀ s ∈ n.txq, s.inUse = false := by
      have hdrained := h.drained
      rwa [List.take_of_length_le hlen] at hdrained
    have hnow := h.now_eq
    rw [windowFrom, List.drop_of_length_le hlen] at hnow
    refine ⟨h.addr, rfl, h.length, packed_free hfree, h.fits, obeys_concat h.obeys ?_, ?_, ?_⟩
    · rw [Due.Allows, hnow, h.addr, encode_controlFrame]
      rfl
    · rw [due_concat, Due.after, hnow]
      rfl
    · rw [due_concat, queuedFrames_free hfree]
      exact h.later_eq

theorem Node.Waiting.advance (h : n.Waiting myAddr now) : n.advance = n := by
  rw [Node.advance, h.idle]

end Steps

/-! ## Runs -/

section Runs

variable {n : Node} {myAddr : Byte}

/-- Calls of `bus_node_queue` come between windows. -/
def Calm (n : Node) : NodeEvent → Prop
  | .queue _ => n.window = none
  | _ => True

instance Calm.decidable (n : Node) : ∀ e, Decidable (Calm n e)
  | .queue _ => inferInstanceAs (Decidable (n.window = none))
  | .word _ _ | .advance => isTrue trivial

/-- Either the queue waits or a window drains it. -/
def Node.Inv (n : Node) (myAddr : Byte) : Prop :=
  n.Waiting myAddr [] ∨ ∃ i, n.Draining myAddr i

theorem inv_next {e : NodeEvent} (h : n.Inv myAddr) (he : Calm n e) : (n.next e).Inv myAddr := by
  rcases h with h | ⟨i, h⟩
  · cases e with
    | queue c => exact Or.inl (h.queue c)
    | advance => exact Or.inl (by rw [Node.next, h.advance]; exact h)
    | word w calls =>
        have hidle : ¬ n.window.isSome = true := by simp [h.idle]
        rw [Node.next, Node.word, if_neg hidle]
        obtain ⟨asm, out⟩ := n.asm.feed w
        have hfed : Node.Waiting { n with asm } myAddr [] :=
          ⟨h.addr, h.idle, h.length, h.packed, h.fits, h.obeys, h.now_eq, h.later_eq⟩
        cases out with
        | none => exact Or.inl hfed
        | some f => exact (hfed.handle f calls).imp_right fun hdrain => ⟨0, hdrain⟩
  · cases e with
    | queue c =>
        rw [Calm, h.busy] at he
        cases he
    | advance => exact h.advance.imp_right fun hdrain => ⟨i + 1, hdrain⟩
    | word w calls =>
        rw [Node.next, Node.word, h.busy, Option.isSome_some, if_pos rfl]
        exact Or.inr ⟨i, h⟩

theorem inv_run {es : List NodeEvent} (h : n.Inv myAddr) (hcalm : Along Node.next Calm n es) :
    (run Node.next n es).Inv myAddr :=
  Runs.run_along (P := fun n => n.Inv myAddr) (fun _ _ => inv_next) hcalm h

/-- A window is over when each slot was looked at and the terminator sent. -/
theorem window_closes {k : Nat} (h : n.Inv myAddr)
    (hk : ∀ i, n.window = some i → nodeTxqLen < i + k) :
    (run Node.next n (List.replicate k .advance)).window = none := by
  induction k generalizing n with
  | zero =>
      rcases h with h | ⟨i, h⟩
      · exact h.idle
      · have hlt := hk i h.busy
        have hle := h.inside
        omega
  | succ k ih =>
      rw [List.replicate_succ, Runs.run_cons]
      apply ih (inv_next (e := .advance) h trivial)
      intro j hj
      rcases h with h | ⟨i, h⟩
      · rw [Node.next, h.advance, h.idle] at hj
        cases hj
      · rcases h.advance with hwait | hdrain
        · rw [Node.next, hwait.idle] at hj
          cases hj
        · rw [Node.next, hdrain.busy] at hj
          cases hj
          have hlt := hk i h.busy
          omega

/-- When every call of `bus_node_queue` comes between windows: each POLL to the node
is answered by the frames accepted since the last one, in order, and one NO_MESSAGE,
and nothing else but an ACK for DATA from the master is transmitted; so the frames
accepted are those shipped and those still to be shipped, each once and in order. -/
theorem queued_frames_shipped_between_windows (memory : Vector Frame nodeTxqLen) (acc : Frame)
    (myAddr : Byte) (es : List NodeEvent)
    (hcalm : Along Node.next Calm (Node.init memory acc myAddr) es) :
    let n := run Node.next (Node.init memory acc myAddr) es
    Obeys myAddr n.log ∧ (n.window = none → (due myAddr n.log).now = []) ∧
      (n.log.filterMap Entry.accepts).map Message.words =
        n.log.filterMap Entry.ships ++ (due myAddr n.log).toShip ∧
      (run Node.next n (List.replicate (nodeTxqLen + 1) .advance)).window = none := by
  intro n
  have hinv : n.Inv myAddr := inv_run (Or.inl (waiting_init memory acc myAddr)) hcalm
  have hobeys : Obeys myAddr n.log := hinv.elim (·.obeys) (fun ⟨_, h⟩ => h.obeys)
  refine ⟨hobeys, fun hidle => ?_, shipped_in_order hobeys, window_closes hinv ?_⟩
  · rcases hinv with h | ⟨i, h⟩
    · exact h.now_eq
    · rw [h.busy] at hidle
      cases hidle
  · intro i _
    omega

/-- A DATA frame to the master with one byte of payload. -/
def byteCall (b : Byte) : QueueCall := ⟨busAddrMaster, busFtData, fun _ => b, 1⟩

/-- A POLL to a node, as it arrives. -/
def pollEvents (addr : Byte) : List NodeEvent :=
  (busFrameEncode ⟨addr, busAddrMaster, busFtPoll, 0, 0, Vector.replicate 240 0⟩).map (.word · [])

/-- Two frames, a POLL and its window. -/
def twoShipped : List NodeEvent :=
  [.queue (byteCall 1), .queue (byteCall 2)] ++ pollEvents 5 ++ List.replicate 9 .advance

theorem queued_frames_shipped_between_windows_two :
    let n := run Node.next (Node.init (Vector.replicate 8 shortFrame) shortFrame 5) twoShipped
    Obeys 5 n.log ∧ n.log.filterMap Entry.ships =
      [((byteCall 1).message 5).words, ((byteCall 2).message 5).words] := by
  have h := queued_frames_shipped_between_windows (Vector.replicate 8 shortFrame) shortFrame 5
    twoShipped (by decide +kernel)
  exact ⟨h.1, by decide +kernel⟩

/-- After the first frame of the window two more are queued: the first of them goes
to the slot just freed, the second behind the window, which takes it along. -/
theorem not_always_queueing_order :
    ¬ ∀ (memory : Vector Frame nodeTxqLen) (acc : Frame) (myAddr : Byte) (es : List NodeEvent),
      let n := run Node.next (Node.init memory acc myAddr) es
      n.log.filterMap Entry.ships <+: (n.log.filterMap Entry.accepts).map Message.words := by
  intro h
  have hlate := h (Vector.replicate 8 shortFrame) shortFrame 5
    ([.queue (byteCall 1), .queue (byteCall 2)] ++ pollEvents 5 ++
      [.advance, .queue (byteCall 3), .queue (byteCall 4)] ++ List.replicate 9 .advance)
  revert hlate
  decide +kernel

end Runs

end SlowBus.Bus
