import SlowBus.Config.Commit

/-!
# Deferred commits

Register writes and shell commands ask for a commit by putting a slot into one cell;
the main loop takes it from there, commits it and then empties the cell. A request
that finds the cell free, or holding the same slot before it is taken, is not lost.
-/

namespace SlowBus.Config

open Bus (Byte)
open Runs (run Along)

def regSetAddr : Byte := 0x0F
def regReset : Byte := 0x0E
def regRecSel : Byte := 0x40
def regRecLen : Byte := 0x41
def regRecOff : Byte := 0x42
def regRecData : Byte := 0x43
def regRecCtrl : Byte := 0x44

/-- The name "idnt". -/
def idntName : Name := #v[0x69, 0x64, 0x6E, 0x74]

/-- Where the main loop is in `i2c_store_service`. -/
inductive Phase where
  | idle
  /-- The cell held a slot; it is read once more for the call. -/
  | tested
  | writing (slot : Nat)
  /-- `store_commit` has returned; the cell is not emptied yet. -/
  | wrote
  | served
  /-- The chip was reset. -/
  | halted
  deriving DecidableEq, Repr

/-- `store_commit` has been entered, and the cell is not emptied yet. -/
def Phase.committing : Phase → Bool
  | .writing _ | .wrote => true
  | _ => false

structure Device where
  store : Store
  status : Byte := 0
  /-- `g_commit_pending`, none for `-1`. -/
  commitPending : Option SlotId := none
  resetPending : Bool := false
  setaddrArmed : Bool := false
  recSel : Byte := 0
  recOff : Byte := 0
  offline : Bool := false
  fileWrSlot : Option SlotId := none
  fileWrLen : Nat := 0
  phase : Phase := .idle
  /-- The slots asked for and not passed to `store_commit` since; it only records. -/
  outstanding : SlotId → Bool := fun _ => false

/-- `samd21_store_commit_pending` -/
def Device.storeCommitPending (d : Device) : Bool := d.commitPending.isSome

/-- The cell is set to a slot. -/
def Device.request (d : Device) (i : SlotId) : Device :=
  { d with commitPending := some i, outstanding := Function.update d.outstanding i true }

def Device.editSlot (d : Device) (i : SlotId) (f : Slot → Slot) : Device :=
  { d with store := { d.store with slots := d.store.slots.set i (f (d.store.slots i)) } }

/-! ## Register writes -/

/-- The slot selected, if its number is one. -/
def Device.selected (d : Device) : Option SlotId :=
  if h : d.recSel.toNat < storeSlots then some ⟨d.recSel.toNat, h⟩ else none

/-- A byte written to the data port, at the offset. -/
def Slot.putByte (s : Slot) (off : Byte) (val : Byte) : Slot :=
  { s with
    data := s.data.setIfInBounds off.toNat val
    len := if off.toNat + 1 > s.len.toNat then off + 1 else s.len
    dirty := true }

def Device.recData (d : Device) (val : Byte) : Device :=
  let d' :=
    match d.selected with
    | some i => if d.recOff < storeDataMax then d.editSlot i (·.putByte d.recOff val) else d
    | none => d
  if d'.recOff < storeDataMax then { d' with recOff := d'.recOff + 1 } else d'

def Device.recCtrl (d : Device) (val : Byte) : Device :=
  match d.selected.filter fun i => val == 0xC0 && (d.store.slots i).used with
  | some i => d.request i
  | none => if val = 0x5E then { d with store := d.store.load } else d

/-- Byte 0 of the identity becomes the address. -/
def Slot.putAddr (s : Slot) (addr : Byte) : Slot :=
  { s with
    data := s.data.set 0 addr
    len := if s.len < 1 then 1 else s.len
    dirty := true }

def Device.setAddr (d : Device) (val : Byte) : Device :=
  if !d.setaddrArmed then { d with setaddrArmed := val == 0xAC }
  else
    let d := { d with setaddrArmed := false }
    if 0x08 ≤ val ∧ val ≤ 0x77 then
      let (slots, s) := storeAlloc d.store.slots idntName
      let d := { d with store := { d.store with slots } }
      match s with
      | some i => (d.editSlot i (·.putAddr val)).request i
      | none => d
    else d

/-- `i2c_reg_write`; the registers left out touch neither the store nor the cell. -/
def Device.regWrite (d : Device) (reg val : Byte) : Device :=
  if reg = regReset then
    if val = 0xA5 then { d with resetPending := true } else d
  else if reg = regRecSel then
    if val.toNat < storeSlots then { d with recSel := val, recOff := 0 } else d
  else if reg = regRecLen then
    match d.selected with
    | some i => if val ≤ storeDataMax then d.editSlot i ({ · with len := val }) else d
    | none => d
  else if reg = regRecOff then { d with recOff := val }
  else if reg = regRecData then d.recData val
  else if reg = regRecCtrl then d.recCtrl val
  else if reg = regSetAddr then d.setAddr val
  else d

/-! ## Shell commands -/

inductive ShellStatus where
  | ok
  | busy
  | badArgs
  | cmdFailed
  deriving DecidableEq, Repr

/-- `cmd_file_begin` -/
def Device.fileBegin (d : Device) (args : List Byte) : Device × ShellStatus :=
  if !d.offline then (d, .busy)
  else if h : args.length = 4 then
    let (slots, s) := storeAlloc d.store.slots ⟨args.toArray, h⟩
    let d := { d with store := { d.store with slots } }
    match s with
    | some i => ({ d with fileWrSlot := some i, fileWrLen := 0 }, .ok)
    | none => (d, .cmdFailed)
  else (d, .badArgs)

/-- The chunk is copied in behind the bytes received so far. -/
def Slot.putChunk (s : Slot) (off : Nat) (chunk : List Byte) : Slot :=
  { s with
    data := Vector.ofFn fun i =>
      if off ≤ i.val then chunk.getD (i.val - off) (s.data.get i) else s.data.get i }

/-- `cmd_file_data` -/
def Device.fileData (d : Device) (args : List Byte) : Device × ShellStatus :=
  if !d.offline then (d, .busy)
  else
    match d.fileWrSlot with
    | none => (d, .badArgs)
    | some i =>
        if d.fileWrLen + args.length > storeDataMax.toNat then (d, .badArgs)
        else
          ({ d.editSlot i (·.putChunk d.fileWrLen args) with
            fileWrLen := d.fileWrLen + args.length }, .ok)

/-- `cmd_file_commit` -/
def Device.fileCommit (d : Device) (args : List Byte) : Device × ShellStatus :=
  if !d.offline then (d, .busy)
  else if !args.isEmpty then (d, .badArgs)
  else
    match d.fileWrSlot with
    | none => (d, .badArgs)
    | some i =>
        let d := d.editSlot i ({ · with len := .ofNat 8 d.fileWrLen, dirty := true })
        ({ d.request i with fileWrSlot := none }, .ok)

/-! ## The main loop -/

/-- The argument of `store_commit`: an empty cell reads as 255. -/
def commitArg (pending : Option SlotId) : Nat :=
  match pending with
  | some i => i.val
  | none => 255

/-- The slot the next step passes to `store_commit`. -/
def Device.passes (d : Device) : Option SlotId :=
  match d.phase with
  | .tested => d.commitPending
  | _ => none

/-- One step of `i2c_store_service`; interrupts come between the steps. -/
def Device.service (d : Device) : Device :=
  match d.phase with
  | .idle => { d with phase := if d.commitPending.isSome then .tested else .served }
  | .tested => { d with
      status := d.status ||| 0x01
      phase := .writing (commitArg d.commitPending)
      outstanding :=
        match d.commitPending with
        | some i => Function.update d.outstanding i false
        | none => d.outstanding }
  | .writing slot =>
      let (store, ok) := d.store.commit slot
      let status := if ok then d.status else d.status ||| 0x02
      { d with store, status := status &&& ~~~0x01, phase := .wrote }
  | .wrote => { d with commitPending := none, phase := .served }
  | .served => { d with phase := if d.resetPending then .halted else .idle }
  | .halted => d

inductive DeviceEvent where
  | service
  | regWrite (reg val : Byte)
  | fileBegin (args : List Byte)
  | fileData (args : List Byte)
  | fileCommit (args : List Byte)
  | goOffline
  deriving DecidableEq, Repr

def Device.next (d : Device) : DeviceEvent → Device
  | .service => d.service
  | .regWrite reg val => d.regWrite reg val
  | .fileBegin args => (d.fileBegin args).1
  | .fileData args => (d.fileData args).1
  | .fileCommit args => (d.fileCommit args).1
  | .goOffline => { d with offline := true }

/-- A device at boot, with what its store holds. -/
def Device.boot (store : Store) : Device := { store }

/-! ## Requests -/

/-- The slot an event asks to commit. -/
def Device.requests (d : Device) : DeviceEvent → Option SlotId
  | .regWrite reg val =>
      if reg = regRecCtrl then d.selected.filter fun i => val == 0xC0 && (d.store.slots i).used
      else if reg = regSetAddr ∧ d.setaddrArmed = true ∧ 0x08 ≤ val ∧ val ≤ 0x77 then
        (storeAlloc d.store.slots idntName).2
      else none
  | .fileCommit args => if d.offline && args.isEmpty then d.fileWrSlot else none
  | _ => none

/-- A request finds the cell free, or holding its own slot before `store_commit` is
entered for it. -/
def Device.Orderly (d : Device) (e : DeviceEvent) : Prop :=
  ∀ i, d.requests e = some i →
    d.commitPending = none ∨ d.commitPending = some i ∧ d.phase.committing = false

instance Device.decidableOrderly (d : Device) (e : DeviceEvent) : Decidable (d.Orderly e) :=
  inferInstanceAs (Decidable (∀ i : SlotId, d.requests e = some i →
    d.commitPending = none ∨ d.commitPending = some i ∧ d.phase.committing = false))

section Requests

variable {d d' : Device} {i : SlotId} {o : Option SlotId}

/-- What a request leaves of the cell. -/
inductive Asked (d : Device) : Option SlotId → Device → Prop
  | none {d' : Device} (hcell : d'.commitPending = d.commitPending) (hphase : d'.phase = d.phase)
      (hout : d'.outstanding = d.outstanding) : Asked d none d'
  | some {d' : Device} (i : SlotId) (hcell : d'.commitPending = some i)
      (hphase : d'.phase = d.phase)
      (hout : d'.outstanding = Function.update d.outstanding i true) : Asked d (some i) d'

theorem asked_recCtrl (d : Device) (val : Byte) :
    Asked d (d.selected.filter fun i => val == 0xC0 && (d.store.slots i).used) (d.recCtrl val) := by
  unfold Device.recCtrl
  cases d.selected.filter fun i => val == 0xC0 && (d.store.slots i).used with
  | some i => exact .some i rfl rfl rfl
  | none =>
      dsimp only
      split <;> exact .none rfl rfl rfl

theorem asked_setAddr (d : Device) (val : Byte) :
    Asked d (if d.setaddrArmed = true ∧ 0x08 ≤ val ∧ val ≤ 0x77 then
      (storeAlloc d.store.slots idntName).2 else none) (d.setAddr val) := by
  unfold Device.setAddr
  cases harmed : d.setaddrArmed with
  | false => exact .none rfl rfl rfl
  | true =>
      simp only [true_and, Bool.not_true, Bool.false_eq_true, if_false]
      split
      next =>
        generalize storeAlloc d.store.slots idntName = result
        obtain ⟨slots, s⟩ := result
        cases s with
        | some i => exact .some i rfl rfl rfl
        | none => exact .none rfl rfl rfl
      next => exact .none rfl rfl rfl

theorem asked_recData (d : Device) (val : Byte) : Asked d none (d.recData val) := by
  have hedit : ∀ d' : Device, Asked d none d' →
      Asked d none (if d'.recOff < storeDataMax then { d' with recOff := d'.recOff + 1 } else d') := by
    intro d' h
    split
    next =>
      cases h with
      | none hcell hphase hout => exact .none hcell hphase hout
    next => exact h
  unfold Device.recData
  refine hedit _ ?_
  split
  next => split <;> exact .none rfl rfl rfl
  next => exact .none rfl rfl rfl

theorem asked_regWrite (d : Device) (reg val : Byte) :
    Asked d (d.requests (.regWrite reg val)) (d.regWrite reg val) := by
  unfold Device.regWrite Device.requests
  by_cases hctrl : reg = regRecCtrl
  · subst hctrl
    exact asked_recCtrl d val
  · by_cases haddr : reg = regSetAddr
    · subst haddr
      have hother : regSetAddr ≠ regReset ∧ regSetAddr ≠ regRecSel ∧ regSetAddr ≠ regRecLen ∧
          regSetAddr ≠ regRecOff ∧ regSetAddr ≠ regRecData ∧ regSetAddr ≠ regRecCtrl := by decide
      simp only [hother, if_false, if_true, true_and]
      exact asked_setAddr d val
    · have hnone : Asked d none d := .none rfl rfl rfl
      simp only [hctrl, haddr, false_and, if_false]
      repeat' split
      all_goals first
        | exact hnone
        | exact .none rfl rfl rfl
        | exact asked_recData d val

theorem asked_fileCommit (d : Device) (args : List Byte) :
    Asked d (if d.offline && args.isEmpty then d.fileWrSlot else none) (d.fileCommit args).1 := by
  have hnone : Asked d none d := .none rfl rfl rfl
  unfold Device.fileCommit
  cases d.offline with
  | false => exact hnone
  | true =>
      cases args.isEmpty with
      | false => exact hnone
      | true =>
          cases d.fileWrSlot with
          | none => exact hnone
          | some i => exact .some i rfl rfl rfl

/-- Everything an event of an interrupt or of the shell does to the cell. -/
theorem asked_next {e : DeviceEvent} (he : e ≠ .service) : Asked d (d.requests e) (d.next e) := by
  cases e with
  | service => exact absurd rfl he
  | regWrite reg val => exact asked_regWrite d reg val
  | fileCommit args => exact asked_fileCommit d args
  | goOffline => exact .none rfl rfl rfl
  | fileBegin args =>
      unfold Device.next Device.fileBegin
      dsimp only [Device.requests]
      repeat' split
      all_goals exact .none rfl rfl rfl
  | fileData args =>
      unfold Device.next Device.fileData
      dsimp only [Device.requests]
      repeat' split
      all_goals exact .none rfl rfl rfl

end Requests

/-! ## No request is lost -/

section Runs

variable {d : Device} {e : DeviceEvent} {i : SlotId} {as : List DeviceEvent}

/-- What was asked for is in the cell, and `store_commit` is not at work on it. -/
structure Device.Inv (d : Device) : Prop where
  waiting : ∀ i, d.outstanding i = true → d.commitPending = some i ∧ d.phase.committing = false
  occupied : d.phase = .tested ∨ d.phase.committing = true → d.commitPending ≠ none

theorem inv_asked {d' : Device} (h : d.Inv) (hord : d.Orderly e)
    (hasked : Asked d (d.requests e) d') : d'.Inv := by
  generalize hreq : d.requests e = o at hasked
  cases hasked with
  | none hcell hphase hout =>
      refine ⟨fun i hi => ?_, ?_⟩
      · rw [hcell, hphase]
        exact h.waiting i (hout ▸ hi)
      · rw [hcell, hphase]
        exact h.occupied
  | some i hcell hphase hout =>
      have hfree : d.phase.committing = false := by
        rcases hord i hreq with hempty | ⟨_, hphase⟩
        · by_contra hcommitting
          exact h.occupied (Or.inr (Bool.eq_true_of_not_eq_false hcommitting)) hempty
        · exact hphase
      have hsame : ∀ j, d.outstanding j = true → j = i := by
        intro j hj
        have hcell := (h.waiting j hj).1
        rcases hord i hreq with hempty | ⟨hsome, _⟩
        · rw [hempty] at hcell
          cases hcell
        · exact Option.some_inj.mp (hcell.symm.trans hsome)
      refine ⟨fun j hj => ?_, fun _ => by rw [hcell]; exact Option.some_ne_none i⟩
      rw [hcell, hphase]
      have hji : j = i := by
        by_contra hne
        rw [hout, Function.update_of_ne hne] at hj
        exact hne (hsame j hj)
      rw [hji]
      exact ⟨rfl, hfree⟩

theorem inv_service (h : d.Inv) : d.service.Inv := by
  have hquiet : d.phase.committing = true → ∀ i, d.outstanding i = true → False := by
    intro hcommitting i hi
    rw [(h.waiting i hi).2] at hcommitting
    cases hcommitting
  unfold Device.service
  split
  next hphase =>
    refine ⟨fun i hi => ⟨(h.waiting i hi).1, ?_⟩, ?_⟩
    · dsimp only
      split <;> rfl
    · dsimp only
      cases d.commitPending with
      | none => simp [Phase.committing]
      | some i => exact fun _ => Option.some_ne_none i
  next hphase =>
    obtain ⟨i, hi⟩ := Option.ne_none_iff_exists'.mp (h.occupied (Or.inl hphase))
    refine ⟨fun j hj => ?_, fun _ => by rw [hi]; exact Option.some_ne_none i⟩
    rw [hi] at hj
    by_cases hji : j = i
    · subst hji
      simp at hj
    · simp only [Function.update_of_ne hji] at hj
      have hcell := (h.waiting j hj).1
      rw [hi] at hcell
      exact absurd (Option.some_inj.mp hcell).symm hji
  -- while a slot is written nothing is outstanding
  next slot hphase =>
    have hcommitting : d.phase.committing = true := by rw [hphase]; rfl
    exact ⟨fun i hi => (hquiet hcommitting i hi).elim, fun _ => h.occupied (Or.inr hcommitting)⟩
  next hphase =>
    have hcommitting : d.phase.committing = true := by rw [hphase]; rfl
    refine ⟨fun i hi => (hquiet hcommitting i hi).elim, ?_⟩
    simp [Phase.committing]
  next hphase =>
    refine ⟨fun i hi => ⟨(h.waiting i hi).1, ?_⟩, ?_⟩
    · dsimp only
      split <;> rfl
    · dsimp only
      split <;> simp [Phase.committing]
  next => exact h

theorem inv_device (h : d.Inv) (hord : d.Orderly e) : (d.next e).Inv := by
  by_cases he : e = .service
  · subst he
    exact inv_service h
  · exact inv_asked h hord (asked_next he)

theorem inv_boot (store : Store) : (Device.boot store).Inv := by
  refine ⟨fun i hi => ?_, ?_⟩
  · cases hi
  · simp [Device.boot, Phase.committing]

/-- The steps of the service until it calls `store_commit`, if the cell is not empty. -/
def Phase.distance : Phase → Nat
  | .tested => 1
  | .idle => 2
  | .served => 3
  | _ => 0

theorem phase_asked (he : e ≠ .service) : (d.next e).phase = d.phase := by
  have hasked := asked_next (d := d) he
  generalize d.requests e = o at hasked
  cases hasked with
  | none _ hphase _ => exact hphase
  | some _ _ hphase _ => exact hphase

theorem outstanding_asked (he : e ≠ .service) (hi : d.outstanding i = true) :
    (d.next e).outstanding i = true := by
  have hasked := asked_next (d := d) he
  generalize d.requests e = o at hasked
  cases hasked with
  | none _ _ hout => rwa [hout]
  | some j _ _ hout =>
      rw [hout]
      by_cases hij : i = j
      · subst hij
        exact Function.update_self ..
      · rwa [Function.update_of_ne hij]

theorem halted_run (h : d.phase = .halted) : (run Device.next d as).phase = .halted := by
  refine Runs.run_invariant (P := fun d => Device.phase d = .halted) (fun d e h => ?_) h
  by_cases he : e = .service
  · subst he
    show d.service.phase = .halted
    simp only [Device.service, h]
  · exact (phase_asked he).trans h

/-- A slot asked for is passed to `store_commit` in the next steps of the service. -/
theorem passed_within (h : d.Inv) (hi : d.outstanding i = true)
    (horderly : Along Device.next Device.Orderly d as)
    (hcount : d.phase.distance ≤ as.count .service)
    (hrunning : (run Device.next d as).phase ≠ .halted) :
    ∃ as₁ as₂, as = as₁ ++ .service :: as₂ ∧ (run Device.next d as₁).passes = some i := by
  obtain ⟨hcell, hphase⟩ := h.waiting i hi
  have hlive : d.phase ≠ .halted := fun hhalted => hrunning (halted_run hhalted)
  induction as generalizing d with
  | nil =>
      rw [List.count_nil, Nat.le_zero] at hcount
      cases hp : d.phase <;> rw [hp] at hphase hlive hcount
      case writing | wrote => cases hphase
      case halted => exact absurd rfl hlive
      case idle | tested | served => cases hcount
  | cons e as ih =>
      -- after a step that does not pass it the slot is still outstanding
      have hnext : ∀ d' : Device, d' = d.next e → d'.outstanding i = true →
          d'.phase.distance ≤ as.count .service →
          ∃ as₁ as₂, e :: as = as₁ ++ .service :: as₂ ∧ (run Device.next d as₁).passes = some i := by
        rintro d' rfl hi' hcount'
        have hinv := inv_device h horderly.1
        have hrunning' : (run Device.next (d.next e) as).phase ≠ .halted := hrunning
        obtain ⟨hcell', hphase'⟩ := hinv.waiting i hi'
        obtain ⟨as₁, as₂, heq, hpasses⟩ := ih hinv hi' horderly.2 hcount' hrunning' hcell' hphase'
          fun hhalted => hrunning' (halted_run hhalted)
        exact ⟨e :: as₁, as₂, congrArg (e :: ·) heq, hpasses⟩
      by_cases he : e = .service
      · subst he
        rw [List.count_cons_self] at hcount
        cases hp : d.phase <;> rw [hp] at hphase hlive hcount
        case writing | wrote => cases hphase
        case halted => exact absurd rfl hlive
        case tested => exact ⟨[], as, rfl, by rw [Runs.run_nil, Device.passes, hp]; exact hcell⟩
        case idle =>
            refine hnext { d with phase := .tested } ?_ hi (Nat.le_of_succ_le_succ hcount)
            simp [Device.next, Device.service, hp, hcell]
        case served =>
            refine hnext { d with phase := if d.resetPending then .halted else .idle } ?_ hi ?_
            · simp [Device.next, Device.service, hp]
            · have htwo : 2 ≤ as.count .service := Nat.le_of_succ_le_succ hcount
              dsimp only
              split <;> simp only [Phase.distance] <;> omega
      · rw [List.count_cons_of_ne he] at hcount
        exact hnext _ rfl (outstanding_asked he hi) (by rwa [phase_asked he])

/-- Through every run of requests and of the service in which a request finds the cell
free, or holding its own slot before `store_commit` is entered: an empty cell means that
no commit asked for is outstanding, and while the service keeps running each slot asked
for is passed to `store_commit` after it. -/
theorem commit_never_lost (store : Store) (es : List DeviceEvent)
    (horderly : Along Device.next Device.Orderly (Device.boot store) es) :
    let d := run Device.next (Device.boot store) es
    (d.storeCommitPending = false → ∀ i, d.outstanding i = false) ∧
      ∀ i as, d.outstanding i = true → Along Device.next Device.Orderly d as →
        3 ≤ as.count .service → (run Device.next d as).phase ≠ .halted →
          ∃ as₁ as₂, as = as₁ ++ .service :: as₂ ∧ (run Device.next d as₁).passes = some i := by
  intro d
  have hinv : d.Inv :=
    Runs.run_along (P := Device.Inv) (fun _ _ h hord => inv_device h hord) horderly
      (inv_boot store)
  refine ⟨fun hempty i => ?_, fun i as hi has hcount hrunning => ?_⟩
  · by_contra hi
    have hcell := (hinv.waiting i (Bool.eq_true_of_not_eq_false hi)).1
    rw [Device.storeCommitPending, hcell] at hempty
    cases hempty
  · refine passed_within hinv hi has (le_trans ?_ hcount) hrunning
    cases d.phase <;> simp [Phase.distance]

end Runs

/-! ## Two files in a row -/

/-- A file of one byte is written and its commit asked for. -/
def sendFile (b : Byte) : List DeviceEvent :=
  [.fileBegin [b, b, b, b], .fileData [b], .fileCommit []]

def servicePass : List DeviceEvent := List.replicate 6 .service

theorem commit_never_lost_two :
    let d := run Device.next (Device.boot Store.erased)
      (.goOffline :: sendFile 0x41 ++ servicePass ++ sendFile 0x42)
    d.outstanding ⟨1, by decide⟩ = true ∧
      ∃ as₁ as₂, servicePass = as₁ ++ .service :: as₂ ∧
        (run Device.next d as₁).passes = some ⟨1, by decide⟩ := by
  have h := commit_never_lost Store.erased
    (.goOffline :: sendFile 0x41 ++ servicePass ++ sendFile 0x42) (by decide +kernel)
  exact ⟨by decide +kernel, h.2 _ servicePass (by decide +kernel) (by decide +kernel)
    (by decide) (by decide +kernel)⟩

/-- A second commit asked for before the first is taken: the first is never made. -/
theorem not_never_lost :
    let d := run Device.next (Device.boot Store.erased)
      (.goOffline :: sendFile 0x41 ++ sendFile 0x42 ++ servicePass)
    d.storeCommitPending = false ∧ d.outstanding ⟨0, by decide⟩ = true := by
  decide +kernel

end SlowBus.Config
