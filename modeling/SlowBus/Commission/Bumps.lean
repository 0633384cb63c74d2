import Mathlib.Algebra.Order.Ring.Int
import SlowBus.Commission.Namespace

/-!
# Bumps through several connections

`bump_status` reads the status, adds to a counter and writes it back. On a connection
that has no transaction open the read ends with its statement; the transaction that
writes begins at the insert. So what one client has read may be old when it writes, and
its write takes back what others have committed since.
-/

namespace SlowBus.Commission

open Runs (run Along)
open Table (upsert)

local instance pathKey_lawfulBEq : LawfulBEq Path := inferInstance

/-! ## A counter in a status -/

/-- A member of a status. Numbers are integers, and of a list or an object it matters only
whether it is empty. -/
inductive StatusVal where
  | null
  | bool (b : Bool)
  | int (n : Int)
  | text (s : String)
  | nested (isEmpty : Bool)
  deriving DecidableEq, Repr

/-- A status as the dictionary it is read into. -/
abbrev Status := String → Option StatusVal

/-- `cur.get(field) or 0`; none where adding to it raises. -/
def Status.number (cur : Status) (field : String) : Option Int :=
  match cur field with
  | none | some .null => some 0
  | some (.bool b) => some (if b then 1 else 0)
  | some (.int n) => some n
  | some (.text s) => if s = "" then some 0 else none
  | some (.nested isEmpty) => if isEmpty then some 0 else none

/-- `{field: n}` -/
def counterFields (field : String) (n : Int) : Status :=
  fun k => if k = field then some (.int n) else none

/-- The value that `bump_status` computes from what `get_status` returned. -/
def bumped (cur : Option Status) (field : String) (inc : Int) : Option Int :=
  ((cur.getD fun _ => none).number field).map (· + inc)

/-- The JSON functions for members that are not merged themselves. -/
def statusFns : JsonFns Status where
  patch s fields := fun k =>
    match fields k with
    | none => s k
    | some .null => none
    | some v => some v
  bump cur field inc := (bumped cur field inc).map (counterFields field)

def Tables.getStatus (t : Tables Status) (p : Path) : Option Status :=
  (t.statuses.find? (·.path = p)).map (·.status)

/-- The insert of `set_status`. -/
def Tables.putStatus (t : Tables Status) (p : Path) (status : Status) (now : String) :
    Tables Status :=
  { t with
    statuses :=
      upsert (·.path) ⟨p, status, now⟩ (StatusRow.write statusFns status true now) t.statuses }

/-! ## Clients of one database -/

/-- Where a client is in `bump_status`. `seen` only records the commits that its read saw. -/
inductive Stage where
  | idle
  | computed (new : Int) (seen : Nat)
  | checked (new : Int) (seen : Nat)
  | written (pending : Tables Status) (seen : Nat)

/-- A connection. An open transaction reads what its first statement saw; the number is that
of the commits before it. -/
structure Session where
  stage : Stage := .idle
  inTransaction : Bool := false
  snapshot : Option (Nat × Tables Status) := none

/-- The database. Every commit is that of a bump that returns. -/
structure Shared (ι : Type) where
  committed : Tables Status
  commits : Nat := 0
  lock : Option ι := none
  sessions : ι → Session := fun _ => {}

section Model

variable {ι : Type} [DecidableEq ι] (p : Path) (field : String)

def Shared.set (s : Shared ι) (c : ι) (session : Session) : Shared ι :=
  { s with sessions := Function.update s.sessions c session }

/-- What a query of a connection reads, and the connection after it. -/
def Shared.select (s : Shared ι) (c : ι) : (Nat × Tables Status) × Session :=
  let session := s.sessions c
  if session.inTransaction then
    let view := session.snapshot.getD (s.commits, s.committed)
    (view, { session with snapshot := some view })
  else ((s.commits, s.committed), session)

/-- `get_status` and the sum; an exception ends the call. -/
def Shared.readStatus (s : Shared ι) (c : ι) : Shared ι :=
  let (view, session) := s.select c
  match bumped (view.2.getStatus p) field 1 with
  | some new => s.set c { session with stage := .computed new view.1 }
  | none => s.set c { session with stage := .idle }

/-- `get_node` of `set_status`. -/
def Shared.checkNode (s : Shared ι) (c : ι) (new : Int) (seen : Nat) : Shared ι :=
  let (view, session) := s.select c
  if p ∈ view.2.paths then s.set c { session with stage := .checked new seen }
  else s.set c { session with stage := .idle }

/-- The insert of `set_status`. It opens a transaction if none is open, and waits for the
write lock; a transaction that has read already is refused instead, also when what it has
read is old. -/
def Shared.insert (s : Shared ι) (c : ι) (new : Int) (seen : Nat) (now : String) : Shared ι :=
  let session := { s.sessions c with inTransaction := true }
  match session.snapshot with
  | none =>
      if s.lock.isSome then s
      else
        { s with lock := some c }.set c { session with
          snapshot := some (s.commits, s.committed)
          stage := .written (s.committed.putStatus p (counterFields field new) now) seen }
  | some (version, t) =>
      if s.lock.isSome ∨ version ≠ s.commits then s.set c { session with stage := .idle }
      else
        { s with lock := some c }.set c { session with
          stage := .written (t.putStatus p (counterFields field new) now) seen }

/-- The commit of `set_status`, with which the call returns. -/
def Shared.commit (s : Shared ι) (c : ι) (pending : Tables Status) : Shared ι :=
  { s with committed := pending, commits := s.commits + 1, lock := none }.set c {}

/-- A client runs its next statement, or gives up waiting for the lock. -/
inductive BumpStep (ι : Type) where
  | run (c : ι) (now : String)
  | giveUp (c : ι)

def Shared.next (s : Shared ι) : BumpStep ι → Shared ι
  | .run c now =>
      match (s.sessions c).stage with
      | .idle => s.readStatus p field c
      | .computed new seen => s.checkNode p c new seen
      | .checked new seen => s.insert p field c new seen now
      | .written pending _ => s.commit c pending
  | .giveUp c =>
      match (s.sessions c).stage, (s.sessions c).snapshot, s.lock with
      | .checked _ _, none, some _ =>
          s.set c { s.sessions c with stage := .idle, inTransaction := true }
      | _, _, _ => s

/-- The counter as a bump reads it. -/
def Tables.counter (t : Tables Status) : Option Int :=
  ((t.getStatus p).getD fun _ => none).number field

/-- No commit lies between the read of a bump and its own commit. -/
def Shared.Fresh (s : Shared ι) : BumpStep ι → Prop
  | .run c _ => ∀ pending seen, (s.sessions c).stage = .written pending seen → seen = s.commits
  | .giveUp _ => True

end Model

/-! ## What a bump can have read -/

section Counter

variable {p : Path} {field : String}

theorem bumped_eq (t : Tables Status) (p : Path) (field : String) (inc : Int) :
    bumped (t.getStatus p) field inc = (t.counter p field).map (· + inc) := rfl

/-- The insert sets the counter, whatever the status was. -/
theorem counter_putStatus (t : Tables Status) (n : Int) (now : String) :
    (t.putStatus p (counterFields field n) now).counter p field = some n := by
  have hrow := Table.find_upsert (fun r : StatusRow Status => r.path)
    (f := StatusRow.write statusFns (counterFields field n) true now) (fun _ => rfl)
    ⟨p, counterFields field n, now⟩ t.statuses
  have hmember : ∀ status : Status,
      statusFns.patch status (counterFields field n) field = some (.int n) := by
    intro status
    simp [statusFns, counterFields]
  unfold Tables.counter Tables.getStatus Tables.putStatus
  dsimp only at hrow ⊢
  rw [hrow]
  cases t.statuses.find? fun r => r.path = p with
  | none => simp [Status.number, counterFields]
  | some row => simp [Status.number, StatusRow.write, hmember]

end Counter

section Reads

variable {ι : Type} [DecidableEq ι] (p : Path) (field : String)

/-- What a stage rests on is good, as a counter after so many commits. -/
def Stage.Reads (good : Nat → Option Int → Prop) : Stage → Prop
  | .idle => True
  | .computed new seen | .checked new seen => good seen (some (new - 1))
  | .written pending seen =>
      ∃ new, pending.counter p field = some new ∧ good seen (some (new - 1))

structure Session.Reads (good : Nat → Option Int → Prop) (session : Session) : Prop where
  stage : session.stage.Reads p field good
  snapshot : ∀ v t, session.snapshot = some (v, t) → good v (t.counter p field)

/-- Every counter that is committed, or that a client reads or has read, is good. -/
structure Shared.Reads (good : Nat → Option Int → Prop) (s : Shared ι) : Prop where
  committed : good s.commits (s.committed.counter p field)
  sessions : ∀ c, (s.sessions c).Reads p field good

variable {p field} {good good' : Nat → Option Int → Prop} {s : Shared ι} {c : ι}

theorem Shared.Reads.set (h : s.Reads p field good) {session : Session}
    (hsession : session.Reads p field good) : (s.set c session).Reads p field good := by
  refine ⟨h.committed, fun c' => ?_⟩
  unfold Shared.set
  dsimp only
  by_cases hc : c' = c
  · rw [hc, Function.update_self]
    exact hsession
  · rw [Function.update_of_ne hc]
    exact h.sessions c'

omit [DecidableEq ι] in
/-- A query reads what is good, and leaves the connection where it was. -/
theorem Shared.Reads.select (h : s.Reads p field good) (c : ι) :
    good (s.select c).1.1 ((s.select c).1.2.counter p field) ∧
      (s.select c).2.Reads p field good := by
  unfold Shared.select
  dsimp only
  split
  next =>
    cases hsnapshot : (s.sessions c).snapshot with
    | none =>
        refine ⟨h.committed, (h.sessions c).stage, fun v t heq => ?_⟩
        cases heq
        exact h.committed
    | some view =>
        have hview := (h.sessions c).snapshot view.1 view.2 hsnapshot
        refine ⟨hview, (h.sessions c).stage, fun v t heq => ?_⟩
        cases heq
        exact hview
  next => exact ⟨h.committed, h.sessions c⟩

theorem Shared.Reads.readStatus (h : s.Reads p field good) (c : ι) :
    (s.readStatus p field c).Reads p field good := by
  obtain ⟨hview, hsession⟩ := h.select c
  unfold Shared.readStatus
  dsimp only
  split
  next new hnew =>
    apply h.set
    refine ⟨?_, hsession.snapshot⟩
    rw [bumped_eq] at hnew
    obtain ⟨n, hn, rfl⟩ := Option.map_eq_some_iff.mp hnew
    rw [hn] at hview
    simpa [Stage.Reads] using hview
  next => exact h.set ⟨trivial, hsession.snapshot⟩

theorem Shared.Reads.checkNode (h : s.Reads p field good) {new : Int} {seen : Nat}
    (hread : good seen (some (new - 1))) (c : ι) :
    (s.checkNode p c new seen).Reads p field good := by
  obtain ⟨_, hsession⟩ := h.select c
  unfold Shared.checkNode
  dsimp only
  split
  next => exact h.set ⟨hread, hsession.snapshot⟩
  next => exact h.set ⟨trivial, hsession.snapshot⟩

theorem Shared.Reads.insert (h : s.Reads p field good) {new : Int} {seen : Nat}
    (hread : good seen (some (new - 1))) (c : ι) (now : String) :
    (s.insert p field c new seen now).Reads p field good := by
  have hlock : ({ s with lock := some c } : Shared ι).Reads p field good :=
    ⟨h.committed, h.sessions⟩
  unfold Shared.insert
  dsimp only
  split
  next hsnapshot =>
    split
    next => exact h
    next =>
      apply hlock.set
      refine ⟨⟨new, counter_putStatus _ _ _, hread⟩, fun v t heq => ?_⟩
      cases heq
      exact h.committed
  next version t hsnapshot =>
    split
    next => exact h.set ⟨trivial, (h.sessions c).snapshot⟩
    next =>
      exact hlock.set ⟨⟨new, counter_putStatus _ _ _, hread⟩, (h.sessions c).snapshot⟩

/-- A commit, when what was good stays good and what is written becomes so. -/
theorem Shared.Reads.commit (h : s.Reads p field good) (hmono : ∀ v x, good v x → good' v x)
    {pending : Tables Status} (hpending : good' (s.commits + 1) (pending.counter p field)) (c : ι) :
    (s.commit c pending).Reads p field good' := by
  have hstage : ∀ stage : Stage, stage.Reads p field good → stage.Reads p field good' := by
    intro stage hstage
    cases stage with
    | idle => trivial
    | computed new seen => exact hmono _ _ hstage
    | checked new seen => exact hmono _ _ hstage
    | written pending seen =>
        obtain ⟨new, hnew, hread⟩ := hstage
        exact ⟨new, hnew, hmono _ _ hread⟩
  unfold Shared.commit
  apply Shared.Reads.set
  · exact ⟨hpending, fun c' => ⟨hstage _ (h.sessions c').stage,
      fun v t heq => hmono _ _ ((h.sessions c').snapshot v t heq)⟩⟩
  · exact ⟨trivial, fun v t heq => by cases heq⟩

/-- A step commits what a client has written, or it is quiet. -/
theorem Shared.next_cases (p : Path) (field : String) (s : Shared ι) (step : BumpStep ι) :
    (∃ c now pending seen, step = .run c now ∧ (s.sessions c).stage = .written pending seen ∧
      s.next p field step = s.commit c pending) ∨
    (s.Fresh step ∧ (s.next p field step).commits = s.commits ∧
      ∀ good, s.Reads p field good → (s.next p field step).Reads p field good) := by
  cases step with
  | run c now =>
      cases hstage : (s.sessions c).stage with
      | idle =>
          refine .inr ⟨fun pending seen h => by simp [hstage] at h, ?_, fun good h => ?_⟩
          · simp only [Shared.next, hstage, Shared.readStatus]
            split <;> rfl
          · simp only [Shared.next, hstage]
            exact h.readStatus c
      | computed new seen =>
          refine .inr ⟨fun pending seen h => by simp [hstage] at h, ?_, fun good h => ?_⟩
          · simp only [Shared.next, hstage, Shared.checkNode]
            split <;> rfl
          · have hread := (h.sessions c).stage
            rw [hstage] at hread
            simp only [Shared.next, hstage]
            exact h.checkNode hread c
      | checked new seen =>
          refine .inr ⟨fun pending seen h => by simp [hstage] at h, ?_, fun good h => ?_⟩
          · simp only [Shared.next, hstage, Shared.insert]
            repeat' split
            all_goals rfl
          · have hread := (h.sessions c).stage
            rw [hstage] at hread
            simp only [Shared.next, hstage]
            exact h.insert hread c now
      -- the last step of a client is its commit
      | written pending seen =>
          refine .inl ⟨c, now, pending, seen, rfl, hstage, ?_⟩
          simp only [Shared.next, hstage]
  | giveUp c =>
      refine .inr ⟨trivial, ?_, fun good h => ?_⟩
      · unfold Shared.next
        dsimp only
        split <;> rfl
      · unfold Shared.next
        dsimp only
        split
        next => exact h.set ⟨trivial, (h.sessions c).snapshot⟩
        next => exact h

/-! ## Nothing is lost, or something is lost for good -/

/-- Every counter read is the first one with all bumps committed until then. -/
def Shared.Kept (p : Path) (field : String) (base : Option Int) (s : Shared ι) : Prop :=
  s.Reads p field fun v x => v ≤ s.commits ∧ x = base.map (· + (v : Int))

/-- Every counter read is short of the bumps committed. -/
def Shared.Short (p : Path) (field : String) (base : Int) (s : Shared ι) : Prop :=
  s.Reads p field fun _ x => ∃ k, x = some k ∧ k < base + s.commits

omit [DecidableEq ι] in
theorem kept_init (t : Tables Status) :
    ({ committed := t } : Shared ι).Kept p field (t.counter p field) := by
  refine ⟨⟨le_rfl, ?_⟩, fun c => ⟨trivial, fun v t heq => by cases heq⟩⟩
  cases t.counter p field <;> simp

omit [DecidableEq ι] in
/-- What a client has written rests on what it read. -/
theorem written_reads (h : s.Reads p field good) {pending : Tables Status} {seen : Nat}
    (hstage : (s.sessions c).stage = .written pending seen) :
    ∃ new, pending.counter p field = some new ∧ good seen (some (new - 1)) := by
  have hread := (h.sessions c).stage
  rw [hstage] at hread
  exact hread

theorem Shared.Kept.next {base : Option Int} (h : s.Kept p field base) {step : BumpStep ι}
    (hfresh : s.Fresh step) : (s.next p field step).Kept p field base := by
  rcases s.next_cases p field step with
    ⟨c, now, pending, seen, rfl, hstage, hnext⟩ | ⟨_, hcommits, hreads⟩
  · obtain ⟨new, hnew, _, hread⟩ := written_reads h hstage
    obtain rfl := hfresh pending seen hstage
    rw [hnext]
    refine Shared.Reads.commit h (fun v x hv => ⟨Nat.le_succ_of_le hv.1, hv.2⟩) ⟨le_rfl, ?_⟩ c
    cases base with
    | none => cases hread
    | some b =>
        have hsum : new - 1 = b + s.commits := by simpa using hread
        rw [hnew, Option.map_some, Option.some.injEq]
        push_cast
        omega
  · unfold Shared.Kept
    rw [hcommits]
    exact hreads _ h

/-- A commit of less than the bumps so far leaves every read short, if every read so far
was short or true. -/
theorem Shared.Reads.short {base : Int} (h : s.Reads p field good)
    (hgood : ∀ v x, good v x → ∃ k, x = some k ∧ k ≤ base + s.commits) {pending : Tables Status}
    {new : Int} (hnew : pending.counter p field = some new) (hlt : new ≤ base + s.commits)
    (c : ι) : (s.commit c pending).Short p field base := by
  have hcommits : (s.commit c pending).commits = s.commits + 1 := rfl
  unfold Shared.Short
  rw [hcommits]
  push_cast
  refine Shared.Reads.commit h (fun v x hv => ?_) ⟨new, hnew, by omega⟩ c
  obtain ⟨k, hk, hle⟩ := hgood v x hv
  exact ⟨k, hk, by omega⟩

theorem Shared.Short.next {base : Int} (h : s.Short p field base) (step : BumpStep ι) :
    (s.next p field step).Short p field base := by
  rcases s.next_cases p field step with
    ⟨c, now, pending, seen, rfl, hstage, hnext⟩ | ⟨_, hcommits, hreads⟩
  · obtain ⟨new, hnew, k, hk, hlt⟩ := written_reads h hstage
    obtain rfl := Option.some.inj hk
    rw [hnext]
    exact Shared.Reads.short h (fun v x ⟨k, hk, hlt⟩ => ⟨k, hk, hlt.le⟩) hnew (by omega) c
  · unfold Shared.Short
    rw [hcommits]
    exact hreads _ h

/-- A commit that is not fresh takes back what was committed since its read. -/
theorem Shared.Kept.short {base : Option Int} (h : s.Kept p field base) {step : BumpStep ι}
    (hstale : ¬ s.Fresh step) : ∃ b, base = some b ∧ (s.next p field step).Short p field b := by
  rcases s.next_cases p field step with
    ⟨c, now, pending, seen, rfl, hstage, hnext⟩ | ⟨hfresh, _⟩
  · obtain ⟨new, hnew, hseen, hread⟩ := written_reads h hstage
    have hne : seen ≠ s.commits := by
      rintro rfl
      apply hstale
      intro pending' seen' hstage'
      rw [hstage] at hstage'
      cases hstage'
      rfl
    cases base with
    | none => cases hread
    | some b =>
        have hsum : new - 1 = b + seen := by simpa using hread
        refine ⟨b, rfl, ?_⟩
        rw [hnext]
        refine Shared.Reads.short h (fun v x hv => ?_) hnew (by omega) c
        obtain ⟨hv, rfl⟩ := hv
        exact ⟨b + v, rfl, by omega⟩
  · exact absurd hfresh hstale

end Reads

section Whole

variable {ι : Type} [DecidableEq ι] {p : Path} {field : String} {s : Shared ι} {c : ι}

/-- A bump that no other client interrupts is `bump_status` on one connection. -/
theorem bump_alone (hsession : s.sessions c = {}) (hlock : s.lock = none) (now : String) :
    (run (Shared.next p field) s (List.replicate 4 (.run c now))).committed =
      (({ work := s.committed, committed := s.committed } : Db Status).bumpStatus statusFns p
        field 1 now).2.committed := by
  have hnode : (p ∈ s.committed.paths) ↔ Db.hasNode ⟨s.committed, s.committed⟩ p = true := by
    simp [Db.hasNode]
  unfold Db.bumpStatus
  have hbump : statusFns.bump (Db.getStatus ⟨s.committed, s.committed⟩ p) field 1 =
      (bumped (s.committed.getStatus p) field 1).map (counterFields field) := rfl
  rw [hbump]
  cases hnew : bumped (s.committed.getStatus p) field 1 with
  | none => simp [run, Shared.next, Shared.readStatus, Shared.select, Shared.set, hsession, hnew]
  | some new =>
      by_cases hpath : p ∈ s.committed.paths
      · have hhas := hnode.mp hpath
        simp [run, Shared.next, Shared.readStatus, Shared.checkNode, Shared.insert, Shared.commit,
          Shared.select, Shared.set, hsession, hnew, hpath, hlock, Db.setStatus, hhas, Db.commit]
        rfl
      · have hhas : Db.hasNode ⟨s.committed, s.committed⟩ p = false := by
          simpa using mt hnode.mpr hpath
        simp [run, Shared.next, Shared.readStatus, Shared.checkNode, Shared.select, Shared.set,
          hsession, hnew, hpath, Db.setStatus, hhas]

theorem counted_iff_of_kept {base : Option Int} (h : s.Kept p field base)
    (steps : List (BumpStep ι)) :
    (run (Shared.next p field) s steps).committed.counter p field =
        base.map (· + ((run (Shared.next p field) s steps).commits : Int)) ↔
      Along (Shared.next p field) Shared.Fresh s steps := by
  induction steps generalizing s with
  | nil => exact iff_of_true h.committed.2 trivial
  | cons step steps ih =>
      by_cases hfresh : s.Fresh step
      · rw [Runs.run_cons, ih (h.next hfresh)]
        exact (and_iff_right hfresh).symm
      · obtain ⟨b, rfl, hshort⟩ := h.short hfresh
        have hend : (run (Shared.next p field) (s.next p field step) steps).Short p field b :=
          Runs.run_invariant (fun s step hs => hs.next step) hshort
        obtain ⟨k, hk, hlt⟩ := hend.committed
        refine iff_of_false (fun hcount => ?_) fun halong => hfresh halong.1
        rw [Runs.run_cons, hk, Option.map_some, Option.some.injEq] at hcount
        omega

/-- Whatever the clients of a database do, each bumping the same counter of one node with its
own connection, the counter is the first one and the bumps that have returned if and only if
no bump has committed after another one that committed after its read. -/
theorem bumps_counted_iff (t : Tables Status) (steps : List (BumpStep ι)) :
    let s := run (Shared.next p field) ({ committed := t } : Shared ι) steps
    s.committed.counter p field = (t.counter p field).map (· + (s.commits : Int)) ↔
      Along (Shared.next p field) Shared.Fresh ({ committed := t } : Shared ι) steps :=
  counted_iff_of_kept (kept_init t) steps

/-- A node without a status yet. -/
def oneNode : Tables Status where
  nodes := [⟨['n'], 1, none, fun _ => none⟩]

/-- Both clients read before either has written. -/
theorem not_bumps_counted :
    ¬ ∀ (t : Tables Status) (steps : List (BumpStep Bool)) (p : Path) (field : String),
      let s := run (Shared.next p field) ({ committed := t } : Shared Bool) steps
      s.committed.counter p field = (t.counter p field).map (· + (s.commits : Int)) := by
  intro h
  have hlost := h oneNode [.run false "", .run true "", .run false "", .run true "",
    .run false "", .run false "", .run true "", .run true ""] ['n'] "reconnects"
  revert hlost
  decide +kernel

end Whole

end SlowBus.Commission
