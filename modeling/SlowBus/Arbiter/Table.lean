import Mathlib.Data.List.DropRight
import SlowBus.Arbiter.Pool

/-!
# Roster and node table

The roster is the configured set of slaves. The cyclic engine works on a table
derived from it, ordered by bus address, which also carries the heads of the two
message lists of each node. Liveness is kept in both.
-/

namespace SlowBus.Arbiter

def rosterMax : Nat := 16

/-- `ST_UNKNOWN`, `ST_ALIVE` and `ST_DEAD`. -/
inductive SlaveState where
  | unknown | alive | dead
  deriving DecidableEq, Repr

/-- `slave_t`; `enabled` is the `FLAG_ENABLED` bit of its flags. -/
structure Slave where
  addr : Nat
  enabled : Bool
  state : SlaveState := .unknown
  misses : Nat := 0
  deriving DecidableEq, Repr

/-- `bus_node_t`; the two list heads are `list false` and `list true`. -/
structure Node where
  addr : Nat
  enabled : Bool
  dead : Bool := false
  miss : Nat := 0
  list : Bool → Option Buf := fun _ => none

/-! ## The roster -/

/-- Edit the entry `roster_find` returns. -/
def rosterModify (addr : Nat) (f : Slave → Slave) (roster : List Slave) : List Slave :=
  match roster.findIdx? (·.addr == addr) with
  | none => roster
  | some i => roster.modify i f

/-- `mark_alive` -/
def markAlive (addr : Nat) (roster : List Slave) : List Slave :=
  rosterModify addr (fun s => { s with misses := 0, state := .alive }) roster

def Slave.miss (maxMisses : Nat) (s : Slave) : Slave :=
  let misses := if s.misses < 0xFF then s.misses + 1 else s.misses
  { s with
    misses
    state := if s.state ≠ .dead ∧ maxMisses ≤ misses then .dead else s.state }

/-- `mark_miss` -/
def markMiss (maxMisses addr : Nat) (roster : List Slave) : List Slave :=
  rosterModify addr (Slave.miss maxMisses) roster

/-- What `next_enabled_addr` returns when there is no enabled entry. -/
def noAddr : Nat := 0xFF

/-- `next_enabled_addr`: up to `n` entries are tried from the cursor on. -/
def nextEnabledAddr (roster : List Slave) : Nat → Nat → Nat × Nat
  | 0, cursor => (noAddr, cursor)
  | n + 1, cursor =>
      let next := (cursor + 1) % roster.length
      match roster[cursor]? with
      | none => (noAddr, cursor)
      | some s => if s.enabled then (s.addr, next) else nextEnabledAddr roster n next

/-! ## The node table -/

/-- The insertion step of `bus_nodetable_build`: entries with a larger address
are shifted up. -/
def insertNode (e : Node) (nodes : List Node) : List Node :=
  let larger (n : Node) : Bool := decide (e.addr < n.addr)
  nodes.rdropWhile larger ++ e :: nodes.rtakeWhile larger

/-- A fresh table entry. -/
def Slave.node (s : Slave) : Node := { addr := s.addr, enabled := s.enabled }

/-- `bus_nodetable_build` -/
def busNodetableBuild (roster : List Slave) : List Node :=
  roster.foldl (fun nodes s =>
    if nodes.length < rosterMax then insertNode s.node nodes else nodes) []

/-- `node_index_of` -/
def nodeIndexOf (nodes : List Node) (addr : Nat) : Option Nat :=
  nodes.findIdx? (·.addr == addr)

/-- Write one list head. -/
def Node.setList (n : Node) (parity : Bool) (head : Option Buf) : Node :=
  { n with list := Function.update n.list parity head }

/-- The sweep's verdict on a node that did not answer. -/
def Node.missed (maxMisses : Nat) (n : Node) : Node :=
  if n.miss < 0xFF then
    { n with
      miss := n.miss + 1
      dead := n.dead || decide (maxMisses ≤ n.miss + 1) }
  else n

/-- The sweep's verdict on a node that answered. -/
def Node.heard (n : Node) : Node := { n with miss := 0 }

/-- The probe's verdict on a dead node that answered. -/
def Node.revived (n : Node) : Node := { n with dead := false, miss := 0 }

/-! ## What the table holds -/

theorem insertNode_perm (e : Node) (nodes : List Node) :
    (insertNode e nodes).Perm (e :: nodes) := by
  rw [insertNode]
  refine List.perm_middle.trans (List.Perm.cons e ?_)
  rw [List.rdropWhile_append_rtakeWhile]

/-- Building only ever inserts fresh entries. -/
theorem mem_busNodetableBuild {roster : List Slave} {node : Node}
    (h : node ∈ busNodetableBuild roster) : ∃ s ∈ roster, node = s.node := by
  induction roster using List.reverseRecOn with
  | nil => cases h
  | append_singleton roster s ih =>
      rw [busNodetableBuild, List.foldl_append, List.foldl_cons, List.foldl_nil] at h
      split at h
      · rcases List.mem_cons.mp ((insertNode_perm _ _).mem_iff.mp h) with rfl | h
        · exact ⟨s, by simp, rfl⟩
        · obtain ⟨s', hs', rfl⟩ := ih h
          exact ⟨s', by simp [hs'], rfl⟩
      · obtain ⟨s', hs', rfl⟩ := ih h
        exact ⟨s', by simp [hs'], rfl⟩

/-- A roster that fits is taken over whole. -/
theorem busNodetableBuild_perm {roster : List Slave} (h : roster.length ≤ rosterMax) :
    (busNodetableBuild roster).Perm (roster.map Slave.node) := by
  induction roster using List.reverseRecOn with
  | nil => exact List.Perm.nil
  | append_singleton roster s ih =>
      rw [List.length_append, List.length_singleton] at h
      have ih := ih (by omega)
      have hlength : (busNodetableBuild roster).length < rosterMax := by
        rw [ih.length_eq, List.length_map]
        omega
      rw [busNodetableBuild, List.foldl_append, List.foldl_cons, List.foldl_nil]
      change (if (busNodetableBuild roster).length < rosterMax
        then insertNode s.node (busNodetableBuild roster) else _).Perm _
      rw [if_pos hlength, List.map_append]
      exact (insertNode_perm _ _).trans ((ih.cons _).trans (List.perm_append_singleton ..).symm)

end SlowBus.Arbiter
