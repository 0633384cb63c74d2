import Mathlib.Data.List.Dedup
import Mathlib.Data.List.Sort
import Mathlib.Data.List.SplitOn
import SlowBus.Lib.Runs
import SlowBus.Lib.Table

/-!
# The namespace database

The three tables of `namespace_db.py` and the calls that write them, on one connection. A
statement takes effect in the implicit transaction of the connection, and only a commit
makes it last; an exception leaves the transaction as it is.
-/

namespace SlowBus.Commission

open Table (delete update upsert)

abbrev Path := List Char
abbrev Uuid := List Char

local instance path_lawfulBEq : LawfulBEq Path := inferInstance

/-- The dotted labels of a path. -/
def labels (p : Path) : List (List Char) := p.splitOn '.'

/-- `_depth` -/
def depth (p : Path) : Nat := p.count '.' + 1

/-- `_is_descendant` -/
def isDescendant (ancestor p : Path) : Bool := (ancestor ++ ['.']).isPrefixOf p

/-- `ltree_descendant`, the proper prefixes in labels. -/
def ltreeDescendant (ancestor p : Path) : Bool :=
  (labels ancestor).isPrefixOf (labels p) && labels ancestor != labels p

/-! ## Tables -/

structure NodeRow (J : Type) where
  path : Path
  depth : Nat
  kind : Option String
  attrs : J
  deriving DecidableEq, Repr

structure BindingRow where
  path : Path
  uuid : Uuid
  vid : Option Int
  pid : Option Int
  boundAt : String
  deriving DecidableEq, Repr

structure StatusRow (J : Type) where
  path : Path
  status : J
  updatedAt : String
  deriving DecidableEq, Repr

/-- `ns_node`, `uuid_binding` and `node_status`. -/
structure Tables (J : Type) where
  nodes : List (NodeRow J) := []
  bindings : List BindingRow := []
  statuses : List (StatusRow J) := []
  deriving DecidableEq, Repr

variable {J : Type}

def Tables.paths (t : Tables J) : List Path := t.nodes.map (·.path)

/-- `DELETE FROM ns_node WHERE path = ?`; the rows that refer to a deleted one go too. -/
def Tables.deleteNode (t : Tables J) (p : Path) : Tables J :=
  let cascades (q : Path) : Bool := q = p ∧ p ∈ t.paths
  { nodes := delete (·.path = p) t.nodes
    bindings := delete (fun b => cascades b.path) t.bindings
    statuses := delete (fun s => cascades s.path) t.statuses }

/-- A connection: the tables as its statements see them, and what is committed. -/
structure Db (J : Type) where
  work : Tables J := {}
  committed : Tables J := {}
  deriving DecidableEq, Repr

def Db.commit (db : Db J) : Db J := { db with committed := db.work }

inductive NsError where
  /-- `NamespaceError` -/
  | namespace
  | alreadyBound
  | uidInUse
  /-- An exception of the JSON functions. -/
  | json
  deriving DecidableEq, Repr

/-! ## Regeneration -/

/-- What is declared of a node. `attrs` is none if they cannot be written as JSON. -/
structure NodeSpec (J : Type) where
  kind : Option String
  attrs : Option J
  deriving DecidableEq, Repr

/-- The declared nodes, a dictionary. -/
structure Declared (J : Type) where
  entries : List (Path × NodeSpec J)
  nodup : (entries.map (·.1)).Nodup

def Declared.paths (d : Declared J) : List Path := d.entries.map (·.1)

def Declared.spec (d : Declared J) (p : Path) : NodeSpec J :=
  ((d.entries.find? (·.1 = p)).map (·.2)).getD ⟨none, none⟩

/-- The order in which a set is gone through. -/
structure SetOrder where
  order : List Path → List Path
  perm : ∀ l, (order l).Perm l

/-- `_put_node`; none when it raises, which is before its statement. -/
def Tables.putNode (t : Tables J) (p : Path) (spec : NodeSpec J) (isUpdate : Bool) :
    Option (Tables J) :=
  spec.attrs.map fun attrs =>
    if isUpdate then
      { t with nodes := update (·.path = p) (fun r => { r with kind := spec.kind, attrs }) t.nodes }
    else { t with nodes := Table.insert ⟨p, depth p, spec.kind, attrs⟩ t.nodes }

/-- A loop of `_put_node`: the tables, and whether it came to its end. -/
def Tables.putNodes (d : Declared J) (isUpdate : Bool) : List Path → Tables J → Tables J × Bool
  | [], t => (t, true)
  | p :: ps, t =>
      match t.putNode p (d.spec p) isUpdate with
      | some t => t.putNodes d isUpdate ps
      | none => (t, false)

/-- The node is `root` or below it. -/
def inSubtree (root p : Path) : Bool := p = root || ltreeDescendant root p

def Tables.existing (t : Tables J) (root : Path) : List Path :=
  (t.paths.filter (inSubtree root)).dedup

def Tables.toDelete (t : Tables J) (ord : SetOrder) (root : Path) (d : Declared J) : List Path :=
  ord.order ((t.existing root).filter (· ∉ d.paths))

/-- Parents before children. -/
def Tables.toAdd (t : Tables J) (ord : SetOrder) (root : Path) (d : Declared J) : List Path :=
  (ord.order (d.paths.filter (· ∉ t.existing root))).insertionSort fun p q => depth p ≤ depth q

def Tables.toKeep (t : Tables J) (ord : SetOrder) (root : Path) (d : Declared J) : List Path :=
  ord.order (d.paths.filter (· ∈ t.existing root))

/-- The statements of `regen_subtree`: the tables, and whether none of its rows raised. -/
def Tables.regen (t : Tables J) (ord : SetOrder) (root : Path) (d : Declared J) :
    Tables J × Bool :=
  let deleted := (t.toDelete ord root d).foldl Tables.deleteNode t
  match deleted.putNodes d false (t.toAdd ord root d) with
  | (added, false) => (added, false)
  | (added, true) => added.putNodes d true (t.toKeep ord root d)

/-- `regen_subtree` -/
def Db.regenSubtree (db : Db J) (ord : SetOrder) (root : Path) (d : Declared J) :
    Except NsError Unit × Db J :=
  if d.paths.any fun p => p ≠ root ∧ isDescendant root p = false then (.error .namespace, db)
  else
    match db.work.regen ord root d with
    | (t, true) => (.ok (), ({ db with work := t } : Db J).commit)
    | (t, false) => (.error .json, { db with work := t })

/-! ## Bindings -/

/-- `resolve_uuid` -/
def Db.resolveUuid (db : Db J) (p : Path) : Option Uuid :=
  (db.work.bindings.find? (·.path = p)).map (·.uuid)

/-- `resolve_path` -/
def Db.resolvePath (db : Db J) (uuid : Uuid) : Option Path :=
  (db.work.bindings.find? (·.uuid = uuid)).map (·.path)

/-- `get_node` finds the node. -/
def Db.hasNode (db : Db J) (p : Path) : Bool := p ∈ db.work.paths

def Db.setBindings (db : Db J) (bindings : List BindingRow) : Db J :=
  { db with work := { db.work with bindings } }

/-- `bind_uuid`. The owner is tested for truth, and an empty path is not true. -/
def Db.bindUuid (db : Db J) (row : BindingRow) : Except NsError Unit × Db J :=
  if db.hasNode row.path = false then (.error .namespace, db)
  else if (db.resolveUuid row.path).any (· ≠ row.uuid) then (.error .alreadyBound, db)
  else if (db.resolvePath row.uuid).any fun owner => owner ≠ [] ∧ owner ≠ row.path then
    (.error .uidInUse, db)
  else
    (.ok (), (db.setBindings (upsert (·.path) row (fun _ => row) db.work.bindings)).commit)

/-- `rebind` -/
def Db.rebind (db : Db J) (row : BindingRow) : Except NsError Unit × Db J :=
  if db.hasNode row.path = false then (.error .namespace, db)
  else
    let released := delete (fun b => b.uuid = row.uuid ∨ b.path = row.path) db.work.bindings
    (.ok (), (db.setBindings (Table.insert row released)).commit)

/-- `unbind` -/
def Db.unbind (db : Db J) (p : Path) : Except NsError Unit × Db J :=
  (.ok (), (db.setBindings (delete (·.path = p) db.work.bindings)).commit)

/-! ## Status -/

/-- `json_patch` of SQLite, and the fields that `bump_status` writes: none when the counter
is not a number. -/
structure JsonFns (J : Type) where
  patch : J → J → J
  bump : Option J → String → Int → Option J

/-- `get_status` -/
def Db.getStatus (db : Db J) (p : Path) : Option J :=
  (db.work.statuses.find? (·.path = p)).map (·.status)

/-- The row after a conflict of the insert. -/
def StatusRow.write (fns : JsonFns J) (status : J) (merge : Bool) (now : String)
    (s : StatusRow J) : StatusRow J :=
  { s with
    status := if merge then fns.patch s.status status else status
    updatedAt := now }

/-- `set_status`; `fields` is none if they cannot be written as JSON. -/
def Db.setStatus (fns : JsonFns J) (db : Db J) (p : Path) (fields : Option J) (merge : Bool)
    (now : String) : Except NsError Unit × Db J :=
  if db.hasNode p = false then (.error .namespace, db)
  else
    match fields with
    | none => (.error .json, db)
    | some status =>
        let statuses :=
          upsert (·.path) ⟨p, status, now⟩ (StatusRow.write fns status merge now) db.work.statuses
        (.ok (), ({ db with work := { db.work with statuses } } : Db J).commit)

/-- `bump_status` -/
def Db.bumpStatus (fns : JsonFns J) (db : Db J) (p : Path) (field : String) (inc : Int)
    (now : String) : Except NsError Unit × Db J :=
  match fns.bump (db.getStatus p) field inc with
  | none => (.error .json, db)
  | some fields => db.setStatus fns p (some fields) true now

/-! ## Calls -/

inductive NsCall (J : Type) where
  | regenSubtree (ord : SetOrder) (root : Path) (d : Declared J)
  | bindUuid (row : BindingRow)
  | rebind (row : BindingRow)
  | unbind (p : Path)
  | setStatus (p : Path) (fields : Option J) (merge : Bool) (now : String)
  | bumpStatus (p : Path) (field : String) (inc : Int) (now : String)

def Db.call (fns : JsonFns J) (db : Db J) : NsCall J → Except NsError Unit × Db J
  | .regenSubtree ord root d => db.regenSubtree ord root d
  | .bindUuid row => db.bindUuid row
  | .rebind row => db.rebind row
  | .unbind p => db.unbind p
  | .setStatus p fields merge now => db.setStatus fns p fields merge now
  | .bumpStatus p field inc now => db.bumpStatus fns p field inc now

/-- The connection after a call, whether or not it returned. -/
def Db.next (fns : JsonFns J) (db : Db J) (c : NsCall J) : Db J := (db.call fns c).2

/-! ## Paths -/

theorem intercalate_append {x : List Char} {as bs : List (List Char)} (ha : as ≠ [])
    (hb : bs ≠ []) : x.intercalate (as ++ bs) = x.intercalate as ++ x ++ x.intercalate bs := by
  induction as with
  | nil => exact absurd rfl ha
  | cons a as ih =>
      rw [List.cons_append, List.intercalate_cons_of_ne_nil (by simp [hb])]
      by_cases has : as = []
      · simp [has]
      · rw [ih has, List.intercalate_cons_of_ne_nil has]
        simp

/-- The two readings of "below". -/
theorem isDescendant_eq (ancestor p : Path) :
    isDescendant ancestor p = ltreeDescendant ancestor p := by
  rw [Bool.eq_iff_iff]
  unfold isDescendant ltreeDescendant labels
  rw [Bool.and_eq_true, List.isPrefixOf_iff_prefix, List.isPrefixOf_iff_prefix, bne_iff_ne]
  constructor
  · rintro ⟨rest, rfl⟩
    have hsplit : (ancestor ++ ['.'] ++ rest).splitOn '.' =
        ancestor.splitOn '.' ++ rest.splitOn '.' := by
      rw [List.append_assoc]
      exact List.splitOn_append_cons_self ancestor rest
    rw [hsplit]
    exact ⟨List.prefix_append _ _, by simp [List.splitOn_ne_nil]⟩
  · rintro ⟨⟨rest, hrest⟩, hne⟩
    have hnil : rest ≠ [] := by
      rintro rfl
      exact hne (by rw [← hrest, List.append_nil])
    have hjoin : ['.'].intercalate (p.splitOn '.') = p := List.intercalate_splitOn '.'
    rw [← hrest, intercalate_append (List.splitOn_ne_nil _ _) hnil,
      List.intercalate_splitOn] at hjoin
    exact ⟨_, hjoin⟩

/-! ## What regeneration writes -/

section Regen

variable {t : Tables J} {d : Declared J} {ord : SetOrder} {root p : Path} {ps : List Path}

/-- The attributes of the node can be written. -/
def Declared.dumps (d : Declared J) (p : Path) : Bool := (d.spec p).attrs.isSome

/-- The row with what is declared of its node. -/
def Declared.row (d : Declared J) (r : NodeRow J) : NodeRow J :=
  match (d.spec r.path).attrs with
  | some attrs => { r with kind := (d.spec r.path).kind, attrs }
  | none => r

@[simp] theorem Declared.row_path (d : Declared J) (r : NodeRow J) : (d.row r).path = r.path := by
  unfold Declared.row
  split <;> rfl

@[simp] theorem Declared.row_row (d : Declared J) (r : NodeRow J) : d.row (d.row r) = d.row r := by
  cases hattrs : (d.spec r.path).attrs with
  | none =>
      have hrow : d.row r = r := by simp [Declared.row, hattrs]
      rw [hrow, hrow]
  | some attrs => simp [Declared.row, hattrs]

theorem mem_foldl_deleteNode {r : NodeRow J} :
    r ∈ (ps.foldl Tables.deleteNode t).nodes ↔ r ∈ t.nodes ∧ r.path ∉ ps := by
  induction ps generalizing t with
  | nil => simp
  | cons p ps ih =>
      rw [List.foldl_cons, ih]
      simp [Tables.deleteNode, and_assoc]

/-- The first loop inserts the rows up to the first that cannot be written. -/
theorem putNodes_insert (t : Tables J) (d : Declared J) (ps : List Path) :
    (t.putNodes d false ps).2 = ps.all d.dumps ∧
      ∃ rows, (t.putNodes d false ps).1 = { t with nodes := t.nodes ++ rows } ∧
        rows.map (·.path) = ps.takeWhile d.dumps := by
  induction ps generalizing t with
  | nil => exact ⟨rfl, [], by simp [Tables.putNodes], rfl⟩
  | cons p ps ih =>
      unfold Tables.putNodes Tables.putNode
      cases hattrs : (d.spec p).attrs with
      | none =>
          have hdumps : d.dumps p = false := by simp [Declared.dumps, hattrs]
          exact ⟨by simp [hdumps], [], by simp, by simp [hdumps]⟩
      | some attrs =>
          have hdumps : d.dumps p = true := by simp [Declared.dumps, hattrs]
          obtain ⟨hall, rows, heq, hpaths⟩ :=
            ih { t with nodes := t.nodes ++ [⟨p, depth p, (d.spec p).kind, attrs⟩] }
          refine ⟨by simpa [hdumps, Table.insert] using hall,
            ⟨p, depth p, (d.spec p).kind, attrs⟩ :: rows, ?_, ?_⟩
          · simpa [Table.insert] using heq
          · simp [hdumps, hpaths]

/-- The second loop writes what is declared into the rows up to the first that cannot be
written. -/
theorem putNodes_update (t : Tables J) (d : Declared J) (ps : List Path) :
    t.putNodes d true ps =
      ({ t with
          nodes := t.nodes.map fun r => if r.path ∈ ps.takeWhile d.dumps then d.row r else r },
        ps.all d.dumps) := by
  induction ps generalizing t with
  | nil => simp [Tables.putNodes]
  | cons p ps ih =>
      unfold Tables.putNodes Tables.putNode
      cases hattrs : (d.spec p).attrs with
      | none =>
          have hdumps : d.dumps p = false := by simp [Declared.dumps, hattrs]
          simp [hdumps]
      | some attrs =>
          have hdumps : d.dumps p = true := by simp [Declared.dumps, hattrs]
          have hupdate : update (fun r : NodeRow J => r.path = p)
              (fun r => { r with kind := (d.spec p).kind, attrs }) t.nodes =
              t.nodes.map fun r => if r.path = p then d.row r else r := by
            refine List.map_congr_left fun r _ => ?_
            by_cases hp : r.path = p <;> simp [hp, Declared.row, hattrs]
          simp only [Option.map_some, if_true, ih, hupdate, List.map_map, List.all_cons, hdumps,
            Bool.true_and, List.takeWhile_cons, List.mem_cons, Prod.mk.injEq, and_true]
          congr 1
          refine List.map_congr_left fun r _ => ?_
          by_cases hp : r.path = p <;> simp [hp]

/-- The second loop is reached if everything that is inserted can be written. -/
theorem regen_eq (t : Tables J) (ord : SetOrder) (root : Path) (d : Declared J) :
    t.regen ord root d =
      let added := (((t.toDelete ord root d).foldl Tables.deleteNode t).putNodes d false
        (t.toAdd ord root d)).1
      if (t.toAdd ord root d).all d.dumps then added.putNodes d true (t.toKeep ord root d)
      else (added, false) := by
  unfold Tables.regen
  dsimp only
  generalize (t.toDelete ord root d).foldl Tables.deleteNode t = deleted
  rw [← (putNodes_insert deleted d (t.toAdd ord root d)).1]
  generalize deleted.putNodes d false (t.toAdd ord root d) = result
  obtain ⟨added, ended⟩ := result
  cases ended <;> rfl

end Regen

end SlowBus.Commission
