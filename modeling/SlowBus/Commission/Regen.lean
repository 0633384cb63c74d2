import Mathlib.Data.List.TakeWhile
import SlowBus.Commission.Bindings

/-!
# A regeneration that raises

What it has written by then stays in the transaction of the connection, and the next call
that commits makes it last.
-/

namespace SlowBus.Commission

open Runs (run)

variable {J : Type} {fns : JsonFns J} {db : Db J} {t : Tables J} {d : Declared J}
  {ord : SetOrder} {root p : Path}

/-- The nodes and the bindings are the same, as the connection sees them and as they are
committed. -/
structure Db.SameRows (db db' : Db J) : Prop where
  nodes : ∀ r, r ∈ db.work.nodes ↔ r ∈ db'.work.nodes
  bindings : ∀ b, b ∈ db.work.bindings ↔ b ∈ db'.work.bindings
  lastingNodes : ∀ r, r ∈ db.committed.nodes ↔ r ∈ db'.committed.nodes
  lastingBindings : ∀ b, b ∈ db.committed.bindings ↔ b ∈ db'.committed.bindings

/-- Whatever is called later, the regeneration cannot be told from one that was not tried. -/
def Db.RegenAtomic (fns : JsonFns J) (db : Db J) (ord : SetOrder) (root : Path) (d : Declared J) :
    Prop :=
  ∀ calls, (run (Db.next fns) (db.regenSubtree ord root d).2 calls).SameRows
    (run (Db.next fns) db calls)

/-- A declared node is outside of the subtree. -/
def Declared.OutOfScope (d : Declared J) (root : Path) : Prop :=
  ∃ p ∈ d.paths, p ≠ root ∧ isDescendant root p = false

/-- The node is there with the kind and the attributes that are declared. -/
def Tables.Stored (t : Tables J) (d : Declared J) (p : Path) : Prop :=
  p ∈ t.paths ∧
    ∀ r ∈ t.nodes, r.path = p → r.kind = (d.spec p).kind ∧ some r.attrs = (d.spec p).attrs

/-- The existing nodes that are written before a row raises. -/
def Tables.rewritten (t : Tables J) (ord : SetOrder) (root : Path) (d : Declared J) :
    List Path :=
  if (t.toAdd ord root d).all d.dumps then (t.toKeep ord root d).takeWhile d.dumps else []

/-- The nodes that are written before a row raises. -/
def Tables.written (t : Tables J) (ord : SetOrder) (root : Path) (d : Declared J) : List Path :=
  (t.toAdd ord root d).takeWhile d.dumps ++ t.rewritten ord root d

/-- The check of the scope raises, or nothing is to be deleted and all that is written is
there already. -/
def Db.RegenIdle (db : Db J) (ord : SetOrder) (root : Path) (d : Declared J) : Prop :=
  d.OutOfScope root ∨ db.work.toDelete ord root d = [] ∧
    ∀ p ∈ db.work.written ord root d, db.work.Stored d p

theorem Tables.Stored.row_eq (h : t.Stored d p) {r : NodeRow J} (hr : r ∈ t.nodes)
    (hp : r.path = p) : d.row r = r := by
  obtain ⟨hkind, hattrs⟩ := h.2 r hr hp
  rw [← hp] at hkind hattrs
  simp [Declared.row, ← hattrs, ← hkind]

theorem stored_of_row_eq (hp : p ∈ t.paths) (hdumps : d.dumps p = true)
    (h : ∀ r ∈ t.nodes, r.path = p → d.row r = r) : t.Stored d p := by
  refine ⟨hp, fun r hr hr' => ?_⟩
  obtain ⟨attrs, hattrs⟩ := Option.isSome_iff_exists.mp hdumps
  have hrow := h r hr hr'
  simp only [Declared.row, hr', hattrs] at hrow
  rw [hattrs]
  exact ⟨by rw [← hrow], by rw [← hrow]⟩

/-- The tables after a regeneration, whether or not it raised. -/
theorem tables_regen (t : Tables J) (ord : SetOrder) (root : Path) (d : Declared J) :
    ∃ rows : List (NodeRow J), rows.map (·.path) = (t.toAdd ord root d).takeWhile d.dumps ∧
      (t.regen ord root d).1 =
        { (t.toDelete ord root d).foldl Tables.deleteNode t with
          nodes := (((t.toDelete ord root d).foldl Tables.deleteNode t).nodes ++ rows).map fun r =>
            if r.path ∈ t.rewritten ord root d then d.row r else r } := by
  rw [regen_eq]
  unfold Tables.rewritten
  generalize (t.toDelete ord root d).foldl Tables.deleteNode t = deleted
  obtain ⟨-, rows, heq, hpaths⟩ := putNodes_insert deleted d (t.toAdd ord root d)
  refine ⟨rows, hpaths, ?_⟩
  dsimp only
  rw [heq]
  split
  next => rw [putNodes_update]
  next => simp

/-- The check of the scope. -/
theorem any_outOfScope :
    (d.paths.any fun p => p ≠ root ∧ isDescendant root p = false) = true ↔ d.OutOfScope root := by
  simp [Declared.OutOfScope]

/-- A regeneration that raises after the check of the scope does not commit. -/
theorem regenSubtree_raises (hscope : ¬ d.OutOfScope root)
    (hraise : (db.regenSubtree ord root d).1 ≠ .ok ()) :
    (db.regenSubtree ord root d).2 = { db with work := (db.work.regen ord root d).1 } := by
  unfold Db.regenSubtree at hraise ⊢
  rw [if_neg (mt any_outOfScope.mp hscope)] at hraise ⊢
  generalize db.work.regen ord root d = result at hraise ⊢
  obtain ⟨t, ended⟩ := result
  cases ended with
  | true => exact (hraise rfl).elim
  | false => rfl

theorem regenSubtree_outOfScope (h : d.OutOfScope root) :
    (db.regenSubtree ord root d).2 = db := by
  unfold Db.regenSubtree
  rw [if_pos (any_outOfScope.mpr h)]

theorem inScope (h : ¬ d.OutOfScope root) :
    ∀ p ∈ d.paths, p = root ∨ isDescendant root p = true := by
  intro p hp
  by_contra hnot
  exact h ⟨p, hp, fun heq => hnot (.inl heq), by simpa using fun hbelow => hnot (.inr hbelow)⟩

theorem mem_paths_of_toDelete (hp : p ∈ t.toDelete ord root d) : p ∈ t.paths := by
  have hmem : p ∈ (t.existing root).filter (· ∉ d.paths) := (ord.perm _).mem_iff.mp hp
  exact (List.mem_filter.mp (List.mem_dedup.mp (List.mem_filter.mp hmem).1)).1

theorem mem_paths_of_rewritten (hp : p ∈ t.rewritten ord root d) :
    p ∈ t.paths ∧ d.dumps p = true := by
  unfold Tables.rewritten at hp
  split at hp
  next =>
    have hkeep : p ∈ d.paths.filter (· ∈ t.existing root) :=
      (ord.perm _).mem_iff.mp ((List.takeWhile_sublist _).subset hp)
    have hexisting := of_decide_eq_true (List.mem_filter.mp hkeep).2
    exact ⟨(List.mem_filter.mp (List.mem_dedup.mp hexisting)).1, List.mem_takeWhile_imp hp⟩
  next => cases hp

/-- Nothing is written that is not there already. -/
theorem regen_idle (hscope : ¬ d.OutOfScope root) (hdelete : t.toDelete ord root d = [])
    (hstored : ∀ p ∈ t.written ord root d, t.Stored d p) : (t.regen ord root d).1 = t := by
  obtain ⟨rows, hpaths, heq⟩ := tables_regen t ord root d
  have hrows : rows = [] := by
    rw [← List.map_eq_nil_iff, hpaths, List.eq_nil_iff_forall_not_mem]
    intro p hp
    exact not_mem_of_toAdd (inScope hscope) ((List.takeWhile_sublist _).subset hp)
      (hstored p (List.mem_append_left _ hp)).1
  have hsame : (t.nodes.map fun r => if r.path ∈ t.rewritten ord root d then d.row r else r) =
      t.nodes := by
    refine (List.map_congr_left fun r hr => ?_).trans (List.map_id _)
    split
    next hmem => exact (hstored _ (List.mem_append_right _ hmem)).row_eq hr rfl
    next => rfl
  rw [heq, hdelete, hrows, List.append_nil]
  exact congrArg (fun nodes => { t with nodes }) hsame

/-- If the nodes are the same afterwards, nothing was written that was not there already. -/
theorem idle_of_nodes (hscope : ¬ d.OutOfScope root)
    (h : ∀ r, r ∈ (t.regen ord root d).1.nodes ↔ r ∈ t.nodes) :
    t.toDelete ord root d = [] ∧ ∀ p ∈ t.written ord root d, t.Stored d p := by
  obtain ⟨rows, hpaths, heq⟩ := tables_regen t ord root d
  have hmem : ∀ r, r ∈ t.nodes ↔ ∃ r₀, (r₀ ∈ t.nodes ∧ r₀.path ∉ t.toDelete ord root d ∨
      r₀ ∈ rows) ∧ (if r₀.path ∈ t.rewritten ord root d then d.row r₀ else r₀) = r := by
    intro r
    rw [← h r, heq, List.mem_map]
    simp only [List.mem_append, mem_foldl_deleteNode]
  have hpath (r : NodeRow J) :
      (if r.path ∈ t.rewritten ord root d then d.row r else r).path = r.path := by
    split
    next => exact d.row_path r
    next => rfl
  -- a row that was inserted would be a new node
  have hnew : ∀ r ∈ rows, r.path ∉ t.paths := fun r hr =>
    not_mem_of_toAdd (inScope hscope)
      ((List.takeWhile_sublist _).subset (hpaths ▸ List.mem_map_of_mem hr))
  have hold : rows = [] := by
    rw [List.eq_nil_iff_forall_not_mem]
    intro r hr
    have hr' := (hmem _).mpr ⟨r, .inr hr, rfl⟩
    exact hnew r hr (hpath r ▸ List.mem_map_of_mem hr')
  subst hold
  simp only [List.not_mem_nil, or_false] at hmem
  constructor
  · rw [List.eq_nil_iff_forall_not_mem]
    intro p hp
    obtain ⟨r, hr, rfl⟩ := List.mem_map.mp (mem_paths_of_toDelete hp)
    obtain ⟨r₀, ⟨-, hstays⟩, hr₀⟩ := (hmem r).mp hr
    exact hstays (hpath r₀ ▸ hr₀ ▸ hp)
  · intro p hp
    rcases List.mem_append.mp hp with hp | hp
    · rw [← hpaths] at hp
      cases hp
    · obtain ⟨hp', hdumps⟩ := mem_paths_of_rewritten hp
      refine stored_of_row_eq hp' hdumps fun r hr hr' => ?_
      obtain ⟨r₀, -, hr₀⟩ := (hmem r).mp hr
      have hr₀' : r₀.path ∈ t.rewritten ord root d := by
        rw [← hpath r₀, hr₀, hr']
        exact hp
      rw [if_pos hr₀'] at hr₀
      rw [← hr₀, d.row_row]

/-- A regeneration that raises is undone if and only if it had done nothing. -/
theorem regen_atomic (fns : JsonFns J) (db : Db J) (ord : SetOrder) (root : Path)
    (d : Declared J) (hraise : (db.regenSubtree ord root d).1 ≠ .ok ()) :
    db.RegenAtomic fns ord root d ↔ db.RegenIdle ord root d := by
  by_cases hscope : d.OutOfScope root
  · refine iff_of_true (fun calls => ?_) (.inl hscope)
    rw [regenSubtree_outOfScope hscope]
    exact ⟨fun _ => .rfl, fun _ => .rfl, fun _ => .rfl, fun _ => .rfl⟩
  · unfold Db.RegenAtomic Db.RegenIdle
    rw [regenSubtree_raises hscope hraise, or_iff_right hscope]
    constructor
    · intro hall
      -- a call that commits and leaves the nodes alone
      exact idle_of_nodes hscope (hall [.unbind []]).lastingNodes
    · rintro ⟨hdelete, hstored⟩ calls
      rw [regen_idle hscope hdelete hstored]
      exact ⟨fun _ => .rfl, fun _ => .rfl, fun _ => .rfl, fun _ => .rfl⟩

/-- `r`, `r.a` and `r.b`, and a board bound to `r.a`. -/
def boundTables : Tables Nat where
  nodes := [⟨"r".toList, 1, none, 10⟩, ⟨"r.a".toList, 2, some "dongle", 20⟩,
    ⟨"r.b".toList, 3, none, 30⟩]
  bindings := [⟨"r.a".toList, "U".toList, none, none, ""⟩]

/-- `r` and `r.a` as they are stored; the attributes of `r.b` cannot be written. -/
def redeclared : Declared Nat where
  entries := [("r".toList, ⟨none, some 10⟩), ("r.a".toList, ⟨some "dongle", some 20⟩),
    ("r.b".toList, ⟨none, none⟩)]
  nodup := by decide

/-- Both are written again before `r.b` raises. -/
theorem regen_atomic_redeclared : ∃ ord : SetOrder,
    (Db.regenSubtree ⟨boundTables, boundTables⟩ ord "r".toList redeclared).1 ≠ .ok () ∧
      boundTables.written ord "r".toList redeclared = ["r".toList, "r.a".toList] ∧
      Db.RegenAtomic ⟨fun s _ => s, fun s _ _ => s⟩ ⟨boundTables, boundTables⟩ ord "r".toList
        redeclared := by
  let ord : SetOrder := ⟨id, fun _ => .refl _⟩
  have hwritten : boundTables.written ord "r".toList redeclared = ["r".toList, "r.a".toList] := by
    decide
  have hstored : ∀ p ∈ ["r".toList, "r.a".toList], boundTables.Stored redeclared p := by
    unfold Tables.Stored
    decide
  refine ⟨ord, by decide, hwritten, ?_⟩
  exact (regen_atomic _ ⟨boundTables, boundTables⟩ ord _ _ (by decide)).mpr
    (.inr ⟨by decide, hwritten ▸ hstored⟩)

/-- `r.a` is bound and no longer declared, `r.b` is declared with attributes that cannot be
written: setting the status of `r` then commits that `r.a` is gone, with its binding. -/
theorem not_regen_atomic : ¬ ∀ (fns : JsonFns Unit) (db : Db Unit) (ord : SetOrder) (root : Path)
    (d : Declared Unit), (db.regenSubtree ord root d).1 ≠ .ok () →
      db.RegenAtomic fns ord root d := by
  intro hall
  let tables : Tables Unit :=
    { nodes := [⟨"r".toList, 1, none, ()⟩, ⟨"r.a".toList, 2, none, ()⟩]
      bindings := [⟨"r.a".toList, "U".toList, none, none, ""⟩] }
  let declared : Declared Unit :=
    ⟨[("r".toList, ⟨none, some ()⟩), ("r.b".toList, ⟨none, none⟩)], by decide⟩
  have hatomic := hall ⟨fun s _ => s, fun s _ _ => s⟩ ⟨tables, tables⟩ ⟨id, fun _ => .refl _⟩
    "r".toList declared (by decide)
  have hsame := (hatomic [.setStatus "r".toList (some ()) true ""]).lastingBindings
    ⟨"r.a".toList, "U".toList, none, none, ""⟩
  exact absurd hsame (by decide)

end SlowBus.Commission
