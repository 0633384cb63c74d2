import SlowBus.Commission.Namespace

/-!
# Bindings of the namespace

The calls keep by themselves what the constraints of the tables ask, and a binding that is
made can be looked up both ways. The exception is the empty path: as the owner of a UUID it
is taken for no owner.
-/

namespace SlowBus.Commission

open Runs (Along)
open Table (Unique delete update upsert)

variable {J : Type} {fns : JsonFns J} {db : Db J} {t : Tables J} {d : Declared J}
  {ord : SetOrder} {root p : Path} {ps : List Path} {row : BindingRow}

/-- What the keys and the references of the tables ask. -/
structure Tables.Consistent (t : Tables J) : Prop where
  nodes : t.paths.Nodup
  bindings : Unique BindingRow.path t.bindings
  uuids : Unique BindingRow.uuid t.bindings
  statuses : Unique StatusRow.path t.statuses
  bound : ∀ b ∈ t.bindings, b.path ∈ t.paths
  known : ∀ s ∈ t.statuses, s.path ∈ t.paths

def Db.Resolves (db : Db J) (row : BindingRow) : Prop :=
  db.resolveUuid row.path = some row.uuid ∧ db.resolvePath row.uuid = some row.path

/-- A binding that a call makes can be looked up both ways. -/
def Db.Binds (db : Db J) : NsCall J → Prop
  | .bindUuid row => (db.bindUuid row).1 = .ok () → (db.bindUuid row).2.Resolves row
  | .rebind row => (db.rebind row).1 = .ok () → (db.rebind row).2.Resolves row
  | _ => True

/-- A call leaves consistent tables, and binds. -/
def Db.Sound (fns : JsonFns J) (db : Db J) (c : NsCall J) : Prop :=
  (db.next fns c).work.Consistent ∧ db.Binds c

/-- No other node that has no binding is bound to the UUID of the empty path. -/
def Db.Proper (db : Db J) : NsCall J → Prop
  | .bindUuid row =>
      ¬ (row.path ≠ [] ∧ db.hasNode row.path = true ∧ db.resolveUuid row.path = none ∧
        db.resolvePath row.uuid = some [])
  | _ => True

/-! ## Regeneration -/

/-- Only the references of the deleted node are lost, and with it they go. -/
theorem Tables.Consistent.deleteNode (h : t.Consistent) (p : Path) :
    (t.deleteNode p).Consistent := by
  have hstays : ∀ q ∈ t.paths, (decide (q = p ∧ p ∈ t.paths)) = false →
      q ∈ (t.deleteNode p).paths := by
    intro q hq hcascades
    obtain ⟨r, hr, rfl⟩ := List.mem_map.mp hq
    refine List.mem_map_of_mem (Table.mem_delete.mpr ⟨hr, ?_⟩)
    simp only [decide_eq_false_iff_not, not_and] at hcascades ⊢
    rintro rfl
    exact hcascades rfl hq
  exact
    { nodes := Unique.delete h.nodes
      bindings := h.bindings.delete
      uuids := h.uuids.delete
      statuses := h.statuses.delete
      bound := fun b hb =>
        hstays _ (h.bound b (Table.mem_delete.mp hb).1) (Table.mem_delete.mp hb).2
      known := fun s hs =>
        hstays _ (h.known s (Table.mem_delete.mp hs).1) (Table.mem_delete.mp hs).2 }

theorem Tables.Consistent.deleteNodes (h : t.Consistent) (ps : List Path) :
    (ps.foldl Tables.deleteNode t).Consistent := by
  induction ps generalizing t with
  | nil => exact h
  | cons p ps ih => exact ih (h.deleteNode p)

theorem Tables.Consistent.addNodes (h : t.Consistent) {rows : List (NodeRow J)}
    (hnodup : (rows.map (·.path)).Nodup) (hnew : ∀ p ∈ rows.map (·.path), p ∉ t.paths) :
    ({ t with nodes := t.nodes ++ rows } : Tables J).Consistent := by
  have hpaths : ({ t with nodes := t.nodes ++ rows } : Tables J).paths =
      t.paths ++ rows.map (·.path) := List.map_append
  exact
    { h with
      nodes := by
        rw [hpaths]
        exact h.nodes.append hnodup fun p hp hp' => hnew p hp' hp
      bound := fun b hb => hpaths ▸ List.mem_append_left _ (h.bound b hb)
      known := fun s hs => hpaths ▸ List.mem_append_left _ (h.known s hs) }

theorem Tables.Consistent.mapNodes (h : t.Consistent) {f : NodeRow J → NodeRow J}
    (hf : ∀ r, (f r).path = r.path) :
    ({ t with nodes := t.nodes.map f } : Tables J).Consistent := by
  have hpaths : ({ t with nodes := t.nodes.map f } : Tables J).paths = t.paths := by
    simp [Tables.paths, hf]
  exact
    { h with
      nodes := hpaths ▸ h.nodes
      bound := hpaths ▸ h.bound
      known := hpaths ▸ h.known }

/-- What is to be added is not there: the check of the scope and the query agree. -/
theorem not_mem_of_toAdd (hscope : ∀ p ∈ d.paths, p = root ∨ isDescendant root p = true)
    (hp : p ∈ t.toAdd ord root d) : p ∉ t.paths := by
  have hp' : p ∈ d.paths ∧ p ∉ t.existing root := by
    simpa [Tables.toAdd, (ord.perm _).mem_iff] using hp
  intro hmem
  refine hp'.2 (List.mem_dedup.mpr (List.mem_filter.mpr ⟨hmem, ?_⟩))
  rcases hscope p hp'.1 with rfl | hbelow
  · simp [inSubtree]
  · simp [inSubtree, ← isDescendant_eq, hbelow]

theorem nodup_toAdd : (t.toAdd ord root d).Nodup :=
  (List.perm_insertionSort _ _).nodup_iff.mpr
    ((ord.perm _).nodup_iff.mpr (d.nodup.filter _))

theorem paths_deleteNodes (ps : List Path) :
    (ps.foldl Tables.deleteNode t).paths ⊆ t.paths := by
  intro p hp
  obtain ⟨r, hr, rfl⟩ := List.mem_map.mp hp
  exact List.mem_map_of_mem (mem_foldl_deleteNode.mp hr).1

/-- Also where a row raises, so that the rest is not done. -/
theorem Tables.Consistent.regen (h : t.Consistent)
    (hscope : ∀ p ∈ d.paths, p = root ∨ isDescendant root p = true) :
    (t.regen ord root d).1.Consistent := by
  have hdeleted := h.deleteNodes (t.toDelete ord root d)
  have hsub := paths_deleteNodes (t := t) (t.toDelete ord root d)
  rw [regen_eq]
  generalize (t.toDelete ord root d).foldl Tables.deleteNode t = deleted at hdeleted hsub
  obtain ⟨-, rows, heq, hpaths⟩ := putNodes_insert deleted d (t.toAdd ord root d)
  have hadded : (deleted.putNodes d false (t.toAdd ord root d)).1.Consistent := by
    rw [heq]
    refine hdeleted.addNodes ?_ ?_
    · rw [hpaths]
      exact nodup_toAdd.sublist (List.takeWhile_sublist _)
    · rw [hpaths]
      intro p hp hmem
      exact not_mem_of_toAdd hscope ((List.takeWhile_sublist _).subset hp) (hsub hmem)
  dsimp only
  split
  next =>
    rw [putNodes_update]
    refine hadded.mapNodes fun r => ?_
    split
    next => exact d.row_path r
    next => rfl
  next => exact hadded

theorem Tables.Consistent.regenSubtree (h : db.work.Consistent) :
    (db.regenSubtree ord root d).2.work.Consistent := by
  unfold Db.regenSubtree
  split
  next => exact h
  next hscope =>
    have hregen : (db.work.regen ord root d).1.Consistent := h.regen fun p hp => by
      simp only [List.any_eq_true, decide_eq_true_eq, not_exists, not_and] at hscope
      grind
    split
    next t heq => rwa [heq] at hregen
    next t heq => rwa [heq] at hregen

/-! ## Bindings -/

theorem Tables.Consistent.withBindings (h : t.Consistent) {bindings : List BindingRow}
    (hpaths : Unique BindingRow.path bindings) (huuids : Unique BindingRow.uuid bindings)
    (hbound : ∀ b ∈ bindings, b.path ∈ t.paths) :
    ({ t with bindings } : Tables J).Consistent :=
  { h with bindings := hpaths, uuids := huuids, bound := hbound }

theorem resolveUuid_eq_none : db.resolveUuid p = none ↔ ∀ b ∈ db.work.bindings, b.path ≠ p :=
  Table.find_eq_none

theorem resolveUuid_eq_some (h : db.work.Consistent) {uuid : Uuid} :
    db.resolveUuid p = some uuid ↔ ∃ b ∈ db.work.bindings, b.path = p ∧ b.uuid = uuid :=
  h.bindings.find_eq_some

theorem resolvePath_eq_none {uuid : Uuid} :
    db.resolvePath uuid = none ↔ ∀ b ∈ db.work.bindings, b.uuid ≠ uuid :=
  Table.find_eq_none

theorem resolvePath_eq_some (h : db.work.Consistent) {uuid : Uuid} :
    db.resolvePath uuid = some p ↔ ∃ b ∈ db.work.bindings, b.uuid = uuid ∧ b.path = p :=
  h.uuids.find_eq_some

/-- A row of consistent tables can be looked up both ways. -/
theorem resolves_of_mem (h : db.work.Consistent) (hrow : row ∈ db.work.bindings) :
    db.Resolves row :=
  ⟨(resolveUuid_eq_some h).mpr ⟨row, hrow, rfl, rfl⟩,
    (resolvePath_eq_some h).mpr ⟨row, hrow, rfl, rfl⟩⟩

theorem hasNode_iff : db.hasNode p = true ↔ p ∈ db.work.paths := by simp [Db.hasNode]

/-- Binding a node that has no binding. -/
theorem consistent_insert (h : db.work.Consistent) (hnode : row.path ∈ db.work.paths)
    (hfree : db.resolveUuid row.path = none) :
    (db.setBindings (Table.insert row db.work.bindings)).work.Consistent ↔
      db.resolvePath row.uuid = none := by
  rw [resolvePath_eq_none]
  constructor
  · intro h'
    exact (Table.unique_insert.mp h'.uuids).2
  · intro hunused
    refine h.withBindings (Table.unique_insert.mpr ⟨h.bindings, resolveUuid_eq_none.mp hfree⟩)
      (Table.unique_insert.mpr ⟨h.uuids, hunused⟩) fun b hb => ?_
    rcases Table.mem_insert.mp hb with hb | rfl
    · exact h.bound b hb
    · exact hnode

theorem upsert_free (hfree : db.resolveUuid row.path = none) :
    upsert BindingRow.path row (fun _ => row) db.work.bindings =
      Table.insert row db.work.bindings := by
  have hnone := resolveUuid_eq_none.mp hfree
  exact if_neg (by simpa using hnone)

/-- Binding a node to the UUID that it has. -/
theorem consistent_update (h : db.work.Consistent)
    (hbound : db.resolveUuid row.path = some row.uuid) :
    (db.setBindings (upsert BindingRow.path row (fun _ => row) db.work.bindings)).work.Consistent ∧
      row ∈ upsert BindingRow.path row (fun _ => row) db.work.bindings := by
  obtain ⟨b, hb, hpath, huuid⟩ := (resolveUuid_eq_some h).mp hbound
  have hany : (db.work.bindings.any fun r => r.path = row.path) = true :=
    List.any_eq_true.mpr ⟨b, hb, by simpa using hpath⟩
  have heq : upsert BindingRow.path row (fun _ => row) db.work.bindings =
      update (fun r => r.path = row.path) (fun _ => row) db.work.bindings := if_pos hany
  have hpaths : ∀ r ∈ db.work.bindings, decide (r.path = row.path) = true → row.path = r.path :=
    fun r _ hr => (of_decide_eq_true hr).symm
  have huuids : ∀ r ∈ db.work.bindings, decide (r.path = row.path) = true → row.uuid = r.uuid :=
    fun r hr hr' => by
      rw [h.bindings.eq hr hb ((of_decide_eq_true hr').trans hpath.symm), huuid]
  rw [heq]
  refine ⟨h.withBindings (h.bindings.update hpaths) (h.uuids.update huuids) fun b' hb' => ?_, ?_⟩
  · have hmem : b'.path ∈ db.work.bindings.map BindingRow.path :=
      Table.map_update hpaths ▸ List.mem_map_of_mem hb'
    obtain ⟨r, hr, hr'⟩ := List.mem_map.mp hmem
    exact hr' ▸ h.bound r hr
  · exact List.mem_map.mpr ⟨b, hb, if_pos (by simpa using hpath)⟩

/-- What `bind_uuid` makes of the bindings. -/
inductive BindCase (db : Db J) (row : BindingRow) : Except NsError Unit × Db J → Prop
  | rejected (e : NsError)
      (h : ¬ (db.hasNode row.path = true ∧ db.resolveUuid row.path = none ∧
        db.resolvePath row.uuid = some [] ∧ row.path ≠ [])) :
      BindCase db row (.error e, db)
  | again (hbound : db.resolveUuid row.path = some row.uuid) :
      BindCase db row (.ok (),
        (db.setBindings (upsert (·.path) row (fun _ => row) db.work.bindings)).commit)
  | bound (hnode : db.hasNode row.path = true) (hfree : db.resolveUuid row.path = none)
      (howner : ∀ owner ∈ db.resolvePath row.uuid, owner = [] ∨ owner = row.path) :
      BindCase db row (.ok (), (db.setBindings (Table.insert row db.work.bindings)).commit)

theorem bindUuid_case (db : Db J) (row : BindingRow) : BindCase db row (db.bindUuid row) := by
  unfold Db.bindUuid
  split
  next hnode => exact .rejected _ fun h => by simp [hnode] at h
  next hnode =>
    split
    next hcur => exact .rejected _ fun h => by simp [h.2.1] at hcur
    next hcur =>
      split
      next howner => exact .rejected _ fun h => by simp [h.2.2.1] at howner
      next howner =>
        cases hfree : db.resolveUuid row.path with
        | some uuid =>
            have huuid : uuid = row.uuid := by simpa [hfree] using hcur
            exact .again (huuid ▸ hfree)
        | none =>
            rw [upsert_free hfree]
            refine .bound (by simpa using hnode) hfree fun owner ho => ?_
            have := Option.mem_def.mp ho
            simp only [this, Option.any_some, decide_eq_true_eq, not_and, not_not] at howner
            exact or_iff_not_imp_left.mpr howner

/-- No node without a binding has the UUID. -/
theorem resolvePath_ne (h : db.work.Consistent) (hfree : db.resolveUuid row.path = none) :
    db.resolvePath row.uuid ≠ some row.path := by
  intro hsome
  obtain ⟨b, hb, -, hpath⟩ := (resolvePath_eq_some h).mp hsome
  exact resolveUuid_eq_none.mp hfree b hb hpath

theorem sound_bindUuid (h : db.work.Consistent) :
    db.Sound fns (.bindUuid row) ↔ db.Proper (.bindUuid row) := by
  have hcase := bindUuid_case db row
  show (db.bindUuid row).2.work.Consistent ∧
    ((db.bindUuid row).1 = .ok () → (db.bindUuid row).2.Resolves row) ↔ _
  generalize db.bindUuid row = result at hcase
  cases hcase with
  | rejected e hnot =>
      refine iff_of_true ⟨h, fun hok => nomatch hok⟩ ?_
      rintro ⟨hpath, hnode, hfree, howner⟩
      exact hnot ⟨hnode, hfree, howner, hpath⟩
  | again hbound =>
      obtain ⟨hcons, hmem⟩ := consistent_update h hbound
      refine iff_of_true ⟨hcons, fun _ => resolves_of_mem hcons hmem⟩ ?_
      rintro ⟨-, -, hfree, -⟩
      rw [hfree] at hbound
      cases hbound
  | bound hnode hfree howner =>
      have hmem : row ∈ Table.insert row db.work.bindings := Table.mem_insert.mpr (.inr rfl)
      have hsound : (db.setBindings (Table.insert row db.work.bindings)).work.Consistent ↔
          db.resolvePath row.uuid = none := consistent_insert h (hasNode_iff.mp hnode) hfree
      have hne := resolvePath_ne h hfree
      constructor
      · rintro ⟨hcons, -⟩ ⟨-, -, -, howned⟩
        rw [hsound.mp hcons] at howned
        cases howned
      · intro hproper
        have hnone : db.resolvePath row.uuid = none := by
          cases howned : db.resolvePath row.uuid with
          | none => rfl
          | some owner =>
              exfalso
              rcases howner owner howned with rfl | rfl
              · exact hproper ⟨fun hpath => hne (hpath ▸ howned), hnode, hfree, howned⟩
              · exact hne howned
        exact ⟨hsound.mpr hnone, fun _ => resolves_of_mem (hsound.mpr hnone) hmem⟩

/-- What is in the way of the binding is released first. -/
theorem sound_rebind (h : db.work.Consistent) : db.Sound fns (.rebind row) := by
  show (db.rebind row).2.work.Consistent ∧
    ((db.rebind row).1 = .ok () → (db.rebind row).2.Resolves row)
  unfold Db.rebind
  split
  next => exact ⟨h, fun hok => nomatch hok⟩
  next hnode =>
    dsimp only
    have hreleased : ∀ b ∈ delete (fun b => b.uuid = row.uuid ∨ b.path = row.path) db.work.bindings,
        b.uuid ≠ row.uuid ∧ b.path ≠ row.path := by
      intro b hb
      simpa using (Table.mem_delete.mp hb).2
    have hcons : (db.setBindings (Table.insert row (delete (fun b => b.uuid = row.uuid ∨
        b.path = row.path) db.work.bindings))).work.Consistent := by
      refine h.withBindings
        (Table.unique_insert.mpr ⟨h.bindings.delete, fun b hb => (hreleased b hb).2⟩)
        (Table.unique_insert.mpr ⟨h.uuids.delete, fun b hb => (hreleased b hb).1⟩) fun b hb => ?_
      rcases Table.mem_insert.mp hb with hb | rfl
      · exact h.bound b (Table.mem_delete.mp hb).1
      · exact hasNode_iff.mp (by simpa using hnode)
    exact ⟨hcons, fun _ => resolves_of_mem hcons (Table.mem_insert.mpr (.inr rfl))⟩

theorem Tables.Consistent.unbind (h : db.work.Consistent) : (db.unbind p).2.work.Consistent :=
  h.withBindings h.bindings.delete h.uuids.delete fun b hb => h.bound b (Table.mem_delete.mp hb).1

theorem Tables.Consistent.setStatus (h : db.work.Consistent) (fields : Option J) (merge : Bool)
    (now : String) : (db.setStatus fns p fields merge now).2.work.Consistent := by
  unfold Db.setStatus
  split
  next => exact h
  next hnode =>
    split
    next => exact h
    next status =>
      refine { h with statuses := h.statuses.upsert fun _ => rfl, known := fun s hs => ?_ }
      have hcases := Table.key_of_mem_upsert (f := StatusRow.write fns status merge now)
        (fun _ => rfl) hs
      rcases hcases with hpath | ⟨s₀, hs₀, hpath⟩
      · rw [hpath]
        exact hasNode_iff.mp (Bool.of_not_eq_false hnode)
      · exact hpath ▸ h.known s₀ hs₀

theorem Tables.Consistent.bumpStatus (h : db.work.Consistent) (field : String) (inc : Int)
    (now : String) : (db.bumpStatus fns p field inc now).2.work.Consistent := by
  unfold Db.bumpStatus
  split
  next => exact h
  next => exact h.setStatus _ true now

/-! ## Runs -/

theorem sound_iff (h : db.work.Consistent) (c : NsCall J) : db.Sound fns c ↔ db.Proper c := by
  cases c with
  | regenSubtree ord root d => exact iff_of_true ⟨h.regenSubtree, trivial⟩ trivial
  | bindUuid row => exact sound_bindUuid h
  | rebind row => exact iff_of_true (sound_rebind h) trivial
  | unbind p => exact iff_of_true ⟨h.unbind, trivial⟩ trivial
  | setStatus p fields merge now =>
      exact iff_of_true ⟨h.setStatus fields merge now, trivial⟩ trivial
  | bumpStatus p field inc now =>
      exact iff_of_true ⟨h.bumpStatus field inc now, trivial⟩ trivial

theorem consistent_empty : ({} : Tables J).Consistent :=
  ⟨.nil, .nil, .nil, .nil, by simp, by simp⟩

/-- From the empty tables, the tables stay consistent and every binding can be looked up,
all along a run, if and only if no call of it binds a node to the UUID of the empty path. -/
theorem bindings_consistent (fns : JsonFns J) (calls : List (NsCall J)) :
    Along (Db.next fns) (Db.Sound fns) {} calls ↔ Along (Db.next fns) Db.Proper {} calls :=
  Runs.along_congr (P := fun db => db.work.Consistent) (fun _ c h => sound_iff h c)
    (fun _ _ _ hsound => hsound.1) consistent_empty

/-- The empty path owns the UUID, and the node `a` is bound to it as well. -/
theorem not_bindings_consistent : ¬ ∀ (fns : JsonFns Unit) (calls : List (NsCall Unit)),
    Along (Db.next fns) (Db.Sound fns) {} calls := by
  intro hall
  let ord : SetOrder := ⟨id, fun _ => .refl _⟩
  let only (p : Path) : Declared Unit := ⟨[(p, ⟨none, some ()⟩)], List.nodup_singleton _⟩
  have hsound := hall ⟨fun s _ => s, fun s _ _ => s⟩
    [.regenSubtree ord [] (only []), .regenSubtree ord ['a'] (only ['a']),
      .bindUuid ⟨[], ['U'], none, none, ""⟩, .bindUuid ⟨['a'], ['U'], none, none, ""⟩]
  exact absurd hsound.2.2.2.1.1.uuids (by decide)

end SlowBus.Commission
