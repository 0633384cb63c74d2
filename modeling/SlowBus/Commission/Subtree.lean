import SlowBus.Commission.Regen
import SlowBus.Lib.Reconcile

/-!
# The laws of regeneration

A regeneration that is accepted brings the nodes of its subtree to what is declared, and nothing
else. It can be repeated, and regenerations of subtrees that are apart can be exchanged.
-/

namespace SlowBus.Commission

open Reconcile (Target)

variable {J : Type} {db : Db J} {t : Tables J} {d : Declared J} {ord : SetOrder} {root p : Path}
  {ps : List Path}

/-- What a regeneration makes of the tables. -/
structure Regenerated (t t' : Tables J) (root : Path) (d : Declared J) : Prop where
  /-- Of the subtree exactly the declared nodes are there. -/
  declared : ∀ p, inSubtree root p = true → (p ∈ t'.paths ↔ p ∈ d.paths)
  stored : ∀ p ∈ d.paths, t'.Stored d p
  keptBindings : ∀ p ∈ t'.paths,
    t'.bindings.filter (·.path = p) = t.bindings.filter (·.path = p)
  keptStatuses : ∀ p ∈ t'.paths,
    t'.statuses.filter (·.path = p) = t.statuses.filter (·.path = p)
  lostBindings : ∀ p ∈ t.paths, p ∉ t'.paths → ∀ b ∈ t'.bindings, b.path ≠ p
  lostStatuses : ∀ p ∈ t.paths, p ∉ t'.paths → ∀ s ∈ t'.statuses, s.path ≠ p
  /-- Outside of the subtree the rows are the same. -/
  outsideNodes : t'.nodes.filter (fun r => !inSubtree root r.path) =
    t.nodes.filter fun r => !inSubtree root r.path
  outsideBindings : t'.bindings.filter (fun b => !inSubtree root b.path) =
    t.bindings.filter fun b => !inSubtree root b.path
  outsideStatuses : t'.statuses.filter (fun s => !inSubtree root s.path) =
    t.statuses.filter fun s => !inSubtree root s.path
  /-- What the keys and the references ask is kept, so that there is one row for each node. -/
  consistent : t.Consistent → t'.Consistent

/-- The same nodes, bindings and statuses; the nodes may be in another order. -/
structure Tables.Same (t t' : Tables J) : Prop where
  nodes : t.nodes.Perm t'.nodes
  bindings : t.bindings = t'.bindings
  statuses : t.statuses = t'.statuses

/-- Neither of two different nodes is an ancestor of the other. -/
def Unrelated (root root' : Path) : Prop :=
  root ≠ root' ∧ isDescendant root root' = false ∧ isDescendant root' root = false

/-! ## Subtrees -/

theorem labels_injective : Function.Injective labels := by
  intro p q h
  have hjoin := congrArg (['.'].intercalate) h
  rwa [labels, labels, List.intercalate_splitOn, List.intercalate_splitOn] at hjoin

/-- A subtree is the nodes whose labels begin with those of its root. -/
theorem inSubtree_iff : inSubtree root p = true ↔ labels root <+: labels p := by
  unfold inSubtree ltreeDescendant
  rw [Bool.or_eq_true, decide_eq_true_eq, Bool.and_eq_true, List.isPrefixOf_iff_prefix,
    bne_iff_ne]
  constructor
  · rintro (rfl | ⟨hlabels, -⟩)
    · exact List.prefix_refl _
    · exact hlabels
  · intro hlabels
    by_cases heq : labels root = labels p
    · exact Or.inl (labels_injective heq.symm)
    · exact Or.inr ⟨hlabels, heq⟩

/-- The check of the scope and the query mean the same nodes. -/
theorem inSubtree_eq : inSubtree root p = true ↔ p = root ∨ isDescendant root p = true := by
  rw [isDescendant_eq, inSubtree, Bool.or_eq_true, decide_eq_true_eq]

/-- Unrelated subtrees have no node in common, whatever their roots look like as texts. -/
theorem Unrelated.apart {root' : Path} (h : Unrelated root root')
    (hp : inSubtree root p = true) : inSubtree root' p = false := by
  by_contra hp'
  rw [Bool.not_eq_false] at hp'
  rcases List.prefix_or_prefix_of_prefix (inSubtree_iff.mp hp) (inSubtree_iff.mp hp') with hle | hle
  · rcases inSubtree_eq.mp (inSubtree_iff.mpr hle) with heq | hbelow
    · exact h.1 heq.symm
    · exact Bool.eq_false_iff.mp h.2.1 hbelow
  · rcases inSubtree_eq.mp (inSubtree_iff.mpr hle) with heq | hbelow
    · exact h.1 heq
    · exact Bool.eq_false_iff.mp h.2.2 hbelow

/-! ## What is declared as a target -/

/-- The declared nodes are in the subtree, and their attributes can be written. -/
structure Declared.Fits (d : Declared J) (root : Path) : Prop where
  inScope : ∀ p ∈ d.paths, inSubtree root p = true
  dumps : ∀ p ∈ d.paths, d.dumps p = true

/-- The row that `_put_node` inserts. -/
def Declared.fresh (d : Declared J) (p : Path) : Option (NodeRow J) :=
  (d.spec p).attrs.map fun attrs => ⟨p, depth p, (d.spec p).kind, attrs⟩

theorem fresh_of_dumps (h : d.dumps p = true) : ∃ r, d.fresh p = some r ∧ r.path = p := by
  obtain ⟨attrs, hattrs⟩ := Option.isSome_iff_exists.mp h
  exact ⟨⟨p, depth p, (d.spec p).kind, attrs⟩, congrArg (Option.map _) hattrs, rfl⟩

theorem row_fresh {r : NodeRow J} (h : d.fresh p = some r) : d.row r = r := by
  obtain ⟨attrs, hattrs, rfl⟩ := Option.map_eq_some_iff.mp h
  simp [Declared.row, hattrs]

def Declared.Fits.target (h : d.Fits root) : Target (NodeRow.path (J := J)) where
  scope := inSubtree root
  keys := d.paths
  write := d.row
  fresh := d.fresh
  inScope := h.inScope
  key_write := d.row_path
  write_write := d.row_row
  key_fresh p hp := fresh_of_dumps (h.dumps p hp)
  write_fresh _ _ := row_fresh

/-! ## What the statements do -/

theorem paths_deleteNode {q : Path} :
    q ∈ (t.deleteNode p).paths ↔ q ∈ t.paths ∧ q ≠ p := by
  unfold Tables.paths Tables.deleteNode
  simp only [List.mem_map, Table.mem_delete, decide_eq_false_iff_not]
  constructor
  · rintro ⟨r, ⟨hr, hne⟩, rfl⟩
    exact ⟨⟨r, hr, rfl⟩, hne⟩
  · rintro ⟨⟨r, hr, rfl⟩, hne⟩
    exact ⟨r, ⟨hr, hne⟩, rfl⟩

/-- The deletions: the nodes go, and what refers to those of them that were there. -/
theorem foldl_deleteNode (t : Tables J) (ps : List Path) :
    ps.foldl Tables.deleteNode t =
      { nodes := t.nodes.filter (·.path ∉ ps)
        bindings := t.bindings.filter fun b => ¬(b.path ∈ ps ∧ b.path ∈ t.paths)
        statuses := t.statuses.filter fun s => ¬(s.path ∈ ps ∧ s.path ∈ t.paths) } := by
  induction ps generalizing t with
  | nil => simp
  | cons p ps ih =>
      have hrefers (q : Path) : (decide ¬(q ∈ ps ∧ q ∈ (t.deleteNode p).paths) &&
          !decide (q = p ∧ p ∈ t.paths)) = decide ¬(q ∈ p :: ps ∧ q ∈ t.paths) := by
        rw [Bool.eq_iff_iff]
        simp only [paths_deleteNode, Bool.and_eq_true, Bool.not_eq_true', decide_eq_true_eq,
          decide_eq_false_iff_not, List.mem_cons]
        by_cases hq : q = p
        · subst hq
          simp
        · simp [hq]
      have hnodes (q : Path) : (decide (q ∉ ps) && !decide (q = p)) = decide (q ∉ p :: ps) := by
        rw [Bool.eq_iff_iff]
        simp [and_comm]
      rw [List.foldl_cons, ih, Tables.mk.injEq]
      refine ⟨?_, ?_, ?_⟩
      · exact List.filter_filter.trans (List.filter_congr fun r _ => hnodes r.path)
      · exact List.filter_filter.trans (List.filter_congr fun b _ => hrefers b.path)
      · exact List.filter_filter.trans (List.filter_congr fun s _ => hrefers s.path)

/-- Insertions of rows all of which can be written. -/
theorem putNodes_fresh (t : Tables J) (h : ∀ p ∈ ps, d.dumps p = true) :
    t.putNodes d false ps = ({ t with nodes := t.nodes ++ ps.filterMap d.fresh }, true) := by
  induction ps generalizing t with
  | nil => simp [Tables.putNodes]
  | cons p ps ih =>
      obtain ⟨attrs, hattrs⟩ := Option.isSome_iff_exists.mp (h p List.mem_cons_self)
      have hput : t.putNode p (d.spec p) false =
          some { t with nodes := t.nodes ++ [⟨p, depth p, (d.spec p).kind, attrs⟩] } :=
        congrArg (Option.map _) hattrs
      have hfresh : d.fresh p = some ⟨p, depth p, (d.spec p).kind, attrs⟩ :=
        congrArg (Option.map _) hattrs
      unfold Tables.putNodes
      rw [hput]
      dsimp only
      rw [ih _ fun q hq => h q (List.mem_cons_of_mem p hq), List.filterMap_cons_some hfresh,
        List.append_assoc]
      rfl

theorem mem_existing : p ∈ t.existing root ↔ p ∈ t.paths ∧ inSubtree root p = true := by
  rw [Tables.existing, List.mem_dedup, List.mem_filter]

theorem mem_toDelete :
    p ∈ t.toDelete ord root d ↔ (p ∈ t.paths ∧ inSubtree root p = true) ∧ p ∉ d.paths := by
  rw [Tables.toDelete, (ord.perm _).mem_iff, List.mem_filter, mem_existing, decide_eq_true_eq]

theorem mem_toAdd : p ∈ t.toAdd ord root d ↔ p ∈ d.paths ∧ p ∉ t.existing root := by
  rw [Tables.toAdd, (List.perm_insertionSort _ _).mem_iff, (ord.perm _).mem_iff, List.mem_filter,
    decide_eq_true_eq]

theorem mem_toKeep : p ∈ t.toKeep ord root d ↔ p ∈ d.paths ∧ p ∈ t.existing root := by
  rw [Tables.toKeep, (ord.perm _).mem_iff, List.mem_filter, decide_eq_true_eq]

/-! ## An accepted regeneration -/

/-- The nodes are brought to the target, and the rows that refer to them follow. -/
structure Declared.Fits.Brought (h : d.Fits root) (t t' : Tables J) : Prop where
  nodes : h.target.Brings t.nodes t'.nodes
  bindings : t'.bindings = h.target.refers t.nodes BindingRow.path t.bindings
  statuses : t'.statuses = h.target.refers t.nodes StatusRow.path t.statuses

section Accepted

variable {t' : Tables J}

theorem Declared.Fits.brought (h : d.Fits root) (t : Tables J) (ord : SetOrder) :
    (t.regen ord root d).2 = true ∧ h.Brought t (t.regen ord root d).1 := by
  have hadd : ∀ p ∈ t.toAdd ord root d, d.dumps p = true := fun p hp =>
    h.dumps p (mem_toAdd.mp hp).1
  have hkeep : ∀ p ∈ t.toKeep ord root d, d.dumps p = true := fun p hp =>
    h.dumps p (mem_toKeep.mp hp).1
  -- a node of the tables stays unless it is deleted
  have hstays : ∀ q ∈ t.paths, h.target.keeps q = true ↔ q ∉ t.toDelete ord root d := by
    intro q hq
    rw [Target.keeps_iff, mem_toDelete]
    show (inSubtree root q = true → q ∈ d.paths) ↔ _
    tauto
  have hrefers (q : Path) : ¬(q ∈ t.toDelete ord root d ∧ q ∈ t.paths) ↔
      (q ∈ t.paths → h.target.keeps q = true) := by
    by_cases hq : q ∈ t.paths
    · rw [hstays q hq]
      tauto
    · tauto
  have hmissing : ((t.toAdd ord root d).filterMap d.fresh).Perm (h.target.missing t.nodes) := by
    have hperm : (t.toAdd ord root d).Perm (d.paths.filter (· ∉ t.existing root)) :=
      (List.perm_insertionSort _ _).trans (ord.perm _)
    refine (hperm.trans (List.Perm.of_eq (List.filter_congr fun p hp => ?_))).filterMap d.fresh
    rw [decide_eq_decide, mem_existing, and_iff_left (h.inScope p hp)]
    rfl
  have hfilter : t.nodes.filter (·.path ∉ t.toDelete ord root d) =
      t.nodes.filter (h.target.keeps ∘ NodeRow.path) := by
    refine List.filter_congr fun r hr => ?_
    rw [Bool.eq_iff_iff, decide_eq_true_iff]
    exact (hstays r.path (List.mem_map_of_mem hr)).symm
  -- a node that stays is declared or not, and is put accordingly
  have hput : ∀ r ∈ t.nodes,
      (if r.path ∈ t.toKeep ord root d then d.row r else r) = h.target.put r := by
    intro r hr
    have hiff : r.path ∈ t.toKeep ord root d ↔ r.path ∈ d.paths := by
      rw [mem_toKeep, mem_existing]
      exact and_iff_left_of_imp fun hp => ⟨List.mem_map_of_mem hr, h.inScope _ hp⟩
    by_cases hp : r.path ∈ d.paths
    · exact (if_pos (hiff.mpr hp)).trans (if_pos hp).symm
    · exact (if_neg (hp ∘ hiff.mp)).trans (if_neg hp).symm
  have hnew : ∀ r ∈ (t.toAdd ord root d).filterMap d.fresh,
      (if r.path ∈ t.toKeep ord root d then d.row r else r) = r := by
    intro r hr
    have hmem := (Target.put_missing (hmissing.mem_iff.mp hr)).2.1
    exact if_neg fun hp => hmem (mem_existing.mp (mem_toKeep.mp hp).2).1
  rw [regen_eq, foldl_deleteNode]
  dsimp only
  rw [putNodes_fresh _ hadd, if_pos (List.all_eq_true.mpr hadd), putNodes_update,
    List.takeWhile_eq_self_iff.mpr hkeep]
  refine ⟨List.all_eq_true.mpr hkeep, ⟨_, hmissing, ?_⟩, ?_, ?_⟩
  · rw [hfilter, List.map_append, (List.map_congr_left hnew).trans (List.map_id _)]
    refine congrArg (· ++ _) (List.map_congr_left fun r hr => hput r ?_)
    exact (List.mem_filter.mp hr).1
  · refine Target.filter_eq_refers fun b _ => ?_
    rw [decide_eq_true_iff]
    exact hrefers b.path
  · refine Target.filter_eq_refers fun s _ => ?_
    rw [decide_eq_true_iff]
    exact hrefers s.path

/-- An accepted regeneration commits what it writes. -/
theorem regenSubtree_eq (h : d.Fits root) :
    db.regenSubtree ord root d =
      (.ok (), ⟨(db.work.regen ord root d).1, (db.work.regen ord root d).1⟩) := by
  have hscope : ¬ d.OutOfScope root := by
    rintro ⟨p, hp, hne, hout⟩
    rcases inSubtree_eq.mp (h.inScope p hp) with heq | hbelow
    · exact hne heq
    · rw [hout] at hbelow
      cases hbelow
  have hended := (h.brought db.work ord).1
  unfold Db.regenSubtree
  rw [if_neg (mt any_outOfScope.mp hscope)]
  generalize db.work.regen ord root d = result at hended
  obtain ⟨t, ended⟩ := result
  obtain rfl : ended = true := hended
  rfl

/-- Whether a regeneration is accepted does not depend on what is there. -/
theorem fits_of_ok (hok : (db.regenSubtree ord root d).1 = .ok ()) : d.Fits root := by
  have hscope : ¬ d.OutOfScope root := by
    intro hout
    unfold Db.regenSubtree at hok
    rw [if_pos (any_outOfScope.mpr hout)] at hok
    cases hok
  have hended : (db.work.regen ord root d).2 = true := by
    unfold Db.regenSubtree at hok
    rw [if_neg (mt any_outOfScope.mp hscope)] at hok
    generalize db.work.regen ord root d = result at hok
    obtain ⟨t, ended⟩ := result
    cases ended with
    | true => rfl
    | false => cases hok
  refine ⟨fun p hp => inSubtree_eq.mpr (inScope hscope p hp), fun p hp => ?_⟩
  rw [regen_eq] at hended
  dsimp only at hended
  split at hended
  next hadd =>
    rw [putNodes_update] at hended
    by_cases hexisting : p ∈ db.work.existing root
    · exact List.all_eq_true.mp hended p (mem_toKeep.mpr ⟨hp, hexisting⟩)
    · exact List.all_eq_true.mp hadd p (mem_toAdd.mpr ⟨hp, hexisting⟩)
  next => cases hended

/-! ## The laws -/

/-- The effect is on the subtree only, and there it is what is declared. -/
theorem Declared.Fits.Brought.regenerated {h : d.Fits root} (hb : h.Brought t t')
    (hconsistent : t.Consistent → t'.Consistent) : Regenerated t t' root d where
  declared p hp := hb.nodes.mem_keys_of_scope hp
  stored p hp := by
    have hmem : p ∈ t'.paths := (hb.nodes.mem_keys_of_scope (h.inScope p hp)).mpr hp
    exact stored_of_row_eq hmem (h.dumps p hp) fun r hr hrp =>
      hb.nodes.write_eq hr (by rw [hrp]; exact hp)
  keptBindings p hp := by
    rw [hb.bindings]
    exact hb.nodes.refers_kept hp
  keptStatuses p hp := by
    rw [hb.statuses]
    exact hb.nodes.refers_kept hp
  lostBindings p hp hgone := by
    rw [hb.bindings]
    exact hb.nodes.refers_lost hp hgone
  lostStatuses p hp hgone := by
    rw [hb.statuses]
    exact hb.nodes.refers_lost hp hgone
  outsideNodes := hb.nodes.outside
  outsideBindings := by
    rw [hb.bindings]
    exact Target.refers_outside h.target t.nodes
  outsideStatuses := by
    rw [hb.statuses]
    exact Target.refers_outside h.target t.nodes
  consistent := hconsistent

theorem Declared.Fits.Brought.again {t'' : Tables J} {h : d.Fits root} (hb : h.Brought t t')
    (hb' : h.Brought t' t'') : t'' = t' := by
  obtain ⟨nodes, bindings, statuses⟩ := t'
  obtain ⟨nodes', bindings', statuses'⟩ := t''
  have hnodes : nodes' = nodes := hb.nodes.again hb'.nodes
  have hbindings : bindings' = bindings := by
    refine hb'.bindings.trans ?_
    rw [show bindings = _ from hb.bindings]
    exact hb.nodes.refers_again
  have hstatuses : statuses' = statuses := by
    refine hb'.statuses.trans ?_
    rw [show statuses = _ from hb.statuses]
    exact hb.nodes.refers_again
  rw [hnodes, hbindings, hstatuses]

/-- Regenerations of subtrees that are apart, in either order. -/
theorem Declared.Fits.Brought.comm {root₂ : Path} {d₂ : Declared J} {h : d.Fits root}
    {h₂ : d₂.Fits root₂} (hapart : Unrelated root root₂) {t₁ t₁₂ t₂ t₂₁ : Tables J}
    (hb₁ : h.Brought t t₁) (hb₁₂ : h₂.Brought t₁ t₁₂) (hb₂ : h₂.Brought t t₂)
    (hb₂₁ : h.Brought t₂ t₂₁) : t₁₂.Same t₂₁ := by
  have htargets : h.target.Apart h₂.target := fun p hp => hapart.apart hp
  refine ⟨Target.Brings.comm htargets hb₁.nodes hb₁₂.nodes hb₂.nodes hb₂₁.nodes, ?_, ?_⟩
  · rw [hb₁₂.bindings, hb₁.bindings, hb₂₁.bindings, hb₂.bindings]
    exact Target.Brings.refers_comm htargets hb₁.nodes hb₂.nodes
  · rw [hb₁₂.statuses, hb₁.statuses, hb₂₁.statuses, hb₂.statuses]
    exact Target.Brings.refers_comm htargets hb₁.nodes hb₂.nodes

end Accepted

/-- An accepted regeneration makes the subtree what is declared and commits, and changes nothing
else; the same once more changes nothing; and with an accepted regeneration of an unrelated root
it can be exchanged. The orders in which the sets are gone through are any. -/
theorem regen_subtree_laws (db : Db J) (ord : SetOrder) (root : Path) (d : Declared J)
    (hok : (db.regenSubtree ord root d).1 = .ok ()) :
    let db' := (db.regenSubtree ord root d).2
    Regenerated db.work db'.work root d ∧ db'.committed = db'.work ∧
      (∀ ord', db'.regenSubtree ord' root d = (.ok (), db')) ∧
      ∀ (ord₁ ord₂ ord₃ : SetOrder) (root₂ : Path) (d₂ : Declared J), Unrelated root root₂ →
        (db.regenSubtree ord₂ root₂ d₂).1 = .ok () →
        let after := db'.regenSubtree ord₁ root₂ d₂
        let before := (db.regenSubtree ord₂ root₂ d₂).2.regenSubtree ord₃ root d
        after.1 = .ok () ∧ before.1 = .ok () ∧ after.2.work.Same before.2.work ∧
          after.2.committed.Same before.2.committed := by
  have h := fits_of_ok hok
  have hb := (h.brought db.work ord).2
  rw [regenSubtree_eq h]
  have hscope : ∀ p ∈ d.paths, p = root ∨ isDescendant root p = true := fun p hp =>
    inSubtree_eq.mp (h.inScope p hp)
  refine ⟨hb.regenerated fun hc => hc.regen hscope, rfl, fun ord' => ?_, ?_⟩
  · rw [regenSubtree_eq h, hb.again (h.brought _ ord').2]
  · intro ord₁ ord₂ ord₃ root₂ d₂ hapart hok₂
    have h₂ := fits_of_ok hok₂
    rw [regenSubtree_eq h₂, regenSubtree_eq h₂, regenSubtree_eq h]
    have hsame := Declared.Fits.Brought.comm hapart hb (h₂.brought _ ord₁).2
      (h₂.brought db.work ord₂).2 (h.brought _ ord₃).2
    exact ⟨rfl, rfl, hsame, hsame⟩

/-- Two sites, the text of the one a prefix of the other's, with a bound device each. -/
def twoSites : Db Unit :=
  let tables : Tables Unit :=
    { nodes := [⟨"s.a".toList, 2, none, ()⟩, ⟨"s.a.x".toList, 3, none, ()⟩,
        ⟨"s.ab".toList, 2, none, ()⟩, ⟨"s.ab.y".toList, 3, none, ()⟩]
      bindings := [⟨"s.a.x".toList, "U".toList, none, none, ""⟩,
        ⟨"s.ab.y".toList, "V".toList, none, none, ""⟩]
      statuses := [⟨"s.ab.y".toList, (), ""⟩] }
  ⟨tables, tables⟩

/-- In the first site another device is declared. -/
def otherDevice : Declared Unit :=
  ⟨[("s.a".toList, ⟨some "SITE", some ()⟩), ("s.a.z".toList, ⟨none, some ()⟩)], by decide⟩

/-- The second site is to have its device only. -/
def deviceOnly : Declared Unit := ⟨[("s.ab.y".toList, ⟨some "DEV", some ()⟩)], by decide⟩

theorem regen_subtree_laws_twoSites :
    let inOrder : SetOrder := ⟨id, fun _ => .refl _⟩
    let first := (twoSites.regenSubtree inOrder "s.a".toList otherDevice).2
    let second := (twoSites.regenSubtree inOrder "s.ab".toList deviceOnly).2
    Regenerated twoSites.work first.work "s.a".toList otherDevice ∧
      (first.regenSubtree inOrder "s.ab".toList deviceOnly).2.work.Same
        (second.regenSubtree inOrder "s.a".toList otherDevice).2.work := by
  intro inOrder first second
  obtain ⟨hregenerated, -, -, hexchange⟩ :=
    regen_subtree_laws twoSites inOrder "s.a".toList otherDevice (by decide)
  exact ⟨hregenerated, (hexchange inOrder inOrder inOrder "s.ab".toList deviceOnly
    ⟨by decide, by decide, by decide⟩ (by decide)).2.2.1⟩

end SlowBus.Commission
