import Mathlib.Data.List.Chain
import Mathlib.Tactic.Common

/-!
# Tilings of an interval

Pieces of given lengths lie one behind the other from an offset on. They do not overlap, what
lies between the ends is in one of them, and neighbours of one kind can be joined to a single
piece without moving the others.
-/

namespace SlowBus.Tiles

variable {β : Type*} {len : β → Nat} {a k x : Nat} {b c : β} {bs cs pre post : List β}

/-! ## Where the pieces lie -/

/-- The pieces with the offsets they start at. -/
def starts (len : β → Nat) : Nat → List β → List (Nat × β)
  | _, [] => []
  | a, b :: bs => (a, b) :: starts len (a + len b) bs

/-- The end of the last piece. -/
def stop (len : β → Nat) : Nat → List β → Nat
  | a, [] => a
  | a, b :: bs => stop len (a + len b) bs

@[simp] theorem starts_nil : starts len a [] = [] := rfl

@[simp] theorem starts_cons : starts len a (b :: bs) = (a, b) :: starts len (a + len b) bs := rfl

@[simp] theorem stop_nil : stop len a [] = a := rfl

@[simp] theorem stop_cons : stop len a (b :: bs) = stop len (a + len b) bs := rfl

theorem stop_append : stop len a (bs ++ cs) = stop len (stop len a bs) cs := by
  induction bs generalizing a with
  | nil => rfl
  | cons b bs ih => exact ih

theorem starts_append :
    starts len a (bs ++ cs) = starts len a bs ++ starts len (stop len a bs) cs := by
  induction bs generalizing a with
  | nil => rfl
  | cons b bs ih => exact congrArg _ ih

theorem le_stop : a ≤ stop len a bs := by
  induction bs generalizing a with
  | nil => exact le_rfl
  | cons b bs ih => exact (Nat.le_add_right a (len b)).trans ih

@[simp] theorem map_snd_starts : (starts len a bs).map Prod.snd = bs := by
  induction bs generalizing a with
  | nil => rfl
  | cons b bs ih => exact congrArg (b :: ·) ih

theorem snd_mem {p : Nat × β} (h : p ∈ starts len a bs) : p.2 ∈ bs := by
  rw [← @map_snd_starts β len a bs]
  exact List.mem_map_of_mem h

@[simp] theorem length_starts : (starts len a bs).length = bs.length := by
  rw [← List.length_map Prod.snd, map_snd_starts]

/-- A piece cuts the list in two. -/
theorem exists_of_mem_starts (h : (k, b) ∈ starts len a bs) :
    ∃ pre post, bs = pre ++ b :: post ∧ k = stop len a pre := by
  induction bs generalizing a with
  | nil => cases h
  | cons c bs ih =>
      rcases List.mem_cons.mp h with heq | h
      · cases heq
        exact ⟨[], bs, rfl, rfl⟩
      · obtain ⟨pre, post, rfl, rfl⟩ := ih h
        exact ⟨c :: pre, post, rfl, rfl⟩

theorem mem_starts_append (pre post : List β) (b : β) :
    (stop len a pre, b) ∈ starts len a (pre ++ b :: post) := by
  rw [starts_append]
  exact List.mem_append_right _ List.mem_cons_self

theorem bounds_of_mem (h : (k, b) ∈ starts len a bs) : a ≤ k ∧ k + len b ≤ stop len a bs := by
  obtain ⟨pre, post, rfl, rfl⟩ := exists_of_mem_starts h
  rw [stop_append]
  exact ⟨le_stop, le_stop⟩

/-- Each piece ends before the later ones start. -/
theorem pairwise_starts :
    (starts len a bs).Pairwise fun p q => p.1 + len p.2 ≤ q.1 := by
  induction bs generalizing a with
  | nil => exact .nil
  | cons b bs ih => exact List.pairwise_cons.mpr ⟨fun q hq => (bounds_of_mem hq).1, ih⟩

/-- An offset is in one piece only. -/
theorem eq_of_covers {p q : Nat × β} (hp : p ∈ starts len a bs) (hq : q ∈ starts len a bs)
    (hpx : p.1 ≤ x ∧ x < p.1 + len p.2) (hqx : q.1 ≤ x ∧ x < q.1 + len q.2) : p = q := by
  induction bs generalizing a with
  | nil => cases hp
  | cons b bs ih =>
      have hlater : ∀ r ∈ starts len (a + len b) bs, a + len b ≤ r.1 := fun r hr =>
        (bounds_of_mem hr).1
      rcases List.mem_cons.mp hp with rfl | hp <;> rcases List.mem_cons.mp hq with rfl | hq
      · rfl
      · exact absurd hpx.2 (Nat.not_lt.mpr ((hlater q hq).trans hqx.1))
      · exact absurd hqx.2 (Nat.not_lt.mpr ((hlater p hp).trans hpx.1))
      · exact ih hp hq

/-! ## Joining neighbours -/

section Join

variable {free : β → Bool} {join : β → β → β}

/-- The piece in hand is joined with the next ones while both are free. -/
def joinFrom (free : β → Bool) (join : β → β → β) : β → List β → List β
  | b, [] => [b]
  | b, c :: cs =>
      if free b && free c then joinFrom free join (join b c) cs
      else b :: joinFrom free join c cs

def joinAll (free : β → Bool) (join : β → β → β) : List β → List β
  | [] => []
  | b :: bs => joinFrom free join b bs

/-- No two neighbours are free. -/
def Settled (free : β → Bool) (bs : List β) : Prop :=
  bs.IsChain fun b c => (free b && free c) = false

theorem stop_joinFrom (hlen : ∀ b c, len (join b c) = len b + len c) :
    stop len a (joinFrom free join b bs) = stop len a (b :: bs) := by
  induction bs generalizing a b with
  | nil => rfl
  | cons c cs ih =>
      unfold joinFrom
      split
      next => rw [ih, stop_cons, stop_cons, stop_cons, hlen, Nat.add_assoc]
      next => rw [stop_cons, ih, stop_cons, stop_cons, stop_cons]

/-- What is joined goes on as its first piece does, when that is not free. -/
theorem joinFrom_head (hfree : ∀ b c, free b = true → free c = true → free (join b c) = true) :
    ∃ d ds, joinFrom free join b bs = d :: ds ∧ free d = free b := by
  induction bs generalizing b with
  | nil => exact ⟨b, [], rfl, rfl⟩
  | cons c cs ih =>
      unfold joinFrom
      split
      next h =>
        obtain ⟨hb, hc⟩ := (Bool.and_eq_true _ _).mp h
        obtain ⟨d, ds, heq, hd⟩ := @ih (join b c)
        exact ⟨d, ds, heq, by rw [hd, hb, hfree b c hb hc]⟩
      next => exact ⟨b, _, rfl, rfl⟩

theorem settled_joinFrom
    (hfree : ∀ b c, free b = true → free c = true → free (join b c) = true) :
    Settled free (joinFrom free join b bs) := by
  induction bs generalizing b with
  | nil => exact List.isChain_singleton b
  | cons c cs ih =>
      unfold joinFrom
      split
      next => exact ih
      next h =>
        obtain ⟨d, ds, heq, hd⟩ := @joinFrom_head _ c cs free join hfree
        have hrest := @ih c
        rw [heq] at hrest ⊢
        refine List.isChain_cons_cons.mpr ⟨?_, hrest⟩
        rw [hd]
        exact eq_false_of_ne_true h

/-- The pieces that are not free stay as they are, where they are. -/
theorem kept_joinFrom (hlen : ∀ b c, len (join b c) = len b + len c)
    (hfree : ∀ b c, free b = true → free c = true → free (join b c) = true) :
    (starts len a (joinFrom free join b bs)).filter (fun p => !free p.2) =
      (starts len a (b :: bs)).filter fun p => !free p.2 := by
  induction bs generalizing a b with
  | nil => rfl
  | cons c cs ih =>
      unfold joinFrom
      split
      next h =>
        obtain ⟨hb, hc⟩ := (Bool.and_eq_true _ _).mp h
        rw [ih, starts_cons, starts_cons, starts_cons, hlen, ← Nat.add_assoc,
          List.filter_cons_of_neg (by simp [hfree b c hb hc]),
          List.filter_cons_of_neg (by simp [hb]), List.filter_cons_of_neg (by simp [hc])]
      next =>
        rw [starts_cons, starts_cons]
        simp only [List.filter_cons, ih]

theorem mem_of_mem_joinFrom {d : β} (hlen : ∀ b c, len (join b c) = len b + len c)
    (hfree : ∀ b c, free b = true → free c = true → free (join b c) = true)
    (hmem : d ∈ joinFrom free join b bs) (hd : free d = false) : d ∈ b :: bs := by
  rw [← @map_snd_starts β len 0 (joinFrom free join b bs)] at hmem
  obtain ⟨p, hp, rfl⟩ := List.mem_map.mp hmem
  have hp : p ∈ (starts len 0 (joinFrom free join b bs)).filter fun p => !free p.2 :=
    List.mem_filter.mpr ⟨hp, by rw [hd, Bool.not_false]⟩
  rw [kept_joinFrom hlen hfree] at hp
  exact snd_mem (List.mem_filter.mp hp).1

/-- A free piece of settled ones is replaced by one that is not free. -/
theorem Settled.replace (h : Settled free (pre ++ b :: post)) (hc : free c = false) :
    Settled free (pre ++ c :: post) := by
  obtain ⟨hpre, hpost, -⟩ := List.isChain_append.mp h
  refine List.isChain_append.mpr ⟨hpre, ?_, fun x _ y hy => ?_⟩
  · refine List.isChain_cons.mpr ⟨fun y _ => ?_, (List.isChain_cons.mp hpost).2⟩
    rw [hc, Bool.false_and]
  · cases hy
    rw [hc, Bool.and_false]

/-- A free piece of settled ones is cut in two, of which the first is not free. -/
theorem Settled.split {d : β} (h : Settled free (pre ++ b :: post)) (hb : free b = true)
    (hc : free c = false) (hd : free d = true) : Settled free (pre ++ c :: d :: post) := by
  obtain ⟨hpre, hpost, -⟩ := List.isChain_append.mp h
  obtain ⟨hhead, hpost⟩ := List.isChain_cons.mp hpost
  refine List.isChain_append.mpr ⟨hpre, ?_, fun x _ y hy => ?_⟩
  · refine List.isChain_cons_cons.mpr ⟨by rw [hc, Bool.false_and], ?_⟩
    refine List.isChain_cons.mpr ⟨fun y hy => ?_, hpost⟩
    rw [hd, ← hb]
    exact hhead y hy
  · cases hy
    rw [hc, Bool.and_false]

/-- Of settled pieces at most one more is free than not; none more behind one that is not. -/
theorem Settled.countP_le (h : Settled free bs) :
    bs.countP free ≤ bs.countP (fun b => !free b) + 1 ∧
      ∀ b cs, bs = b :: cs → free b = false →
        bs.countP free ≤ bs.countP fun b => !free b := by
  induction bs with
  | nil => exact ⟨Nat.zero_le _, nofun⟩
  | cons b cs ih =>
      obtain ⟨hhead, hrest⟩ := List.isChain_cons.mp h
      obtain ⟨hle, htail⟩ := ih hrest
      rw [List.countP_cons, List.countP_cons]
      cases hb : free b with
      | false =>
          rw [if_neg Bool.false_ne_true, if_pos Bool.not_false]
          exact ⟨by omega, fun _ _ _ _ => hle⟩
      | true =>
          rw [if_pos rfl, if_neg (by decide)]
          refine ⟨?_, fun c ds heq hc => ?_⟩
          · cases cs with
            | nil => exact le_rfl
            | cons c ds =>
                have hc := hhead c rfl
                rw [hb, Bool.true_and] at hc
                have hle := htail c ds rfl hc
                omega
          · cases heq
            cases hb.symm.trans hc

/-- Settled pieces that are all free are one at most. -/
theorem length_le_one_of_settled (h : Settled free bs) (hall : ∀ b ∈ bs, free b = true) :
    bs.length ≤ 1 := by
  cases bs with
  | nil => exact Nat.zero_le 1
  | cons b bs =>
      cases bs with
      | nil => exact le_rfl
      | cons c cs =>
          have hpair := (List.isChain_cons_cons.mp h).1
          rw [hall b (by simp), hall c (by simp)] at hpair
          cases hpair

end Join

end SlowBus.Tiles
