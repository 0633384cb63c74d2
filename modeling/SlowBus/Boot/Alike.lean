import SlowBus.Boot.Readers
import SlowBus.Boot.Skip

/-!
# Two runs of a reader

Two cursors are alike when the same items are before them and then each has a rest of its own,
or when all that is before them is the same. As long as no length carries a pointer past the
last address, whatever a reader does with one of them it does with the other.
-/

namespace SlowBus.Boot

open Prog
open Cbor

/-- A length does not carry the pointer past the last address. -/
def NoCarry : Access → Prop
  | .reach q a => q + a % 2 ^ 32 < 2 ^ 32
  | _ => True

instance : DecidablePred NoCarry
  | .read _ | .move _ | .slice _ _ => instDecidableTrue
  | .reach q a => Nat.decLt (q + a % 2 ^ 32) (2 ^ 32)

/-- The bytes begin with the same `k` items and end with a tail for each, or they are the same. -/
def SameItems (tails : Option (Octets × Octets)) (k : Nat) (r r' : Octets) : Prop :=
  match tails with
  | none => r = r'
  | some (s, s') => ∃ w, Items k w ∧ r = w ++ s ∧ r' = w ++ s'

/-- Before the items is what is behind a head of theirs. -/
def SameBody (tails : Option (Octets × Octets)) (k major a : Nat) (r r' : Octets) : Prop :=
  match tails with
  | none => r = r'
  | some (s, s') => ∃ body w, Body major a body ∧ Items k w ∧
      r = body ++ (w ++ s) ∧ r' = body ++ (w ++ s')

/-- Before both cursors are `k` items and then a rest for each, or the same bytes. -/
structure Alike (mem mem' : Mem) (tails : Option (Octets × Octets)) (fuel k : Nat)
    (c c' : Cursor) : Prop where
  valid : c.Valid
  valid' : c'.Valid
  enough : (c.rest mem).length < fuel
  enough' : (c'.rest mem').length < fuel
  rests : SameItems tails k (c.rest mem) (c'.rest mem')

/-- The same, behind the head of the first of the items. -/
structure Behind (mem mem' : Mem) (tails : Option (Octets × Octets)) (fuel k major a : Nat)
    (c c' : Cursor) : Prop where
  valid : c.Valid
  valid' : c'.Valid
  enough : (c.rest mem).length + 1 < fuel
  enough' : (c'.rest mem').length + 1 < fuel
  rests : SameBody tails k major a (c.rest mem) (c'.rest mem')

/-- The two strings have the same bytes. -/
def SameText (mem mem' : Mem) (s s' : Slice) : Prop :=
  s.len = s'.len ∧ bytesAt mem s.ptr s.len = bytesAt mem' s'.ptr s'.len

section

variable {mem mem' : Mem} {tails : Option (Octets × Octets)} {fuel k n a major want : Nat}
  {c c' : Cursor} {h r : Octets}

/-! ## Cursors -/

/-- Cursors that are alike start with the same head, or with none. -/
theorem Alike.head (hc : Alike mem mem' tails fuel (k + 1) c c') :
    (head? (c.rest mem) = none ∧ head? (c'.rest mem') = none) ∨
    ∃ h major a, Head h major a ∧ (∃ r, c.rest mem = h ++ r) ∧ (∃ r', c'.rest mem' = h ++ r') ∧
      Behind mem mem' tails fuel k major a (c.advance h.length) (c'.advance h.length) := by
  obtain ⟨hvalid, hvalid', hfuel, hfuel', hrests⟩ := hc
  have build : ∀ {h r r' : Octets} {major a : Nat}, Head h major a → c.rest mem = h ++ r →
      c'.rest mem' = h ++ r' → SameBody tails k major a r r' →
      Behind mem mem' tails fuel k major a (c.advance h.length) (c'.advance h.length) := by
    intro h r r' major a hh hrest hrest' htails
    obtain ⟨hc₁, hr⟩ := hvalid.rest_append hrest
    obtain ⟨hc₁', hr'⟩ := hvalid'.rest_append hrest'
    have hpos := hh.length_pos
    rw [hrest, List.length_append] at hfuel
    rw [hrest', List.length_append] at hfuel'
    refine ⟨hc₁, hc₁', by rw [hr]; omega, by rw [hr']; omega, ?_⟩
    rw [hr, hr']
    exact htails
  cases tails with
  | none =>
      have hsame : c.rest mem = c'.rest mem' := hrests
      cases hhead : head? (c.rest mem) with
      | none => exact .inl ⟨rfl, hsame ▸ hhead⟩
      | some found =>
          obtain ⟨major, a, r⟩ := found
          obtain ⟨h, hrest, hh⟩ := exists_of_head? hhead
          have hrest' : c'.rest mem' = h ++ r := hsame.symm.trans hrest
          exact .inr ⟨h, major, a, hh, ⟨r, hrest⟩, ⟨r, hrest'⟩, build hh hrest hrest' rfl⟩
  | some t =>
      obtain ⟨s, s'⟩ := t
      obtain ⟨w, hw, hrest, hrest'⟩ := hrests
      obtain ⟨x, w, hx, htail, rfl⟩ := items_succ.mp hw
      obtain ⟨h, major, a, body, hh, hbody, rfl⟩ := item_iff.mp hx
      have hsplit : ∀ s : Octets, h ++ body ++ w ++ s = h ++ (body ++ (w ++ s)) := by
        intro s
        rw [List.append_assoc, List.append_assoc]
      rw [hsplit] at hrest hrest'
      exact .inr ⟨h, major, a, hh, ⟨_, hrest⟩, ⟨_, hrest'⟩,
        build hh hrest hrest' ⟨body, w, hbody, htail, rfl, rfl⟩⟩

/-- Behind a head, the items it counts are before both cursors. -/
theorem Behind.alike (hc : Behind mem mem' tails fuel k major a c c')
    (hbody : ∀ body, Body major a body → Items n body) :
    Alike mem mem' tails fuel (n + k) c c' := by
  obtain ⟨hvalid, hvalid', hfuel, hfuel', hrests⟩ := hc
  refine ⟨hvalid, hvalid', by omega, by omega, ?_⟩
  cases tails with
  | none => exact hrests
  | some t =>
      obtain ⟨s, s'⟩ := t
      obtain ⟨body, w, hb, hw, hrest, hrest'⟩ := hrests
      refine ⟨body ++ w, (hbody body hb).append hw, ?_, ?_⟩
      · rw [hrest, List.append_assoc]
      · rw [hrest', List.append_assoc]

/-! ## Programs that agree -/

/-- From cursors that are alike with `k` items to go, both programs fail alike or return values
in `A`, with `post` of the value to go. -/
def Agrees (mem mem' : Mem) (tails : Option (Octets × Octets)) (fuel k : Nat) {ε α α' : Type}
    (m : Decode ε α) (m' : Decode ε α') (post : α → Nat) (A : α → α' → Prop) : Prop :=
  Relates NoCarry (Alike mem mem' tails fuel k) m m'
    (fun x x' c c' => Alike mem mem' tails fuel (post x) c c' ∧ A x x') Eq

section Rules

variable {ε ε₁ α α' β β' : Type} {m : Decode ε α} {m' : Decode ε α'} {post : α → Nat}
  {A : α → α' → Prop} {f : α → Decode ε β} {f' : α' → Decode ε β'} {post' : β → Nat}
  {B : β → β' → Prop} {x : α} {x' : α'} {e : ε}

theorem Agrees.pure (hx : A x x') (hk : post x = k) :
    Agrees mem mem' tails fuel k (pure x : Decode ε α) (pure x' : Decode ε α') post A :=
  fun _ _ hc _ _ => .ok ⟨hk.symm ▸ hc, hx⟩

theorem Agrees.fail :
    Agrees mem mem' tails fuel k (fail e : Decode ε α) (Prog.fail e : Decode ε α') post A :=
  Relates.fail rfl

theorem Agrees.bind (hm : Agrees mem mem' tails fuel k m m' post A)
    (hf : ∀ x x', A x x' → Agrees mem mem' tails fuel (post x) (f x) (f' x') post' B) :
    Agrees mem mem' tails fuel k (m >>= f) (m' >>= f') post' B :=
  Relates.bind hm fun x x' c c' hc => hf x x' hc.2 c c' hc.1

theorem Agrees.mapFail {g g' : ε → ε₁} (hm : Agrees mem mem' tails fuel k m m' post A)
    (hg : ∀ e, g e = g' e) :
    Agrees mem mem' tails fuel k (m.mapFail g) (m'.mapFail g') post A :=
  Relates.mapFail hm fun e _ he => he ▸ hg e

theorem Agrees.orFail {e₁ e₁' : ε₁} (hm : Agrees mem mem' tails fuel k m m' post A)
    (he : e₁ = e₁') : Agrees mem mem' tails fuel k (m.orFail e₁) (m'.orFail e₁') post A :=
  hm.mapFail fun _ => he

theorem Agrees.ite {p p' : Prop} [Decidable p] [Decidable p'] {m₁ : Decode ε α}
    {m₁' : Decode ε α'} (hp : p ↔ p') (hm : p → Agrees mem mem' tails fuel k m m' post A)
    (hm₁ : ¬p → Agrees mem mem' tails fuel k m₁ m₁' post A) :
    Agrees mem mem' tails fuel k (if p then m else m₁) (if p' then m' else m₁') post A := by
  by_cases h : p
  · rw [if_pos h, if_pos (hp.mp h)]
    exact hm h
  · rw [if_neg h, if_neg fun h' => h (hp.mpr h')]
    exact hm₁ h

/-- A loop each turn of which takes `d` items. -/
theorem Agrees.loop {body : Nat → α → Decode ε α} {body' : Nat → α' → Decode ε α'} {d : Nat}
    (hbody : ∀ i j x x', A x x' →
      Agrees mem mem' tails fuel (d + j) (body i x) (body' i x') (fun _ => j) A)
    (hx : A x x') (i n : Nat) :
    Agrees mem mem' tails fuel (n * d + k) (loop body i n x) (loop body' i n x')
      (fun _ => k) A := by
  have hturn : ∀ i j x x', Relates NoCarry
      (fun c c' => Alike mem mem' tails fuel ((j + 1) * d + k) c c' ∧ A x x')
      (body i x) (body' i x')
      (fun y y' c c' => Alike mem mem' tails fuel (j * d + k) c c' ∧ A y y') Eq := by
    intro i j x x' c c' hc
    have hc' := hc.1
    rw [Nat.succ_mul, Nat.add_comm (j * d) d, Nat.add_assoc] at hc'
    exact hbody i (j * d + k) x x' hc.2 c c' hc'
  have hloop := Relates.loop
    (I := fun j x x' c c' => Alike mem mem' tails fuel (j * d + k) c c' ∧ A x x')
    hturn i i n rfl x x'
  refine hloop.weaken (fun c c' hc => ⟨hc, hx⟩) fun y y' c c' hc => ⟨?_, hc.2⟩
  have hc' := hc.1
  rwa [Nat.zero_mul, Nat.zero_add] at hc'

/-- A loop each turn of which takes one item. -/
theorem Agrees.each {body : Nat → α → Decode ε α} {body' : Nat → α' → Decode ε α'}
    (hbody : ∀ i j x x', A x x' →
      Agrees mem mem' tails fuel (j + 1) (body i x) (body' i x') (fun _ => j) A)
    (hx : A x x') (i n : Nat) :
    Agrees mem mem' tails fuel (n + k) (Prog.loop body i n x) (Prog.loop body' i n x')
      (fun _ => k) A := by
  have hloop := Agrees.loop (d := 1) (k := k) (fun i j x x' hx =>
    Nat.add_comm 1 j ▸ hbody i j x x' hx) hx i n
  rwa [Nat.mul_one] at hloop

end Rules

/-! ## The decoder -/

section Decoder

/-- Where a function fails its cursor does not matter any more. -/
theorem relates_orRestore {α α' : Type} {P : Cursor → Cursor → Prop} {m : Decode Unit α}
    {m' : Decode Unit α'} {Q : α → α' → Cursor → Cursor → Prop}
    (hm : Relates NoCarry P m m' Q Eq) :
    Relates NoCarry P (orRestore m) (orRestore m') Q Eq := by
  intro c c' hc hclean hclean'
  have hend := hm c c' hc
  unfold orRestore at hclean hclean' ⊢
  generalize m c = run, m' c' = run' at hclean hclean' hend
  obtain ⟨out, c₁, evs⟩ := run
  obtain ⟨out', c₁', evs'⟩ := run'
  have hevs : ∀ ev ∈ evs, NoCarry ev := by
    intro ev hev
    cases out with
    | ok x => exact hclean ev hev
    | fail e => exact hclean ev (List.mem_append_left _ hev)
    | spent => exact hclean ev hev
  have hevs' : ∀ ev ∈ evs', NoCarry ev := by
    intro ev hev
    cases out' with
    | ok x => exact hclean' ev hev
    | fail e => exact hclean' ev (List.mem_append_left _ hev)
    | spent => exact hclean' ev hev
  cases hend hevs hevs' with
  | ok hq => exact .ok hq
  | fail he => exact .fail he

theorem cborHdr_relates : Relates NoCarry (Alike mem mem' tails fuel (k + 1)) (cborHdr mem)
    (cborHdr mem') (fun x x' c c' => x = x' ∧ Behind mem mem' tails fuel k x.1 x.2 c c') Eq := by
  intro c c' hc _ _
  rcases hc.head with ⟨hnone, hnone'⟩ | ⟨h, major, a, hh, ⟨r, hrest⟩, ⟨r', hrest'⟩, hbehind⟩
  · obtain ⟨c₁, hends⟩ := cborHdr_fails hc.valid hnone
    obtain ⟨c₁', hends'⟩ := cborHdr_fails hc.valid' hnone'
    rw [hends.1, hends'.1]
    exact .fail rfl
  · have hends := cborHdr_ends hc.valid hh hrest
    have hends' := cborHdr_ends hc.valid' hh hrest'
    rw [hends.1, hends.2, hends'.1, hends'.2]
    exact .ok ⟨rfl, hbehind⟩

theorem hdrOf_relates (want : Nat) : Relates NoCarry (Alike mem mem' tails fuel (k + 1))
    (hdrOf mem want) (hdrOf mem' want)
    (fun a a' c c' => a = a' ∧ Behind mem mem' tails fuel k want a c c') Eq := by
  refine cborHdr_relates.bind fun x x' => Relates.of_pre (fun c c' hc => hc.1) fun heq => ?_
  subst heq
  obtain ⟨major, a⟩ := x
  dsimp only
  split
  next => exact .fail rfl
  next hmajor =>
    obtain rfl := not_not.mp hmajor
    exact fun c c' hc _ _ => .ok ⟨rfl, hc.2⟩

theorem cborUint_agrees : Agrees mem mem' tails fuel (k + 1) (cborUint mem) (cborUint mem')
    (fun _ => k) Eq := by
  refine (relates_orRestore (hdrOf_relates _)).weaken (fun _ _ hc => hc) fun a a' c c' hc => ?_
  have halike := hc.2.alike (n := 0) fun body hbody => by
    cases hbody with
    | uint => exact items_zero.mpr rfl
    | string _ _ hmajor => exact absurd hmajor (by decide)
  rw [Nat.zero_add] at halike
  exact ⟨halike, hc.1⟩

theorem cborOpen_array_agrees : Agrees mem mem' tails fuel (k + 1) (cborOpen mem cborArray)
    (cborOpen mem' cborArray) (fun n => n + k) Eq := by
  refine (relates_orRestore (hdrOf_relates _)).weaken (fun _ _ hc => hc) fun a a' c c' hc =>
    ⟨hc.2.alike fun body hbody => ?_, hc.1⟩
  cases hbody with
  | string _ _ hmajor => exact absurd hmajor (by decide)
  | array hitems => exact hitems

theorem cborOpen_map_agrees : Agrees mem mem' tails fuel (k + 1) (cborOpen mem cborMap)
    (cborOpen mem' cborMap) (fun n => n * 2 + k) Eq := by
  refine (relates_orRestore (hdrOf_relates _)).weaken (fun _ _ hc => hc) fun a a' c c' hc =>
    ⟨hc.2.alike fun body hbody => ?_, hc.1⟩
  cases hbody with
  | string _ _ hmajor => exact absurd hmajor (by decide)
  | map hitems => exact Nat.mul_comm 2 a ▸ hitems

/-- The end of a string whose length does not carry. -/
theorem reach_le_iff (mem : Mem) (hc : c.Valid) (hreach : c.p + a % 2 ^ 32 < 2 ^ 32) :
    ptrAdd c.p a ≤ c.stop ↔ a % 2 ^ 32 ≤ (c.rest mem).length := by
  obtain ⟨hle, -⟩ := hc
  rw [Cursor.length_rest]
  unfold ptrAdd
  omega

/-- A string that fits one of the cursors fits the other; it is the same, and so are the items
behind it. -/
theorem SameBody.cut {r' : Octets} (hrests : SameBody tails k want a r r')
    (hwant : want = 2 ∨ want = 3) (hr : r.length < 2 ^ 32) :
    (a % 2 ^ 32 ≤ r.length ↔ a % 2 ^ 32 ≤ r'.length) ∧
      (a % 2 ^ 32 ≤ r.length → r.take (a % 2 ^ 32) = r'.take (a % 2 ^ 32) ∧
        SameItems tails k (r.drop (a % 2 ^ 32)) (r'.drop (a % 2 ^ 32))) := by
  cases tails with
  | none =>
      have hsame : r = r' := hrests
      subst hsame
      exact ⟨Iff.rfl, fun _ => ⟨rfl, rfl⟩⟩
  | some t =>
      obtain ⟨s, s'⟩ := t
      obtain ⟨body, w, hbody, hw, rfl, rfl⟩ := hrests
      have hlen : body.length = a := by
        rcases hwant with rfl | rfl
        all_goals cases hbody; rfl
      rw [List.length_append] at hr
      have hle : ∀ t : Octets, body.length ≤ (body ++ t).length := by simp
      rw [Nat.mod_eq_of_lt (by omega), ← hlen, List.take_left, List.take_left, List.drop_left,
        List.drop_left]
      exact ⟨iff_of_true (hle _) (hle _), fun _ => ⟨rfl, w, hw, rfl, rfl⟩⟩

/-- Behind a string the cursors are alike. -/
theorem Behind.past (hc : Behind mem mem' tails fuel k want a c c')
    (hwant : want = 2 ∨ want = 3) (hle : a % 2 ^ 32 ≤ (c.rest mem).length) :
    SameText mem mem' ⟨c.p, a % 2 ^ 32⟩ ⟨c'.p, a % 2 ^ 32⟩ ∧
      Alike mem mem' tails fuel k (c.advance (a % 2 ^ 32)) (c'.advance (a % 2 ^ 32)) := by
  have hlen : (c.rest mem).length < 2 ^ 32 := by
    have hstop := hc.valid.stop_lt
    rw [Cursor.length_rest]
    omega
  obtain ⟨hiff, hcut⟩ := hc.rests.cut hwant hlen
  obtain ⟨htake, hdrop⟩ := hcut hle
  have hle' := hiff.mp hle
  rw [Cursor.rest_take hle, Cursor.rest_take hle'] at htake
  have henough := hc.enough
  have henough' := hc.enough'
  rw [hc.valid.rest_drop hle, hc.valid'.rest_drop hle'] at hdrop
  refine ⟨⟨rfl, htake⟩, hc.valid.advance hle, hc.valid'.advance hle', ?_, ?_, hdrop⟩
  · rw [← hc.valid.rest_drop hle, List.length_drop]
    omega
  · rw [← hc.valid'.rest_drop hle', List.length_drop]
    omega

/-- The comparison with the end has the same outcome on both sides. -/
theorem Behind.reach_iff (hc : Behind mem mem' tails fuel k want a c c')
    (hwant : want = 2 ∨ want = 3) (hreach : c.p + a % 2 ^ 32 < 2 ^ 32)
    (hreach' : c'.p + a % 2 ^ 32 < 2 ^ 32) :
    (ptrAdd c.p a > c.stop ↔ ¬a % 2 ^ 32 ≤ (c.rest mem).length) ∧
      (ptrAdd c'.p a > c'.stop ↔ ¬a % 2 ^ 32 ≤ (c.rest mem).length) := by
  have hlen : (c.rest mem).length < 2 ^ 32 := by
    have hstop := hc.valid.stop_lt
    rw [Cursor.length_rest]
    omega
  have hiff := (hc.rests.cut hwant hlen).1
  rw [gt_iff_lt, gt_iff_lt, ← not_le, ← not_le, reach_le_iff mem hc.valid hreach,
    reach_le_iff mem' hc.valid' hreach', hiff]
  exact ⟨Iff.rfl, Iff.rfl⟩

/-- A function that compares with the end of a string and passes it does so on both sides. -/
theorem guarded_relates {β : Type} {m : Decode Unit β} {x : Cursor → β}
    {evs : Cursor → List Access} {Q : β → β → Prop}
    (hm : ∀ c, m c = if ptrAdd c.p a > c.stop then ⟨.fail (), c, [.reach c.p a]⟩
      else ⟨.ok (x c), ⟨ptrAdd c.p a, c.stop⟩, .reach c.p a :: evs c⟩)
    (hQ : ∀ c c' : Cursor, SameText mem mem' ⟨c.p, a % 2 ^ 32⟩ ⟨c'.p, a % 2 ^ 32⟩ →
      Q (x c) (x c'))
    (hwant : want = 2 ∨ want = 3) :
    Relates NoCarry (Behind mem mem' tails fuel k want a) m m
      (fun y y' c c' => Alike mem mem' tails fuel k c c' ∧ Q y y') Eq := by
  intro c c' hc hclean hclean'
  have hevent : ∀ c, .reach c.p a ∈ (m c).events := by
    intro c
    rw [hm]
    split <;> exact List.mem_cons_self
  have hreach : c.p + a % 2 ^ 32 < 2 ^ 32 := hclean _ (hevent c)
  have hreach' : c'.p + a % 2 ^ 32 < 2 ^ 32 := hclean' _ (hevent c')
  obtain ⟨hfits, hfits'⟩ := hc.reach_iff hwant hreach hreach'
  rw [hm, hm]
  by_cases hle : a % 2 ^ 32 ≤ (c.rest mem).length
  · obtain ⟨hsame, hpast⟩ := hc.past hwant hle
    rw [if_neg fun h => hfits.mp h hle, if_neg fun h => hfits'.mp h hle, ptrAdd_reach hreach,
      ptrAdd_reach hreach']
    exact .ok ⟨hpast, hQ c c' hsame⟩
  · rw [if_pos (hfits.mpr hle), if_pos (hfits'.mpr hle)]
    exact .fail rfl

theorem takeString_relates (hwant : want = 2 ∨ want = 3) :
    Relates NoCarry (Behind mem mem' tails fuel k want a) (takeString a) (takeString a)
      (fun s s' c c' => Alike mem mem' tails fuel k c c' ∧ SameText mem mem' s s') Eq :=
  guarded_relates (fun _ => rfl) (fun _ _ hsame => hsame) hwant

theorem passString_relates (hwant : want = 2 ∨ want = 3) :
    Relates NoCarry (Behind mem mem' tails fuel k want a) (passString a) (passString a)
      (fun _ _ c c' => Alike mem mem' tails fuel k c c' ∧ True) Eq :=
  guarded_relates (fun _ => rfl) (fun _ _ _ => trivial) hwant

theorem cborStr_agrees (hwant : want = 2 ∨ want = 3) :
    Agrees mem mem' tails fuel (k + 1) (cborStr mem want) (cborStr mem' want) (fun _ => k)
      (SameText mem mem') :=
  relates_orRestore ((hdrOf_relates want).bind fun _ _ =>
    Relates.of_pre (fun _ _ hc => hc.1) fun heq => by
      subst heq
      exact (takeString_relates hwant).weaken (fun _ _ hc => hc.2) fun _ _ _ _ hq => hq)

/-- The same item is passed over on both sides. -/
theorem cborSkip_agrees_items {s s' : Octets} :
    Agrees mem mem' (some (s, s')) fuel (k + 1) (cborSkip mem fuel) (cborSkip mem' fuel)
      (fun _ => k) fun _ _ => True := by
  refine Relates.of_ends fun c c' hc => ?_
  obtain ⟨hvalid, hvalid', hfuel, hfuel', w, hw, hrest, hrest'⟩ := hc
  obtain ⟨x, w, hx, htail, rfl⟩ := items_succ.mp hw
  rw [List.append_assoc] at hrest hrest'
  have hle : x.length ≤ fuel := by
    rw [hrest, List.length_append] at hfuel
    omega
  have hends := cborSkip_item hx hle hvalid hrest
  have hends' := cborSkip_item hx hle hvalid' hrest'
  obtain ⟨hc₁, hr⟩ := hvalid.rest_append hrest
  obtain ⟨hc₁', hr'⟩ := hvalid'.rest_append hrest'
  rw [hrest, List.length_append] at hfuel
  rw [hrest', List.length_append] at hfuel'
  exact ⟨(), (), _, _, hends, hends', ⟨hc₁, hc₁', by rw [hr]; omega, by rw [hr']; omega, w, htail,
    hr, hr'⟩, trivial⟩

/-- On the same bytes the function does the same. -/
theorem cborSkip_agrees_same :
    Agrees mem mem' none fuel (k + 1) (cborSkip mem fuel) (cborSkip mem' fuel) (fun _ => k)
      fun _ _ => True := by
  induction fuel generalizing k with
  | zero => exact fun c c' hc => absurd hc.enough (Nat.not_lt_zero _)
  | succ fuel ih =>
      have hmore : ∀ {k j c c'}, Alike mem mem' none fuel k c c' →
          Alike mem mem' none (fuel + 1) j c c' := fun hc =>
        ⟨hc.valid, hc.valid', Nat.lt_succ_of_lt hc.enough, Nat.lt_succ_of_lt hc.enough',
          hc.rests⟩
      -- an array or a map: the items inside use one level of the fuel less
      have hloop : ∀ major a n, Relates NoCarry (Behind mem mem' none (fuel + 1) k major a)
          (loop (fun _ _ => cborSkip mem fuel) 0 n ())
          (loop (fun _ _ => cborSkip mem' fuel) 0 n ())
          (fun _ _ c c' => Alike mem mem' none (fuel + 1) k c c' ∧ True) Eq := by
        intro major a n
        have hturns : Agrees mem mem' none fuel (n + 0) (loop (fun _ _ => cborSkip mem fuel) 0 n ())
            (loop (fun _ _ => cborSkip mem' fuel) 0 n ()) (fun _ => 0) fun _ _ => True :=
          Agrees.each (fun _ j _ _ _ => ih (k := j)) trivial 0 n
        refine hturns.weaken (fun c c' hc => ?_) fun _ _ c c' hc => ⟨hmore hc.1, trivial⟩
        exact ⟨hc.valid, hc.valid', Nat.lt_of_succ_lt_succ hc.enough,
          Nat.lt_of_succ_lt_succ hc.enough', hc.rests⟩
      -- both sides read the same header, so they take the same branch
      refine cborHdr_relates.bind fun x x' => Relates.of_pre (fun c c' hc => hc.1) fun heq => ?_
      subst heq
      obtain ⟨major, a⟩ := x
      refine Relates.weaken (P := Behind mem mem' none (fuel + 1) k major a) ?_
        (fun _ _ hc => hc.2) fun _ _ _ _ hq => hq
      dsimp only
      split
      next =>
        exact fun c c' hc _ _ => .ok ⟨⟨hc.valid, hc.valid', Nat.lt_of_succ_lt hc.enough,
          Nat.lt_of_succ_lt hc.enough', hc.rests⟩, trivial⟩
      next =>
      split
      next hstring =>
        exact passString_relates hstring
      next =>
      split
      next => exact hloop _ _ _
      next =>
      split
      next => exact hloop _ _ _
      next => exact .fail rfl

theorem cborSkip_agrees : Agrees mem mem' tails fuel (k + 1) (cborSkip mem fuel)
    (cborSkip mem' fuel) (fun _ => k) fun _ _ => True := by
  cases tails with
  | none => exact cborSkip_agrees_same
  | some t => exact cborSkip_agrees_items

end Decoder

/-! ## The readers -/

section Readers

variable {ε α α' : Type} {e : α → ε} {e' : α' → ε} {keys : Keys ε α} {keys' : Keys ε α'}
  {A : α → α' → Prop} {acc : α} {acc' : α'} {s s' : Slice}

theorem SameText.readBytes (hs : SameText mem mem' s s') (hn : n ≤ s.len) :
    Agrees mem mem' tails fuel k (readBytes mem s.ptr n : Decode ε Octets)
      (readBytes mem' s'.ptr n : Decode ε Octets) (fun _ => k) Eq := by
  obtain ⟨hlen, hbytes⟩ := hs
  have hn' : n ≤ s'.len := hlen ▸ hn
  have hsame : bytesAt mem s.ptr n = bytesAt mem' s'.ptr n := by
    rw [← bytesAt_take hn, ← bytesAt_take hn', hbytes]
  exact fun c c' hc _ _ => .ok ⟨hc, hsame⟩

theorem SameText.cborKey (hs : SameText mem mem' s s') (w : Octets) :
    Agrees mem mem' tails fuel k (cborKey mem s w : Decode ε Bool)
      (cborKey mem' s' w : Decode ε Bool) (fun _ => k) Eq := by
  refine .ite (by rw [hs.1]) (fun _ => ?_) fun _ => .pure rfl rfl
  rw [← hs.1]
  exact (hs.readBytes le_rfl).bind fun v v' hv => .pure (by rw [hv]) rfl

/-- Both readers know the same keys, and agree on the value of each. -/
def KeysAgree (mem mem' : Mem) (tails : Option (Octets × Octets)) (fuel : Nat)
    (A : α → α' → Prop) (keys : Keys ε α) (keys' : Keys ε α') : Prop :=
  List.Forall₂ (fun x x' => x.1 = x'.1 ∧ ∀ k acc acc', A acc acc' →
    Agrees mem mem' tails fuel (k + 1) (x.2 acc) (x'.2 acc') (fun _ => k) A) keys keys'

theorem onKey_agrees {other : α → Decode ε α} {other' : α' → Decode ε α'}
    (hs : SameText mem mem' s s') (hacc : A acc acc')
    (hother : Agrees mem mem' tails fuel (k + 1) (other acc) (other' acc') (fun _ => k) A)
    (hkeys : KeysAgree mem mem' tails fuel A keys keys') :
    Agrees mem mem' tails fuel (k + 1) (onKey mem s other keys acc)
      (onKey mem' s' other' keys' acc') (fun _ => k) A := by
  induction hkeys with
  | nil => exact hother
  | cons hx _ ih =>
      obtain ⟨hkey, hvalue⟩ := hx
      unfold onKey
      rw [hkey]
      refine (hs.cborKey _).bind fun hit hit' hhit => ?_
      subst hhit
      exact .ite Iff.rfl (fun _ => hvalue k acc acc' hacc) fun _ => ih

variable (he : ∀ acc acc', A acc acc' → e acc = e' acc')
include he

theorem skipValue_agrees (hacc : A acc acc') :
    Agrees mem mem' tails fuel (k + 1) (skipValue mem fuel e acc) (skipValue mem' fuel e' acc')
      (fun _ => k) A :=
  (cborSkip_agrees.orFail (he _ _ hacc)).bind fun _ _ _ => .pure hacc rfl

theorem onePair_agrees (hkeys : KeysAgree mem mem' tails fuel A keys keys') (hacc : A acc acc') :
    Agrees mem mem' tails fuel (2 + k) (onePair mem fuel e keys acc)
      (onePair mem' fuel e' keys' acc') (fun _ => k) A := by
  rw [Nat.add_comm 2 k]
  exact ((cborStr_agrees (.inr rfl)).orFail (he _ _ hacc)).bind fun s s' hs =>
    onKey_agrees hs hacc (skipValue_agrees he hacc) hkeys

theorem readPairs_agrees (hkeys : KeysAgree mem mem' tails fuel A keys keys')
    (hacc : A acc acc') :
    Agrees mem mem' tails fuel (k + 1) (readPairs mem fuel e keys acc)
      (readPairs mem' fuel e' keys' acc') (fun _ => k) A := by
  refine (cborOpen_map_agrees.orFail (he _ _ hacc)).bind fun np np' hnp => ?_
  subst hnp
  exact .loop (fun _ _ _ _ hacc => onePair_agrees he hkeys hacc) hacc 0 np

theorem uintInto_agrees {set : α → Nat → α} {set' : α' → Nat → α'} (hacc : A acc acc')
    (hset : ∀ x, A (set acc x) (set' acc' x)) :
    Agrees mem mem' tails fuel (k + 1) (uintInto mem e set acc) (uintInto mem' e' set' acc')
      (fun _ => k) A :=
  (cborUint_agrees.orFail (he _ _ hacc)).bind fun x _ hx => .pure (hx ▸ hset x) rfl

end Readers

theorem textInto_agrees {ε α : Type} {e : α → ε} {cap : Nat} {get : α → Octets}
    {set : α → Octets → α} {acc acc' : α} (hacc : acc = acc') :
    Agrees mem mem' tails fuel (k + 1) (textInto mem e cap get set acc)
      (textInto mem' e cap get set acc') (fun _ => k) Eq := by
  subst hacc
  refine ((cborStr_agrees (.inr rfl)).orFail rfl).bind fun s s' hs => ?_
  refine Agrees.bind (A := Eq) ?_ fun w _ hw => .pure (hw ▸ rfl) rfl
  unfold copyText
  rw [← hs.1]
  have hn : (if s.len ≥ cap then cap - 1 else s.len) ≤ s.len := by
    split
    next => omega
    next => exact le_rfl
  exact (hs.readBytes hn).bind fun v _ hv => .pure (hv ▸ rfl) rfl

end

end SlowBus.Boot
