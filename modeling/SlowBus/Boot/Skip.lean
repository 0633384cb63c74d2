import SlowBus.Boot.Cbor

/-!
# Passing over an item

`cbor_skip` passes over exactly one item where one starts and fails where none does, unless a
length or a count leaves the range it is computed in: the length of a string that carries the
pointer around the address space to an address before the end, or a map of so many pairs that
twice their number is not one of 64 bits.
-/

namespace SlowBus.Boot

open Prog
open Cbor

/-! ## What can go wrong -/

/-- A string starts here that does not fit, and the sum of its address and length is an address
before the end all the same. -/
def Overlong (mem : Mem) (c : Cursor) : Prop :=
  ∃ h major a r, Head h major a ∧ (major = 2 ∨ major = 3) ∧ c.rest mem = h ++ r ∧
    r.length < a ∧ ptrAdd (c.p + h.length) a ≤ c.stop

/-- A map starts here with 2^63 pairs or more, and behind its head are as many items as twice
their number modulo 2^64. -/
def Doubled (mem : Mem) (c : Cursor) : Prop :=
  ∃ h a n w r, Head h 5 a ∧ Items n w ∧ n + 2 ^ 64 = 2 * a ∧ c.rest mem = h ++ w ++ r

/-- Neither is the case anywhere from the cursor on. -/
def Honest (mem : Mem) (c : Cursor) : Prop :=
  ∀ k ≤ (c.rest mem).length, ¬Overlong mem (c.advance k) ∧ ¬Doubled mem (c.advance k)

section Skip

variable {mem : Mem} {c : Cursor} {x w r : Octets} {n a major fuel : Nat} {h : Octets}

theorem Honest.advance (hgood : Honest mem c) (hn : n ≤ (c.rest mem).length) :
    Honest mem (c.advance n) := by
  intro k hk
  rw [Cursor.length_rest] at hn hk
  change k ≤ c.stop - (c.p + n) at hk
  rw [Cursor.advance_advance]
  exact hgood _ (by rw [Cursor.length_rest]; omega)

/-! ## Strings -/

/-- A string that fits is passed. -/
theorem passString_ends (hc : c.Valid) (hrest : c.rest mem = w ++ r) :
    (passString w.length).Ends c (.ok ()) (c.advance w.length) := by
  obtain ⟨⟨hle, hlt⟩, -⟩ := hc.rest_append hrest
  change c.p + w.length ≤ c.stop at hle
  change c.stop < 2 ^ 32 at hlt
  unfold Ends passString
  rw [ptrAdd_eq (by omega), if_neg (Nat.not_lt.mpr hle)]
  exact ⟨rfl, rfl⟩

theorem passString_wraps (h : ptrAdd c.p a ≤ c.stop) :
    (passString a).Ends c (.ok ()) ⟨ptrAdd c.p a, c.stop⟩ := by
  unfold Ends passString
  rw [if_neg (Nat.not_lt.mpr h)]
  exact ⟨rfl, rfl⟩

theorem passString_fails (h : c.stop < ptrAdd c.p a) :
    (passString a).Ends c (.fail ()) c := by
  unfold Ends passString
  rw [if_pos h]
  exact ⟨rfl, rfl⟩

/-! ## Where an item starts -/

/-- Items one behind the other are passed by as many turns. -/
theorem skips_items {skip : Decode Unit Unit}
    (hskip : ∀ {x r c}, Item x → x.length ≤ fuel → c.Valid → c.rest mem = x ++ r →
      skip.Ends c (.ok ()) (c.advance x.length))
    (hw : Items n w) (hfuel : w.length ≤ fuel) (hc : c.Valid) (hrest : c.rest mem = w ++ r)
    (i : Nat) : (loop (fun _ _ => skip) i n ()).Ends c (.ok ()) (c.advance w.length) := by
  induction n generalizing w c i with
  | zero =>
      rw [items_zero.mp hw]
      exact pure_ends
  | succ n ih =>
      obtain ⟨x, w, hx, htail, rfl⟩ := items_succ.mp hw
      rw [List.length_append] at hfuel
      rw [List.append_assoc] at hrest
      obtain ⟨hc', hrest'⟩ := hc.rest_append hrest
      rw [List.length_append, ← Cursor.advance_advance]
      exact (hskip hx (by omega) hc hrest).bind (ih htail (by omega) hc' hrest' (i + 1))

theorem items_count_lt (hw : Items n w) (hc : c.Valid) (hrest : c.rest mem = w ++ r) :
    n < 2 ^ 64 := by
  have hle := hw.le_length
  have hlen : (c.rest mem).length = w.length + r.length := by rw [hrest, List.length_append]
  rw [Cursor.length_rest] at hlen
  have hstop := hc.stop_lt
  omega

/-- A complete item is passed over, whatever is in the rest of the buffer. -/
theorem cborSkip_item (hx : Item x) (hfuel : x.length ≤ fuel) (hc : c.Valid)
    (hrest : c.rest mem = x ++ r) :
    (cborSkip mem fuel).Ends c (.ok ()) (c.advance x.length) := by
  induction fuel generalizing x c r with
  | zero => exact absurd hx.length_pos (by omega)
  | succ fuel ih =>
      obtain ⟨h, major, a, body, hh, hbody, rfl⟩ := item_iff.mp hx
      have hpos := hh.length_pos
      rw [List.append_assoc] at hrest
      obtain ⟨hc', hrest'⟩ := hc.rest_append hrest
      rw [List.length_append] at hfuel ⊢
      rw [← Cursor.advance_advance]
      refine (cborHdr_ends hc hh hrest).bind ?_
      cases hbody with
      | uint => exact pure_ends
      | string major w hmajor =>
          rcases hmajor with rfl | rfl
          all_goals exact passString_ends hc' hrest'
      | array hitems => exact skips_items ih hitems (by omega) hc' hrest' 0
      | map hitems =>
          have hcount := items_count_lt hitems hc' hrest'
          have hskips := skips_items ih hitems (by omega) hc' hrest' 0
          rwa [← Nat.mod_eq_of_lt hcount] at hskips

/-! ## Where none does -/

/-- Where fewer items than turns are left, one of the turns fails. -/
theorem loop_refuses {skip : Decode Unit Unit}
    (hpass : ∀ {x r c}, Item x → x.length ≤ fuel → c.Valid → c.rest mem = x ++ r →
      skip.Ends c (.ok ()) (c.advance x.length))
    (hfail : ∀ {c : Cursor}, c.Valid → Honest mem c → (c.rest mem).length < fuel →
      (∀ x r, Item x → c.rest mem ≠ x ++ r) → ∃ c', skip.Ends c (.fail ()) c')
    (hc : c.Valid) (hgood : Honest mem c) (hfuel : (c.rest mem).length < fuel)
    (hnone : ∀ w r, Items n w → c.rest mem ≠ w ++ r) (i : Nat) :
    ∃ c', (loop (fun _ _ => skip) i n ()).Ends c (.fail ()) c' := by
  induction n generalizing c i with
  | zero => exact absurd rfl (hnone [] _ (items_zero.mpr rfl))
  | succ n ih =>
      by_cases hitem : ∃ x r, Item x ∧ c.rest mem = x ++ r
      · obtain ⟨x, r, hx, hrest⟩ := hitem
        obtain ⟨hc', hrest'⟩ := hc.rest_append hrest
        have hlen : (c.rest mem).length = x.length + r.length := by
          rw [hrest, List.length_append]
        have hnone' : ∀ w r', Items n w → (c.advance x.length).rest mem ≠ w ++ r' := by
          intro w r' hw heq
          refine hnone (x ++ w) r' (items_succ.mpr ⟨x, w, hx, hw, rfl⟩) ?_
          rw [hrest, ← hrest', heq, List.append_assoc]
        obtain ⟨c', hends⟩ :=
          ih hc' (hgood.advance (by omega)) (by rw [hrest']; omega) hnone' (i + 1)
        exact ⟨c', (hpass hx (by omega) hc hrest).bind hends⟩
      · obtain ⟨c', hends⟩ := hfail hc hgood hfuel fun x r hx heq => hitem ⟨x, r, hx, heq⟩
        exact ⟨c', hends.bind_fail⟩

/-- Where no item starts, nothing is passed over. -/
theorem cborSkip_refuses (hc : c.Valid) (hgood : Honest mem c)
    (hfuel : (c.rest mem).length < fuel) (hnone : ∀ x r, Item x → c.rest mem ≠ x ++ r) :
    ∃ c', (cborSkip mem fuel).Ends c (.fail ()) c' := by
  induction fuel generalizing c with
  | zero => exact absurd hfuel (Nat.not_lt_zero _)
  | succ fuel ih =>
      cases hhead : head? (c.rest mem) with
      | none =>
          obtain ⟨c', hends⟩ := cborHdr_fails hc hhead
          exact ⟨c', hends.bind_fail⟩
      | some found =>
          obtain ⟨major, a, r⟩ := found
          obtain ⟨h, hrest, hh⟩ := exists_of_head? hhead
          obtain ⟨hc', hrest'⟩ := hc.rest_append hrest
          have hpos := hh.length_pos
          have hlen : (c.rest mem).length = h.length + r.length := by
            rw [hrest, List.length_append]
          have hgood' := hgood.advance (n := h.length) (by omega)
          have hfuel' : ((c.advance h.length).rest mem).length < fuel := by rw [hrest']; omega
          -- an item would start here if a body followed the header
          have hbody : ∀ w r', Body major a w → (c.advance h.length).rest mem ≠ w ++ r' := by
            intro w r' hw heq
            refine hnone (h ++ w) r' (item_iff.mpr ⟨h, major, a, w, hh, hw, rfl⟩) ?_
            rw [hrest, ← hrest', heq, List.append_assoc]
          suffices hrefuse : ∃ c', Ends _ (c.advance h.length) (.fail ()) c' by
            obtain ⟨c', hends⟩ := hrefuse
            exact ⟨c', (cborHdr_ends hc hh hrest).bind hends⟩
          have hloop : ∀ n, (∀ w r', Items n w → (c.advance h.length).rest mem ≠ w ++ r') →
              ∃ c', (loop (fun _ _ => cborSkip mem fuel) 0 n ()).Ends (c.advance h.length)
                (.fail ()) c' :=
            fun n hitems => loop_refuses cborSkip_item ih hc' hgood' hfuel' hitems 0
          dsimp only
          split
          next hmajor =>
            obtain rfl : major = 0 := hmajor
            exact absurd rfl (hbody [] _ (.uint a))
          next =>
          split
          next hmajor =>
            have hstring : major = 2 ∨ major = 3 := hmajor
            have hshort : r.length < a := by
              by_contra hle
              have htake : (r.take a).length = a := List.length_take_of_le (Nat.not_lt.mp hle)
              refine hbody (r.take a) (r.drop a) ?_ (hrest'.trans (List.take_append_drop a r).symm)
              have hw := Body.string major (r.take a) hstring
              rwa [htake] at hw
            refine ⟨_, passString_fails ?_⟩
            by_contra hle
            exact (hgood 0 (Nat.zero_le _)).1
              ⟨h, major, a, r, hh, hstring, hrest, hshort, Nat.not_lt.mp hle⟩
          next =>
          split
          next hmajor =>
            obtain rfl : major = 4 := hmajor
            exact hloop a fun w r' hw => hbody w r' (.array hw)
          next =>
          split
          next hmajor =>
            obtain rfl : major = 5 := hmajor
            refine hloop _ fun w r' hw heq => ?_
            have harg := hh.arg_lt
            -- the doubled count of a map may wrap
            by_cases hfits : 2 * a < 2 ^ 64
            · rw [Nat.mod_eq_of_lt hfits] at hw
              exact hbody w r' (.map hw) heq
            · refine (hgood 0 (Nat.zero_le _)).2
                ⟨h, a, 2 * a % 2 ^ 64, w, r', hh, hw, by omega, ?_⟩
              rw [List.append_assoc, ← heq, hrest']
              exact hrest
          next => exact ⟨_, fail_ends⟩

/-! ## Exactly one item -/

/-- The function returns; it succeeds exactly where an item starts, and then the cursor is past
this item. -/
structure SkipsOne (mem : Mem) (fuel : Nat) (c : Cursor) : Prop where
  returns : (cborSkip mem fuel c).outcome ≠ .spent
  succeeds : (cborSkip mem fuel c).outcome = .ok () ↔ ∃ x r, Item x ∧ c.rest mem = x ++ r
  past : ∀ x r, Item x → c.rest mem = x ++ r →
    (cborSkip mem fuel c).state = c.advance x.length

theorem cborSkip_skipsOne (hc : c.Valid) (hgood : Honest mem c)
    (hfuel : (c.rest mem).length < fuel) : SkipsOne mem fuel c := by
  have hpass : ∀ x r, Item x → c.rest mem = x ++ r →
      (cborSkip mem fuel).Ends c (.ok ()) (c.advance x.length) := by
    intro x r hx hrest
    rw [hrest, List.length_append] at hfuel
    exact cborSkip_item hx (by omega) hc hrest
  by_cases hitem : ∃ x r, Item x ∧ c.rest mem = x ++ r
  · obtain ⟨x, r, hx, hrest⟩ := hitem
    have hout := (hpass x r hx hrest).1
    exact ⟨by rw [hout]; nofun, iff_of_true hout ⟨x, r, hx, hrest⟩,
      fun y s hy hrest' => (hpass y s hy hrest').2⟩
  · have hnone : ∀ x r, Item x → c.rest mem ≠ x ++ r :=
      fun x r hx heq => hitem ⟨x, r, hx, heq⟩
    obtain ⟨c', hout, -⟩ := cborSkip_refuses hc hgood hfuel hnone
    exact ⟨by rw [hout]; nofun, iff_of_false (by rw [hout]; nofun) hitem,
      fun x r hx hrest => absurd hrest (hnone x r hx)⟩

/-! ## Where it is wrong -/

/-- A string too long for the buffer is passed. -/
theorem Overlong.not_skipsOne (hc : c.Valid) (h : Overlong mem c) :
    ¬SkipsOne mem (fuel + 1) c := by
  intro hone
  obtain ⟨h, major, a, r, hh, hmajor, hrest, hshort, hwraps⟩ := h
  have hends : (cborSkip mem (fuel + 1)).Ends c (.ok ())
      ⟨ptrAdd (c.p + h.length) a, c.stop⟩ := by
    refine (cborHdr_ends hc hh hrest).bind ?_
    rcases hmajor with rfl | rfl
    all_goals exact passString_wraps hwraps
  obtain ⟨x, r', hx, hrest'⟩ := hone.succeeds.mp hends.1
  obtain ⟨body, -, htail, hbody⟩ := hx.body hh (hrest'.symm.trans hrest)
  have hlen : r.length = body.length + r'.length := by rw [htail, List.length_append]
  rcases hmajor with rfl | rfl
  all_goals
    cases hbody
    omega

/-- A map of more pairs than the buffer has bytes is passed. -/
theorem Doubled.not_skipsOne (hc : c.Valid) (h : Doubled mem c)
    (hfuel : (c.rest mem).length ≤ fuel) : ¬SkipsOne mem (fuel + 1) c := by
  intro hone
  obtain ⟨h, a, n, w, r, hh, hw, hcount, hrest⟩ := h
  rw [List.append_assoc] at hrest
  obtain ⟨hc', hrest'⟩ := hc.rest_append hrest
  have hlen : (c.rest mem).length = h.length + (w.length + r.length) := by
    rw [hrest, List.length_append, List.length_append]
  have harg := hh.arg_lt
  have hn : 2 * a % 2 ^ 64 = n := by omega
  have hends : (cborSkip mem (fuel + 1)).Ends c (.ok ())
      ((c.advance h.length).advance w.length) := by
    refine (cborHdr_ends hc hh hrest).bind ?_
    have hle : w.length ≤ fuel := by omega
    have hskips := skips_items cborSkip_item hw hle hc' hrest' 0
    rwa [← hn] at hskips
  obtain ⟨x, r', hx, hrest''⟩ := hone.succeeds.mp hends.1
  obtain ⟨body, -, htail, hbody⟩ := hx.body hh (hrest''.symm.trans hrest)
  have hlt : 2 * a < 2 ^ 64 := by
    cases hbody with
    | string _ _ hmajor => exact absurd hmajor (by decide)
    | map hitems => exact items_count_lt hitems hc' (hrest'.trans htail)
  omega

end Skip

/-- `cbor_skip` passes over exactly one item everywhere in a buffer if and only if nowhere in it
a string is too long and its length carries the pointer around, or a map has too many pairs and
as many items as are counted follow. -/
theorem skip_one_item (mem : Mem) (b : Buffer) :
    (∀ c, b.Holds c → ∃ least, ∀ fuel ≥ least, SkipsOne mem fuel c) ↔
      ∀ c, b.Holds c → ¬Overlong mem c ∧ ¬Doubled mem c := by
  constructor
  · intro h c hc
    obtain ⟨least, hone⟩ := h c hc
    have hone := hone (max least (c.rest mem).length + 1) (by omega)
    exact ⟨fun hlong => hlong.not_skipsOne hc.valid hone,
      fun hdoubled => hdoubled.not_skipsOne hc.valid (le_max_right _ _) hone⟩
  · intro h c hc
    exact ⟨(c.rest mem).length + 1, fun fuel hfuel =>
      cborSkip_skipsOne hc.valid (fun k hk => h _ (hc.advance hk)) hfuel⟩

/-- Memory that holds the bytes at the address. -/
def memOf (base : Nat) (w : Octets) : Mem := fun q => w.getD (q - base) 0

/-- The head of a string of 2^32 bytes, and no byte behind it. -/
def wideString : Octets := [0x5B, 0, 0, 0, 1, 0, 0, 0, 0]

/-- The string is passed although none of its bytes is there. -/
theorem not_skip_one_item : ∃ b : Buffer, b = ⟨0x20040000, 9, by decide⟩ ∧
    ¬∀ c, b.Holds c → ∃ least, ∀ fuel ≥ least, SkipsOne (memOf 0x20040000 wideString) fuel c := by
  refine ⟨_, rfl, fun h => ?_⟩
  obtain ⟨least, hone⟩ := h ⟨0x20040000, 0x20040009⟩ ⟨le_rfl, by decide, rfl⟩
  refine Overlong.not_skipsOne ⟨by decide, by decide⟩ ?_ (hone (least + 1) (Nat.le_succ _))
  have hh : Head wideString 2 (2 ^ 32) :=
    .long 0x5B [0, 0, 0, 1, 0, 0, 0, 0] (by decide) (by decide) rfl
  exact ⟨wideString, 2, 2 ^ 32, [], hh, .inl rfl, by decide, by decide, by decide⟩

end SlowBus.Boot
