import Mathlib.Data.List.Basic
import Mathlib.Data.List.Induction
import Mathlib.Tactic.Ring

/-!
# Concise binary objects

The grammar of byte strings that hold unsigned integers, byte and text strings, arrays and
maps of definite length. An item starts with a head, which gives its major type and its
argument: the value of an integer, the length of a string, or the number of what a container
holds.
-/

namespace SlowBus.Cbor

abbrev Octets := List (BitVec 8)

/-! ## Heads -/

/-- The number bytes spell, the most significant one first. -/
def bigEndian (w : Octets) : Nat := w.foldl (fun v b => v * 256 + b.toNat) 0

/-- The low five bits of the byte a head starts with. -/
def info (b : BitVec 8) : Nat := b.toNat % 32

/-- The head of an item, with its major type and argument. -/
inductive Head : Octets → Nat → Nat → Prop
  | short (b : BitVec 8) : info b < 24 → Head [b] (b.toNat / 32) (info b)
  | long (b : BitVec 8) (w : Octets) : 24 ≤ info b → info b < 28 →
      w.length = 2 ^ (info b - 24) → Head (b :: w) (b.toNat / 32) (bigEndian w)

/-- Major type, argument and what is behind the head that starts the bytes. -/
def head? : Octets → Option (Nat × Nat × Octets)
  | [] => none
  | b :: w =>
      if info b < 24 then some (b.toNat / 32, info b, w)
      else if info b < 28 ∧ 2 ^ (info b - 24) ≤ w.length then
        some (b.toNat / 32, bigEndian (w.take (2 ^ (info b - 24))), w.drop (2 ^ (info b - 24)))
      else none

section Head

variable {h h' w r r' : Octets} {major major' arg arg' : Nat}

theorem bigEndian_concat (w : Octets) (b : BitVec 8) :
    bigEndian (w ++ [b]) = bigEndian w * 256 + b.toNat := by
  simp [bigEndian]

theorem bigEndian_lt (w : Octets) : bigEndian w < 256 ^ w.length := by
  induction w using List.reverseRecOn with
  | nil => exact Nat.one_pos
  | append_singleton w b ih =>
      have hb := b.isLt
      rw [bigEndian_concat, List.length_append, List.length_singleton, Nat.pow_succ]
      omega

theorem Head.head? (hh : Head h major arg) (r : Octets) :
    head? (h ++ r) = some (major, arg, r) := by
  cases hh with
  | short b hb => simp [Cbor.head?, hb]
  | long b w hlo hhi hlen =>
      have hnot : ¬info b < 24 := Nat.not_lt.mpr hlo
      have hle : 2 ^ (info b - 24) ≤ (w ++ r).length := by
        rw [List.length_append, hlen]
        exact Nat.le_add_right _ _
      rw [List.cons_append, Cbor.head?, if_neg hnot, if_pos ⟨hhi, hle⟩, List.take_left' hlen,
        List.drop_left' hlen]

/-- What is decoded as a head is one. -/
theorem exists_of_head? (h : head? w = some (major, arg, r)) :
    ∃ h, w = h ++ r ∧ Head h major arg := by
  cases w with
  | nil => cases h
  | cons b w =>
      rw [head?] at h
      by_cases hb : info b < 24
      · rw [if_pos hb] at h
        cases h
        exact ⟨[b], rfl, .short b hb⟩
      · rw [if_neg hb] at h
        by_cases hlong : info b < 28 ∧ 2 ^ (info b - 24) ≤ w.length
        · rw [if_pos hlong] at h
          cases h
          refine ⟨b :: w.take (2 ^ (info b - 24)), ?_, .long b _ (Nat.not_lt.mp hb) hlong.1 ?_⟩
          · rw [List.cons_append, List.take_append_drop]
          · exact List.length_take_of_le hlong.2
        · rw [if_neg hlong] at h
          cases h

/-- No two heads start the same bytes. -/
theorem Head.unique (hh : Head h major arg) (hh' : Head h' major' arg')
    (heq : h ++ r = h' ++ r') : major = major' ∧ arg = arg' ∧ h = h' ∧ r = r' := by
  have hdec := hh.head? r
  rw [heq, hh'.head? r'] at hdec
  cases hdec
  exact ⟨rfl, rfl, List.append_cancel_right heq, rfl⟩

theorem Head.length_pos (hh : Head h major arg) : 0 < h.length := by
  cases hh <;> exact Nat.succ_pos _

/-- The argument fits 64 bits. -/
theorem Head.arg_lt (hh : Head h major arg) : arg < 2 ^ 64 := by
  cases hh with
  | short b hb => omega
  | long b w hlo hhi hlen =>
      have hlt := bigEndian_lt w
      have hexp : w.length ≤ 8 := by
        rw [hlen]
        exact Nat.pow_le_pow_right Nat.two_pos (show info b - 24 ≤ 3 by omega)
      exact hlt.trans_le ((Nat.pow_le_pow_right (by decide) hexp).trans (by decide))

end Head

/-! ## Items -/

/-- One item. -/
inductive Item : Octets → Prop
  | uint {h : Octets} {n : Nat} : Head h 0 n → Item h
  | string {h body : Octets} {major : Nat} : Head h major body.length →
      major = 2 ∨ major = 3 → Item (h ++ body)
  | array {h : Octets} {parts : List Octets} : Head h 4 parts.length →
      (∀ x ∈ parts, Item x) → Item (h ++ parts.flatten)
  | map {h : Octets} {n : Nat} {parts : List Octets} : Head h 5 n → parts.length = 2 * n →
      (∀ x ∈ parts, Item x) → Item (h ++ parts.flatten)

/-- A number of items, one behind the other. -/
def Items (n : Nat) (w : Octets) : Prop :=
  ∃ parts : List Octets, parts.length = n ∧ (∀ x ∈ parts, Item x) ∧ w = parts.flatten

/-- What is behind the head of an item. -/
inductive Body : Nat → Nat → Octets → Prop
  | uint (n : Nat) : Body 0 n []
  | string (major : Nat) (w : Octets) : major = 2 ∨ major = 3 → Body major w.length w
  | array {n : Nat} {w : Octets} : Items n w → Body 4 n w
  | map {n : Nat} {w : Octets} : Items (2 * n) w → Body 5 n w

section Item

variable {h x y w w' r s : Octets} {n k major arg : Nat}

/-- An item is a head and a body of its type. -/
theorem item_iff : Item x ↔ ∃ h major arg body, Head h major arg ∧ Body major arg body ∧
    x = h ++ body := by
  constructor
  · intro hx
    cases hx with
    | uint hh => exact ⟨x, 0, _, [], hh, .uint _, (List.append_nil x).symm⟩
    | string hh hmajor => exact ⟨_, _, _, _, hh, .string _ _ hmajor, rfl⟩
    | array hh hparts => exact ⟨_, _, _, _, hh, .array ⟨_, rfl, hparts, rfl⟩, rfl⟩
    | map hh hlen hparts => exact ⟨_, _, _, _, hh, .map ⟨_, hlen, hparts, rfl⟩, rfl⟩
  · rintro ⟨h, major, arg, body, hh, hbody, rfl⟩
    cases hbody with
    | uint => exact (List.append_nil h).symm ▸ .uint hh
    | string _ _ hmajor => exact .string hh hmajor
    | array hitems =>
        obtain ⟨parts, rfl, hparts, rfl⟩ := hitems
        exact .array hh hparts
    | map hitems =>
        obtain ⟨parts, hlen, hparts, rfl⟩ := hitems
        exact .map hh hlen hparts

theorem Item.length_pos (hx : Item x) : 0 < x.length := by
  obtain ⟨h, major, arg, body, hh, -, rfl⟩ := item_iff.mp hx
  rw [List.length_append]
  exact Nat.add_pos_left hh.length_pos _

/-! ## Sequences of items -/

theorem items_zero : Items 0 w ↔ w = [] := by
  constructor
  · rintro ⟨parts, hlen, -, rfl⟩
    rw [List.eq_nil_of_length_eq_zero hlen]
    rfl
  · rintro rfl
    exact ⟨[], rfl, nofun, rfl⟩

theorem items_succ : Items (n + 1) w ↔ ∃ x w', Item x ∧ Items n w' ∧ w = x ++ w' := by
  constructor
  · rintro ⟨parts, hlen, hparts, rfl⟩
    obtain ⟨x, parts, rfl⟩ := List.exists_cons_of_length_eq_add_one hlen
    obtain ⟨hx, hparts⟩ := List.forall_mem_cons.mp hparts
    exact ⟨x, _, hx, ⟨parts, Nat.succ.inj hlen, hparts, rfl⟩, rfl⟩
  · rintro ⟨x, w', hx, ⟨parts, rfl, hparts, rfl⟩, rfl⟩
    exact ⟨x :: parts, rfl, List.forall_mem_cons.mpr ⟨hx, hparts⟩, rfl⟩

theorem items_one : Items 1 w ↔ Item w := by
  constructor
  · intro hw
    obtain ⟨x, w', hx, hw', rfl⟩ := items_succ.mp hw
    rwa [items_zero.mp hw', List.append_nil]
  · intro hw
    exact ⟨[w], rfl, List.forall_mem_singleton.mpr hw, (List.append_nil w).symm⟩

theorem Items.append (hw : Items n w) (hw' : Items k w') : Items (n + k) (w ++ w') := by
  obtain ⟨parts, rfl, hparts, rfl⟩ := hw
  obtain ⟨parts', rfl, hparts', rfl⟩ := hw'
  refine ⟨parts ++ parts', List.length_append, ?_, List.flatten_append.symm⟩
  intro x hx
  exact (List.mem_append.mp hx).elim (hparts x) (hparts' x)

/-- An item takes a byte at least. -/
theorem Items.le_length (hw : Items n w) : n ≤ w.length := by
  induction n generalizing w with
  | zero => exact Nat.zero_le _
  | succ n ih =>
      obtain ⟨x, w', hx, hw', rfl⟩ := items_succ.mp hw
      have hpos := hx.length_pos
      have hle := ih hw'
      rw [List.length_append]
      omega

/-! ## Reading is unambiguous -/

/-- Where a head is known, an item has it. -/
theorem Item.body (hx : Item x) (hh : Head h major arg) (heq : x ++ w = h ++ r) :
    ∃ body, x = h ++ body ∧ r = body ++ w ∧ Body major arg body := by
  obtain ⟨h', major', arg', body, hh', hbody, rfl⟩ := item_iff.mp hx
  rw [List.append_assoc] at heq
  obtain ⟨rfl, rfl, rfl, rfl⟩ := hh'.unique hh heq
  exact ⟨body, rfl, rfl, hbody⟩

theorem flatten_unique {parts parts' : List Octets}
    (huniq : ∀ x ∈ parts, ∀ y r s, Item y → x ++ r = y ++ s → x = y)
    (hparts' : ∀ y ∈ parts', Item y) (hlen : parts.length = parts'.length)
    (heq : parts.flatten ++ r = parts'.flatten ++ s) : parts.flatten = parts'.flatten := by
  induction parts generalizing parts' with
  | nil => rw [List.eq_nil_of_length_eq_zero hlen.symm]
  | cons x parts ih =>
      obtain ⟨y, parts', rfl⟩ := List.exists_cons_of_length_eq_add_one hlen.symm
      obtain ⟨hx, huniq⟩ := List.forall_mem_cons.mp huniq
      obtain ⟨hy, htl⟩ := List.forall_mem_cons.mp hparts'
      rw [List.flatten_cons, List.flatten_cons, List.append_assoc, List.append_assoc] at heq
      obtain rfl := hx y _ _ hy heq
      have htail := ih huniq htl (Nat.succ.inj hlen) (List.append_cancel_left heq)
      rw [List.flatten_cons, List.flatten_cons, htail]

/-- No two items start the same bytes. -/
theorem Item.unique (hx : Item x) (hy : Item y) (heq : x ++ r = y ++ s) : x = y := by
  induction hx generalizing y r s with
  | uint hh =>
      obtain ⟨body, rfl, -, hbody⟩ := hy.body hh heq.symm
      cases hbody with
      | uint => exact (List.append_nil _).symm
      | string _ _ hmajor => exact absurd hmajor (by decide)
  | string hh hmajor =>
      rw [List.append_assoc] at heq
      obtain ⟨body, rfl, htail, hbody⟩ := hy.body hh heq.symm
      generalize hn : List.length _ = n at hbody
      cases hbody with
      | uint => exact absurd hmajor (by decide)
      | string => rw [(List.append_inj htail hn).1]
      | array => exact absurd hmajor (by decide)
      | map => exact absurd hmajor (by decide)
  | array hh _ ih =>
      rw [List.append_assoc] at heq
      obtain ⟨body, rfl, htail, hbody⟩ := hy.body hh heq.symm
      generalize hn : List.length _ = n at hbody
      cases hbody with
      | string _ _ hmajor => exact absurd hmajor (by decide)
      | array hitems =>
          obtain ⟨parts', hlen, hparts', rfl⟩ := hitems
          rw [flatten_unique (fun x hx y r s => ih x hx) hparts' (hn.trans hlen.symm) htail]
  | map hh hlen _ ih =>
      rw [List.append_assoc] at heq
      obtain ⟨body, rfl, htail, hbody⟩ := hy.body hh heq.symm
      cases hbody with
      | string _ _ hmajor => exact absurd hmajor (by decide)
      | map hitems =>
          obtain ⟨parts', hlen', hparts', rfl⟩ := hitems
          rw [flatten_unique (fun x hx y r s => ih x hx) hparts' (hlen.trans hlen'.symm) htail]

end Item

end SlowBus.Cbor
