import SlowBus.Boot.Readers

/-!
# Staying in the buffer

The decoder compares the sum of its pointer and a length with the end of the buffer. Where the
low 32 bits of a length carry the sum past the last address, the sum is an address before the
pointer, and the comparison passes. Where no string in a buffer has such a length, everything
the decoder and the readers do stays in it.
-/

namespace SlowBus.Boot

open Prog
open Cbor (Octets Head head? exists_of_head?)

/-- What is read lies in the buffer, so does a slice, and the cursor is at its end at most. -/
def Inside (b : Buffer) : Access → Prop
  | .read q => b.base ≤ q ∧ q < b.base + b.len
  | .move q => b.base ≤ q ∧ q ≤ b.base + b.len
  | .slice q n => b.base ≤ q ∧ q + n ≤ b.base + b.len
  | .reach _ _ => True

/-- Every byte of the string is one of the buffer. -/
def Slice.In (k : Slice) (b : Buffer) : Prop :=
  ∀ i < k.len, b.base ≤ k.ptr + i ∧ k.ptr + i < b.base + b.len

/-- A run stays in the buffer. -/
def StaysInside {ε α : Type} (b : Buffer) (r : Run Cursor Access ε α) : Prop :=
  (∀ ev ∈ r.events, Inside b ev) ∧ b.Holds r.state

/-- A string starts here the length of which carries the pointer past the last address. -/
def Carries (mem : Mem) (c : Cursor) : Prop :=
  ∃ h major a r, Head h major a ∧ (major = 2 ∨ major = 3) ∧ c.rest mem = h ++ r ∧
    2 ^ 32 ≤ c.p + h.length + a % 2 ^ 32

/-- From a cursor in the buffer a program stays in it, and returns a value in `A`. -/
def Safe {ε α : Type} (b : Buffer) (m : Decode ε α) (A : α → Prop) : Prop :=
  Triple (Inside b) b.Holds m (fun a c => b.Holds c ∧ A a) b.Holds

section Rules

variable {ε ε' α β : Type} {b : Buffer} {m : Decode ε α} {f : α → Decode ε β} {A A' : α → Prop}
  {B : β → Prop} {a : α} {e : ε}

theorem Safe.weaken (hm : Safe b m A) (hA : ∀ a, A a → A' a) : Safe b m A' :=
  Triple.weaken hm (fun _ hc => hc) fun a _ hc => ⟨hc.1, hA a hc.2⟩

theorem Safe.pure (ha : A a) : Safe b (pure a : Decode ε α) A := fun _ hc => ⟨nofun, hc, ha⟩

theorem Safe.fail : Safe b (fail e : Decode ε α) A := Triple.fail

theorem Safe.bind (hm : Safe b m A) (hf : ∀ a, A a → Safe b (f a) B) : Safe b (m >>= f) B :=
  Triple.bind hm fun a c hc => hf a hc.2 c hc.1

theorem Safe.mapFail {g : ε → ε'} (hm : Safe b m A) : Safe b (m.mapFail g) A :=
  Triple.mapFail hm

theorem Safe.orFail {e : ε'} (hm : Safe b m A) : Safe b (m.orFail e) A := hm.mapFail

theorem Safe.ite {p : Prop} [Decidable p] {m' : Decode ε α} (hm : p → Safe b m A)
    (hm' : ¬p → Safe b m' A) : Safe b (if p then m else m') A := by
  by_cases h : p
  · rw [if_pos h]
    exact hm h
  · rw [if_neg h]
    exact hm' h

theorem Safe.loop {body : Nat → α → Decode ε α} (hbody : ∀ i a, A a → Safe b (body i a) A)
    (ha : A a) (i n : Nat) : Safe b (loop body i n a) A := by
  have htriple : ∀ i a, Triple (Inside b) (fun c => b.Holds c ∧ A a) (body i a)
      (fun a c => b.Holds c ∧ A a) b.Holds :=
    fun i a c hc => hbody i a hc.2 c hc.1
  exact fun c hc => Triple.loop htriple i n a c ⟨hc, ha⟩

theorem Safe.stays (hm : Safe b m A) {c : Cursor} (hc : b.Holds c) : StaysInside b (m c) := by
  obtain ⟨hevs, hend⟩ := hm c hc
  refine ⟨hevs, ?_⟩
  generalize (m c).outcome = out at hend
  cases out with
  | ok a => exact hend.1
  | fail e => exact hend
  | spent => exact hend

/-- Where a function fails it restores the cursor. -/
theorem Safe.orRestore {m : Decode Unit α} (hm : Safe b m A) : Safe b (orRestore m) A := by
  intro c hc
  obtain ⟨hevs, hend⟩ := hm c hc
  unfold Boot.orRestore
  generalize m c = r at hevs hend
  obtain ⟨out, c', evs⟩ := r
  cases out with
  | ok a => exact ⟨hevs, hend⟩
  | fail e =>
      have hstop : c'.stop = b.base + b.len := Buffer.Holds.stop_eq hend
      have hmove : Inside b (.move c.p) := ⟨hc.base_le, hc.stop_eq ▸ hc.le_stop⟩
      refine ⟨?_, hc.base_le, ?_, hstop⟩
      · exact List.forall_mem_append.mpr ⟨hevs, List.forall_mem_singleton.mpr hmove⟩
      · show c.p ≤ c'.stop
        rw [hstop]
        exact hmove.2
  | spent => exact ⟨hevs, hend⟩

theorem orRestore_restores {m : Decode Unit α} (hm : Safe b m A) {c : Cursor} (hc : b.Holds c)
    {e : Unit} (hfail : (orRestore m c).outcome = .fail e) : (orRestore m c).state = c := by
  obtain ⟨-, hend⟩ := hm c hc
  unfold Boot.orRestore at hfail ⊢
  generalize m c = r at hend hfail
  obtain ⟨out, c', evs⟩ := r
  cases out with
  | ok a => cases hfail
  | fail e =>
      have hstop : c'.stop = b.base + b.len := Buffer.Holds.stop_eq hend
      show Cursor.mk c.p c'.stop = c
      rw [hstop, ← hc.stop_eq]
  | spent => cases hfail

end Rules

/-! ## The decoder -/

section Decoder

variable {ε α : Type} {b : Buffer} {mem : Mem} {a want fuel : Nat}

theorem nextByte_safe (b : Buffer) (mem : Mem) : Safe b (nextByte mem) fun _ => True := by
  intro c hc
  obtain ⟨hbase, hle, hstop⟩ := hc
  unfold nextByte
  split
  next hlt =>
    have hfits := b.fits
    rw [ptrAdd_eq (by omega)]
    have hread : Inside b (.read c.p) := ⟨hbase, by omega⟩
    have hmove : Inside b (.move (c.p + 1)) := ⟨by omega, by omega⟩
    refine ⟨?_, ⟨by show b.base ≤ c.p + 1; omega, hlt, hstop⟩, trivial⟩
    exact List.forall_mem_cons.mpr ⟨hread, List.forall_mem_singleton.mpr hmove⟩
  next => exact ⟨nofun, hbase, hle, hstop⟩

theorem argBytes_safe (b : Buffer) (mem : Mem) (nb v : Nat) :
    Safe b (argBytes mem nb v) fun _ => True := by
  induction nb generalizing v with
  | zero => exact .pure trivial
  | succ nb ih => exact (nextByte_safe b mem).bind fun _ _ => ih _

theorem cborHdr_safe (b : Buffer) (mem : Mem) : Safe b (cborHdr mem) fun _ => True := by
  refine (nextByte_safe b mem).bind fun byte _ => ?_
  exact .ite (fun _ => .fail) fun _ =>
    (argBytes_safe b mem _ _).bind fun _ _ => .pure trivial

/-- Behind the header of a string the low bits of its length do not carry the pointer. -/
theorem cborHdr_reaches (hgood : ∀ c, b.Holds c → ¬Carries mem c) :
    Triple (Inside b) b.Holds (cborHdr mem)
      (fun x c => b.Holds c ∧ (x.1 = 2 ∨ x.1 = 3 → c.p + x.2 % 2 ^ 32 < 2 ^ 32)) b.Holds := by
  intro c hc
  obtain ⟨hevs, hin⟩ := (cborHdr_safe b mem).stays hc
  refine ⟨hevs, ?_⟩
  cases hhead : head? (c.rest mem) with
  | none =>
      obtain ⟨c', hends⟩ := cborHdr_fails hc.valid hhead
      rw [hends.1]
      exact hin
  | some found =>
      obtain ⟨major, a, r⟩ := found
      obtain ⟨h, hrest, hh⟩ := exists_of_head? hhead
      have hends := cborHdr_ends hc.valid hh hrest
      rw [hends.1]
      refine ⟨hin, fun hstring => ?_⟩
      rw [hends.2]
      by_contra hcarry
      exact hgood c hc ⟨h, major, a, r, hh, hstring, hrest, Nat.not_lt.mp hcarry⟩

theorem hdrOf_safe (b : Buffer) (mem : Mem) (want : Nat) :
    Safe b (hdrOf mem want) fun _ => True :=
  (cborHdr_safe b mem).bind fun _ _ => .ite (fun _ => .fail) fun _ => .pure trivial

theorem cborUint_safe (b : Buffer) (mem : Mem) : Safe b (cborUint mem) fun _ => True :=
  (hdrOf_safe b mem _).orRestore

theorem cborOpen_safe (b : Buffer) (mem : Mem) (want : Nat) :
    Safe b (cborOpen mem want) fun _ => True :=
  (hdrOf_safe b mem want).orRestore

/-- A function that compares with the end of a string and passes it stays in the buffer where the
length does not carry. -/
theorem guarded_safe {β : Type} {m : Decode Unit β} {x : Cursor → β} {evs : Cursor → List Access}
    {A : β → Prop}
    (hm : ∀ c, m c = if ptrAdd c.p a > c.stop then ⟨.fail (), c, [.reach c.p a]⟩
      else ⟨.ok (x c), ⟨ptrAdd c.p a, c.stop⟩, .reach c.p a :: evs c⟩)
    (hin : ∀ c, b.Holds c → ptrAdd c.p a = c.p + a % 2 ^ 32 →
      c.p + a % 2 ^ 32 ≤ b.base + b.len → (∀ ev ∈ evs c, Inside b ev) ∧ A (x c)) :
    Triple (Inside b) (fun c => b.Holds c ∧ c.p + a % 2 ^ 32 < 2 ^ 32) m
      (fun y c => b.Holds c ∧ A y) b.Holds := by
  rintro c ⟨hc, hreach⟩
  have hstop := hc.stop_eq
  rw [hm]
  split
  next => exact ⟨List.forall_mem_singleton.mpr trivial, hc⟩
  next hfits =>
    rw [ptrAdd_reach hreach] at hfits ⊢
    obtain ⟨hevs, hx⟩ := hin c hc (ptrAdd_reach hreach) (by omega)
    have hbehind : b.base ≤ c.p + a % 2 ^ 32 := Nat.le_add_right_of_le hc.base_le
    exact ⟨List.forall_mem_cons.mpr ⟨trivial, hevs⟩, ⟨hbehind, Nat.not_lt.mp hfits, hstop⟩, hx⟩

theorem passString_safe : Triple (Inside b) (fun c => b.Holds c ∧ c.p + a % 2 ^ 32 < 2 ^ 32)
    (passString a) (fun _ c => b.Holds c ∧ True) b.Holds := by
  refine guarded_safe (fun _ => rfl) fun c hc hadd hle => ⟨?_, trivial⟩
  rw [hadd]
  exact List.forall_mem_singleton.mpr ⟨Nat.le_add_right_of_le hc.base_le, hle⟩

theorem takeString_safe : Triple (Inside b) (fun c => b.Holds c ∧ c.p + a % 2 ^ 32 < 2 ^ 32)
    (takeString a) (fun k c => b.Holds c ∧ b.base ≤ k.ptr ∧ k.ptr + k.len ≤ b.base + b.len)
    b.Holds := by
  refine guarded_safe (fun _ => rfl) fun c hc hadd hle => ⟨?_, hc.base_le, hle⟩
  rw [hadd]
  exact List.forall_mem_cons.mpr ⟨⟨hc.base_le, hle⟩,
    List.forall_mem_singleton.mpr ⟨Nat.le_add_right_of_le hc.base_le, hle⟩⟩

/-- A string handed out lies in the buffer. -/
theorem takeStr_safe (hgood : ∀ c, b.Holds c → ¬Carries mem c) (hwant : want = 2 ∨ want = 3) :
    Safe b (do let a ← hdrOf mem want; takeString a)
      fun k => b.base ≤ k.ptr ∧ k.ptr + k.len ≤ b.base + b.len := by
  have hdr : Triple (Inside b) b.Holds (hdrOf mem want)
      (fun a c => b.Holds c ∧ c.p + a % 2 ^ 32 < 2 ^ 32) b.Holds := by
    refine (cborHdr_reaches hgood).bind fun x => ?_
    obtain ⟨major, a⟩ := x
    dsimp only
    split
    next => exact fun c hc => ⟨nofun, hc.1⟩
    next hmajor =>
      obtain rfl := not_not.mp hmajor
      exact fun c hc => ⟨nofun, hc.1, hc.2 hwant⟩
  exact hdr.bind fun a => takeString_safe

theorem cborStr_safe (hgood : ∀ c, b.Holds c → ¬Carries mem c) (hwant : want = 2 ∨ want = 3) :
    Safe b (cborStr mem want) fun k => b.base ≤ k.ptr ∧ k.ptr + k.len ≤ b.base + b.len :=
  (takeStr_safe hgood hwant).orRestore

theorem cborSkip_safe (hgood : ∀ c, b.Holds c → ¬Carries mem c) (fuel : Nat) :
    Safe b (cborSkip mem fuel) fun _ => True := by
  induction fuel with
  | zero => exact Triple.spent
  | succ fuel ih =>
      refine (cborHdr_reaches hgood).bind fun x => ?_
      obtain ⟨major, a⟩ := x
      have hloop : ∀ n, Safe b (loop (fun _ _ => cborSkip mem fuel) 0 n ()) fun _ => True :=
        fun n => .loop (fun _ _ _ => ih) trivial 0 n
      dsimp only
      split
      next => exact fun c hc => ⟨nofun, hc.1, trivial⟩
      next =>
      split
      next hstring => exact fun c hc => passString_safe c ⟨hc.1, hc.2 hstring⟩
      next =>
      split
      next => exact fun c hc => hloop _ c hc.1
      next =>
      split
      next => exact fun c hc => hloop _ c hc.1
      next => exact fun c hc => ⟨nofun, hc.1⟩

end Decoder

/-! ## The readers -/

section Readers

variable {ε α : Type} {b : Buffer} {mem : Mem} {n q cap fuel : Nat} {k : Slice} {e : α → ε}
  {keys : Keys ε α} {A : α → Prop} {acc : α}

theorem slice_in {k : Slice} (hk : b.base ≤ k.ptr ∧ k.ptr + k.len ≤ b.base + b.len) : k.In b :=
  fun i hi => ⟨by omega, by omega⟩

theorem readBytes_safe (hq : ∀ i < n, b.base ≤ q + i ∧ q + i < b.base + b.len) :
    Safe b (readBytes mem q n : Decode ε Octets) fun _ => True := by
  intro c hc
  refine ⟨?_, hc, trivial⟩
  intro ev hev
  obtain ⟨i, hi, rfl⟩ := List.mem_map.mp hev
  have hin := hq i (List.mem_range.mp hi)
  have hfits := b.fits
  show b.base ≤ ptrAdd q i ∧ ptrAdd q i < b.base + b.len
  rwa [ptrAdd_eq (by omega)]

theorem cborKey_safe (hk : k.In b) (s : Octets) :
    Safe b (cborKey mem k s : Decode ε Bool) fun _ => True :=
  .ite (fun _ => (readBytes_safe hk).bind fun _ _ => .pure trivial) fun _ => .pure trivial

theorem onKey_safe {other : α → Decode ε α} (hk : k.In b)
    (hother : ∀ acc, A acc → Safe b (other acc) A)
    (hkeys : ∀ x ∈ keys, ∀ acc, A acc → Safe b (x.2 acc) A) (hacc : A acc) :
    Safe b (onKey mem k other keys acc) A := by
  induction keys with
  | nil => exact hother acc hacc
  | cons x keys ih =>
      obtain ⟨hx, hkeys⟩ := List.forall_mem_cons.mp hkeys
      exact (cborKey_safe hk x.1).bind fun hit _ => .ite (fun _ => hx acc hacc) fun _ => ih hkeys

section Strings

variable (hgood : ∀ c, b.Holds c → ¬Carries mem c)
include hgood

theorem text_safe {e : ε} : Safe b ((cborStr mem cborText).orFail e) (Slice.In · b) :=
  ((cborStr_safe hgood (.inr rfl)).weaken fun _ => slice_in).orFail

theorem bytes_safe {e : ε} : Safe b ((cborStr mem cborBytes).orFail e) (Slice.In · b) :=
  ((cborStr_safe hgood (.inl rfl)).weaken fun _ => slice_in).orFail

theorem skipValue_safe (hacc : A acc) : Safe b (skipValue mem fuel e acc) A :=
  (cborSkip_safe hgood fuel).orFail.bind fun _ _ => .pure hacc

theorem readPairs_safe (hkeys : ∀ x ∈ keys, ∀ acc, A acc → Safe b (x.2 acc) A) (hacc : A acc) :
    Safe b (readPairs mem fuel e keys acc) A := by
  refine (cborOpen_safe b mem _).orFail.bind fun np _ => .loop (fun _ acc hacc => ?_) hacc 0 np
  refine (text_safe hgood).bind fun k hk => ?_
  exact onKey_safe hk (fun acc hacc => skipValue_safe hgood hacc) hkeys hacc

theorem textInto_safe {get : α → Octets} {set : α → Octets → α} (hset : ∀ w, A (set acc w)) :
    Safe b (textInto mem e cap get set acc) A := by
  refine (text_safe hgood).bind fun s hs => ?_
  refine Safe.bind (A := fun _ => True) ?_ fun w _ => .pure (hset w)
  refine (readBytes_safe fun i hi => hs i ?_).bind fun _ _ => .pure trivial
  split at hi
  next => omega
  next => exact hi

end Strings

theorem uintInto_safe {set : α → Nat → α} (hset : ∀ x, A (set acc x)) :
    Safe b (uintInto mem e set acc) A :=
  (cborUint_safe b mem).orFail.bind fun x _ => .pure (hset x)

section Files

variable {board : Vector (BitVec 8) 8} {chip : Nat} {out : Identity}
  (hgood : ∀ c, b.Holds c → ¬Carries mem c)
include hgood

theorem parseIdentity_safe : Safe b (parseIdentity mem fuel chip board out) fun _ => True := by
  have hkeys : ∀ x ∈ identKeys mem, ∀ l : IdentLocals, l.uid.In b →
      Safe b (x.2 l) (fun l => l.uid.In b) := by
    simp only [identKeys, List.forall_mem_cons]
    refine ⟨fun l hl => uintInto_safe fun _ => hl, fun l hl => uintInto_safe fun _ => hl,
      fun l hl => uintInto_safe fun _ => hl, fun l hl => uintInto_safe fun _ => hl,
      fun l hl => uintInto_safe fun _ => hl, fun l hl => ?_, nofun⟩
    exact (bytes_safe hgood).bind fun s hs => .pure hs
  have hcheck : ∀ l : IdentLocals, l.uid.In b →
      Safe b (identCheck mem chip board l) fun _ => True := by
    intro l hl
    refine .ite (fun _ => .fail) fun _ => .ite (fun _ => .fail) fun _ => .ite (fun _ => .fail)
      fun _ => .ite (fun _ => .fail) fun _ => .ite (fun _ => .fail) fun _ => ?_
    refine (readBytes_safe hl).bind fun uid _ => .ite (fun _ => .fail) fun _ =>
      .ite (fun _ => .fail) fun _ => .ite (fun _ => .fail) fun _ => ?_
    exact (readBytes_safe hl).bind fun uuid _ => .pure trivial
  refine Safe.mapFail ((readPairs_safe hgood hkeys ?_).bind fun l hl =>
    (hcheck l hl).bind fun _ _ => .pure trivial)
  exact fun i hi => absurd hi (Nat.not_lt_zero _)

theorem parseRoster_safe : Safe b (parseRoster mem fuel) fun _ => True := by
  have hslave : ∀ l, Safe b (rosterSlave mem fuel l) fun _ => True := by
    intro l
    refine (cborOpen_safe b mem _).orFail.bind fun nf _ => .ite (fun _ => .fail) fun _ => ?_
    refine (cborUint_safe b mem).orFail.bind fun addr _ => ?_
    refine (cborUint_safe b mem).orFail.bind fun variant _ => ?_
    refine (cborUint_safe b mem).orFail.bind fun flags _ => ?_
    refine Safe.bind (A := fun _ => True) ?_ fun _ _ => .pure trivial
    exact .loop (fun _ _ _ => (cborSkip_safe hgood fuel).orFail) trivial 3 (nf - 3)
  have hkeys : ∀ x ∈ rosterKeys mem fuel, ∀ l : RosterLocals, True →
      Safe b (x.2 l) fun _ => True := by
    simp only [rosterKeys, List.forall_mem_cons]
    refine ⟨fun _ _ => uintInto_safe fun _ => trivial, fun _ _ => uintInto_safe fun _ => trivial,
      fun _ _ => uintInto_safe fun _ => trivial, fun _ _ => uintInto_safe fun _ => trivial,
      fun _ _ => uintInto_safe fun _ => trivial, fun l _ => ?_, nofun⟩
    exact (cborOpen_safe b mem _).orFail.bind fun ns _ => .loop (fun _ l _ => hslave l) trivial 0 ns
  exact (readPairs_safe hgood hkeys trivial).bind fun _ _ => .pure trivial

theorem parseHwio_safe : Safe b (parseHwio mem fuel) fun _ => True := by
  have hadc : ∀ x ∈ adcKeys mem, ∀ a : HwioAdc, True → Safe b (x.2 a) fun _ => True := by
    simp only [adcKeys, List.forall_mem_cons]
    exact ⟨fun _ _ => textInto_safe hgood fun _ => trivial,
      fun _ _ => textInto_safe hgood fun _ => trivial, fun _ _ => uintInto_safe fun _ => trivial,
      fun _ _ => uintInto_safe fun _ => trivial, nofun⟩
  have hpin : ∀ j l, Safe b (hwioPin mem j l) fun _ => True := fun j l =>
    (cborUint_safe b mem).orFail.bind fun x _ => .ite (fun _ => .fail) fun _ => .pure trivial
  have hchannel : ∀ j l, Safe b (hwioChannel mem fuel j l) fun _ => True := fun j l =>
    .ite (fun _ => (readPairs_safe hgood hadc trivial).bind fun _ _ => .pure trivial)
      fun _ => skipValue_safe hgood trivial
  have hkeys : ∀ x ∈ hwioKeys mem fuel, ∀ l : HwioLocals, True →
      Safe b (x.2 l) fun _ => True := by
    simp only [hwioKeys, List.forall_mem_cons]
    refine ⟨fun _ _ => uintInto_safe fun _ => trivial, fun l _ => ?_, fun l _ => ?_,
      fun l _ => ?_, nofun⟩
    · exact (cborUint_safe b mem).orFail.bind fun m _ => .ite (fun _ => .fail) fun _ =>
        .pure trivial
    · exact (cborOpen_safe b mem _).orFail.bind fun n _ => .ite (fun _ => .fail) fun _ =>
        .loop (fun j l _ => hpin j l) trivial 0 n
    · exact (cborOpen_safe b mem _).orFail.bind fun n _ =>
        .loop (fun j l _ => hchannel j l) trivial 0 n
  exact Safe.mapFail ((readPairs_safe hgood hkeys trivial).bind fun _ _ => .pure trivial)

theorem bootParseNetcfg_safe : Safe b (bootParseNetcfg mem fuel) fun _ => True := by
  have hapKeys : ∀ x ∈ apKeys mem, ∀ ap : NetAp, True → Safe b (x.2 ap) fun _ => True := by
    simp only [apKeys, List.forall_mem_cons]
    exact ⟨fun _ _ => textInto_safe hgood fun _ => trivial,
      fun _ _ => textInto_safe hgood fun _ => trivial, nofun⟩
  have hap : ∀ j l, Safe b (netiAp mem fuel j l) fun _ => True := fun j l =>
    .ite (fun _ => (readPairs_safe hgood hapKeys trivial).mapFail.bind fun _ _ => .pure trivial)
      fun _ => skipValue_safe hgood trivial
  have hkeys : ∀ x ∈ netiKeys mem fuel, ∀ l : NetiLocals, True →
      Safe b (x.2 l) fun _ => True := by
    simp only [netiKeys, List.forall_mem_cons]
    refine ⟨fun _ _ => uintInto_safe fun _ => trivial, fun l _ => ?_,
      fun _ _ => uintInto_safe fun _ => trivial, fun _ _ => textInto_safe hgood fun _ => trivial,
      fun _ _ => textInto_safe hgood fun _ => trivial, fun l _ => ?_, nofun⟩
    · refine (bytes_safe hgood).bind fun s hs => .ite (fun _ => .fail) fun hlen => ?_
      obtain hlen := not_not.mp hlen
      exact (readBytes_safe fun i hi => hs i (hlen ▸ hi)).bind fun w _ => .pure trivial
    · refine (cborOpen_safe b mem _).orFail.bind fun na _ => ?_
      refine Safe.bind (A := fun _ => True) ?_ fun _ _ => .pure trivial
      exact .loop (fun j l _ => hap j l) trivial 0 na
  exact (readPairs_safe hgood hkeys trivial).bind fun _ _ => .pure trivial

end Files

end Readers

/-! ## In bounds -/

/-- What the decoder does with a buffer stays in it: from every cursor in it, and from its start
through each of the readers. -/
structure DecodesInside (mem : Mem) (b : Buffer) : Prop where
  hdr : ∀ c, b.Holds c → StaysInside b (cborHdr mem c)
  uint : ∀ c, b.Holds c → StaysInside b (cborUint mem c) ∧
    ∀ e, (cborUint mem c).outcome = .fail e → (cborUint mem c).state = c
  str : ∀ c, b.Holds c → ∀ want, want = cborBytes ∨ want = cborText →
    StaysInside b (cborStr mem want c) ∧
    (∀ k, (cborStr mem want c).outcome = .ok k →
      b.base ≤ k.ptr ∧ k.ptr + k.len ≤ b.base + b.len) ∧
    ∀ e, (cborStr mem want c).outcome = .fail e → (cborStr mem want c).state = c
  container : ∀ c, b.Holds c → ∀ want, StaysInside b (cborOpen mem want c) ∧
    ∀ e, (cborOpen mem want c).outcome = .fail e → (cborOpen mem want c).state = c
  skip : ∀ c, b.Holds c → ∀ fuel, StaysInside b (cborSkip mem fuel c)
  identity : ∀ fuel chip board out,
    StaysInside b (bootReadIdentity mem fuel chip board b.base (some b.len) out)
  roster : ∀ fuel, StaysInside b (bootReadRoster mem fuel b.base (some b.len))
  hwio : ∀ fuel, StaysInside b (bootReadHwio mem fuel b.base (some b.len))
  netcfg : ∀ fuel, StaysInside b (bootReadNetcfg mem fuel b.base (some b.len))

/-- The slice of a string whose length carries the pointer is not in the buffer. -/
theorem Carries.slice {mem : Mem} {c : Cursor} (h : Carries mem c) (hc : c.Valid) :
    ∃ want, (want = cborBytes ∨ want = cborText) ∧ ∃ k, (cborStr mem want c).outcome = .ok k ∧
      2 ^ 32 ≤ k.ptr + k.len := by
  obtain ⟨h, major, a, r, hh, hmajor, hrest, hcarry⟩ := h
  refine ⟨major, hmajor, ⟨c.p + h.length, a % 2 ^ 32⟩, ?_, hcarry⟩
  obtain ⟨⟨hle, hlt⟩, -⟩ := hc.rest_append hrest
  change c.p + h.length ≤ c.stop at hle
  change c.stop < 2 ^ 32 at hlt
  have hwraps : ptrAdd (c.p + h.length) a ≤ c.stop := by
    unfold ptrAdd
    omega
  have htake : (takeString a).Ends (c.advance h.length) _ _ := takeString_ends hwraps
  exact (orRestore_ok ((hdrOf_ends hc hh hrest).bind htake)).1

/-- The decoder and the readers stay in a buffer if and only if no string in it has a length the
low 32 bits of which carry the pointer past the last address. -/
theorem decoding_in_bounds (mem : Mem) (b : Buffer) :
    DecodesInside mem b ↔ ∀ c, b.Holds c → ¬Carries mem c := by
  constructor
  · intro h c hc hcarries
    obtain ⟨want, hwant, k, hk, hpast⟩ := hcarries.slice hc.valid
    have hin := (h.str c hc want hwant).2.1 k hk
    have hfits := b.fits
    omega
  · intro hgood
    constructor
    case hdr => exact fun c hc => (cborHdr_safe b mem).stays hc
    case uint =>
      exact fun c hc => ⟨(cborUint_safe b mem).stays hc,
        fun e => orRestore_restores (hdrOf_safe b mem _) hc⟩
    case str =>
      intro c hc want hwant
      refine ⟨(cborStr_safe hgood hwant).stays hc, ?_,
        fun e => orRestore_restores (takeStr_safe hgood hwant) hc⟩
      intro k hk
      obtain ⟨-, hend⟩ := cborStr_safe hgood hwant c hc
      rw [hk] at hend
      exact hend.2
    case container =>
      exact fun c hc want => ⟨(cborOpen_safe b mem want).stays hc,
        fun e => orRestore_restores (hdrOf_safe b mem want) hc⟩
    case skip => exact fun c hc fuel => (cborSkip_safe hgood fuel).stays hc
    case identity => exact fun _ _ _ _ => (parseIdentity_safe hgood).stays b.holds_init
    case roster => exact fun _ => (parseRoster_safe hgood).stays b.holds_init
    case hwio => exact fun _ => (parseHwio_safe hgood).stays b.holds_init
    case netcfg => exact fun _ => (bootParseNetcfg_safe hgood).stays b.holds_init

/-- A roster file with a key of 0xF0000000 bytes. -/
def farKey : Octets := [0xA2, 0x7A, 0xF0, 0, 0, 0]

/-- The value of the key is read from an address 256 MiB before the buffer. -/
theorem not_decoding_in_bounds : ∃ (mem : Mem) (b : Buffer), b.base = 0x20040000 ∧ b.len = 6 ∧
    bytesAt mem b.base b.len = farKey ∧
    .read 0x10040006 ∈ (bootReadRoster mem 1 b.base (some b.len)).events ∧
    ¬DecodesInside mem b := by
  have hread : .read 0x10040006 ∈
      (bootReadRoster (fun q => farKey.getD (q - 0x20040000) 0) 1 0x20040000 (some 6)).events := by
    decide
  refine ⟨_, ⟨0x20040000, 6, by decide⟩, rfl, rfl, by decide, hread, fun h => ?_⟩
  exact absurd ((h.roster 1).1 _ hread).1 (by decide)

end SlowBus.Boot
