import SlowBus.Boot.Alike
import SlowBus.Boot.Fuel

/-!
# Keys of a later version

A reader passes over the pairs of a map whose keys it does not know, so that a file with one
such pair more reads as the file without it. The check of a string's length is the exception: a
length that carries the pointer around the address space takes a reader back into its file, to a
place that depends on what was inserted.
-/

namespace SlowBus.Boot

open Prog
open Cbor

/-- The data of a row of the config store. -/
def cfgStoreDataMax : Nat := 240

/-- The second file is the first with one more pair in its map: behind as many of the pairs as
there are before it, with a text for a key that is not among the known ones, and any item for a
value. -/
inductive Inserted (known : List Octets) : Octets → Octets → Prop
  | intro {n j : Nat} {head head' before keyHead key value after : Octets} :
      Head head 5 n → Head head' 5 (n + 1) → j ≤ n → Items (j * 2) before →
      Head keyHead 3 key.length → key ∉ known → Item value →
      (head' ++ (before ++ (keyHead ++ (key ++ (value ++ after))))).length ≤ cfgStoreDataMax →
      Inserted known (head ++ (before ++ after))
        (head' ++ (before ++ (keyHead ++ (key ++ (value ++ after)))))

/-- A reader, on the file in a buffer. -/
abbrev Reading (β : Type) := Mem → Nat → Buffer → Run Cursor Access β β

section Reading

variable {β : Type}

/-- The reader returns, given fuel enough. -/
def Reading.Returns (read : Reading β) (mem : Mem) (b : Buffer) (r : β) : Prop :=
  ∃ fuel, returned (read mem fuel b) = some r

/-- With more fuel a reader that returned does the same. -/
def Reading.Steady (read : Reading β) : Prop :=
  ∀ mem b r fuel fuel', returned (read mem fuel b) = some r → fuel ≤ fuel' →
    read mem fuel' b = read mem fuel b

/-- No string the reader comes to has a length that carries the pointer past the last address. -/
def Reading.Clean (read : Reading β) (mem : Mem) (b : Buffer) : Prop :=
  ∀ fuel, ∀ ev ∈ (read mem fuel b).events, NoCarry ev

/-- Where `clean` holds of both files, what the reader returns is the same with a pair inserted
that it does not know. -/
def Ignores (known : List Octets) (read : Reading β) (clean : Mem → Buffer → Prop) : Prop :=
  ∀ mem mem' b b', Inserted known (bytesAt mem b.base b.len) (bytesAt mem' b'.base b'.len) →
    clean mem b → clean mem' b' → ∀ r, read.Returns mem b r → read.Returns mem' b' r

end Reading

/-! ## A pair that is not known -/

section Unknown

variable {ε α α' : Type} {mem mem' : Mem} {fuel n : Nat} {c c' : Cursor} {s : Slice}
  {keys : Keys ε α} {keys' : Keys ε α'} {acc : α} {acc' : α'} {e : α → ε} {e' : α' → ε}
  {A : α → α' → Prop} {keyHead key value r : Octets} {want : Nat}

theorem cborKey_other {w : Octets} (h : bytesAt mem s.ptr s.len ≠ w) :
    (cborKey mem s w : Decode ε Bool).Ends c (.ok false) c := by
  unfold cborKey
  split
  next =>
    have hread : (readBytes mem s.ptr s.len : Decode ε Octets).Ends c
        (.ok (bytesAt mem s.ptr s.len)) c := ⟨rfl, rfl⟩
    refine hread.bind ?_
    rw [decide_eq_false h]
    exact pure_ends
  next => exact pure_ends

/-- With no key that matches, the last branch is taken. -/
theorem onKey_other {other : α → Decode ε α} {out : Outcome ε α}
    (hkey : bytesAt mem s.ptr s.len ∉ keys.map Prod.fst) (h : (other acc).Ends c out c') :
    (onKey mem s other keys acc).Ends c out c' := by
  induction keys with
  | nil => exact h
  | cons x keys ih =>
      rw [List.map_cons, List.mem_cons, not_or] at hkey
      exact (cborKey_other hkey.1).bind (ih hkey.2)

/-- A string that fits is handed out. -/
theorem cborStr_ends (hc : c.Valid) (hh : Head keyHead want key.length)
    (hrest : c.rest mem = keyHead ++ (key ++ r)) :
    (cborStr mem want).Ends c (.ok ⟨c.p + keyHead.length, key.length⟩)
        ((c.advance keyHead.length).advance key.length) ∧
      bytesAt mem (c.p + keyHead.length) key.length = key := by
  obtain ⟨hc₁, hrest₁⟩ := hc.rest_append hrest
  obtain ⟨⟨hle, hlt⟩, -⟩ := hc₁.rest_append hrest₁
  change c.p + keyHead.length + key.length ≤ c.stop at hle
  change c.stop < 2 ^ 32 at hlt
  have hadd : ptrAdd (c.p + keyHead.length) key.length = c.p + keyHead.length + key.length :=
    ptrAdd_eq (by omega)
  have htake : (takeString key.length).Ends (c.advance keyHead.length) _ _ :=
    takeString_ends (by show ptrAdd (c.p + keyHead.length) key.length ≤ c.stop; omega)
  have hmod : key.length % 2 ^ 32 = key.length := Nat.mod_eq_of_lt (by omega)
  have hends := orRestore_ok ((hdrOf_ends hc hh hrest).bind htake)
  rw [hmod] at hends
  constructor
  · refine ⟨hends.1, hends.2.trans ?_⟩
    exact congrArg (Cursor.mk · c.stop) hadd
  · have hlen : key.length ≤ ((c.advance keyHead.length).rest mem).length := by
      rw [hrest₁, List.length_append]
      exact Nat.le_add_right _ _
    have hbytes := Cursor.rest_take hlen
    rw [hrest₁, List.take_left] at hbytes
    exact hbytes.symm

/-- A pair with a key that is not known is passed over. -/
theorem onePair_unknown (hc : c.Valid) (hh : Head keyHead 3 key.length) (hvalue : Item value)
    (hkey : key ∉ keys.map Prod.fst) (hfuel : value.length ≤ fuel)
    (hrest : c.rest mem = keyHead ++ (key ++ (value ++ r))) :
    (onePair mem fuel e keys acc).Ends c (.ok acc)
      (((c.advance keyHead.length).advance key.length).advance value.length) := by
  obtain ⟨hstr, hbytes⟩ := cborStr_ends hc hh hrest
  obtain ⟨hc₁, hrest₁⟩ := hc.rest_append hrest
  obtain ⟨hc₂, hrest₂⟩ := hc₁.rest_append hrest₁
  have hskip := cborSkip_item hvalue hfuel hc₂ hrest₂
  refine (mapFail_ok hstr).bind (onKey_other (by rwa [hbytes]) ?_)
  exact (mapFail_ok hskip).bind pure_ends

/-! ## Two files -/

/-- The two files are before the cursors, and there is fuel for both. -/
structure Placed (mem mem' : Mem) (fuel : Nat) (file file' : Octets) (c c' : Cursor) : Prop where
  valid : c.Valid
  valid' : c'.Valid
  rest : c.rest mem = file
  rest' : c'.rest mem' = file'
  enough : file.length < fuel
  enough' : file'.length < fuel

theorem cborOpen_ends (hc : c.Valid) (hh : Head keyHead want n)
    (hrest : c.rest mem = keyHead ++ r) :
    (cborOpen mem want).Ends c (.ok n) (c.advance keyHead.length) :=
  orRestore_ok (hdrOf_ends hc hh hrest)

/-- The maps are opened; the counts are what the heads say. -/
theorem open_inserted {head head' before s s' : Octets} {n n' k : Nat} {x x' : ε}
    (hhead : Head head 5 n) (hhead' : Head head' 5 n') (hbefore : Items k before) :
    Relates NoCarry (Placed mem mem' fuel (head ++ (before ++ s)) (head' ++ (before ++ s')))
      ((cborOpen mem cborMap).orFail x) ((cborOpen mem' cborMap).orFail x')
      (fun np np' c c' => (np = n ∧ np' = n') ∧ Alike mem mem' (some (s, s')) fuel k c c') Eq := by
  refine .of_ends fun c c' hc => ?_
  obtain ⟨hvalid, hvalid', hrest, hrest', hfuel, hfuel'⟩ := hc
  obtain ⟨hc₁, hr⟩ := hvalid.rest_append hrest
  obtain ⟨hc₁', hr'⟩ := hvalid'.rest_append hrest'
  rw [List.length_append] at hfuel hfuel'
  exact ⟨n, n', _, _, mapFail_ok (cborOpen_ends hvalid hhead hrest),
    mapFail_ok (cborOpen_ends hvalid' hhead' hrest'), ⟨rfl, rfl⟩, hc₁, hc₁',
    by rw [hr]; omega, by rw [hr']; omega, before, hbefore, hr, hr'⟩

/-- The new pair is passed over; behind it is what is before the other cursor. -/
theorem pair_inserted (hh : Head keyHead 3 key.length) (hvalue : Item value)
    (hkey : key ∉ keys'.map Prod.fst)
    (hc : Alike mem mem' (some (r, keyHead ++ (key ++ (value ++ r)))) fuel 0 c c') :
    ∃ t', (onePair mem' fuel e' keys' acc').Ends c' (.ok acc') t' ∧
      Alike mem mem' none fuel n c t' := by
  obtain ⟨hvalid, hvalid', hfuel, hfuel', w, hw, hrest, hrest'⟩ := hc
  rw [items_zero.mp hw, List.nil_append] at hrest hrest'
  obtain ⟨hc₁, hr₁⟩ := hvalid'.rest_append hrest'
  obtain ⟨hc₂, hr₂⟩ := hc₁.rest_append hr₁
  obtain ⟨hc₃, hr₃⟩ := hc₂.rest_append hr₂
  rw [hrest', List.length_append, List.length_append, List.length_append] at hfuel'
  have hle : value.length ≤ fuel := by omega
  exact ⟨_, onePair_unknown hvalid' hh hvalue hkey hle hrest', hvalid, hc₃, hfuel,
    by rw [hr₃]; omega, hrest.trans hr₃.symm⟩

/-- The loop over the pairs of the one map does what the loop over those of the other does. -/
theorem readPairs_inserted {file file' : Octets} (hins : Inserted (keys'.map Prod.fst) file file')
    (he : ∀ acc acc', A acc acc' → e acc = e' acc')
    (hkeys : ∀ tails, KeysAgree mem mem' tails fuel A keys keys') (hacc : A acc acc') :
    Relates NoCarry (Placed mem mem' fuel file file') (readPairs mem fuel e keys acc)
      (readPairs mem' fuel e' keys' acc')
      (fun x x' c c' => Alike mem mem' none fuel 0 c c' ∧ A x x') Eq := by
  obtain ⟨hhead, hhead', hj, hbefore, hkeyHead, hunknown, hvalue, -⟩ := hins
  rename_i n j head head' before keyHead key value after
  have hturns : ∀ tails i k x x', A x x' → Agrees mem mem' tails fuel (k * 2)
      (loop (fun _ acc => onePair mem fuel e keys acc) i k x)
      (loop (fun _ acc => onePair mem' fuel e' keys' acc) i k x') (fun _ => 0) A :=
    fun tails i k x x' hx =>
      Agrees.loop (k := 0) (fun _ _ _ _ hacc => onePair_agrees he (hkeys tails) hacc) hx i k
  refine (open_inserted hhead hhead' hbefore).bind fun np np' => ?_
  refine Relates.of_pre (fun _ _ hc => hc.1) fun hcounts => ?_
  obtain ⟨rfl, rfl⟩ := hcounts
  refine Relates.weaken (J := fun c c' => _ ∧ _) ?_ (fun _ _ hc => hc.2) fun _ _ _ _ hq => hq
  -- the pairs before the new one, the new one, the pairs behind it
  obtain ⟨rest, rfl⟩ := Nat.exists_eq_add_of_le hj
  rw [loop_add, Nat.add_assoc, loop_add]
  refine Relates.bind (hturns _ 0 j acc acc' hacc) fun x x' => ?_
  refine Relates.of_pre (fun _ _ hc => hc.2) fun hx => ?_
  rw [Nat.zero_add, loop]
  refine Relates.bind_right (J := Alike mem mem' none fuel (rest * 2))
    (fun c c' hc => pair_inserted hkeyHead hvalue hunknown hc.1) ?_
  rw [loop_const _ (j + 1) j]
  exact hturns none j rest x x' hx

end Unknown

/-! ## The readers -/

section Readers

variable {mem mem' : Mem} {tails : Option (Octets × Octets)} {fuel k : Nat}

/-! ### The identity -/

/-- The same locals, with the id of the board at an address of each run's own. -/
def IdentAlike (mem mem' : Mem) (l l' : IdentLocals) : Prop :=
  ∃ s, SameText mem mem' l.uid s ∧ l' = { l with uid := s }

def identNames : List Octets :=
  [ascii ['v'], ascii ['c', 'h'], ascii ['v', 'r'], ascii ['a', 'd'], ascii ['s', 'p'],
    ascii ['i', 'd']]

theorem identKeys_agree :
    KeysAgree mem mem' tails fuel (IdentAlike mem mem') (identKeys mem) (identKeys mem') := by
  have huint : ∀ (set : IdentLocals → Nat → IdentLocals),
      (∀ l s x, set { l with uid := s } x = { set l x with uid := s }) →
      (∀ l x, (set l x).uid = l.uid) → ∀ k l l', IdentAlike mem mem' l l' →
      Agrees mem mem' tails fuel (k + 1) (uintInto mem (fun _ => IdentCode.format) set l)
        (uintInto mem' (fun _ => IdentCode.format) set l') (fun _ => k) (IdentAlike mem mem') := by
    rintro set hset huid k l l' ⟨s, hs, rfl⟩
    refine uintInto_agrees (fun _ _ _ => rfl) ⟨s, hs, rfl⟩ fun x => ⟨s, ?_, hset l s x⟩
    rw [huid]
    exact hs
  refine .cons ⟨rfl, huint _ (fun _ _ _ => rfl) fun _ _ => rfl⟩ <|
    .cons ⟨rfl, huint _ (fun _ _ _ => rfl) fun _ _ => rfl⟩ <|
    .cons ⟨rfl, huint _ (fun _ _ _ => rfl) fun _ _ => rfl⟩ <|
    .cons ⟨rfl, huint _ (fun _ _ _ => rfl) fun _ _ => rfl⟩ <|
    .cons ⟨rfl, huint _ (fun _ _ _ => rfl) fun _ _ => rfl⟩ <| .cons ⟨rfl, ?_⟩ .nil
  rintro k l l' ⟨s, -, rfl⟩
  exact ((cborStr_agrees (.inl rfl)).orFail rfl).bind fun t t' ht => .pure ⟨t', ht, rfl⟩ rfl

theorem identCheck_agrees (chip : Nat) (board : Vector (BitVec 8) 8) {l l' : IdentLocals}
    (hl : IdentAlike mem mem' l l') : Agrees mem mem' tails fuel k (identCheck mem chip board l)
      (identCheck mem' chip board l') (fun _ => k) Eq := by
  obtain ⟨s, hs, rfl⟩ := hl
  refine .ite Iff.rfl (fun _ => .fail) fun _ => .ite Iff.rfl (fun _ => .fail) fun _ =>
    .ite Iff.rfl (fun _ => .fail) fun _ => .ite Iff.rfl (fun _ => .fail) fun _ =>
    .ite (by rw [hs.1]) (fun _ => .fail) fun _ => ?_
  have hread : Agrees mem mem' tails fuel k (readBytes mem l.uid.ptr l.uid.len)
      (readBytes mem' s.ptr l.uid.len : Decode IdentCode Octets) (fun _ => k) Eq :=
    hs.readBytes le_rfl
  dsimp only
  rw [← hs.1]
  refine hread.bind fun w w' hw => ?_
  subst hw
  refine .ite Iff.rfl (fun _ => .fail) fun _ => .ite Iff.rfl (fun _ => .fail) fun _ =>
    .ite Iff.rfl (fun _ => .fail) fun _ => ?_
  exact hread.bind fun w w' hw => .pure (by rw [hw]) rfl

/-! ### The roster -/

def rosterNames : List Octets :=
  [ascii ['v'], ascii ['p'], ascii ['w'], ascii ['m'], ascii ['r'], ascii ['s']]

theorem rosterSlave_agrees (l : RosterLocals) : Agrees mem mem' tails fuel (k + 1)
    (rosterSlave mem fuel l) (rosterSlave mem' fuel l) (fun _ => k) Eq := by
  refine (cborOpen_array_agrees.orFail rfl).bind fun nf nf' hnf => ?_
  subst hnf
  refine .ite Iff.rfl (fun _ => .fail) fun hmany => ?_
  obtain ⟨rest, rfl⟩ := Nat.exists_eq_add_of_le' (Nat.not_lt.mp hmany)
  rw [show rest + 3 + k = rest + k + 2 + 1 by omega, Nat.add_sub_cancel]
  refine (cborUint_agrees.orFail rfl).bind fun addr _ haddr => ?_
  refine (cborUint_agrees.orFail rfl).bind fun variant _ hvariant => ?_
  refine (cborUint_agrees.orFail rfl).bind fun flags _ hflags => ?_
  subst haddr hvariant hflags
  refine Agrees.bind (A := fun _ _ => True) ?_ fun _ _ _ => .pure rfl rfl
  exact .each (fun _ _ _ _ _ => cborSkip_agrees.orFail rfl) trivial 3 rest

theorem rosterKeys_agree :
    KeysAgree mem mem' tails fuel Eq (rosterKeys mem fuel) (rosterKeys mem' fuel) := by
  have huint : ∀ (set : RosterLocals → Nat → RosterLocals) k l l', l = l' →
      Agrees mem mem' tails fuel (k + 1) (uintInto mem RosterLocals.badFormat set l)
        (uintInto mem' RosterLocals.badFormat set l') (fun _ => k) Eq :=
    fun set k l l' hl => uintInto_agrees (fun _ _ h => h ▸ rfl) hl fun x => hl ▸ rfl
  refine .cons ⟨rfl, huint _⟩ <| .cons ⟨rfl, huint _⟩ <| .cons ⟨rfl, huint _⟩ <|
    .cons ⟨rfl, huint _⟩ <| .cons ⟨rfl, huint _⟩ <| .cons ⟨rfl, ?_⟩ .nil
  rintro k l _ rfl
  refine (cborOpen_array_agrees.orFail rfl).bind fun ns ns' hns => ?_
  subst hns
  exact .each (fun _ _ l _ hl => hl ▸ rosterSlave_agrees l) rfl 0 ns

/-! ### The pins -/

def hwioNames : List Octets :=
  [ascii ['v'], ascii ['m'], ascii ['i', 'o'], ascii ['a', 'd']]

theorem adcKeys_agree : KeysAgree mem mem' tails fuel Eq (adcKeys mem) (adcKeys mem') :=
  .cons ⟨rfl, fun _ _ _ ha => textInto_agrees ha⟩ <|
    .cons ⟨rfl, fun _ _ _ ha => textInto_agrees ha⟩ <|
    .cons ⟨rfl, fun _ _ _ ha => uintInto_agrees (fun _ _ _ => rfl) ha fun _ => ha ▸ rfl⟩ <|
    .cons ⟨rfl, fun _ _ _ ha => uintInto_agrees (fun _ _ _ => rfl) ha fun _ => ha ▸ rfl⟩ .nil

theorem hwioChannel_agrees (j : Nat) (l : HwioLocals) : Agrees mem mem' tails fuel (k + 1)
    (hwioChannel mem fuel j l) (hwioChannel mem' fuel j l) (fun _ => k) Eq := by
  refine .ite Iff.rfl (fun _ => ?_) fun _ => skipValue_agrees (fun _ _ _ => rfl) rfl
  exact (readPairs_agrees (fun _ _ _ => rfl) adcKeys_agree rfl).bind fun a _ ha =>
    .pure (ha ▸ rfl) rfl

theorem hwioKeys_agree :
    KeysAgree mem mem' tails fuel Eq (hwioKeys mem fuel) (hwioKeys mem' fuel) := by
  refine .cons ⟨rfl, fun _ _ _ hl => uintInto_agrees (fun _ _ _ => rfl) hl fun _ => hl ▸ rfl⟩ <|
    .cons ⟨rfl, ?_⟩ <| .cons ⟨rfl, ?_⟩ <| .cons ⟨rfl, ?_⟩ .nil
  · rintro k l _ rfl
    refine (cborUint_agrees.orFail rfl).bind fun m m' hm => ?_
    subst hm
    exact .ite Iff.rfl (fun _ => .fail) fun _ => .pure rfl rfl
  · rintro k l _ rfl
    refine (cborOpen_array_agrees.orFail rfl).bind fun n n' hn => ?_
    subst hn
    refine .ite Iff.rfl (fun _ => .fail) fun _ => ?_
    refine .each (fun i j l l' hl => ?_) rfl 0 n
    rw [← hl]
    refine (cborUint_agrees.orFail rfl).bind fun x x' hx => ?_
    subst hx
    exact .ite Iff.rfl (fun _ => .fail) fun _ => .pure rfl rfl
  · rintro k l _ rfl
    refine (cborOpen_array_agrees.orFail rfl).bind fun n n' hn => ?_
    subst hn
    exact .each (fun i _ l _ hl => hl ▸ hwioChannel_agrees i l) rfl 0 n

/-! ### The networks -/

def netiNames : List Octets :=
  [ascii ['v'], ascii ['i', 'p'], ascii ['p', 't'], ascii ['s', 's'], ascii ['p', 'w'],
    ascii ['a', 'p', 's']]

theorem apKeys_agree : KeysAgree mem mem' tails fuel Eq (apKeys mem) (apKeys mem') :=
  .cons ⟨rfl, fun _ _ _ ha => textInto_agrees ha⟩ <|
    .cons ⟨rfl, fun _ _ _ ha => textInto_agrees ha⟩ .nil

theorem netiAp_agrees (j : Nat) (l : NetiLocals) : Agrees mem mem' tails fuel (k + 1)
    (netiAp mem fuel j l) (netiAp mem' fuel j l) (fun _ => k) Eq := by
  refine .ite Iff.rfl (fun _ => ?_) fun _ => skipValue_agrees (fun _ _ h => h ▸ rfl) rfl
  have hap : Agrees mem mem' tails fuel (k + 1) (parseAp mem fuel (l.ap j))
      (parseAp mem' fuel (l.ap j)) (fun _ => k) Eq :=
    readPairs_agrees (fun _ _ h => h) apKeys_agree rfl
  exact (hap.mapFail fun _ => rfl).bind fun ap _ hap => .pure (hap ▸ rfl) rfl

theorem netiKeys_agree :
    KeysAgree mem mem' tails fuel Eq (netiKeys mem fuel) (netiKeys mem' fuel) := by
  have he : ∀ l l' : NetiLocals, l = l' → l.badFormat = l'.badFormat := fun _ _ h => h ▸ rfl
  refine .cons ⟨rfl, fun _ _ _ hl => uintInto_agrees he hl fun _ => hl ▸ rfl⟩ <|
    .cons ⟨rfl, ?_⟩ <| .cons ⟨rfl, fun _ _ _ hl => uintInto_agrees he hl fun _ => hl ▸ rfl⟩ <|
    .cons ⟨rfl, fun _ _ _ hl => textInto_agrees hl⟩ <|
    .cons ⟨rfl, fun _ _ _ hl => textInto_agrees hl⟩ <| .cons ⟨rfl, ?_⟩ .nil
  · rintro k l _ rfl
    refine ((cborStr_agrees (.inl rfl)).orFail rfl).bind fun s s' hs => ?_
    refine .ite (by rw [hs.1]) (fun _ => .fail) fun hlen => ?_
    exact (hs.readBytes (not_not.mp hlen).ge).bind fun w _ hw => .pure (hw ▸ rfl) rfl
  · rintro k l _ rfl
    refine (cborOpen_array_agrees.orFail rfl).bind fun na na' hna => ?_
    subst hna
    refine Agrees.bind (A := Eq) ?_ fun l _ hl => .pure (hl ▸ rfl) rfl
    exact .each (fun i _ l _ hl => hl ▸ netiAp_agrees i l) rfl 0 na

/-! ### Both files read -/

section Files

variable {file file' : Octets}

theorem parseIdentity_relates {chip : Nat} {board : Vector (BitVec 8) 8} {out : Identity}
    (hins : Inserted identNames file file') :
    Relates NoCarry (Placed mem mem' fuel file file') (parseIdentity mem fuel chip board out)
      (parseIdentity mem' fuel chip board out) (fun r r' _ _ => r = r') Eq := by
  have hpairs : Relates NoCarry (Placed mem mem' fuel file file')
      (readPairs mem fuel (fun _ => .format) (identKeys mem) {})
      (readPairs mem' fuel (fun _ => .format) (identKeys mem') {})
      (fun l l' c c' => Alike mem mem' none fuel 0 c c' ∧ IdentAlike mem mem' l l') Eq :=
    readPairs_inserted hins (fun _ _ _ => rfl) (fun _ => identKeys_agree)
      ⟨⟨0, 0⟩, ⟨rfl, rfl⟩, rfl⟩
  refine Relates.mapFail (hpairs.bind fun l l' => ?_) fun e e' he => he ▸ rfl
  refine Relates.of_pre (fun _ _ hc => hc.2) fun hl => ?_
  have hcheck : Agrees mem mem' none fuel 0 _ _ (fun _ => 0) Eq :=
    (identCheck_agrees chip board hl).bind fun i i' hi =>
      .pure (congrArg (Prod.mk IdentCode.ok) hi) rfl
  exact Relates.weaken hcheck (fun _ _ hc => hc.1) fun _ _ _ _ hq => hq.2

theorem parseRoster_relates (hins : Inserted rosterNames file file') :
    Relates NoCarry (Placed mem mem' fuel file file') (parseRoster mem fuel)
      (parseRoster mem' fuel) (fun r r' _ _ => r = r') Eq := by
  have hpairs : Relates NoCarry (Placed mem mem' fuel file file')
      (readPairs mem fuel RosterLocals.badFormat (rosterKeys mem fuel) {})
      (readPairs mem' fuel RosterLocals.badFormat (rosterKeys mem' fuel) {})
      (fun l l' c c' => Alike mem mem' none fuel 0 c c' ∧ l = l') Eq :=
    readPairs_inserted hins (fun _ _ h => h ▸ rfl) (fun _ => rosterKeys_agree) rfl
  refine hpairs.bind fun l l' => Relates.of_pre (fun _ _ hc => hc.2) fun hl => ?_
  exact fun _ _ _ _ _ => .ok (congrArg rosterResult hl)

theorem parseHwio_relates (hins : Inserted hwioNames file file') :
    Relates NoCarry (Placed mem mem' fuel file file') (parseHwio mem fuel)
      (parseHwio mem' fuel) (fun r r' _ _ => r = r') Eq := by
  have hpairs : Relates NoCarry (Placed mem mem' fuel file file')
      (readPairs mem fuel (fun _ => .format) (hwioKeys mem fuel) {})
      (readPairs mem' fuel (fun _ => .format) (hwioKeys mem' fuel) {})
      (fun l l' c c' => Alike mem mem' none fuel 0 c c' ∧ l = l') Eq :=
    readPairs_inserted hins (fun _ _ _ => rfl) (fun _ => hwioKeys_agree) rfl
  refine Relates.mapFail (hpairs.bind fun l l' => ?_) fun e e' he => he ▸ rfl
  refine Relates.of_pre (fun _ _ hc => hc.2) fun hl => ?_
  exact fun _ _ _ _ _ => .ok (congrArg hwioResult hl)

theorem bootParseNetcfg_relates (hins : Inserted netiNames file file') :
    Relates NoCarry (Placed mem mem' fuel file file') (bootParseNetcfg mem fuel)
      (bootParseNetcfg mem' fuel) (fun r r' _ _ => r = r') Eq := by
  have hpairs : Relates NoCarry (Placed mem mem' fuel file file')
      (readPairs mem fuel NetiLocals.badFormat (netiKeys mem fuel) {})
      (readPairs mem' fuel NetiLocals.badFormat (netiKeys mem' fuel) {})
      (fun l l' c c' => Alike mem mem' none fuel 0 c c' ∧ l = l') Eq :=
    readPairs_inserted hins (fun _ _ h => h ▸ rfl) (fun _ => netiKeys_agree) rfl
  refine hpairs.bind fun l l' => Relates.of_pre (fun _ _ hc => hc.2) fun hl => ?_
  exact fun _ _ _ _ _ => .ok (congrArg netiResult hl)

end Files

end Readers

/-! ## Forward compatibility -/

theorem placed_init {mem mem' : Mem} {fuel : Nat} {b b' : Buffer} (h : b.len < fuel)
    (h' : b'.len < fuel) :
    Placed mem mem' fuel (bytesAt mem b.base b.len) (bytesAt mem' b'.base b'.len)
      (cborInit b.base b.len) (cborInit b'.base b'.len) := by
  have hrest : ∀ (mem : Mem) (b : Buffer),
      (cborInit b.base b.len).rest mem = bytesAt mem b.base b.len := by
    intro mem b
    rw [cborInit, ptrAdd_eq b.fits]
    exact congrArg _ (Nat.add_sub_cancel_left ..)
  refine ⟨b.holds_init.valid, b'.holds_init.valid, hrest mem b, hrest mem' b', ?_, ?_⟩
  · rwa [length_bytesAt]
  · rwa [length_bytesAt]

theorem steady_of_refines {β : Type} {read : Reading β} (parse : Mem → Nat → Decode β β)
    (hread : ∀ mem fuel b, read mem fuel b = parse mem fuel (cborInit b.base b.len))
    (h : ∀ mem fuel fuel', fuel ≤ fuel' → Refines (parse mem fuel) (parse mem fuel')) :
    read.Steady := by
  intro mem b r fuel fuel' hr hle
  rw [hread] at hr
  rw [hread, hread]
  refine h mem fuel fuel' hle _ fun hspent => ?_
  generalize parse mem fuel (cborInit b.base b.len) = run at hr hspent
  obtain ⟨out, t, evs⟩ := run
  obtain rfl : out = .spent := hspent
  cases hr

/-- A reader whose runs on the two files end alike ignores what it does not know. -/
theorem ignores_of_relates {β : Type} {known : List Octets} {read : Reading β}
    (parse : Mem → Nat → Decode β β)
    (hread : ∀ mem fuel b, read mem fuel b = parse mem fuel (cborInit b.base b.len))
    (hsteady : read.Steady)
    (h : ∀ mem mem' fuel file file', Inserted known file file' →
      Relates NoCarry (Placed mem mem' fuel file file') (parse mem fuel) (parse mem' fuel)
        (fun r r' _ _ => r = r') Eq) :
    Ignores known read read.Clean := by
  rintro mem mem' b b' hins hclean hclean' r ⟨enough, hr⟩
  obtain ⟨fuel, hle, hlen, hlen'⟩ : ∃ fuel, enough ≤ fuel ∧ b.len < fuel ∧ b'.len < fuel :=
    ⟨max enough (max b.len b'.len + 1), by omega, by omega, by omega⟩
  rw [← hsteady mem b r enough fuel hr hle, hread] at hr
  have hclean := hclean fuel
  have hclean' := hclean' fuel
  rw [hread] at hclean hclean'
  have hend := h mem mem' fuel _ _ hins _ _ (placed_init hlen hlen') hclean hclean'
  refine ⟨fuel, ?_⟩
  rw [hread]
  generalize parse mem fuel (cborInit b.base b.len) = run,
    parse mem' fuel (cborInit b'.base b'.len) = run' at hr hend ⊢
  obtain ⟨out, t, evs⟩ := run
  obtain ⟨out', t', evs'⟩ := run'
  cases hend with
  | ok heq => exact heq ▸ hr
  | fail heq => exact heq ▸ hr

def identityReading (chip : Nat) (board : Vector (BitVec 8) 8) (out : Identity) :
    Reading (IdentCode × Identity) :=
  fun mem fuel b => bootReadIdentity mem fuel chip board b.base (some b.len) out

def rosterReading : Reading (RosterCode × RosterCfg) :=
  fun mem fuel b => bootReadRoster mem fuel b.base (some b.len)

def hwioReading : Reading (HwioCode × Hwio) :=
  fun mem fuel b => bootReadHwio mem fuel b.base (some b.len)

def netcfgReading : Reading (NetiCode × Netcfg) :=
  fun mem fuel b => bootParseNetcfg mem fuel (cborInit b.base b.len)

theorem identityReading_steady {chip : Nat} {board : Vector (BitVec 8) 8} {out : Identity} :
    (identityReading chip board out).Steady :=
  steady_of_refines (fun mem fuel => parseIdentity mem fuel chip board out) (fun _ _ _ => rfl)
    fun _ _ _ hle => parseIdentity_refines hle

theorem rosterReading_steady : rosterReading.Steady :=
  steady_of_refines parseRoster (fun _ _ _ => rfl) fun _ _ _ hle => parseRoster_refines hle

theorem hwioReading_steady : hwioReading.Steady :=
  steady_of_refines parseHwio (fun _ _ _ => rfl) fun _ _ _ hle => parseHwio_refines hle

theorem netcfgReading_steady : netcfgReading.Steady :=
  steady_of_refines bootParseNetcfg (fun _ _ _ => rfl) fun _ _ _ hle => bootParseNetcfg_refines hle

/-- With a pair inserted that it does not know each of the readers returns the same code and the
same structure, as long as it comes to no string, in the file as it was and as it is, the length
of which carries the pointer past the last address. -/
theorem unknown_pairs_ignored (chip : Nat) (board : Vector (BitVec 8) 8) (out : Identity) :
    Ignores identNames (identityReading chip board out) (identityReading chip board out).Clean ∧
    Ignores rosterNames rosterReading rosterReading.Clean ∧
    Ignores hwioNames hwioReading hwioReading.Clean ∧
    Ignores netiNames netcfgReading netcfgReading.Clean :=
  ⟨ignores_of_relates (fun mem fuel => parseIdentity mem fuel chip board out) (fun _ _ _ => rfl)
      identityReading_steady fun _ _ _ _ _ hins => parseIdentity_relates hins,
    ignores_of_relates parseRoster (fun _ _ _ => rfl) rosterReading_steady
      fun _ _ _ _ _ hins => parseRoster_relates hins,
    ignores_of_relates parseHwio (fun _ _ _ => rfl) hwioReading_steady
      fun _ _ _ _ _ hins => parseHwio_relates hins,
    ignores_of_relates bootParseNetcfg (fun _ _ _ => rfl) netcfgReading_steady
      fun _ _ _ _ _ hins => bootParseNetcfg_relates hins⟩

/-- What holds of the events of a run that returns, and of one without fuel, holds with any. -/
theorem clean_of_returns {read : Reading α} (hread : read.Steady) {mem : Mem} {b : Buffer} {r : α}
    (hzero : ∀ ev ∈ (read mem 0 b).events, NoCarry ev)
    (hr : returned (read mem 1 b) = some r) (hone : ∀ ev ∈ (read mem 1 b).events, NoCarry ev) :
    read.Clean mem b := by
  rintro (_ | fuel)
  · exact hzero
  · rwa [hread mem b r 1 (fuel + 1) hr (Nat.le_add_left 1 fuel)]

/-- The buffer that holds a file. -/
def bufferOf (file : Octets) (h : file.length ≤ cfgStoreDataMax) : Buffer :=
  ⟨0x20040000, file.length, Nat.lt_of_le_of_lt (Nat.add_le_add_left h _) (by decide)⟩

/-- A roster file with the version alone. -/
def plainFile : Octets := [0xA1, 0x61, 0x76, 0x01]

/-- The same file with a key of a later version before it. -/
def laterFile : Octets := [0xA2, 0x61, 0x78, 0x0A, 0x61, 0x76, 0x01]

theorem inserted_later : Inserted rosterNames plainFile laterFile := by
  have hhead : Head [0xA1] 5 1 := .short 0xA1 (by decide)
  have hhead' : Head [0xA2] 5 2 := .short 0xA2 (by decide)
  have hkey : Head [0x61] 3 (List.length [(0x78 : BitVec 8)]) := .short 0x61 (by decide)
  have hvalue : Item [0x0A] := .uint (n := 10) (.short 0x0A (by decide))
  have hfits : laterFile.length ≤ cfgStoreDataMax := by decide
  exact .intro hhead hhead' (Nat.zero_le 1) (items_zero.mpr rfl) hkey (by decide) hvalue hfits

theorem unknown_pairs_ignored_later : rosterReading.Returns (memOf 0x20040000 laterFile)
    (bufferOf laterFile (by decide)) (.ok, {}) := by
  have hplain : bytesAt (memOf 0x20040000 plainFile) 0x20040000 4 = plainFile := by decide
  have hlater : bytesAt (memOf 0x20040000 laterFile) 0x20040000 7 = laterFile := by decide
  have hr : returned (rosterReading (memOf 0x20040000 plainFile) 1
      (bufferOf plainFile (by decide))) = some (.ok, {}) := by decide +kernel
  have hr' : returned (rosterReading (memOf 0x20040000 laterFile) 1
      (bufferOf laterFile (by decide))) = some (.ok, {}) := by decide +kernel
  refine (unknown_pairs_ignored 0 (.replicate 8 0) ⟨0, 0, 0, 0, []⟩).2.1
    (memOf 0x20040000 plainFile) _ (bufferOf plainFile (by decide)) _ ?_ ?_ ?_ _ ⟨1, hr⟩
  · change Inserted _ (bytesAt _ 0x20040000 4) (bytesAt _ 0x20040000 7)
    rw [hplain, hlater]
    exact inserted_later
  · exact clean_of_returns rosterReading_steady (by decide +kernel) hr (by decide +kernel)
  · exact clean_of_returns rosterReading_steady (by decide +kernel) hr' (by decide +kernel)

/-- A roster file whose last value is a text of 2^32 - 10 bytes: it leads back to the first pair. -/
def backFile : Octets := [0xA3, 0x61, 0x76, 0x01, 0x61, 0x78, 0x7A, 0xFF, 0xFF, 0xFF, 0xF6]

/-- With a pair inserted behind the first one it leads into this pair. -/
def astrayFile : Octets :=
  [0xA4, 0x61, 0x76, 0x01, 0x62, 0x7A, 0x7A, 0x00, 0x61, 0x78, 0x7A, 0xFF, 0xFF, 0xFF, 0xF6]

theorem inserted_astray : Inserted rosterNames backFile astrayFile := by
  have hhead : Head [0xA3] 5 3 := .short 0xA3 (by decide)
  have hhead' : Head [0xA4] 5 4 := .short 0xA4 (by decide)
  have hkey : Head [0x62] 3 (List.length [(0x7A : BitVec 8), 0x7A]) := .short 0x62 (by decide)
  have hvalue : Item [0x00] := .uint (n := 0) (.short 0x00 (by decide))
  have hversion : Head [0x61] 3 (List.length [(0x76 : BitVec 8)]) := .short 0x61 (by decide)
  have hone : Item [0x01] := .uint (n := 1) (.short 0x01 (by decide))
  have hpair : Items (1 * 2) [0x61, 0x76, 0x01] :=
    items_succ.mpr ⟨_, _, .string hversion (.inr rfl), items_one.mpr hone, rfl⟩
  have hfits : astrayFile.length ≤ cfgStoreDataMax := by decide
  exact .intro hhead hhead' (by decide) hpair hkey (by decide) hvalue hfits

/-- The first file is read, the second refused. -/
theorem not_unknown_pairs_ignored :
    rosterReading.Returns (memOf 0x20040000 backFile) (bufferOf backFile (by decide)) (.ok, {}) ∧
    ¬Ignores rosterNames rosterReading fun _ _ => True := by
  have hback : bytesAt (memOf 0x20040000 backFile) 0x20040000 11 = backFile := by decide
  have hastray : bytesAt (memOf 0x20040000 astrayFile) 0x20040000 15 = astrayFile := by decide
  have hr : returned (rosterReading (memOf 0x20040000 backFile) 1
      (bufferOf backFile (by decide))) = some (.ok, {}) := by decide +kernel
  have hr' : returned (rosterReading (memOf 0x20040000 astrayFile) 1
      (bufferOf astrayFile (by decide))) = some (.format, {}) := by decide +kernel
  have hins : Inserted rosterNames (bytesAt (memOf 0x20040000 backFile) 0x20040000 11)
      (bytesAt (memOf 0x20040000 astrayFile) 0x20040000 15) := by
    rw [hback, hastray]
    exact inserted_astray
  refine ⟨⟨1, hr⟩, fun h => ?_⟩
  obtain ⟨fuel, hok⟩ := h _ _ (bufferOf backFile (by decide)) (bufferOf astrayFile (by decide)) hins
    trivial trivial _ ⟨1, hr⟩
  rcases Nat.le_total fuel 1 with hle | hle
  · rw [← rosterReading_steady _ _ _ _ _ hok hle, hr'] at hok
    cases hok
  · rw [rosterReading_steady _ _ _ _ _ hr' hle, hr'] at hok
    cases hok

end SlowBus.Boot
