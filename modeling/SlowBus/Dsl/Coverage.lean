import SlowBus.Dsl.Unit
import SlowBus.Lib.Runs

/-!
# Every pad declared once

The gate of `files` reads the labels that are left after the calls of `pins`, where a
declaration has taken the place of an earlier one with the same letters. A pad that is
declared again under its other name is found; under the same name in either case it is not.
-/

namespace SlowBus.Dsl

open Runs (run)

/-! ## Declarations -/

/-- The declarations that a call stores: all up to the first that it refuses. -/
def stored : List (Text × Text) → List (Text × Role)
  | [] => []
  | (label, spec) :: rest =>
      match parseSpec label spec with
      | .error _ => []
      | .ok role => (label, role) :: stored rest

def declarations (calls : List (List (Text × Text))) : List (Text × Role) := calls.flatMap stored

/-- The unit after calls of `pins`, whatever they have raised. -/
def SlaveUnit.declare (u : SlaveUnit) (py : PyText) (calls : List (List (Text × Text))) :
    SlaveUnit :=
  run (fun u call => (u.pins py call).1) u calls

/-- The pads of the declarations, under whatever spelling. -/
def declaredPads (py : PyText) (calls : List (List (Text × Text))) : List Text :=
  (declarations calls).map fun d => padOf (py.upper d.1)

/-- A byte of a file with a header of so many bytes is that of the role. -/
def ByteAt (file : Option (List Nat)) (header : Nat) (pins : List Text)
    (encode : Text → Text → Role → Except UnitError Nat) (label : Text) (role : Role) : Prop :=
  ∃ bytes idx code, file = some bytes ∧ pins.idxOf? (padOf label) = some idx ∧
    encode label (padOf label) role = .ok code ∧ bytes[header + idx]? = some code

/-- The bits of a pad. -/
def GpmpMap.bits (m : GpmpMap) (i : Nat) : GpmpBits where
  dir := m.dir.testBit i
  pullen := m.pullen.testBit i
  out := m.out.testBit i
  od := m.od.testBit i

/-- What the file of the mode has for the pad is what the role is encoded as. -/
def Files.Encodes (f : Files) (py : PyText) (mode : UnitMode) (label : Text) (role : Role) : Prop :=
  match mode with
  | .idle | .adc => True
  | .gpio =>
      ∃ (m : GpmpMap) (int i : Nat), f.gpmp = some [2, m.dir, m.pullen, m.out, m.od, int] ∧
        bankPins[i]? = some label ∧ gpmpPin label role = .ok (m.bits i)
  | .mixed => ByteAt f.mxmp 1 bankPins (mxmpPad py) label role
  | .servo => ByteAt f.srvo 1 bankPins srvoPad label role
  | .counter => ByteAt f.cntr 3 counterPins cntrPad label role

/-- A `DSLError`; the interlock file has errors of other kinds too. -/
def UnitError.IsDslError : UnitError → Prop
  | .keyError _ | .interlock _ => False
  | _ => True

/-- Every pad of the mode has been declared once and no pad twice, and the files hold the
roles of the declarations. -/
structure Gated (py : PyText) (mode : UnitMode) (calls : List (List (Text × Text)))
    (f : Files) : Prop where
  once : ∀ p ∈ (configPads mode).getD [], (declaredPads py calls).count p = 1
  twice : ∀ p, (declaredPads py calls).count p ≤ 1
  encoded : ∀ d ∈ declarations calls, f.Encodes py mode (py.upper d.1) d.2

/-! ## What the calls store -/

section Stored

variable {py : PyText} {u : SlaveUnit} {roles : Roles} {ds : List (Text × Role)}

/-- The declarations put into the roles one after the other. -/
def Roles.store (py : PyText) (roles : Roles) (ds : List (Text × Role)) : Roles :=
  ds.foldl (fun roles d => roles.set (py.upper d.1) d.2) roles

theorem store_append (ds ds' : List (Text × Role)) :
    roles.store py (ds ++ ds') = (roles.store py ds).store py ds' := List.foldl_append ..

theorem pins_fst (u : SlaveUnit) (call : List (Text × Text)) :
    (u.pins py call).1 = { u with roles := u.roles.store py (stored call) } := by
  induction call generalizing u with
  | nil => rfl
  | cons d call ih =>
      unfold SlaveUnit.pins stored
      cases parseSpec d.1 d.2 with
      | error e => rfl
      | ok role => exact ih { u with roles := u.roles.set (py.upper d.1) role }

theorem declare_eq (u : SlaveUnit) (calls : List (List (Text × Text))) :
    u.declare py calls = { u with roles := u.roles.store py (declarations calls) } := by
  induction calls generalizing u with
  | nil => rfl
  | cons call calls ih =>
      have hcall : u.declare py (call :: calls) = (u.pins py call).1.declare py calls := rfl
      have hall : declarations (call :: calls) = stored call ++ declarations calls :=
        List.flatMap_cons
      rw [hcall, ih, pins_fst, hall, store_append]

/-- Labels that differ in their letters are stored side by side. -/
theorem store_distinct (hds : (ds.map fun d => py.upper d.1).Nodup)
    (hfresh : ∀ d ∈ ds, ∀ r ∈ roles, r.1 ≠ py.upper d.1) :
    roles.store py ds = roles ++ ds.map fun d => (py.upper d.1, d.2) := by
  induction ds generalizing roles with
  | nil => exact (List.append_nil roles).symm
  | cons d ds ih =>
      obtain ⟨hnot, hnodup⟩ := List.nodup_cons.mp hds
      have hset : roles.set (py.upper d.1) d.2 = roles ++ [(py.upper d.1, d.2)] := by
        unfold Roles.set Table.upsert
        refine if_neg fun hany => ?_
        obtain ⟨r, hr, heq⟩ := List.any_eq_true.mp hany
        exact hfresh d List.mem_cons_self r hr (of_decide_eq_true heq)
      have hnext : ∀ d' ∈ ds, ∀ r ∈ roles.set (py.upper d.1) d.2, r.1 ≠ py.upper d'.1 := by
        intro d' hd' r hr
        rw [hset] at hr
        rcases List.mem_append.mp hr with hr | hr
        · exact hfresh d' (List.mem_cons_of_mem d hd') r hr
        · rw [List.mem_singleton.mp hr]
          exact fun heq => hnot (List.mem_map.mpr ⟨d', hd', heq.symm⟩)
      refine (ih hnodup hnext).trans ?_
      rw [hset, List.append_assoc]
      rfl

end Stored

/-! ## What the gate lets through -/

section Gate

variable {mode : UnitMode} {want seen out labels : List Text} {u : SlaveUnit}

theorem checkLabels_ok (h : checkLabels mode want seen labels = .ok out) (hseen : seen.Nodup) :
    out = (labels.map padOf).reverse ++ seen ∧ out.Nodup ∧ ∀ l ∈ labels, padOf l ∈ want := by
  induction labels generalizing seen with
  | nil =>
      obtain rfl := Except.ok.inj h
      exact ⟨rfl, hseen, fun _ hl => (List.not_mem_nil hl).elim⟩
  | cons label labels ih =>
      unfold checkLabels at h
      dsimp only at h
      split at h
      next => cases h
      next =>
        split at h
        next => cases h
        next =>
          split at h
          next => cases h
          next hwant =>
            split at h
            next => cases h
            next hnew =>
              obtain ⟨hout, hnodup, hrest⟩ := ih h (List.nodup_cons.mpr ⟨hnew, hseen⟩)
              refine ⟨?_, hnodup, fun l hl => ?_⟩
              · rw [hout, List.map_cons, List.reverse_cons, List.append_assoc]
                rfl
              · rcases List.mem_cons.mp hl with rfl | hl
                · exact not_not.mp hwant
                · exact hrest l hl

/-- Behind the gate the labels name the pads of the mode, each once. -/
structure Covered (u : SlaveUnit) : Prop where
  nodup : (u.roles.map fun r => padOf r.1).Nodup
  mem_iff : ∀ p, p ∈ u.roles.map (fun r => padOf r.1) ↔ p ∈ (configPads u.mode).getD []

theorem covered_of_checkCoverage (h : u.checkCoverage = .ok ⟨⟩) : Covered u := by
  unfold SlaveUnit.checkCoverage at h
  cases hpads : configPads u.mode with
  | none =>
      rw [hpads] at h
      dsimp only at h
      split at h
      next => cases h
      next hany =>
        have hroles : u.roles = [] := not_not.mp hany
        refine ⟨?_, fun p => ?_⟩
        · rw [hroles]
          exact List.nodup_nil
        · rw [hroles, hpads]
          exact Iff.rfl
  | some pads =>
      rw [hpads] at h
      obtain ⟨seen, hlabels, hall⟩ := Fallible.bind_eq_ok.mp h
      obtain ⟨hseen, hnodup, hwant⟩ := checkLabels_ok hlabels List.nodup_nil
      rw [List.append_nil, List.map_map] at hseen
      have hnone : pads.find? (fun p => p ∉ seen) = none := by
        split at hall
        next => cases hall
        next hnone => exact hnone
      subst hseen
      refine ⟨List.nodup_reverse.mp hnodup, fun p => ?_⟩
      rw [hpads]
      constructor
      · intro hp
        obtain ⟨r, hr, rfl⟩ := List.mem_map.mp hp
        exact hwant r.1 (List.mem_map_of_mem hr)
      · intro hp
        have hfound := List.find?_eq_none.mp hnone p hp
        simpa using hfound

theorem checkLabels_fails (mode : UnitMode) (want seen labels : List Text) :
    Fallible.FailsWith UnitError.IsDslError (checkLabels mode want seen labels) := by
  induction labels generalizing seen with
  | nil => exact Fallible.failsWith_ok seen
  | cons label labels ih =>
      unfold checkLabels
      dsimp only
      split
      next => exact Fallible.failsWith_error.mpr trivial
      next =>
        split
        next => exact Fallible.failsWith_error.mpr trivial
        next =>
          split
          next => exact Fallible.failsWith_error.mpr trivial
          next =>
            split
            next => exact Fallible.failsWith_error.mpr trivial
            next => exact ih _

/-- What the gate does not let through it refuses by a `DSLError`. -/
theorem checkCoverage_fails (u : SlaveUnit) :
    Fallible.FailsWith UnitError.IsDslError u.checkCoverage := by
  unfold SlaveUnit.checkCoverage
  split
  next =>
    split
    next => exact Fallible.failsWith_error.mpr trivial
    next => exact Fallible.failsWith_ok _
  next =>
    refine Fallible.FailsWith.bind (checkLabels_fails u.mode _ [] _) fun seen _ => ?_
    split
    next => exact Fallible.failsWith_error.mpr trivial
    next => exact Fallible.failsWith_ok _

end Gate

/-! ## What the files encode -/

section Bytes

variable {pins : List Text} {aliases : List (Text × Text)} {unusable : Text → UnitError}
  {encode : Text → Text → Role → Except UnitError Nat} {roles : Roles} {bytes bytes' : List Nat}
  {r : Text × Role} {p : Text} {idx : Nat}

/-- The pad of a label, for the file. -/
def pinOf (aliases : List (Text × Text)) (label : Text) : Text :=
  (aliases.lookup label).getD label

theorem getElem_of_idxOf (h : pins.idxOf? p = some idx) : ∃ hlt : idx < pins.length,
    pins[idx] = p := by
  obtain ⟨hlt, heq, -⟩ := List.idxOf?_eq_some_iff.mp h
  exact ⟨hlt, heq⟩

theorem padTurn_ok (h : padTurn pins aliases unusable encode bytes r = .ok bytes') :
    ∃ idx code, pins.idxOf? (pinOf aliases r.1) = some idx ∧
      encode r.1 (pinOf aliases r.1) r.2 = .ok code ∧ bytes' = bytes.set idx code := by
  unfold padTurn at h
  dsimp only at h
  split at h
  next => cases h
  next idx hidx =>
    obtain ⟨code, hcode, hset⟩ := Fallible.bind_eq_ok.mp h
    exact ⟨idx, code, hidx, hcode, (Except.ok.inj hset).symm⟩

/-- The loop sets the bytes of the declared pads and no others. -/
theorem padLoop_ok (h : roles.foldlM (padTurn pins aliases unusable encode) bytes = .ok bytes')
    (hlength : bytes.length = pins.length)
    (hnodup : (roles.map fun r => pinOf aliases r.1).Nodup) :
    (∀ p idx, pins.idxOf? p = some idx → (∀ r ∈ roles, pinOf aliases r.1 ≠ p) →
      bytes'[idx]? = bytes[idx]?) ∧
    ∀ r ∈ roles, ∃ idx code, pins.idxOf? (pinOf aliases r.1) = some idx ∧
      encode r.1 (pinOf aliases r.1) r.2 = .ok code ∧ bytes'[idx]? = some code := by
  induction roles generalizing bytes with
  | nil =>
      obtain rfl := Except.ok.inj h
      exact ⟨fun _ _ _ _ => rfl, fun _ hr => (List.not_mem_nil hr).elim⟩
  | cons r roles ih =>
      obtain ⟨hnot, hnodup⟩ := List.nodup_cons.mp hnodup
      rw [List.foldlM_cons] at h
      obtain ⟨mid, hturn, hrest⟩ := Fallible.bind_eq_ok.mp h
      obtain ⟨idx, code, hidx, hcode, rfl⟩ := padTurn_ok hturn
      obtain ⟨hkept, hset⟩ := ih hrest (by rw [List.length_set, hlength]) hnodup
      refine ⟨fun p idx' hidx' hother => ?_, List.forall_mem_cons.mpr ⟨?_, hset⟩⟩
      · refine (hkept p idx' hidx' fun r hr => hother r (List.mem_cons_of_mem _ hr)).trans ?_
        refine List.getElem?_set_ne fun heq => hother r List.mem_cons_self ?_
        subst heq
        obtain ⟨_, hp⟩ := getElem_of_idxOf hidx
        obtain ⟨_, hp'⟩ := getElem_of_idxOf hidx'
        exact hp.symm.trans hp'
      · have hlater : ∀ r' ∈ roles, pinOf aliases r'.1 ≠ pinOf aliases r.1 :=
          fun r' hr' heq => hnot (List.mem_map.mpr ⟨r', hr', heq⟩)
        obtain ⟨hlt, -⟩ := getElem_of_idxOf hidx
        refine ⟨idx, code, hidx, hcode, (hkept _ idx hidx hlater).trans ?_⟩
        exact List.getElem?_set_self (hlength ▸ hlt)

theorem padBytes_ok (h : padBytes pins aliases unusable encode roles = .ok bytes)
    (hpads : ∀ r ∈ roles, pinOf aliases r.1 = padOf r.1)
    (hnodup : (roles.map fun r => padOf r.1).Nodup) (hr : r ∈ roles) :
    ∃ idx code, pins.idxOf? (padOf r.1) = some idx ∧ encode r.1 (padOf r.1) r.2 = .ok code ∧
      bytes[idx]? = some code := by
  have hsame : (roles.map fun r => pinOf aliases r.1) = roles.map fun r => padOf r.1 :=
    List.map_congr_left hpads
  have hset := (padLoop_ok h List.length_replicate (hsame ▸ hnodup)).2 r hr
  rwa [hpads r hr] at hset

/-- A file of a header and a byte for each pad. -/
theorem byteAt_of_padBytes (header : List Nat) {file : Option (List Nat)}
    (h : padBytes pins aliases unusable encode roles = .ok bytes)
    (hfile : some (header ++ bytes) = file) (hpads : ∀ r ∈ roles, pinOf aliases r.1 = padOf r.1)
    (hnodup : (roles.map fun r => padOf r.1).Nodup) (hr : r ∈ roles) :
    ByteAt file header.length pins encode r.1 r.2 := by
  obtain ⟨idx, code, hidx, hcode, hbyte⟩ := padBytes_ok h hpads hnodup hr
  refine ⟨_, idx, code, hfile.symm, hidx, hcode, ?_⟩
  rw [List.getElem?_append_right (Nat.le_add_right ..), Nat.add_sub_cancel_left]
  exact hbyte

end Bytes

section Bits

variable {roles : Roles} {m m' : GpmpMap} {ps : List (Text × Nat)} {p : Text × Nat}

theorem testBit_or_shiftLeft (n i j : Nat) (b : Bool) :
    (n ||| b.toNat <<< i).testBit j = (n.testBit j || (b && decide (i = j))) := by
  rw [Nat.testBit_or]
  congr 1
  cases b with
  | false =>
      rw [Bool.toNat_false, Nat.zero_shiftLeft, Nat.zero_testBit]
      rfl
  | true =>
      rw [Bool.toNat_true, Nat.one_shiftLeft, Nat.testBit_two_pow]
      rfl

/-- The bits of a pad that had none. -/
theorem bits_or_self {i : Nat} {b : GpmpBits} (h : m.bits i = {}) : (m.or i b).bits i = b := by
  have hdir : m.dir.testBit i = false := congrArg GpmpBits.dir h
  have hpullen : m.pullen.testBit i = false := congrArg GpmpBits.pullen h
  have hout : m.out.testBit i = false := congrArg GpmpBits.out h
  have hod : m.od.testBit i = false := congrArg GpmpBits.od h
  simp only [GpmpMap.bits, GpmpMap.or, testBit_or_shiftLeft, hdir, hpullen, hout, hod,
    Bool.false_or, decide_true, Bool.and_true]

theorem bits_or_ne {i j : Nat} {b : GpmpBits} (h : i ≠ j) : (m.or i b).bits j = m.bits j := by
  simp only [GpmpMap.bits, GpmpMap.or, testBit_or_shiftLeft, h, decide_false, Bool.and_false,
    Bool.or_false]

/-- The loop sets the bits of each pad once. -/
theorem gpmpLoop_ok (h : ps.foldlM (gpmpTurn roles) m = .ok m') (hnodup : (ps.map Prod.snd).Nodup)
    (hblank : ∀ p ∈ ps, m.bits p.2 = {}) :
    (∀ i, (∀ p ∈ ps, p.2 ≠ i) → m'.bits i = m.bits i) ∧
      ∀ p ∈ ps, ∃ role, roles.lookup p.1 = some role ∧ gpmpPin p.1 role = .ok (m'.bits p.2) := by
  induction ps generalizing m with
  | nil =>
      obtain rfl := Except.ok.inj h
      exact ⟨fun _ _ => rfl, fun _ hp => (List.not_mem_nil hp).elim⟩
  | cons p ps ih =>
      obtain ⟨hnot, hnodup⟩ := List.nodup_cons.mp hnodup
      rw [List.foldlM_cons] at h
      obtain ⟨mid, hturn, hrest⟩ := Fallible.bind_eq_ok.mp h
      have hlater : ∀ p' ∈ ps, p'.2 ≠ p.2 :=
        fun p' hp' heq => hnot (List.mem_map.mpr ⟨p', hp', heq⟩)
      unfold gpmpTurn at hturn
      split at hturn
      next => cases hturn
      next role hrole =>
        obtain ⟨bits, hbits, hmid⟩ := Fallible.bind_eq_ok.mp hturn
        obtain rfl := Except.ok.inj hmid
        obtain ⟨hkept, hset⟩ := ih hrest hnodup fun p' hp' =>
          (bits_or_ne (hlater p' hp').symm).trans (hblank p' (List.mem_cons_of_mem _ hp'))
        refine ⟨fun i hi => ?_, List.forall_mem_cons.mpr ⟨⟨role, hrole, ?_⟩, hset⟩⟩
        · refine (hkept i fun p' hp' => hi p' (List.mem_cons_of_mem _ hp')).trans ?_
          exact bits_or_ne (hi p List.mem_cons_self)
        · rw [hkept p.2 hlater, bits_or_self (hblank p List.mem_cons_self)]
          exact hbits

/-- A label that is stored once is found with its role. -/
theorem lookup_of_mem {r : Text × Role} (hnodup : (roles.map Prod.fst).Nodup) (hr : r ∈ roles) :
    roles.lookup r.1 = some r.2 := by
  induction roles with
  | nil => cases hr
  | cons r' roles ih =>
      obtain ⟨hnot, hnodup⟩ := List.nodup_cons.mp hnodup
      rcases List.mem_cons.mp hr with rfl | hr
      · exact List.lookup_cons_self
      · have hne : r.1 ≠ r'.1 := fun heq => hnot (heq ▸ List.mem_map_of_mem hr)
        rw [List.lookup_cons, beq_eq_false_iff_ne.mpr hne]
        exact ih hnodup hr

end Bits

section Files

variable {py : PyText} {ilcf : SlaveUnit → Except UnitError (Option Text)} {u : SlaveUnit}
  {f : Files} {r : Text × Role} {label : Text}

theorem lookup_filter_ne {l : List (Text × Text)} {k a : Text} (h : a ≠ k) :
    (l.filter fun p => p.1 ≠ k).lookup a = l.lookup a := by
  induction l with
  | nil => rfl
  | cons p l ih =>
      by_cases hp : p.1 = k
      · rw [List.filter_cons_of_neg (by simpa using hp), ih, List.lookup_cons,
          beq_eq_false_iff_ne.mpr (hp ▸ h)]
      · rw [List.filter_cons_of_pos (by simpa using hp), List.lookup_cons, List.lookup_cons, ih]

/-- The alias that the servo table lacks stands for a pad that the mode lacks. -/
theorem servo_pinOf (h : padOf label ∈ bankPins) : pinOf servoPinAlias label = padOf label := by
  have hne : label ≠ pad "A6" := by
    rintro rfl
    revert h
    decide +kernel
  unfold pinOf padOf
  rw [servoPinAlias, lookup_filter_ne hne]

theorem Covered.labels_nodup (h : Covered u) : (u.roles.map Prod.fst).Nodup := by
  refine List.Nodup.of_map padOf ?_
  rw [List.map_map]
  exact h.nodup

theorem Covered.pad_mem (h : Covered u) (hr : r ∈ u.roles) :
    padOf r.1 ∈ (configPads u.mode).getD [] :=
  (h.mem_iff _).mp (List.mem_map.mpr ⟨r, hr, rfl⟩)

theorem gpmp_encodes {file : Option (List Nat)} (hmode : u.mode = .gpio) (h : Covered u)
    (hfile : u.gpmp = .ok file) (hr : r ∈ u.roles) :
    ∃ (m : GpmpMap) (int i : Nat), file = some [2, m.dir, m.pullen, m.out, m.od, int] ∧
      bankPins[i]? = some r.1 ∧ gpmpPin r.1 r.2 = .ok (m.bits i) := by
  unfold SlaveUnit.gpmp at hfile
  rw [if_neg (not_not.mpr hmode)] at hfile
  split at hfile
  next => cases hfile
  next hall =>
    obtain ⟨m, hm, hfile⟩ := Fallible.bind_eq_ok.mp hfile
    have hmem : r.1 ∈ bankPins := by simpa using List.find?_eq_none.mp hall r hr
    obtain ⟨i, hi⟩ := List.mem_iff_getElem?.mp hmem
    obtain ⟨-, hset⟩ := gpmpLoop_ok hm (by decide +kernel) fun p _ => by
      simp only [GpmpMap.bits, Nat.zero_testBit]
    obtain ⟨role, hrole, hbits⟩ := hset (r.1, i) (List.mem_zipIdx_iff_getElem?.mpr hi)
    obtain rfl := Option.some_inj.mp ((lookup_of_mem h.labels_nodup hr).symm.trans hrole)
    exact ⟨m, _, i, (Except.ok.inj hfile).symm, hi, hbits⟩

/-- Behind the gate the files hold the roles that are stored. -/
theorem files_encode (h : u.files py ilcf = .ok f) :
    Covered u ∧ ∀ r ∈ u.roles, f.Encodes py u.mode r.1 r.2 := by
  obtain ⟨⟨⟩, hgate, h⟩ := Fallible.bind_eq_ok.mp h
  obtain ⟨gpmp, hgpmp, h⟩ := Fallible.bind_eq_ok.mp h
  obtain ⟨mxmp, hmxmp, h⟩ := Fallible.bind_eq_ok.mp h
  obtain ⟨cntr, hcntr, h⟩ := Fallible.bind_eq_ok.mp h
  obtain ⟨srvo, hsrvo, h⟩ := Fallible.bind_eq_ok.mp h
  obtain ⟨il, -, h⟩ := Fallible.bind_eq_ok.mp h
  obtain rfl := Except.ok.inj h
  have hcovered := covered_of_checkCoverage hgate
  refine ⟨hcovered, fun r hr => ?_⟩
  unfold Files.Encodes
  split
  next => trivial
  next => trivial
  next hmode => exact gpmp_encodes hmode hcovered hgpmp hr
  next hmode =>
    unfold SlaveUnit.mxmp at hmxmp
    rw [if_neg (not_not.mpr hmode)] at hmxmp
    obtain ⟨bytes, hbytes, hfile⟩ := Fallible.bind_eq_ok.mp hmxmp
    exact byteAt_of_padBytes [1] hbytes (Except.ok.inj hfile) (fun _ _ => rfl) hcovered.nodup hr
  next hmode =>
    have hpads : ∀ r ∈ u.roles, pinOf servoPinAlias r.1 = padOf r.1 := by
      intro r hr
      have hmem := hcovered.pad_mem hr
      rw [hmode] at hmem
      exact servo_pinOf hmem
    unfold SlaveUnit.srvo at hsrvo
    rw [if_neg (not_not.mpr hmode)] at hsrvo
    obtain ⟨bytes, hbytes, hfile⟩ := Fallible.bind_eq_ok.mp hsrvo
    exact byteAt_of_padBytes [1] hbytes (Except.ok.inj hfile) hpads hcovered.nodup hr
  next hmode =>
    unfold SlaveUnit.cntr at hcntr
    rw [if_neg (not_not.mpr hmode)] at hcntr
    obtain ⟨bytes, hbytes, hfile⟩ := Fallible.bind_eq_ok.mp hcntr
    exact byteAt_of_padBytes [1, u.cntrRate % 256, u.cntrRate / 256 % 256] hbytes
      (Except.ok.inj hfile) (fun _ _ => rfl) hcovered.nodup hr

end Files

/-- The roles of the declarations, pad by pad. -/
theorem declared_roles {py : PyText} {calls : List (List (Text × Text))} {u : SlaveUnit}
    (hempty : u.roles = []) (h : ((declarations calls).map fun d => py.upper d.1).Nodup) :
    (u.declare py calls).roles = (declarations calls).map (fun d => (py.upper d.1, d.2)) ∧
      (u.declare py calls).roles.map (fun r => padOf r.1) = declaredPads py calls := by
  have hroles : (u.declare py calls).roles =
      (declarations calls).map (fun d => (py.upper d.1, d.2)) := by
    rw [declare_eq, hempty, store_distinct h fun _ _ _ hr => (List.not_mem_nil hr).elim]
    rfl
  rw [hroles]
  exact ⟨rfl, List.map_map⟩

/-- When `files` succeeds, every pad of the mode has been declared once, no pad twice, and the
files hold the roles of the declarations, if and only if no two declarations have the same
label in upper case. With labels that differ so, a pad declared twice is an error. -/
theorem gated_iff (py : PyText) (ilcf : SlaveUnit → Except UnitError (Option Text))
    (addr : Nat) (mode : UnitMode) (il : Option IlDef) (cntrRate : Nat)
    (calls : List (List (Text × Text))) :
    let u := SlaveUnit.declare { addr, mode, il, cntrRate } py calls
    let distinct := ((declarations calls).map fun d => py.upper d.1).Nodup
    (∀ f, u.files py ilcf = .ok f → (Gated py mode calls f ↔ distinct)) ∧
      (distinct → ∀ p, 1 < (declaredPads py calls).count p →
        ∃ e, u.files py ilcf = .error e ∧ e.IsDslError) := by
  intro u distinct
  have hmode : u.mode = mode := congrArg SlaveUnit.mode (declare_eq _ calls)
  refine ⟨fun f hfiles => ⟨fun h => ?_, fun hdistinct => ?_⟩, fun hdistinct p hp => ?_⟩
  · have hpads : (declaredPads py calls).Nodup := List.nodup_iff_count_le_one.mpr h.twice
    refine List.Nodup.of_map padOf ?_
    rwa [List.map_map]
  · obtain ⟨hroles, hpads⟩ := declared_roles (u := { addr, mode, il, cntrRate }) rfl hdistinct
    obtain ⟨hcovered, hencoded⟩ := files_encode hfiles
    have hnodup : (declaredPads py calls).Nodup := hpads ▸ hcovered.nodup
    rw [hmode] at hencoded
    refine ⟨fun p hp => ?_, List.nodup_iff_count_le_one.mp hnodup, fun d hd => ?_⟩
    · refine List.count_eq_one_of_mem hnodup (hpads ▸ (hcovered.mem_iff p).mpr ?_)
      rwa [hmode]
    · refine hencoded (py.upper d.1, d.2) ?_
      rw [hroles]
      exact List.mem_map.mpr ⟨d, hd, rfl⟩
  · obtain ⟨-, hpads⟩ := declared_roles (u := { addr, mode, il, cntrRate }) rfl hdistinct
    cases hgate : u.checkCoverage with
    | ok =>
        have hnodup : (declaredPads py calls).Nodup :=
          hpads ▸ (covered_of_checkCoverage hgate).nodup
        have hone := List.nodup_iff_count_le_one.mp hnodup p
        omega
    | error e =>
        refine ⟨e, ?_, checkCoverage_fails u e hgate⟩
        unfold SlaveUnit.files
        rw [hgate]
        rfl

/-! ## Spellings -/

/-- Letters of a pad are ASCII. -/
def asciiPy : PyText where
  upper := upper
  int := fun _ => none

/-- Every pad of a GPIO unit, D8 in lower case. -/
def eightPads : List (Text × Text) :=
  [("D0", "safe"), ("D1", "safe"), ("D2", "in:up"), ("D3", "out:1"), ("D7", "oc:up"),
    ("d8", "in"), ("D9", "safe"), ("D10", "safe")].map fun (label, spec) =>
      (label.toList, spec.toList)

theorem gated_iff_eight :
    ∃ f, (SlaveUnit.declare { addr := 0x20, mode := .gpio } asciiPy [eightPads]).files asciiPy
        (fun _ => .ok none) = .ok f ∧ Gated asciiPy .gpio [eightPads] f := by
  obtain ⟨f, hfiles, -⟩ := Fallible.exists_of_succeedsWith (p := fun _ => true)
    (x := (SlaveUnit.declare { addr := 0x20, mode := .gpio } asciiPy [eightPads]).files asciiPy
      (fun _ => .ok none)) (by decide +kernel)
  have hiff := (gated_iff asciiPy (fun _ => .ok none) 0x20 .gpio none 1000 [eightPads]).1 f hfiles
  exact ⟨f, hfiles, hiff.mpr (by decide +kernel)⟩

/-- D8 is declared in two calls, as an input and as an output, and the files are made. -/
theorem not_gated :
    ¬ ∀ (py : PyText) (ilcf : SlaveUnit → Except UnitError (Option Text)) (addr : Nat)
      (mode : UnitMode) (il : Option IlDef) (cntrRate : Nat)
      (calls : List (List (Text × Text))) (f : Files),
      (SlaveUnit.declare { addr, mode, il, cntrRate } py calls).files py ilcf = .ok f →
      Gated py mode calls f := by
  intro h
  obtain ⟨f, hfiles, -⟩ := Fallible.exists_of_succeedsWith (p := fun _ => true)
    (x := (SlaveUnit.declare { addr := 0x20, mode := .gpio } asciiPy
      [eightPads, [("D8".toList, "out:1".toList)]]).files asciiPy (fun _ => .ok none))
    (by decide +kernel)
  have hgated := h asciiPy (fun _ => .ok none) 0x20 .gpio none 1000 _ f hfiles
  have htwice := hgated.twice (pad "D8")
  revert htwice
  decide +kernel

end SlowBus.Dsl
