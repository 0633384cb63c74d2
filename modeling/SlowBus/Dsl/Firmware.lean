import SlowBus.Interlock.Conjunction
import SlowBus.Interlock.Elaborate
import SlowBus.Dsl.Coverage
import SlowBus.Dsl.Operands
import SlowBus.Modes.Gpio

/-!
# From an expression to the pads

The interlock of a GPIO unit goes a long way: an expression of the pin language is compiled to
groups, printed, stored in a file, parsed by the chip, armed, and evaluated at every tick.
The chip trips when the expression is false of the levels of the pads, and then drives the
outputs to the opposite of the levels that were asked for.
-/

namespace SlowBus.Dsl

open Fallible
open Interlock (CfgGroup GroupCfg Input Output PinDecl Declares isIdent isKnownModifier
  resolveGroup joined decimal)
open Modes (samd21)

/-! ## The pads of the bank -/

/-- The identifier of the pad that a label names. -/
def padPhys (label : Text) : Nat := ((samd21.pinLookup label).map (·.gpio)).getD 0

theorem bankPins_lookup {p : Text} (hp : p ∈ bankPins) :
    ∃ bp, samd21.pinLookup p = some bp ∧ bp.gpio = padPhys p := by
  have hall : bankPins.all fun p => (samd21.pinLookup p).isSome := by decide +kernel
  obtain ⟨bp, hbp⟩ := Option.isSome_iff_exists.mp (List.all_eq_true.mp hall p hp)
  exact ⟨bp, hbp, by rw [padPhys, hbp]; rfl⟩

theorem bankPins_words : ∀ p ∈ bankPins, isIdent p = true ∧ Interlock.peek p ≠ '_' := by
  decide +kernel

theorem padPhys_inj {p q : Text} (hp : p ∈ bankPins) (hq : q ∈ bankPins)
    (h : padPhys p = padPhys q) : p = q := by
  have hall : (bankPins.map padPhys).Nodup := by decide +kernel
  exact List.inj_on_of_nodup_map hall hp hq h

theorem nodup_padPhys {l : List Text} (hl : l ⊆ bankPins) (hnodup : l.Nodup) :
    (l.map padPhys).Nodup :=
  hnodup.map_on fun _ hp _ hq => padPhys_inj (hl hp) (hl hq)

/-! ## Pins in print -/

/-- The words after the label of a GPIO pin, and the settings that the chip reads in them. -/
def gpioSpecs : List (List Text × GroupCfg) :=
  [(["in".toList], { mode := .input }), (["in".toList, "up".toList], { mode := .inputPullUp }),
    (["in".toList, "down".toList], { mode := .inputPullDown }),
    (["out".toList], { mode := .output }), (["oc".toList], { mode := .output, openDrain := 1 }),
    (["oc".toList, "up".toList], { mode := .output, openDrain := 2 })]

theorem gpioSpecs_resolve : ∀ s ∈ gpioSpecs, resolveGroup s.1 = .ok s.2 := by decide +kernel

theorem gpioSpecs_words : ∀ s ∈ gpioSpecs, s.1 ≠ [] ∧ s.1.length ≤ 4 ∧
    (∀ m ∈ s.1, isIdent m = true) ∧ ∀ m ∈ s.1.tail, isKnownModifier m = true := by
  decide +kernel

theorem gpioSpecs_plain : ∀ s ∈ gpioSpecs, s.2.hyst = 0 ∧ s.2.isAdc = false := by decide +kernel

theorem text_group (pin : Text) (mods : List Text) :
    (⟨[pin], mods⟩ : CfgGroup).text = pinToken pin (joined ',' mods) := by
  rw [CfgGroup.text, Interlock.joined_cons, List.flatMap_nil, List.append_nil]
  rfl

section Tokens

variable {u : SlaveUnit} {py : PyText} {pin t : Text} {role : Role}

/-- A GPIO unit has no debounce, so an input has at most a pull. -/
theorem inputMods_gpio (hmode : u.mode = .gpio) {mods : List Text} {r : Pull × Option Nat}
    (h : u.inputMods py pin mods = .ok r) : r.2 = none := by
  refine foldlM_invariant (P := fun r : Pull × Option Nat => r.2 = none) ?_ rfl h
  intro r m r' hr hstep
  dsimp only at hstep
  split at hstep
  next =>
    cases hstep
    exact hr
  next =>
    split at hstep
    next =>
      obtain ⟨depth, hdepth, -⟩ := bind_eq_ok.mp hstep
      rw [SlaveUnit.debounceOf, if_pos (by simp [hmode])] at hdepth
      cases hdepth
    next => cases hstep

/-- The token of a GPIO pin is a group that the chip reads as the role. -/
theorem cfgToken_gpio (hmode : u.mode = .gpio) (hrole : u.roles.lookup pin = some role)
    (hbase : role.base ≠ .adc) (h : u.cfgToken py pin = .ok t) :
    ∃ s ∈ gpioSpecs, t = (⟨[pin], s.1⟩ : CfgGroup).text ∧
      s.2.isInput = decide (role.base = .input) ∧
      role.base ∈ [RoleBase.input, .out, .oc] := by
  have hspec : ∀ s ∈ gpioSpecs, ∀ spec : Text, spec = joined ',' s.1 →
      s.2.isInput = decide (role.base = .input) → role.base ∈ [RoleBase.input, .out, .oc] →
      ∃ s ∈ gpioSpecs, pinToken pin spec = (⟨[pin], s.1⟩ : CfgGroup).text ∧
        s.2.isInput = decide (role.base = .input) ∧ role.base ∈ [RoleBase.input, .out, .oc] := by
    intro s hs spec hspec hin hbases
    exact ⟨s, hs, by rw [text_group, hspec], hin, hbases⟩
  unfold SlaveUnit.cfgToken at h
  rw [hrole] at h
  dsimp only at h
  split at h
  -- one case for each base of a role
  next heq => exact absurd heq hbase
  next heq =>
    obtain ⟨⟨pull, deb⟩, hmods, h⟩ := bind_eq_ok.mp h
    obtain rfl : deb = none := inputMods_gpio hmode hmods
    cases h
    rw [heq] at hspec ⊢
    cases pull with
    | none => exact hspec gpioSpecs[0] (by decide +kernel) _ (by decide +kernel) rfl (by decide)
    | up => exact hspec gpioSpecs[1] (by decide +kernel) _ (by decide +kernel) rfl (by decide)
    | down => exact hspec gpioSpecs[2] (by decide +kernel) _ (by decide +kernel) rfl (by decide)
  next heq =>
    cases h
    rw [heq] at hspec ⊢
    exact hspec gpioSpecs[3] (by decide +kernel) _ (by decide +kernel) rfl (by decide)
  next heq =>
    unfold SlaveUnit.outCfgToken at h
    rw [hrole] at h
    dsimp only [Option.getD_some] at h
    rw [if_pos heq] at h
    rw [heq] at hspec ⊢
    split at h
    next =>
      cases h
      exact hspec gpioSpecs[5] (by decide +kernel) _ (by decide +kernel) rfl (by decide)
    next =>
      split at h
      next => cases h
      next =>
        cases h
        exact hspec gpioSpecs[4] (by decide +kernel) _ (by decide +kernel) rfl (by decide)
  next => cases h

end Tokens

/-! ## The script of a unit -/

def Op.compare : Op → Interlock.CompareOp
  | .gt => .gt
  | .lt => .lt
  | .ge => .ge
  | .le => .le
  | .eq => .eq
  | .ne => .ne

/-- The comparison as the chip reads it. -/
def Clause.read (c : Clause) : Interlock.Clause := ⟨c.operand, c.op.compare, c.thr⟩

/-- The levels while the condition does not hold. -/
def opposite (drive : List (Text × Nat)) : List (Text × Nat) := drive.map fun d => (d.1, 1 - d.2)

/-- The sections after the pins. -/
def watchParts (groups : List (List Clause)) (drive : List (Text × Nat)) : List Interlock.Part :=
  .watch (groups.map fun g => g.map Clause.read) ::
    if drive = [] then [] else [.outOk drive, .outErr (opposite drive)]

def ilScript (name : Text) (cfg : List CfgGroup) (groups : List (List Clause))
    (drive : List (Text × Nat)) : Interlock.Script :=
  .of name cfg (groups.map fun g => g.map Clause.read) drive (opposite drive)

section Script

variable {groups : List (List Clause)} {drive : List (Text × Nat)}

theorem clauseText_eq (c : Clause) : clauseText c = c.read.text := by
  obtain ⟨operand, op, thr⟩ := c
  have hword : op.word = op.compare.word := by cases op <;> rfl
  have heq : op = .eq ↔ op.compare = .eq := by cases op <;> decide
  unfold clauseText Interlock.Clause.text Clause.read
  dsimp only
  rw [hword]
  simp only [heq]

theorem watchText_eq (groups : List (List Clause)) :
    watchText groups = (Interlock.Part.watch (groups.map fun g => g.map Clause.read)).body := by
  unfold watchText Interlock.Part.body
  dsimp only
  rw [List.map_map]
  congr 1
  apply List.map_congr_left
  intro g _
  show joined ',' (g.map clauseText) = joined ',' ((g.map Clause.read).map Interlock.Clause.text)
  rw [List.map_map]
  exact congrArg _ (List.map_congr_left fun c _ => clauseText_eq c)

theorem driveTexts_ok {ok err : Text} (h : driveTexts drive = .ok (ok, err)) :
    (∀ d ∈ drive, d.2 ≤ 1) ∧ ok = (Interlock.Part.outOk drive).body ∧
      err = (Interlock.Part.outErr (opposite drive)).body := by
  have hall : ∀ levels : List (Text × Text), drive.mapM (fun d =>
      if d.2 ≠ 0 ∧ d.2 ≠ 1 then .error (.driveValue d.1)
      else .ok (d.1 ++ ':' :: decimal d.2, d.1 ++ ':' :: decimal (1 - d.2))) =
        (.ok levels : Except IlcfError _) →
      (∀ d ∈ drive, d.2 ≤ 1) ∧ levels = drive.map fun d =>
        (Interlock.levelText d, Interlock.levelText (d.1, 1 - d.2)) := by
    intro levels hlevels
    clear h
    induction mapM_eq_ok.mp hlevels with
    | nil => exact ⟨nofun, rfl⟩
    | @cons d pair drive levels hd hrest ih =>
        obtain ⟨hbits, rfl⟩ := ih (mapM_eq_ok.mpr hrest)
        split at hd
        next => cases hd
        next hbit =>
          cases hd
          exact ⟨List.forall_mem_cons.mpr ⟨by omega, hbits⟩, rfl⟩
  obtain ⟨levels, hlevels, h⟩ := bind_eq_ok.mp h
  cases h
  obtain ⟨hbits, rfl⟩ := hall levels hlevels
  refine ⟨hbits, ?_, ?_⟩
  · rw [List.map_map]
    rfl
  · unfold Interlock.Part.body opposite
    dsimp only
    rw [List.map_map, List.map_map]
    rfl

theorem sealText_ok {name text : Text} {sections : List (Text × Text)}
    (h : sealText name sections = .ok text) :
    text = name ++ sections.flatMap fun s => sectionText s.1 s.2 := by
  unfold sealText at h
  dsimp only at h
  split at h
  next => cases h
  next =>
    cases h
    rfl

/-- Operands are collected once each. -/
theorem operandsOf_spec (groups : List (List Clause)) :
    (operandsOf groups).Nodup ∧
      ∀ p, p ∈ operandsOf groups ↔ ∃ g ∈ groups, ∃ c ∈ g, c.operand = p := by
  -- generalised over the operands seen so far
  have hfold : ∀ (cs : List Clause) (seen : List Text), seen.Nodup →
      (cs.foldl (fun seen c => if seen.contains c.operand then seen else seen ++ [c.operand])
        seen).Nodup ∧
      ∀ p, p ∈ cs.foldl (fun seen c => if seen.contains c.operand then seen
        else seen ++ [c.operand]) seen ↔ p ∈ seen ∨ ∃ c ∈ cs, c.operand = p := by
    intro cs
    induction cs with
    | nil => exact fun seen hseen => ⟨hseen, fun p => by simp⟩
    | cons c cs ih =>
        intro seen hseen
        rw [List.foldl_cons]
        split
        next hcontains =>
          have hmem : c.operand ∈ seen := List.contains_iff_mem.mp hcontains
          obtain ⟨hnodup, hiff⟩ := ih seen hseen
          refine ⟨hnodup, fun p => (hiff p).trans ?_⟩
          constructor
          · rintro (hp | ⟨c', hc', rfl⟩)
            · exact .inl hp
            · exact .inr ⟨c', List.mem_cons_of_mem _ hc', rfl⟩
          · rintro (hp | ⟨c', hc', rfl⟩)
            · exact .inl hp
            · rcases List.mem_cons.mp hc' with rfl | hc'
              · exact .inl hmem
              · exact .inr ⟨c', hc', rfl⟩
        next hcontains =>
          have hnot : c.operand ∉ seen := fun hmem => hcontains (List.contains_iff_mem.mpr hmem)
          obtain ⟨hnodup, hiff⟩ := ih (seen ++ [c.operand]) (by
            rw [List.nodup_append]
            refine ⟨hseen, List.nodup_singleton _, fun a ha b hb heq => hnot ?_⟩
            rw [← List.mem_singleton.mp hb, ← heq]
            exact ha)
          refine ⟨hnodup, fun p => (hiff p).trans ?_⟩
          simp [or_assoc, eq_comm]
  obtain ⟨hnodup, hiff⟩ := hfold groups.flatten [] List.nodup_nil
  refine ⟨hnodup, fun p => (hiff p).trans ?_⟩
  simp only [List.not_mem_nil, false_or, List.mem_flatten]
  constructor
  · rintro ⟨c, ⟨g, hg, hc⟩, rfl⟩
    exact ⟨g, hg, c, hc, rfl⟩
  · rintro ⟨g, hg, c, hc, rfl⟩
    exact ⟨c, ⟨g, hg, hc⟩, rfl⟩

/-- What the checks on the groups leave. -/
structure Checked (u : SlaveUnit) (groups : List (List Clause)) (drive : List (Text × Nat)) :
    Prop where
  inputs : ∀ p ∈ operandsOf groups, ∃ role, u.roles.lookup p = some role ∧
    role.base ≠ .out ∧ role.base ≠ .oc
  inputs_le : (operandsOf groups).length ≤ 4
  clauses_le : clauseCount groups ≤ 8
  outputs_le : drive.length ≤ 2
  outputs : ∀ d ∈ drive, ∃ role, u.roles.lookup d.1 = some role ∧
    (role.base = .out ∨ role.base = .oc)

theorem checkGroups_ok {u : SlaveUnit} {il : IlDef} (h : u.checkGroups il groups = .ok ⟨⟩) :
    Checked u groups il.drive := by
  unfold SlaveUnit.checkGroups at h
  dsimp only at h
  split at h
  next => cases h
  next hinputs =>
    split at h
    next => cases h
    next hroom =>
      split at h
      next => cases h
      next hclauses =>
        split at h
        next => cases h
        next houts =>
          split at h
          next => cases h
          next houtputs =>
            refine ⟨fun p hp => ?_, by omega, by omega, by omega, fun d hd => ?_⟩
            · have hp := List.find?_eq_none.mp hinputs p hp
              cases hrole : u.roles.lookup p with
              | none => simp [hrole] at hp
              | some role => exact ⟨role, rfl, by simpa [hrole] using hp⟩
            · have hd := List.find?_eq_none.mp houtputs d hd
              cases hrole : u.roles.lookup d.1 with
              | none => simp [hrole] at hd
              | some role => exact ⟨role, rfl, by simpa [hrole, ← or_iff_not_imp_left] using hd⟩

theorem text_watch (groups : List (List Interlock.Clause)) :
    (Interlock.Part.watch groups).text =
      sectionText "watch".toList (Interlock.Part.watch groups).body := by
  unfold Interlock.Part.text Interlock.Part.keyword
  rfl

theorem text_outOk (levels : List (Text × Nat)) :
    (Interlock.Part.outOk levels).text =
      sectionText "out_ok".toList (Interlock.Part.outOk levels).body := by
  unfold Interlock.Part.text Interlock.Part.keyword
  rfl

theorem text_outErr (levels : List (Text × Nat)) :
    (Interlock.Part.outErr levels).text =
      sectionText "out_err".toList (Interlock.Part.outErr levels).body := by
  unfold Interlock.Part.text Interlock.Part.keyword
  rfl

theorem text_cfg (groups : List CfgGroup) :
    (Interlock.Part.cfg groups).text =
      sectionText "cfg".toList (joined ',' (groups.map CfgGroup.text)) := by
  unfold Interlock.Part.text Interlock.Part.keyword
  rfl

/-- What makes the file of a GPIO unit with an interlock. -/
theorem ilcf_gpio {u : SlaveUnit} {l : IlcfLang} {il : IlDef} {cond : Text} {file : Option Text}
    (hmode : u.mode = .gpio) (hil : u.il = some il) (hcond : il.cond = some cond)
    (hne : cond ≠ []) (h : u.ilcf l = .ok file) :
    ∃ groups tokens, compileExpr ⟨l.py, false, u.roles, l.voltsToCount⟩ cond = .ok groups ∧
      Checked u groups il.drive ∧ (∀ d ∈ il.drive, d.2 ≤ 1) ∧
      List.Forall₂ (fun p t => u.cfgToken l.text p = .ok t)
        (operandsOf groups ++ (il.drive.map Prod.fst).filter fun p => p ∉ operandsOf groups)
        tokens ∧
      file = some (il.name ++ (sectionText "cfg".toList (joined ',' tokens) ++
        (watchParts groups il.drive).flatMap Interlock.Part.text)) := by
  obtain ⟨name, _, drive⟩ := il
  dsimp only at hcond
  obtain rfl := hcond
  obtain ⟨c, cs, rfl⟩ := List.exists_cons_of_ne_nil hne
  unfold SlaveUnit.ilcf at h
  rw [hil, hmode, if_neg (by decide)] at h
  dsimp only [Option.getD_some] at h
  rw [if_neg (by decide)] at h
  split at h
  next => cases h
  next =>
    obtain ⟨groups, hgroups, hrun⟩ := bind_eq_ok.mp h
    obtain ⟨⟨⟩, hchecked, hrun⟩ := bind_eq_ok.mp hrun
    obtain ⟨pins, hpins, hrun⟩ := bind_eq_ok.mp hrun
    obtain ⟨tokens, htokens, hfile⟩ := bind_eq_ok.mp hrun
    rw [SlaveUnit.cfgPins, if_neg (by simp [hmode])] at hpins
    have hnot : (fun p => !(operandsOf groups).contains p) =
        fun p => decide (p ∉ operandsOf groups) := by
      funext p
      rw [Bool.eq_iff_iff, Bool.not_eq_true', decide_eq_true_iff, ← List.contains_iff_mem,
        Bool.not_eq_true]
    rw [← Except.ok.inj hpins, hnot] at htokens
    refine ⟨groups, tokens, mapError_eq_ok.mp hgroups, checkGroups_ok hchecked, ?_⟩
    -- without outputs the file ends behind the watches
    split at hfile
    next hdrive =>
      obtain ⟨text, htext, rfl⟩ := map_eq_ok.mp hfile
      obtain rfl : drive = [] := hdrive
      refine ⟨nofun, mapM_eq_ok.mp htokens, ?_⟩
      rw [sealText_ok htext, watchParts, if_pos rfl, watchText_eq]
      simp only [List.flatMap_cons, List.flatMap_nil, text_watch]
    next hdrive =>
      obtain ⟨⟨ok, err⟩, hlevels, hfile⟩ := bind_eq_ok.mp hfile
      obtain ⟨text, htext, rfl⟩ := map_eq_ok.mp hfile
      obtain ⟨hbits, rfl, rfl⟩ := driveTexts_ok hlevels
      refine ⟨hbits, mapM_eq_ok.mp htokens, ?_⟩
      rw [sealText_ok htext, watchParts, if_neg hdrive, watchText_eq]
      simp only [List.flatMap_append, List.flatMap_cons, List.flatMap_nil, text_watch, text_outOk,
        text_outErr, List.append_assoc, List.append_nil]

end Script

/-! ## The text is accepted -/

section Accepted

variable {u : SlaveUnit} {l : IlcfLang} {p t : Text} {groups : List (List Clause)}
  {drive : List (Text × Nat)}

/-- All pins with a role are pads of the bank, and none is converted. -/
def SlaveUnit.OnBank (u : SlaveUnit) : Prop :=
  ∀ p role, u.roles.lookup p = some role → p ∈ bankPins ∧ role.base ≠ .adc

/-- A watched pin is an input of the chip. -/
def InputGroup (u : SlaveUnit) (py : PyText) (p : Text) (x : CfgGroup × Input) : Prop :=
  u.cfgToken py p = .ok x.1.text ∧ x.1.Lexical ∧ Declares samd21 x.1 (.input x.2) ∧
    x.2.physId = padPhys p ∧ x.2.hyst = 0

/-- A driven pin is an output of the chip. -/
def OutputGroup (u : SlaveUnit) (py : PyText) (p : Text) (x : CfgGroup × Output) : Prop :=
  u.cfgToken py p = .ok x.1.text ∧ x.1.Lexical ∧ Declares samd21 x.1 (.output x.2) ∧
    x.2.physId = padPhys p

theorem lexical_group (hp : p ∈ bankPins) {s : List Text × GroupCfg} (hs : s ∈ gpioSpecs) :
    (⟨[p], s.1⟩ : CfgGroup).Lexical := by
  obtain ⟨hne, hle, hwords, hknown⟩ := gpioSpecs_words s hs
  refine ⟨List.cons_ne_nil _ _, (by decide : 1 ≤ 9), ?_, hne, hle, hwords, hknown⟩
  rintro _ (_ | ⟨_, ⟨⟩⟩)
  exact (bankPins_words p hp).1

theorem inputGroup_of_token (hmode : u.mode = .gpio) (hbank : u.OnBank) {role : Role}
    (hrole : u.roles.lookup p = some role) (hout : role.base ≠ .out ∧ role.base ≠ .oc)
    (ht : u.cfgToken l.text p = .ok t) : ∃ x, InputGroup u l.text p x := by
  obtain ⟨hp, hbase⟩ := hbank p role hrole
  obtain ⟨s, hs, rfl, hin, hbases⟩ := cfgToken_gpio hmode hrole hbase ht
  obtain ⟨bp, hlookup, hphys⟩ := bankPins_lookup hp
  have hinput : role.base = .input := by simpa [hout.1, hout.2] using hbases
  rw [hinput] at hin
  obtain ⟨hhyst, hadc⟩ := gpioSpecs_plain s hs
  refine ⟨(⟨[p], s.1⟩, s.2.inputAt bp.gpio), ht, lexical_group hp hs, ?_, hphys, ?_⟩
  · refine ⟨p, s.2, bp, rfl, gpioSpecs_resolve s hs, hlookup, ?_⟩
    rw [GroupCfg.declAt, if_pos (hin.trans (decide_eq_true rfl))]
  · show (if s.2.isAdc then s.2.hyst else 0) = 0
    rw [hadc]
    rfl

theorem outputGroup_of_token (hmode : u.mode = .gpio) (hbank : u.OnBank) {role : Role}
    (hrole : u.roles.lookup p = some role) (hout : role.base = .out ∨ role.base = .oc)
    (ht : u.cfgToken l.text p = .ok t) : ∃ x, OutputGroup u l.text p x := by
  obtain ⟨hp, hbase⟩ := hbank p role hrole
  obtain ⟨s, hs, rfl, hin, -⟩ := cfgToken_gpio hmode hrole hbase ht
  obtain ⟨bp, hlookup, hphys⟩ := bankPins_lookup hp
  have hnot : s.2.isInput = false := by
    rw [hin]
    rcases hout with heq | heq <;> rw [heq] <;> rfl
  refine ⟨(⟨[p], s.1⟩, { physId := bp.gpio, openDrain := s.2.openDrain }), ht,
    lexical_group hp hs, ⟨p, s.2, bp, rfl, gpioSpecs_resolve s hs, hlookup, ?_⟩, hphys⟩
  rw [GroupCfg.declAt, if_neg (by simp [hnot])]

theorem exists_forall₂ {α β : Type} {R : α → β → Prop} {l : List α} (h : ∀ a ∈ l, ∃ b, R a b) :
    ∃ bs, List.Forall₂ R l bs := by
  induction l with
  | nil => exact ⟨[], .nil⟩
  | cons a l ih =>
      obtain ⟨⟨b, hb⟩, hrest⟩ := List.forall_mem_cons.mp h
      obtain ⟨bs, hbs⟩ := ih hrest
      exact ⟨b :: bs, .cons hb hbs⟩

/-- The pins in print are groups that declare the watched pins and then the driven ones. -/
theorem exists_groups {tokens : List Text} (hmode : u.mode = .gpio) (hbank : u.OnBank)
    (hchecked : Checked u groups drive)
    (htokens : List.Forall₂ (fun p t => u.cfgToken l.text p = .ok t)
      (operandsOf groups ++ (drive.map Prod.fst).filter fun p => p ∉ operandsOf groups) tokens) :
    ∃ (xs : List (CfgGroup × Input)) (ys : List (CfgGroup × Output)),
      List.Forall₂ (InputGroup u l.text) (operandsOf groups) xs ∧
      List.Forall₂ (OutputGroup u l.text) (drive.map Prod.fst) ys ∧
      tokens = (xs.map Prod.fst ++ ys.map Prod.fst).map CfgGroup.text := by
  -- a role is an input or an output, so no driven pin is watched
  have hfilter : ((drive.map Prod.fst).filter fun p => p ∉ operandsOf groups) =
      drive.map Prod.fst := by
    apply List.filter_eq_self.mpr
    intro p hp
    obtain ⟨d, hd, rfl⟩ := List.mem_map.mp hp
    obtain ⟨role, hrole, hout⟩ := hchecked.outputs d hd
    apply decide_eq_true
    intro hin
    obtain ⟨role', hrole', hnot, hnot'⟩ := hchecked.inputs d.1 hin
    obtain rfl := Option.some_inj.mp (hrole.symm.trans hrole')
    exact hout.elim hnot hnot'
  rw [hfilter] at htokens
  have htoken : ∀ p ∈ operandsOf groups ++ drive.map Prod.fst, ∃ t, u.cfgToken l.text p = .ok t :=
    (Interlock.forall_mem_iff_of_forall₂ (Q := fun _ => True) htokens fun _ t ht =>
      iff_of_true ⟨t, ht⟩ trivial).mpr fun _ _ => trivial
  obtain ⟨xs, hxs⟩ := @exists_forall₂ _ _ (InputGroup u l.text) (operandsOf groups) fun p hp => by
    obtain ⟨role, hrole, hout⟩ := hchecked.inputs p hp
    obtain ⟨t, ht⟩ := htoken p (List.mem_append_left _ hp)
    exact inputGroup_of_token hmode hbank hrole hout ht
  obtain ⟨ys, hys⟩ := @exists_forall₂ _ _ (OutputGroup u l.text) (drive.map Prod.fst) fun p hp => by
    obtain ⟨d, hd, rfl⟩ := List.mem_map.mp hp
    obtain ⟨role, hrole, hout⟩ := hchecked.outputs d hd
    obtain ⟨t, ht⟩ := htoken d.1 (List.mem_append_right _ hp)
    exact outputGroup_of_token hmode hbank hrole hout ht
  refine ⟨xs, ys, hxs, hys, ?_⟩
  -- the tokens are those of the groups, for a pin has one token
  have hall : List.Forall₂ (fun p t => u.cfgToken l.text p = .ok t)
      (operandsOf groups ++ drive.map Prod.fst)
      ((xs.map Prod.fst ++ ys.map Prod.fst).map CfgGroup.text) := by
    rw [List.map_append, List.map_map, List.map_map]
    refine List.rel_append ?_ ?_
    · exact List.forall₂_map_right_iff.mpr (hxs.imp fun _ _ h => h.1)
    · exact List.forall₂_map_right_iff.mpr (hys.imp fun _ _ h => h.1)
  exact Except.ok.inj ((mapM_eq_ok.mpr htokens).symm.trans (mapM_eq_ok.mpr hall))

theorem operand_mem_bank (hbank : u.OnBank) (hchecked : Checked u groups drive) :
    operandsOf groups ++ drive.map Prod.fst ⊆ bankPins := by
  intro p hp
  rcases List.mem_append.mp hp with hp | hp
  · obtain ⟨role, hrole, -⟩ := hchecked.inputs p hp
    exact (hbank p role hrole).1
  · obtain ⟨d, hd, rfl⟩ := List.mem_map.mp hp
    obtain ⟨role, hrole, -⟩ := hchecked.outputs d hd
    exact (hbank d.1 role hrole).1

theorem nodup_operands (hchecked : Checked u groups drive)
    (hdrive : (drive.map Prod.fst).Nodup) :
    (operandsOf groups ++ drive.map Prod.fst).Nodup := by
  refine List.nodup_append.mpr ⟨(operandsOf_spec groups).1, hdrive, ?_⟩
  rintro p hp q hq rfl
  obtain ⟨d, hd, rfl⟩ := List.mem_map.mp hq
  obtain ⟨role, hrole, hnot, hnot'⟩ := hchecked.inputs d.1 hp
  obtain ⟨role', hrole', hout⟩ := hchecked.outputs d hd
  obtain rfl := Option.some_inj.mp (hrole.symm.trans hrole')
  exact hout.elim hnot hnot'

/-- The outputs have the levels that were asked for, and the opposite ones on an error. -/
theorem leveled_opposite {os : List Output}
    (h : List.Forall₂ (fun d (o : Output) => o.physId = padPhys d.1) drive os) :
    (Interlock.leveled os drive (opposite drive)).map
        (fun o => (o.physId, o.okValue, o.errValue)) =
      drive.map fun d => (padPhys d.1, d.2, 1 - d.2) := by
  induction h with
  | nil => rfl
  | @cons d o _ _ hd _ ih =>
      have hhead : (o.physId, d.2, 1 - d.2) = (padPhys d.1, d.2, 1 - d.2) := by rw [hd]
      exact congrArg₂ List.cons hhead ih

theorem thr_le (hbank : u.OnBank) (hproper : ∀ g ∈ groups, g ≠ [] ∧
    ∀ c ∈ g, Clause.Declared u.roles c) {g : List Clause} (hg : g ∈ groups) {c : Clause}
    (hc : c ∈ g) : c.operand ∈ bankPins ∧ c.thr ≤ 1 := by
  obtain ⟨role, hrole, hthr⟩ := (hproper g hg).2 c hc
  obtain ⟨hp, hbase⟩ := hbank c.operand role hrole
  exact ⟨hp, hthr hbase⟩

theorem operandsOf_ne_nil (hne : groups ≠ []) (hproper : ∀ g ∈ groups, g ≠ []) :
    operandsOf groups ≠ [] := by
  obtain ⟨g, hg⟩ := List.exists_mem_of_ne_nil groups hne
  obtain ⟨c, hc⟩ := List.exists_mem_of_ne_nil g (hproper g hg)
  exact List.ne_nil_of_mem (((operandsOf_spec groups).2 _).mpr ⟨g, hg, c, hc, rfl⟩)

theorem lexical_levels (hbank : u.OnBank) (hchecked : Checked u groups drive)
    {levels : List (Text × Nat)} (hlabels : levels.map Prod.fst = drive.map Prod.fst)
    (hbits : ∀ d ∈ levels, d.2 ≤ 1) : ∀ d ∈ levels, Interlock.Lexical d.1 d.2 := by
  intro d hd
  have hmem : d.1 ∈ drive.map Prod.fst := hlabels ▸ List.mem_map_of_mem hd
  have hp := operand_mem_bank hbank hchecked (List.mem_append_right _ hmem)
  have hbit := hbits d hd
  exact ⟨(bankPins_words d.1 hp).1, by omega⟩

theorem opposite_labels (drive : List (Text × Nat)) :
    (opposite drive).map Prod.fst = drive.map Prod.fst := by
  rw [opposite, List.map_map]
  rfl

theorem opposite_bits (drive : List (Text × Nat)) : ∀ d ∈ opposite drive, d.2 ≤ 1 := by
  intro d hd
  obtain ⟨d', -, rfl⟩ := List.mem_map.mp hd
  exact Nat.sub_le _ _

/-- The script of a unit can be printed. -/
theorem lexical_ilScript {name : Text} {xs : List (CfgGroup × Input)}
    {ys : List (CfgGroup × Output)} (hbank : u.OnBank) (hname : isIdent name = true)
    (hne : groups ≠ [])
    (hproper : ∀ g ∈ groups, g ≠ [] ∧ ∀ c ∈ g, Clause.Declared u.roles c)
    (hbits : ∀ d ∈ drive, d.2 ≤ 1) (hchecked : Checked u groups drive)
    (hxs : List.Forall₂ (InputGroup u l.text) (operandsOf groups) xs)
    (hys : List.Forall₂ (OutputGroup u l.text) (drive.map Prod.fst) ys) :
    (ilScript name (xs.map Prod.fst ++ ys.map Prod.fst) groups drive).Lexical := by
  have hcfg : xs.map Prod.fst ++ ys.map Prod.fst ≠ [] ∧
      ∀ g ∈ xs.map Prod.fst ++ ys.map Prod.fst, g.Lexical := by
    have hoperands := operandsOf_ne_nil hne fun g hg => (hproper g hg).1
    refine ⟨fun hnil => hoperands ?_, List.forall_mem_append.mpr ⟨?_, ?_⟩⟩
    · have hnil := List.map_eq_nil_iff.mp (List.append_eq_nil_iff.mp hnil).1
      rw [hnil] at hxs
      exact List.forall₂_nil_right_iff.mp hxs
    · exact List.forall_mem_map.mpr ((Interlock.forall_mem_iff_of_forall₂ (P := fun _ => True) hxs
        fun _ _ h => iff_of_true trivial h.2.1).mp fun _ _ => trivial)
    · exact List.forall_mem_map.mpr ((Interlock.forall_mem_iff_of_forall₂ (P := fun _ => True) hys
        fun _ _ h => iff_of_true trivial h.2.1).mp fun _ _ => trivial)
  refine ⟨hname, List.forall_mem_cons.mpr ⟨hcfg, List.forall_mem_cons.mpr ⟨⟨?_, ?_⟩, ?_⟩⟩⟩
  · simpa using hne
  · intro cs hcs
    obtain ⟨g, hg, rfl⟩ := List.mem_map.mp hcs
    refine ⟨by simpa using (hproper g hg).1, fun c' hc' => ?_⟩
    obtain ⟨c, hc, rfl⟩ := List.mem_map.mp hc'
    obtain ⟨hp, hthr⟩ := thr_le hbank hproper hg hc
    exact ⟨(bankPins_words _ hp).1, Nat.lt_of_le_of_lt hthr (by decide)⟩
  · split
    next => exact nofun
    next hdrive =>
      have hopposite : opposite drive ≠ [] := by simpa [opposite] using hdrive
      refine List.forall_mem_cons.mpr ⟨⟨hdrive, lexical_levels hbank hchecked rfl hbits⟩,
        List.forall_mem_singleton.mpr ⟨hopposite, ?_⟩⟩
      exact lexical_levels hbank hchecked (opposite_labels drive) (opposite_bits drive)

theorem forall₂_phys {ρ : Type} {ps : List Text} {zs : List (CfgGroup × ρ)} {phys : ρ → Nat}
    (h : List.Forall₂ (fun p z => phys z.2 = padPhys p) ps zs) :
    (zs.map Prod.snd).map phys = ps.map padPhys := by
  induction h with
  | nil => rfl
  | cons hz _ ih => exact congrArg₂ List.cons hz ih

/-- The levels are named after the outputs they are for. -/
theorem names_outputs (hbank : u.OnBank) (hchecked : Checked u groups drive)
    {levels : List (Text × Nat)} (hlabels : levels.map Prod.fst = drive.map Prod.fst)
    (hbits : ∀ d ∈ levels, d.2 ≤ 1) {os : List Output}
    (hos : os.map Output.physId = (levels.map Prod.fst).map padPhys) :
    List.Forall₂ (Interlock.Names samd21) levels os := by
  have hlookup : ∀ d ∈ levels, ∃ bp, samd21.pinLookup d.1 = some bp ∧ bp.gpio = padPhys d.1 :=
    fun d hd => by
      have hmem : d.1 ∈ drive.map Prod.fst := hlabels ▸ List.mem_map_of_mem hd
      exact bankPins_lookup (operand_mem_bank hbank hchecked (List.mem_append_right _ hmem))
  clear hlabels
  induction levels generalizing os with
  | nil =>
      obtain rfl := List.map_eq_nil_iff.mp hos
      exact .nil
  | cons d levels ih =>
      cases os with
      | nil => cases hos
      | cons o os =>
          obtain ⟨hphys, hos⟩ := List.cons.inj hos
          obtain ⟨hd, hbits⟩ := List.forall_mem_cons.mp hbits
          obtain ⟨⟨bp, hbp, hgpio⟩, hlookup⟩ := List.forall_mem_cons.mp hlookup
          exact .cons ⟨hd, bp, hbp, hgpio.trans hphys.symm⟩ (ih hbits hos hlookup)

theorem forall₂_of_map_eq {α β γ : Type} {f : α → γ} {g : β → γ} {l : List α} {l' : List β}
    (h : l.map f = l'.map g) : List.Forall₂ (fun a b => f a = g b) l l' := by
  rw [← List.forall₂_eq_eq_eq, List.forall₂_map_left_iff, List.forall₂_map_right_iff] at h
  exact h

/-- A watched pin is compared as it is. -/
theorem readable_operand {name : Text} {xs : List (CfgGroup × Input)} {os : List Output}
    {c : Interlock.Clause} (hbank : u.OnBank) (hchecked : Checked u groups drive)
    (hxs : List.Forall₂ (InputGroup u l.text) (operandsOf groups) xs)
    (hc : c.label ∈ operandsOf groups) :
    Interlock.Readable samd21 { name, inputs := xs.map Prod.snd, outputs := os } c := by
  have hp := operand_mem_bank hbank hchecked (List.mem_append_left _ hc)
  obtain ⟨bp, hlookup, hphys⟩ := bankPins_lookup hp
  have hinput : ∃ i ∈ xs.map Prod.snd, i.physId = bp.gpio := by
    have hmem : padPhys c.label ∈ (xs.map Prod.snd).map Input.physId := by
      rw [forall₂_phys (hxs.imp fun _ _ h => h.2.2.2.1)]
      exact List.mem_map_of_mem hc
    obtain ⟨i, hi, hiphys⟩ := List.mem_map.mp hmem
    exact ⟨i, hi, hiphys.trans hphys.symm⟩
  have hplain : ∀ i ∈ xs.map Prod.snd, i.hyst = 0 :=
    List.forall_mem_map.mpr ((Interlock.forall_mem_iff_of_forall₂ (P := fun _ => True) hxs
      fun _ _ h => iff_of_true trivial h.2.2.2.2).mp fun _ _ => trivial)
  obtain ⟨idx, i, hidx, hi, hhyst⟩ := @Interlock.exists_input
    { name, inputs := xs.map Prod.snd, outputs := os } bp.gpio hinput hplain
  exact ⟨(bankPins_words _ hp).2, bp, idx, i, hlookup, hidx, hi, hhyst⟩

/-- The pins in print declare the inputs and the outputs. -/
theorem declares_groups {ps qs : List Text} {xs : List (CfgGroup × Input)}
    {ys : List (CfgGroup × Output)} (hxs : List.Forall₂ (InputGroup u l.text) ps xs)
    (hys : List.Forall₂ (OutputGroup u l.text) qs ys) :
    List.Forall₂ (Declares samd21) (xs.map Prod.fst ++ ys.map Prod.fst)
      ((xs.map Prod.snd).map .input ++ (ys.map Prod.snd).map .output) := by
  apply List.rel_append
  · clear hys
    induction hxs with
    | nil => exact .nil
    | cons hx _ ih => exact .cons hx.2.2.1 ih
  · clear hxs
    induction hys with
    | nil => exact .nil
    | cons hy _ ih => exact .cons hy.2.2.1 ih

theorem length_le_clauseCount (h : ∀ g ∈ groups, g ≠ []) :
    groups.length ≤ clauseCount groups := by
  induction groups with
  | nil => exact Nat.zero_le _
  | cons g groups ih =>
      obtain ⟨hg, hgroups⟩ := List.forall_mem_cons.mp h
      have hpos := List.length_pos_of_ne_nil hg
      have hrest := ih hgroups
      rw [clauseCount, List.map_cons, List.sum_cons, List.length_cons, ← clauseCount]
      omega

/-- No output has the same level in both cases. -/
theorem levels_differ (hbits : ∀ d ∈ drive, d.2 ≤ 1) {os : List Output}
    (h : List.Forall₂ (fun d (o : Output) => o.physId = padPhys d.1) drive os) :
    ∀ o ∈ Interlock.leveled os drive (opposite drive), o.okValue ≠ o.errValue := by
  intro o ho
  have hmem : (o.physId, o.okValue, o.errValue) ∈
      drive.map fun d => (padPhys d.1, d.2, 1 - d.2) := by
    rw [← leveled_opposite h]
    exact List.mem_map_of_mem ho
  obtain ⟨d, hd, heq⟩ := List.mem_map.mp hmem
  have hbit := hbits d hd
  simp only [Prod.mk.injEq] at heq
  omega

/-- The checks on the script of a unit succeed. -/
theorem elaborate_ilScript {name : Text} {xs : List (CfgGroup × Input)}
    {ys : List (CfgGroup × Output)} (hbank : u.OnBank) (hlen : name.length < 16)
    (hproper : ∀ g ∈ groups, g ≠ [] ∧ ∀ c ∈ g, Clause.Declared u.roles c)
    (hbits : ∀ d ∈ drive, d.2 ≤ 1) (hchecked : Checked u groups drive)
    (hdrive : (drive.map Prod.fst).Nodup)
    (hxs : List.Forall₂ (InputGroup u l.text) (operandsOf groups) xs)
    (hys : List.Forall₂ (OutputGroup u l.text) (drive.map Prod.fst) ys) :
    ∃ inst, (ilScript name (xs.map Prod.fst ++ ys.map Prod.fst) groups drive).elaborate samd21
        false = .ok inst ∧ inst.inputs.length ≤ 4 ∧
      List.Forall₂ (Interlock.Denotes samd21 inst) inst.watches
        (Interlock.numbered 0 (groups.map fun g => g.map Clause.read)) ∧
      inst.outputs.map (fun o => (o.physId, o.okValue, o.errValue)) =
        drive.map fun d => (padPhys d.1, d.2, 1 - d.2) := by
  have hin : (xs.map Prod.snd).map Input.physId = (operandsOf groups).map padPhys :=
    forall₂_phys (hxs.imp fun _ _ h => h.2.2.2.1)
  have hout : (ys.map Prod.snd).map Output.physId = (drive.map Prod.fst).map padPhys :=
    forall₂_phys (hys.imp fun _ _ h => h.2.2.2)
  have hlevels : List.Forall₂ (fun d (o : Output) => o.physId = padPhys d.1) drive
      (ys.map Prod.snd) :=
    (forall₂_of_map_eq (hout.trans (List.map_map ..))).flip
  have hopposite : (ys.map Prod.snd).map Output.physId =
      ((opposite drive).map Prod.fst).map padPhys := by rwa [opposite_labels]
  -- an operand is one of the declared inputs
  have hread : ∀ cs ∈ groups.map fun g => g.map Clause.read, ∀ c ∈ cs,
      Interlock.Readable samd21
        { name, inputs := xs.map Prod.snd, outputs := ys.map Prod.snd } c := by
    intro cs hcs c hc
    obtain ⟨g, hg, rfl⟩ := List.mem_map.mp hcs
    obtain ⟨c', hc', rfl⟩ := List.mem_map.mp hc
    have hmem : c'.operand ∈ operandsOf groups :=
      ((operandsOf_spec groups).2 _).mpr ⟨g, hg, c', hc', rfl⟩
    exact readable_operand hbank hchecked hxs hmem
  obtain ⟨ws, helab, hden⟩ := @Interlock.elaborate_of samd21 name
    (xs.map Prod.fst ++ ys.map Prod.fst) (groups.map fun g => g.map Clause.read) drive
    (opposite drive) (xs.map Prod.snd) (ys.map Prod.snd) hlen (declares_groups hxs hys)
    (by
      rw [hin, hout, ← List.map_append]
      exact nodup_padPhys (operand_mem_bank hbank hchecked) (nodup_operands hchecked hdrive))
    (by
      rw [List.length_map, ← hxs.length_eq]
      exact hchecked.inputs_le.trans (by decide))
    (by
      rw [List.length_map, ← hys.length_eq, List.length_map]
      exact hchecked.outputs_le)
    hread
    (by
      rw [List.map_map]
      refine le_of_eq_of_le ?_ hchecked.clauses_le
      exact congrArg List.sum (List.map_congr_left fun g _ => List.length_map _))
    (by
      rw [List.length_map]
      have hcount := length_le_clauseCount fun g hg => (hproper g hg).1
      have hle := hchecked.clauses_le
      omega)
    (names_outputs hbank hchecked rfl hbits hout)
    (names_outputs hbank hchecked (opposite_labels drive) (opposite_bits drive) hopposite)
    (levels_differ hbits hlevels)
  refine ⟨_, helab, ?_, hden, leveled_opposite hlevels⟩
  rw [List.length_map, ← hxs.length_eq]
  exact hchecked.inputs_le

/-- What the chip makes of the file: the groups are its watches, and the driven pads its
outputs. -/
structure Loaded (groups : List (List Clause)) (drive : List (Text × Nat)) (inst : Interlock.Inst) :
    Prop where
  ne : groups ≠ []
  inhab : ∀ g ∈ groups, g ≠ []
  length_le : groups.length ≤ 8
  bank : ∀ g ∈ groups, ∀ c ∈ g, c.operand ∈ bankPins
  watches : List.Forall₂ (Interlock.Denotes samd21 inst) inst.watches
    (Interlock.numbered 0 (groups.map fun g => g.map Clause.read))
  bits : ∀ d ∈ drive, d.2 ≤ 1
  roles : ∀ d ∈ drive, d.1 ∈ bankPins
  outputs : inst.outputs.map (fun o => (o.physId, o.okValue, o.errValue)) =
    drive.map fun d => (padPhys d.1, d.2, 1 - d.2)

/-- The file of a GPIO unit is printed in ASCII, and the chip accepts it. -/
theorem ilcf_accepted {il : IlDef} {cond text : Text} (hmode : u.mode = .gpio)
    (hbank : u.OnBank) (hil : u.il = some il) (hcond : il.cond = some cond) (hne : cond ≠ [])
    (hname : isIdent il.name = true) (hlen : il.name.length < 16)
    (hdrive : (il.drive.map Prod.fst).Nodup) (h : u.ilcf l = .ok (some text)) :
    ∃ groups inst, compileExpr ⟨l.py, false, u.roles, l.voltsToCount⟩ cond = .ok groups ∧
      Interlock.Ascii text ∧ Interlock.ilParseImpl samd21 false text = .ok inst ∧
      inst.inputs.length ≤ 4 ∧ Loaded groups il.drive inst ∧ Checked u groups il.drive := by
  obtain ⟨groups, tokens, hgroups, hchecked, hbits, htokens, hfile⟩ :=
    ilcf_gpio hmode hil hcond hne h
  obtain ⟨xs, ys, hxs, hys, rfl⟩ := exists_groups hmode hbank hchecked htokens
  obtain ⟨hgroups_ne, hproper⟩ := compileExpr_declared rfl hgroups
  have hscript := lexical_ilScript hbank hname hgroups_ne hproper hbits hchecked hxs hys
  obtain ⟨inst, helab, hinputs, hden, houtputs⟩ :=
    @elaborate_ilScript _ _ _ _ il.name _ _ hbank hlen hproper hbits hchecked hdrive hxs hys
  have htext : text = (ilScript il.name (xs.map Prod.fst ++ ys.map Prod.fst) groups
      il.drive).text := by
    rw [Option.some_inj.mp hfile, ← text_cfg, ← List.flatMap_cons]
    rfl
  have hinhab : ∀ g ∈ groups, g ≠ [] := fun g hg => (hproper g hg).1
  refine ⟨groups, inst, hgroups, htext ▸ hscript.ascii, ?_, hinputs, ?_, hchecked⟩
  · rw [htext]
    exact mapError_eq_ok.mp ((Interlock.ilParseImpl_text samd21 false hscript).trans helab)
  · exact {
      ne := hgroups_ne
      inhab := hinhab
      length_le := (length_le_clauseCount hinhab).trans hchecked.clauses_le
      bank := fun g hg c hc => (thr_le hbank hproper hg hc).1
      watches := hden
      bits := hbits
      roles := fun d hd => operand_mem_bank hbank hchecked
        (List.mem_append_right _ (List.mem_map_of_mem hd))
      outputs := houtputs }

end Accepted

end SlowBus.Dsl
