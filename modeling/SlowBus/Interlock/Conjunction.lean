import SlowBus.Interlock.Meaning

/-!
# Several watch sections

Each watch section numbers its alternatives from 0, and all sections share the numbers. A slot
is true when some number is true in every section that has it, which is the conjunction of the
sections when none of them has alternatives.
-/

namespace SlowBus.Interlock

open Fallible

/-- The value that `eval_slot` sampled for the pin a label names. -/
def valueOf (inst : Inst) (vals : List Nat) (label : Text) : Nat :=
  match (rp2040.pinOf label).bind (findInputIdx inst) with
  | some idx => vals.getD idx 0
  | none => 0

/-- All comparisons of an alternative are true of the values. -/
def AlternativeHolds (value : Text → Nat) (alternative : List Text) : Prop :=
  ∀ t ∈ alternative, ComparisonHolds value t

/-- Alternative number `g` is true in every watch body that has it, and some body has it. -/
def NumberHolds (value : Text → Nat) (bodies : List Text) (g : Nat) : Prop :=
  (∃ body ∈ bodies, g < (alternatives body).length) ∧
    ∀ body ∈ bodies, ∀ alternative, (alternatives body)[g]? = some alternative →
      AlternativeHolds value alternative

/-- The numbers of the true alternatives agree between the bodies: a number that is true where it
occurs leaves no body false that lacks it, and bodies that are all true share a number that is
true where it occurs. -/
structure Aligned (value : Text → Nat) (bodies : List Text) : Prop where
  reached : ∀ g, NumberHolds value bodies g → ∀ body ∈ bodies, (alternatives body).length ≤ g →
    WatchHolds value body
  common : (∀ body ∈ bodies, WatchHolds value body) → ∃ g, NumberHolds value bodies g

section Reading

variable {board : Board} {inst inst' : Inst} {secs : List Section}

/-- The comparisons of a watch body, as the parser reads them. -/
def BodyReads (body : Text) (groups : List (List Clause)) : Prop :=
  (∀ cs ∈ groups, cs ≠ []) ∧ clausesOf body = groups.map (·.map some)

/-- The watches of an instance are those of its watch sections, each numbered from 0. -/
theorem SectionsRead.many_watch (h : SectionsRead board inst secs inst') :
    ∃ read : List (List (List Clause)), List.Forall₂ BodyReads (watchBodies secs) read ∧
      ∃ new, inst'.watches = inst.watches ++ new ∧
        List.Forall₂ (Denotes board inst') new (read.flatMap (numbered 0)) := by
  induction h with
  | nil inst => exact ⟨[], .nil, [], by simp, .nil⟩
  | @cons sec secs inst mid inst' hsec hrest ih =>
      obtain ⟨read, hreads, new, hnew, hall⟩ := ih
      by_cases hkw : sec.keyword = "watch".toList
      · obtain ⟨groups, hread, hinhab, hclauses⟩ := hsec.watch hkw
        obtain ⟨first, hfirst, hdenotes⟩ := hread.denotes
        rw [watchBodies_cons_of_watch hkw]
        refine ⟨groups :: read, .cons ⟨hinhab, hclauses⟩ hreads, first ++ new, ?_, ?_⟩
        · rw [hnew, hfirst, List.append_assoc]
        · exact List.rel_append (hdenotes.imp fun _ _ hden => hden.grows hrest.grows) hall
      · rw [watchBodies_cons_of_ne hkw]
        exact ⟨read, hreads, new, by rw [hnew, hsec.others hkw], hall⟩

end Reading

section Truth

variable {value : Text → Nat} {bodies : List Text} {read : List (List (List Clause))} {g : Nat}

theorem mem_flatMap_numbered {x : Nat × Clause} :
    x ∈ read.flatMap (numbered 0) ↔ ∃ groups ∈ read, ∃ cs, groups[x.1]? = some cs ∧ x.2 ∈ cs := by
  obtain ⟨k, c⟩ := x
  simp only [List.mem_flatMap, mem_numbered, Nat.zero_add]
  refine exists_congr fun groups => and_congr_right fun _ => ⟨?_, ?_⟩
  · rintro ⟨i, cs, hcs, rfl, hc⟩
    exact ⟨cs, hcs, hc⟩
  · rintro ⟨cs, hcs, hc⟩
    exact ⟨k, cs, hcs, rfl, hc⟩

theorem alternativeHolds_iff {alternative : List Text} {cs : List Clause}
    (h : alternative.map comparisonOf = cs.map some) :
    AlternativeHolds value alternative ↔
      ∀ c ∈ cs, c.op.holds (value c.label) c.value = true := by
  have hwritten : AlternativeHolds value alternative ↔ ∀ o ∈ alternative.map comparisonOf,
      ∃ c, o = some c ∧ c.op.holds (value c.label) c.value = true := by
    simp only [AlternativeHolds, ComparisonHolds, List.forall_mem_map]
  rw [hwritten, h]
  simp only [List.forall_mem_map, Option.some_inj, exists_eq_left']

/-- The alternatives of a body are read one for one. -/
theorem BodyReads.getElem? {body : Text} {groups : List (List Clause)} (h : BodyReads body groups)
    (g : Nat) : ((alternatives body)[g]?).map (·.map comparisonOf) =
      (groups[g]?).map (·.map some) := by
  have hget := congrArg (·[g]?) h.2
  simpa only [clausesOf, List.getElem?_map] using hget

theorem BodyReads.length {body : Text} {groups : List (List Clause)} (h : BodyReads body groups) :
    (alternatives body).length = groups.length := by
  have hlen := congrArg List.length h.2
  simpa only [clausesOf, List.length_map] using hlen

theorem BodyReads.alternative_iff {body : Text} {groups : List (List Clause)}
    (h : BodyReads body groups) (g : Nat) :
    (∀ alternative, (alternatives body)[g]? = some alternative →
      AlternativeHolds value alternative) ↔
    ∀ cs, groups[g]? = some cs → ∀ c ∈ cs, c.op.holds (value c.label) c.value = true := by
  have hget := h.getElem? g
  cases halt : (alternatives body)[g]? with
  | none =>
      rw [halt, Option.map_none, eq_comm, Option.map_eq_none_iff] at hget
      simp [hget]
  | some alternative =>
      rw [halt, Option.map_some, eq_comm, Option.map_eq_some_iff] at hget
      obtain ⟨cs, hcs, hread⟩ := hget
      simp only [hcs, Option.some_inj, forall_eq']
      exact alternativeHolds_iff hread.symm

/-- Number `g`, in terms of the comparisons that were read. -/
theorem numberHolds_iff (h : List.Forall₂ BodyReads bodies read) :
    NumberHolds value bodies g ↔ (∃ x ∈ read.flatMap (numbered 0), x.1 = g) ∧
      ∀ x ∈ read.flatMap (numbered 0), x.1 = g →
        x.2.op.holds (value x.2.label) x.2.value = true := by
  have hinhab : ∀ groups ∈ read, ∀ cs ∈ groups, cs ≠ [] :=
    (forall_mem_iff_of_forall₂ (P := fun _ => True) h
      fun _ _ hreads => iff_of_true trivial hreads.1).mp fun _ _ => trivial
  unfold NumberHolds
  refine and_congr ?_ ?_
  · rw [exists_mem_iff_of_forall₂ h fun _ _ hreads => by rw [hreads.length]]
    constructor
    · rintro ⟨groups, hgroups, hg⟩
      obtain ⟨c, hc⟩ := List.exists_mem_of_ne_nil groups[g]
        (hinhab groups hgroups _ (List.getElem_mem hg))
      exact ⟨(g, c), mem_flatMap_numbered.mpr
        ⟨groups, hgroups, _, List.getElem?_eq_getElem hg, hc⟩, rfl⟩
    · rintro ⟨x, hx, rfl⟩
      obtain ⟨groups, hgroups, cs, hcs, -⟩ := mem_flatMap_numbered.mp hx
      exact ⟨groups, hgroups, (List.getElem?_eq_some_iff.mp hcs).1⟩
  · rw [forall_mem_iff_of_forall₂ h fun _ _ hreads => hreads.alternative_iff g]
    constructor
    · rintro hall x hx rfl
      obtain ⟨groups, hgroups, cs, hcs, hc⟩ := mem_flatMap_numbered.mp hx
      exact hall groups hgroups cs hcs x.2 hc
    · intro hall groups hgroups cs hcs c hc
      exact hall (g, c) (mem_flatMap_numbered.mpr ⟨groups, hgroups, cs, hcs, hc⟩) rfl

theorem flatMap_numbered_ne_nil (h : List.Forall₂ BodyReads bodies read) (hsome : bodies ≠ []) :
    read.flatMap (numbered 0) ≠ [] := by
  cases h with
  | nil => exact absurd rfl hsome
  | cons hreads _ =>
      rw [List.flatMap_cons]
      exact List.append_ne_nil_of_left_ne_nil (numbered_ne_nil hreads.1 hreads.2) _

/-- The numbers decide between the conjunction and what the slot computes. -/
theorem aligned_iff : ((∃ g, NumberHolds value bodies g) ↔ ∀ body ∈ bodies, WatchHolds value body) ↔
    Aligned value bodies := by
  constructor
  · intro hiff
    exact ⟨fun g hg body hbody _ => hiff.mp ⟨g, hg⟩ body hbody, hiff.mpr⟩
  · intro h
    refine ⟨?_, h.common⟩
    rintro ⟨g, hg⟩ body hbody
    rcases Nat.lt_or_ge g (alternatives body).length with hlt | hge
    · exact ⟨(alternatives body)[g], List.getElem_mem hlt,
        hg.2 body hbody _ (List.getElem?_eq_getElem hlt)⟩
    · exact h.reached g hg body hbody hge

/-- Bodies without alternatives are aligned. -/
theorem aligned_of_plain (hsome : bodies ≠ []) (hplain : ∀ body ∈ bodies, '|' ∉ body) :
    Aligned value bodies := by
  have hone : ∀ body ∈ bodies, alternatives body = [body.splitOn ','] := by
    intro body hbody
    rw [alternatives, List.splitOn_eq_singleton (hplain body hbody)]
    rfl
  constructor
  · intro g hg body hbody hlen
    obtain ⟨body', hbody', hlt⟩ := hg.1
    rw [hone body' hbody'] at hlt
    rw [hone body hbody] at hlen
    exact absurd hlt (not_lt.mpr hlen)
  · intro hall
    obtain ⟨body₀, hbody₀⟩ := List.exists_mem_of_ne_nil bodies hsome
    refine ⟨0, ⟨body₀, hbody₀, by simp [hone body₀ hbody₀]⟩, fun body hbody alternative halt => ?_⟩
    obtain ⟨alternative', hmem, hholds⟩ := hall body hbody
    rw [hone body hbody] at hmem halt
    obtain rfl := List.mem_singleton.mp hmem
    obtain rfl := Option.some.inj halt
    exact hholds

end Truth

/-! ## Evaluation -/

section Evaluation

variable {inst : Inst} {rt : SlotRuntime}

/-- The truth value of an instance without hysteresis, from the captured values. -/
theorem evalSlot_values (hal : Hal) (s : Samples) (hhyst : ∀ i ∈ inst.inputs, i.hyst = 0)
    (hgroups : ∀ w ∈ inst.watches, w.group < 255) :
    ∃ e, evalSlot hal s inst rt = some e ∧ (e.inst.tfState = .isTrue ↔ inst.watches = [] ∨
      ∃ g, (∃ w ∈ inst.watches, w.group = g) ∧ ∀ w ∈ inst.watches, w.group = g →
        w.op.holds (e.inputVals.getD w.inputIdx 0) w.threshold = true) := by
  rw [evalSlot_sampled]
  unfold evalSampled
  dsimp only
  generalize sampledInputs (rawSample hal s) 0 inst.inputs rt = r
  obtain ⟨vals, rt'⟩ := r
  obtain ⟨b, hb, hiff⟩ := ilDnfResult_watches hgroups fun w =>
    w.op.holds (vals.getD w.inputIdx 0) w.threshold
  rw [evalWatches_map hhyst, hb]
  exact ⟨_, rfl, hiff⟩

theorem Denotes.value {w : Watch} {x : Nat × Clause} {vals : List Nat}
    (h : Denotes rp2040 inst w x) : vals.getD w.inputIdx 0 = valueOf inst vals x.2.label := by
  obtain ⟨-, -, -, pin, hpin, hidx⟩ := h
  rw [valueOf, hpin, Option.bind_some, hidx]

/-- The truth value of an accepted text with watch sections: some number holds. -/
theorem evalSlot_number {text : Text} (hal : Hal) (s : Samples) (hparse : ilParse text = .ok inst)
    (hhyst : ∀ i ∈ inst.inputs, i.hyst = 0) (hsome : watchBodies (sectionsOf text) ≠ []) :
    ∃ e, evalSlot hal s inst rt = some e ∧ (e.inst.tfState = .isTrue ↔
      ∃ g, NumberHolds (valueOf inst e.inputVals) (watchBodies (sectionsOf text)) g) := by
  have hgroups : ∀ w ∈ inst.watches, w.group < 255 :=
    fun w hw => ((ilParse_wellFormed hparse).groups w hw).trans (by decide)
  obtain ⟨start, inst', -, hwatches, hread, hinst⟩ := ilParse_reads hparse
  obtain ⟨read, hreads, new, hnew, hden⟩ := hread.many_watch
  rw [hwatches, List.nil_append] at hnew
  have hden : List.Forall₂ (Denotes rp2040 inst) inst.watches (read.flatMap (numbered 0)) := by
    rw [hinst]
    exact hnew ▸ hden
  obtain ⟨e, he, htrue⟩ : ∃ e, evalSlot hal s inst rt = some e ∧ _ :=
    evalSlot_values hal s hhyst hgroups
  refine ⟨e, he, htrue.trans ?_⟩
  have hmany : inst.watches ≠ [] := by
    intro hnil
    rw [hnil, List.forall₂_nil_left_iff] at hden
    exact flatMap_numbered_ne_nil hreads hsome hden
  rw [or_iff_right hmany]
  refine exists_congr fun g => ?_
  rw [numberHolds_iff hreads]
  refine and_congr (exists_mem_iff_of_forall₂ hden fun w x hwx => by rw [hwx.1])
    (forall_mem_iff_of_forall₂ hden fun w x hwx => ?_)
  rw [hwx.1, hwx.2.1, hwx.2.2.1, hwx.value]

end Evaluation

/-- Several watch sections are the conjunction the text shows exactly when the numbers of their
true alternatives agree, which they always do when no section has alternatives. -/
theorem watch_sections_conjoin (text : Text) (inst : Inst) (hparse : ilParse text = .ok inst)
    (hhyst : ∀ i ∈ inst.inputs, i.hyst = 0)
    (htwo : 2 ≤ (watchBodies (sectionsOf text)).length) :
    (∀ (hal : Hal) (s : Samples) (rt : SlotRuntime), ∃ e, evalSlot hal s inst rt = some e ∧
      ((e.inst.tfState = .isTrue ↔
          ∀ body ∈ watchBodies (sectionsOf text), WatchHolds (valueOf inst e.inputVals) body) ↔
        Aligned (valueOf inst e.inputVals) (watchBodies (sectionsOf text)))) ∧
    ((∀ body ∈ watchBodies (sectionsOf text), '|' ∉ body) →
      ∀ value, Aligned value (watchBodies (sectionsOf text))) := by
  have hsome : watchBodies (sectionsOf text) ≠ [] :=
    List.ne_nil_of_length_pos (Nat.lt_of_lt_of_le Nat.two_pos htwo)
  refine ⟨fun hal s rt => ?_, fun hplain value => aligned_of_plain hsome hplain⟩
  obtain ⟨e, he, htrue⟩ := evalSlot_number hal s hparse hhyst hsome
  exact ⟨e, he, by rw [htrue, aligned_iff]⟩

/-- The watches of the built-in interlock. -/
def vetoText : Text :=
  "v;cfg[(gp1):in,up,debounce_4];watch[gp1:1];watch[_nodesdead:0]".toList

theorem watch_sections_conjoin_veto : ∃ inst : Inst, ilParse vetoText = .ok inst ∧
    ∀ (hal : Hal) (s : Samples) (rt : SlotRuntime), ∃ e, evalSlot hal s inst rt = some e ∧
      (e.inst.tfState = .isTrue ↔
        ∀ body ∈ watchBodies (sectionsOf vetoText),
          WatchHolds (valueOf inst e.inputVals) body) := by
  obtain ⟨inst, hparse, htest⟩ := exists_of_succeedsWith (x := ilParse vetoText)
    (p := fun inst => decide (∀ i ∈ inst.inputs, i.hyst = 0)) (by decide +kernel)
  obtain ⟨hiff, hplain⟩ := watch_sections_conjoin vetoText inst hparse (of_decide_eq_true htest)
    (by decide +kernel)
  refine ⟨inst, hparse, fun hal s rt => ?_⟩
  obtain ⟨e, he, haligned⟩ := hiff hal s rt
  exact ⟨e, he, haligned.mpr (hplain (by decide +kernel) _)⟩

/-- Whether a watch body is true, computed. -/
def watchTrue (value : Text → Nat) (body : Text) : Bool :=
  (alternatives body).any fun alternative => alternative.all fun t =>
    (comparisonOf t).any fun c => c.op.holds (value c.label) c.value

theorem watchTrue_eq_true {value : Text → Nat} {body : Text} :
    watchTrue value body = true ↔ WatchHolds value body := by
  simp only [watchTrue, WatchHolds, ComparisonHolds, List.any_eq_true, List.all_eq_true,
    Option.any_eq_true]

/-- Two sections, the first with two alternatives. -/
def eitherText : Text := "t;cfg[(gp2,gp3,gp4):in];watch[gp2:1|gp3:1];watch[gp4:1]".toList

/-- Only GP3 is high. -/
def thirdHigh : Samples := ⟨fun pin => pin == 3, fun _ => 0, fun _ _ => 0, 1000, 0, 0, 0⟩

/-- The second alternative of the first section passes over the second one. -/
theorem not_watch_sections_conjoin : ¬∀ (text : Text) (inst : Inst), ilParse text = .ok inst →
    (∀ i ∈ inst.inputs, i.hyst = 0) → 2 ≤ (watchBodies (sectionsOf text)).length →
    ∀ (hal : Hal) (s : Samples) (rt : SlotRuntime) (e : SlotEval),
      evalSlot hal s inst rt = some e → (e.inst.tfState = .isTrue ↔
        ∀ body ∈ watchBodies (sectionsOf text), WatchHolds (valueOf inst e.inputVals) body) := by
  intro hall
  obtain ⟨inst, hparse, htest⟩ := exists_of_succeedsWith (x := ilParse eitherText)
    (p := fun inst => (evalSlot (.boot []) thirdHigh inst .clear).any fun (e : SlotEval) =>
      decide ((∀ i ∈ inst.inputs, i.hyst = 0) ∧ e.inst.tfState = .isTrue ∧
        watchTrue (valueOf inst e.inputVals) "gp4:1".toList = false)) (by decide +kernel)
  obtain ⟨e, he, htest⟩ := (Option.any_eq_true _ _).mp htest
  obtain ⟨hhyst, htrue, hfalse⟩ := of_decide_eq_true htest
  have hbodies : watchBodies (sectionsOf eitherText) = ["gp2:1|gp3:1".toList, "gp4:1".toList] := by
    decide +kernel
  have hiff := hall eitherText inst hparse hhyst (by rw [hbodies]; decide) _ _ _ e he
  rw [hbodies] at hiff
  have hlast := hiff.mp htrue "gp4:1".toList (by simp)
  rw [← watchTrue_eq_true, hfalse] at hlast
  cases hlast

end SlowBus.Interlock
