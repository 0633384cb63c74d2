import SlowBus.Arbiter.Requesters

/-!
# The correlation table and lost commands

An entry is added before its command is sent and given up by the reply. The entry of
a command that is dropped stays in use until the table is rebuilt; where none is
dropped, each entry in use belongs to a command that is still to be answered.
-/

namespace SlowBus.Arbiter

open Runs

variable {s : Master}

/-! ## Commands that come to nothing -/

/-- The message a call of `bus_msg_send` is about to return false for. -/
def Master.givesUp (s : Master) (t : Task) : Option Msg :=
  match s.flights t with
  | some { msg, stage := .grab } => if s.pool.free = none then some msg else none
  | some { msg, stage := .recover _ } => some msg
  | _ => none

/-- The message that is about to be dropped. -/
def Master.drops (s : Master) : Action → Option Msg
  | .bus =>
      match s.pc with
      | .hostSend => s.givesUp .bus
      | .orphans (some b) => s.msgOf b
      | .drain i (some b) => if s.nodes[i]?.any (·.dead) then s.msgOf b else none
      | _ => none
  | .send n => s.givesUp (.producer n)
  | _ => none

/-- A command was answered, or it came to nothing. -/
def Master.Closed (s : Master) (c : Command) : Prop :=
  (∃ f ∈ s.desk.heard, f.answers = some c) ∨ c ∈ s.hist.lost

instance (s : Master) (c : Command) : Decidable (s.Closed c) := by
  unfold Master.Closed
  infer_instance

/-- No message of a command is dropped while an entry is in use for its request id
and its node. -/
def DropsUnawaited (s : Master) (a : Action) : Prop :=
  ∀ msg ∈ s.drops a, ∀ c ∈ msg.command, ∀ e ∈ s.desk.entries, ¬e.Matches c

instance (s : Master) (a : Action) : Decidable (DropsUnawaited s a) := by
  unfold DropsUnawaited
  infer_instance

/-! ## The records of commands -/

/-- What a step that issues no command does to the records of commands. -/
structure RecordsKept (s s' : Master) (dropped : Option Msg) : Prop where
  commands : s'.hist.commands = s.hist.commands
  registered : s'.hist.registered = s.hist.registered
  lost : ∀ c ∈ s'.hist.lost, c ∈ s.hist.lost ∨ ∃ msg, dropped = some msg ∧ msg.command = some c

theorem RecordsKept.refl (dropped : Option Msg) : RecordsKept s s dropped :=
  ⟨rfl, rfl, fun _ => Or.inl⟩

theorem RecordsKept.forget {msg : Msg} : RecordsKept s (s.forget msg) (some msg) := by
  refine ⟨rfl, rfl, fun c hc => ?_⟩
  exact (List.mem_append.mp hc).imp_right fun hc => ⟨msg, rfl, Option.mem_toList.mp hc⟩

theorem records_busMsgSend (s : Master) (t : Task) :
    RecordsKept s (s.busMsgSend t) (s.givesUp t) := by
  unfold Master.busMsgSend
  split
  · exact .refl _
  · next msg hflight =>
      cases hfree : s.pool.free with
      | none =>
          have hgrab : poolGrab s.pool = (none, s.pool) := by rw [poolGrab, hfree]
          have hgives : s.givesUp t = some msg := by simp [Master.givesUp, hflight, hfree]
          rw [hgrab, hgives]
          exact ⟨rfl, rfl, RecordsKept.forget.lost⟩
      | some b =>
          unfold poolGrab
          rw [hfree]
          exact ⟨rfl, rfl, fun _ => Or.inl⟩
  · exact ⟨rfl, rfl, fun _ => Or.inl⟩
  · split
    · exact ⟨rfl, rfl, fun _ => Or.inl⟩
    · unfold Master.endSend Master.attach
      dsimp only
      split <;> exact ⟨rfl, rfl, fun _ => Or.inl⟩
  · next msg b hflight =>
      have hgives : s.givesUp t = some msg := by simp [Master.givesUp, hflight]
      rw [hgives]
      exact ⟨rfl, rfl, RecordsKept.forget.lost⟩

theorem records_unsent (s : Master) (b : Buf) (why : Unsent) :
    RecordsKept s (s.unsent b why) (s.msgOf b) := by
  unfold Master.unsent
  split
  · exact .refl _
  · next msg hmsg =>
      rw [hmsg]
      exact ⟨rfl, rfl, RecordsKept.forget.lost⟩

theorem records_step {a : Action} (h : s.numbers a = none) :
    RecordsKept s (step s a) (s.drops a) := by
  have hnone : s.issues a = none := by
    rw [Option.eq_none_iff_forall_ne_some] at h ⊢
    exact fun c hc => h c (numbers_of_issues hc)
  cases a
  case bus =>
    have hstep := busStep_cases s
    change RecordsKept s s.busStep _
    generalize s.busStep = s' at hstep ⊢
    cases hstep with
    | hostAdd cmd hpc => simp [Master.issues, hpc] at hnone
    | hostSend hpc =>
        have hdrops : s.drops .bus = s.givesUp .bus := by simp [Master.drops, hpc]
        exact hdrops ▸ records_busMsgSend s .bus
    -- the message of an orphan is dropped
    | orphan b hpc =>
        have hdrops : s.drops .bus = s.msgOf b := by simp [Master.drops, hpc]
        have h := records_unsent s b .rebuilt
        exact hdrops ▸ ⟨h.commands, h.registered, h.lost⟩
    | drainDead i b node hpc hnode hdead =>
        have hdrops : s.drops .bus = s.msgOf b := by simp [Master.drops, hpc, hnode, hdead]
        have h := records_unsent s b (.dead node.addr)
        exact hdrops ▸ ⟨h.commands, h.registered, h.lost⟩
    | inject cmd hpc => rw [numbers_inject hpc] at h; cases h
    | _ => exact ⟨rfl, rfl, fun _ => Or.inl⟩
  case alarm =>
    have hstep := waitOver_cases s
    generalize step s .alarm = s' at hstep ⊢
    cases hstep <;> exact ⟨rfl, rfl, fun _ => Or.inl⟩
  case send n => exact records_busMsgSend s (.producer n)
  -- an echo takes no number unless it is issued, which `h` excludes
  case originate n addr hostReqId bytes =>
    simp only [Master.issues] at hnone
    simp only [step, Master.kbappOnEchoTo]
    split
    · next hidle =>
        split
        · next hmode =>
            rw [if_pos ⟨hidle, hmode⟩] at hnone
            cases hnone
        · split <;> exact ⟨rfl, rfl, fun _ => Or.inl⟩
    · exact ⟨rfl, rfl, fun _ => Or.inl⟩
  case call n dest payload =>
    simp only [step]
    split <;> exact ⟨rfl, rfl, fun _ => Or.inl⟩
  case busMsg dest opcode body =>
    simp only [step, Master.onBusMsg]
    split <;> exact ⟨rfl, rfl, fun _ => Or.inl⟩
  case registerSlave addr enabled =>
    simp only [step, Master.registerSlave]
    split <;> exact ⟨rfl, rfl, fun _ => Or.inl⟩
  case uplinkEnter active cfg => cases cfg <;> exact ⟨rfl, rfl, fun _ => Or.inl⟩
  all_goals exact ⟨rfl, rfl, fun _ => Or.inl⟩

/-- Issuing a command numbers it, and registers it if there is an unused entry. -/
structure Issued (s s' : Master) (c : Command) : Prop where
  id : c.id = s.hist.commands
  commands : s'.hist.commands = s.hist.commands + 1
  lost : s'.hist.lost = s.hist.lost
  heard : s'.desk.heard = s.desk.heard
  entry : (s'.hist.registered = s.hist.registered ∧ s'.desk.entries = s.desk.entries) ∨
    (s'.hist.registered = s.hist.registered ++ [c] ∧
      s'.desk.entries.Perm (c.entry :: s.desk.entries))

theorem issued_issue {t : Task} {c : Command} {payload : Bytes} (s' : Master)
    (hhist : s'.hist = s.hist) (hdesk : s'.desk = s.desk) (hid : c.id = s.hist.commands) :
    Issued s (s'.issue t c payload) c := by
  cases hadd : corrAdd c.entry s.desk.corr with
  | none =>
      simp only [Master.issue, Master.beginSend, Master.corrAdd, hdesk, hadd, hhist]
      exact ⟨hid, rfl, rfl, rfl, Or.inl ⟨rfl, rfl⟩⟩
  | some corr =>
      simp only [Master.issue, Master.beginSend, Master.corrAdd, hdesk, hadd, hhist]
      exact ⟨hid, rfl, rfl, rfl, Or.inr ⟨rfl, corrAdd_eq_some hadd⟩⟩

theorem issued_step {a : Action} {c : Command} (h : s.issues a = some c) :
    Issued s (step s a) c := by
  cases a
  case bus =>
    simp only [Master.issues] at h
    split at h
    · next cmd hpc =>
        cases h
        have hstep : step s .bus = s.hostAddStep cmd := by simp only [step, Master.busStep, hpc]
        rw [hstep]
        exact issued_issue { s with pc := .hostSend } rfl rfl rfl
    · cases h
  case originate n addr hostReqId bytes =>
    simp only [Master.issues] at h
    split at h
    · next hidle =>
        cases h
        simp only [step, Master.kbappOnEchoTo, if_pos hidle.1, if_pos hidle.2]
        exact issued_issue { s with origSeq := nextOrigSeq s.origSeq } rfl rfl rfl
    · cases h
  all_goals cases h

/-! ## Entries and open commands -/

/-- What an entry, or a reply to a command, is known by. -/
def CorrEntry.key (e : CorrEntry) : Nat × Nat := (e.req, e.addr)

def Command.key (c : Command) : Nat × Nat := (c.req % 2 ^ 16, c.addr)

theorem matches_iff_key (e : CorrEntry) (c : Command) : e.Matches c ↔ e.key = c.key := by
  simp [CorrEntry.Matches, CorrEntry.key, Command.key]

/-- Each entry in use belongs to one of the commands, which are registered and open. -/
structure Covered (s : Master) (l : List Command) : Prop where
  nodup : l.Nodup
  registered : ∀ c ∈ l, c ∈ s.hist.registered
  opened : ∀ c ∈ l, ¬s.Closed c
  entries : (s.desk.entries.map (·.key)).Perm (l.map (·.key))

variable {l : List Command}

theorem Covered.exists_entry (h : Covered s l) {c : Command} (hc : c ∈ l) :
    ∃ e ∈ s.desk.entries, e.Matches c := by
  have hmem := h.entries.mem_iff.mpr (List.mem_map.mpr ⟨c, hc, rfl⟩)
  obtain ⟨e, he, hkey⟩ := List.mem_map.mp hmem
  exact ⟨e, he, (matches_iff_key e c).mpr hkey⟩

theorem Covered.exists_command (h : Covered s l) {e : CorrEntry} (he : e ∈ s.desk.entries) :
    ∃ c ∈ l, e.Matches c := by
  have hmem := h.entries.mem_iff.mp (List.mem_map.mpr ⟨e, he, rfl⟩)
  obtain ⟨c, hc, hkey⟩ := List.mem_map.mp hmem
  exact ⟨c, hc, (matches_iff_key e c).mpr hkey.symm⟩

/-- No entry and no command changes. -/
theorem Covered.same {s' : Master} (h : Covered s l)
    (hregistered : s'.hist.registered = s.hist.registered) (hopened : ∀ c ∈ l, ¬s'.Closed c)
    (hentries : s'.desk.entries = s.desk.entries) : Covered s' l :=
  ⟨h.nodup, hregistered ▸ h.registered, hopened, hentries ▸ h.entries⟩

/-- An entry is given up, and with it one of the commands it matches. -/
theorem Covered.erase {s' : Master} (h : Covered s l)
    (hregistered : s'.hist.registered = s.hist.registered) {e : CorrEntry} {c : Command}
    (hc : c ∈ l) (hmatch : e.Matches c) (hperm : s.desk.entries.Perm (e :: s'.desk.entries))
    (hopened : ∀ x ∈ l, x ≠ c → ¬s'.Closed x) : Covered s' (l.erase c) := by
  refine ⟨h.nodup.erase c, fun x hx => ?_, fun x hx => ?_, ?_⟩
  · rw [hregistered]
    exact h.registered x (List.mem_of_mem_erase hx)
  · have hne := (h.nodup.mem_erase_iff.mp hx).1
    exact hopened x (List.mem_of_mem_erase hx) hne
  · have hkeys : ((e :: s'.desk.entries).map (·.key)).Perm ((c :: l.erase c).map (·.key)) :=
      (hperm.map _).symm.trans (h.entries.trans ((List.perm_cons_erase hc).map _))
    rw [List.map_cons, List.map_cons, (matches_iff_key e c).mp hmatch] at hkeys
    exact hkeys.cons_inv

/-- A command that is numbered anew is none of those known. -/
structure Numbered (s : Master) : Prop where
  owed : ∀ c, s.Owes c → c.id < s.hist.commands
  registered : ∀ c ∈ s.hist.registered, c.id < s.hist.commands
  closed : ∀ c, s.Closed c → c.id < s.hist.commands

/-- A new command is registered and gets an entry, or the table is full. -/
theorem Covered.issue {s' : Master} {c : Command} (h : Covered s l) (hnumbered : Numbered s)
    (hissued : Issued s s' c) : ∃ l', Covered s' l' := by
  have hclosed (x : Command) : s'.Closed x ↔ s.Closed x := by
    simp only [Master.Closed, hissued.heard, hissued.lost]
  have hopened : ∀ x ∈ l, ¬s'.Closed x := fun x hx hx' => h.opened x hx ((hclosed x).mp hx')
  rcases hissued.entry with ⟨hregistered, hentries⟩ | ⟨hregistered, hentries⟩
  · exact ⟨l, h.same hregistered hopened hentries⟩
  · have hid := hissued.id
    have hnew : c ∉ l := fun hc => by
      have := hnumbered.registered c (h.registered c hc)
      omega
    refine ⟨c :: l, List.nodup_cons.mpr ⟨hnew, h.nodup⟩, ?_, ?_, ?_⟩
    · rw [hregistered]
      intro x hx
      rcases List.mem_cons.mp hx with rfl | hx
      · exact List.mem_append_right _ List.mem_cons_self
      · exact List.mem_append_left _ (h.registered x hx)
    · intro x hx
      rcases List.mem_cons.mp hx with rfl | hx
      · intro hx'
        have := hnumbered.closed x ((hclosed x).mp hx')
        omega
      · exact hopened x hx
    · exact (hentries.map _).trans (h.entries.cons _)

/-- The entry of a reply, or none, is given up when it is heard. -/
theorem Covered.hear {s' : Master} {addr : Nat} {f : Frame} (h : Covered s l)
    (hgenuine : f.shellReply ≠ none → ∀ c, f.answers = some c → ∃ rest, f = c.reply rest)
    (hregistered : s'.hist.registered = s.hist.registered)
    (hlost : ∀ c ∈ l, c ∉ s'.hist.lost) (hhearing : Hearing s.desk addr f s'.desk) :
    ∃ l', Covered s' l' := by
  have hopened (hheard : s'.desk.heard = s.desk.heard) : ∀ c ∈ l, ¬s'.Closed c := by
    rintro c hc (hanswered | hc')
    · exact h.opened c hc (Or.inl (hheard ▸ hanswered))
    · exact hlost c hc hc'
  have hopened' (hheard : s'.desk.heard = s.desk.heard ++ [f]) {c : Command} (hc : c ∈ l)
      (hanswers : f.answers ≠ some c) : ¬s'.Closed c := by
    rintro (⟨g, hg, hc'⟩ | hc')
    · rw [hheard] at hg
      rcases List.mem_append.mp hg with hg | hg
      · exact h.opened c hc (Or.inl ⟨g, hg, hc'⟩)
      · exact hanswers (List.mem_singleton.mp hg ▸ hc')
    · exact hlost c hc hc'
  generalize hd : s'.desk = d at hhearing
  cases hhearing with
  | other hcorr _ hheard =>
      have hentries : s'.desk.entries = s.desk.entries := by
        rw [Desk.entries, hd, hcorr]
        rfl
      rcases hheard with hheard | ⟨body, hsrc, hreply, hheard, hnone⟩
      · exact ⟨l, h.same hregistered (hopened (hd ▸ hheard)) hentries⟩
      · refine ⟨l, h.same hregistered (fun c hc => hopened' (hd ▸ hheard) hc fun hanswers => ?_)
          hentries⟩
        -- an open command whose reply is not matched has no entry
        obtain ⟨rest, hf⟩ := hgenuine (by simp [hreply]) c hanswers
        obtain ⟨e, he, hreq, haddr⟩ := h.exists_entry hc
        have hbody : (c.reply rest).shellReply = some body := hf ▸ hreply
        have hlength : 2 ≤ body.length := by
          rw [shellReply_reply] at hbody
          cases hbody
          simp [le16]
        rw [Desk.correlate, if_pos hlength, reply_body hbody] at hnone
        have hsrc' : c.addr = addr := (congrArg Frame.src hf).symm.trans hsrc
        exact corrTake_eq_none hnone e he ⟨hreq, haddr.trans hsrc'⟩
  | matched body e corr hsrc hreply htake =>
      have hrelay := heard_relay { s.desk with heard := s.desk.heard ++ [f], corr } f .correlated
        (if e.isOrig then s.desk.originReply e.hostReq body else some (hostReply addr body))
      have hheard : s'.desk.heard = s.desk.heard ++ [f] := by rw [hd, hrelay.1]
      have hperm : e ∈ s.desk.entries ∧ s.desk.entries.Perm (e :: s'.desk.entries) := by
        unfold Desk.correlate at htake
        split at htake
        · have hperm := (corrTake_eq_some htake).2.2
          have hentries : s'.desk.entries = corr.reduceOption := by
            rw [Desk.entries, hd, hrelay.2]
          exact ⟨hperm.mem_iff.mpr List.mem_cons_self, hentries ▸ hperm⟩
        · cases htake
      -- the entry is that of the command answered, or of another one with its id
      by_cases hanswered : ∃ c ∈ l, f.answers = some c
      · obtain ⟨c, hc, hanswers⟩ := hanswered
        obtain ⟨rest, hf⟩ := hgenuine (by simp [hreply]) c hanswers
        have hmatch := (matches_of_correlate hf hsrc hreply htake).2
        refine ⟨_, h.erase hregistered hc hmatch hperm.2 fun x hx hne => ?_⟩
        refine hopened' hheard hx fun hx' => hne ?_
        exact Option.some.inj (hx'.symm.trans hanswers)
      · obtain ⟨c, hc, hmatch⟩ := h.exists_command hperm.1
        refine ⟨_, h.erase hregistered hc hmatch hperm.2 fun x hx _ => ?_⟩
        exact hopened' hheard hx fun hx' => hanswered ⟨x, hx, hx'⟩

/-! ## Runs -/

theorem holds_of_drops {a : Action} {msg : Msg} (h : s.drops a = some msg) : s.Holds msg := by
  have hgives {t : Task} (h : s.givesUp t = some msg) : s.Holds msg := by
    unfold Master.givesUp at h
    split at h
    · next m hflight =>
        split at h
        · cases h
          exact Or.inl ⟨t, _, hflight, rfl⟩
        · cases h
    · next m b hflight =>
        cases h
        exact Or.inl ⟨t, _, hflight, rfl⟩
    · cases h
  unfold Master.drops at h
  split at h
  · split at h
    · exact hgives h
    · exact Or.inr ⟨_, h⟩
    · split at h
      · exact Or.inr ⟨_, h⟩
      · cases h
    · cases h
  · exact hgives h
  · cases h

/-- What a step hears is under way. -/
theorem heard_step {a : Action} (hslot : s.pc.perSlot = false) {f : Frame}
    (h : f ∈ (step s a).desk.heard) :
    f ∈ s.desk.heard ∨ (s.wire.Carries f ∧ f.shellReply ≠ none) := by
  have hdesk := deskStep_step s a
  generalize (step s a).desk = d at hdesk h
  cases hdesk with
  | emitted => exact Or.inl ((heard_emitFeedback s.desk).1 ▸ h)
  | acknowledged cmd c g => exact Or.inl ((heard_acknowledge s.desk cmd.slave s.cmd.reqId g).1 ▸ h)
  | collected c g body hpc =>
      rw [hpc] at hslot
      cases hslot
  | heard addr g hslot hrx =>
      have hcarries : s.wire.Carries g := Or.inr (Or.inl (List.mem_of_mem_head? hrx))
      have happend {body : Bytes} (hreply : g.shellReply = some body)
          (h : f ∈ s.desk.heard ++ [g]) :
          f ∈ s.desk.heard ∨ (s.wire.Carries f ∧ f.shellReply ≠ none) := by
        rcases List.mem_append.mp h with h | h
        · exact Or.inl h
        · rw [List.mem_singleton.mp h]
          exact Or.inr ⟨hcarries, by simp [hreply]⟩
      have hhearing := hearing_slotFrame s.desk addr g
      generalize s.desk.slotFrame addr g = d at hhearing h
      cases hhearing with
      | other _ _ hheard =>
          rcases hheard with hheard | ⟨body, -, hreply, hheard, -⟩
          · exact Or.inl (hheard ▸ h)
          · exact happend hreply (hheard ▸ h)
      | matched body e corr _ hreply =>
          rw [(heard_relay ..).1] at h
          exact happend hreply h
  | _ => exact Or.inl h

/-- Every entry in use belongs to a registered command that is still open. -/
structure NoLeak (s : Master) : Prop where
  own : s.wire.OwnFrames
  genuine : s.wire.Genuine
  slot : s.pc.perSlot = false
  numbered : Numbered s
  covered : ∃ l, Covered s l

theorem closed_step {a : Action} (hslot : s.pc.perSlot = false) {c : Command}
    (h : (step s a).Closed c) : s.Closed c ∨ s.Owes c := by
  rcases h with ⟨f, hf, hanswers⟩ | h
  · rcases heard_step hslot hf with hf | ⟨hcarries, hreply⟩
    · exact Or.inl (Or.inl ⟨f, hf, hanswers⟩)
    · exact Or.inr (.reply f hcarries hreply hanswers)
  · cases hissues : s.issues a with
    | some c' => exact Or.inl (Or.inr ((issued_step hissues).lost ▸ h))
    | none =>
        have hrecords := records_step ((numbers_cyclic hslot a).trans hissues)
        rcases hrecords.lost c h with h | ⟨msg, hdrops, hc⟩
        · exact Or.inl (Or.inr h)
        · exact Or.inr (.message msg (holds_of_drops hdrops) hc)

theorem numbered_step {a : Action} (h : NoLeak s) : Numbered (step s a) := by
  -- a step that issues a command takes the next number for it
  cases hissues : s.issues a with
  | some c =>
      have hissued := issued_step hissues
      have hlt {x : Command} (hx : x.id < s.hist.commands) :
          x.id < (step s a).hist.commands := by
        rw [hissued.commands]
        omega
      have hself : c.id < (step s a).hist.commands := by
        rw [hissued.commands, hissued.id]
        omega
      constructor
      · intro x hx
        rcases owes_step h.own h.slot hx with hx | hx
        · exact hlt (h.numbered.owed x hx)
        · obtain rfl : c = x := Option.some.inj (hissues.symm.trans hx)
          exact hself
      · intro x hx
        rcases hissued.entry with ⟨hregistered, -⟩ | ⟨hregistered, -⟩
        · exact hlt (h.numbered.registered x (hregistered ▸ hx))
        · rw [hregistered] at hx
          rcases List.mem_append.mp hx with hx | hx
          · exact hlt (h.numbered.registered x hx)
          · rw [List.mem_singleton.mp hx]
            exact hself
      · intro x hx
        rcases closed_step h.slot hx with hx | hx
        · exact hlt (h.numbered.closed x hx)
        · exact hlt (h.numbered.owed x hx)
  | none =>
      have hrecords := records_step ((numbers_cyclic h.slot a).trans hissues)
      constructor
      · intro x hx
        rw [hrecords.commands]
        refine h.numbered.owed x ((owes_step h.own h.slot hx).resolve_right fun hx => ?_)
        cases hissues.symm.trans hx
      · intro x hx
        rw [hrecords.commands]
        exact h.numbered.registered x (hrecords.registered ▸ hx)
      · intro x hx
        rw [hrecords.commands]
        exact (closed_step h.slot hx).elim (h.numbered.closed x) (h.numbered.owed x)

theorem covered_step {a : Action} (h : NoLeak s) (hdrops : DropsUnawaited s a) :
    ∃ l, Covered (step s a) l := by
  obtain ⟨l, hl⟩ := h.covered
  cases hissues : s.issues a with
  | some c => exact hl.issue h.numbered (issued_step hissues)
  | none =>
      have hrecords := records_step ((numbers_cyclic h.slot a).trans hissues)
      have hlost : ∀ c ∈ l, c ∉ (step s a).hist.lost := by
        intro c hc hc'
        rcases hrecords.lost c hc' with hc' | ⟨msg, hmsg, hcommand⟩
        · exact hl.opened c hc (Or.inr hc')
        · obtain ⟨e, he, hmatch⟩ := hl.exists_entry hc
          exact hdrops msg hmsg c hcommand e he hmatch
      have hsame (hheard : (step s a).desk.heard = s.desk.heard)
          (hcorr : (step s a).desk.corr = s.desk.corr) : ∃ l, Covered (step s a) l := by
        refine ⟨l, hl.same hrecords.registered ?_ (by rw [Desk.entries, hcorr]; rfl)⟩
        rintro c hc (hanswered | hc')
        · exact hl.opened c hc (Or.inl (hheard ▸ hanswered))
        · exact hlost c hc hc'
      have hdesk := deskStep_step s a
      generalize hd : (step s a).desk = d at hdesk hsame
      cases hdesk with
      | dropped =>
          refine ⟨[], List.nodup_nil, by simp, by simp, ?_⟩
          rw [hd]
          exact List.Perm.nil
      | registered c corr hc => cases hissues.symm.trans hc
      | emitted => exact hsame (heard_emitFeedback s.desk).1 (heard_emitFeedback s.desk).2
      | acknowledged cmd c f => exact hsame (heard_acknowledge ..).1 (heard_acknowledge ..).2
      | collected c f body hpc =>
          have hslot := h.slot
          rw [hpc] at hslot
          cases hslot
      | heard addr f hslot hrx =>
          have hcarries : s.wire.Carries f := Or.inr (Or.inl (List.mem_of_mem_head? hrx))
          have hhearing := hearing_slotFrame s.desk addr f
          rw [← hd] at hhearing
          exact hl.hear (h.genuine f hcarries) hrecords.registered hlost hhearing
      | _ => exact hsame rfl rfl

theorem noLeak_step {a : Action} (h : NoLeak s) (hcyclic : Cyclic s a)
    (hdrops : DropsUnawaited s a) : NoLeak (step s a) :=
  ⟨ownFrames_step s h.own a, genuine_step a h.own h.genuine, perSlot_step h.slot hcyclic,
    numbered_step h, covered_step h hdrops⟩

/-- Where no command with an entry is dropped, no entry is in use once every registered
command was answered or came to nothing. -/
theorem entries_freed_when_none_dropped (room : Nat) (cfg : Option RosterCfg) (as : List Action)
    (hcyclic : Along step Cyclic (boot room cfg) as)
    (hdrops : Along step DropsUnawaited (boot room cfg) as)
    (hclosed : ∀ c ∈ (run step (boot room cfg) as).hist.registered,
      (run step (boot room cfg) as).Closed c) :
    (run step (boot room cfg) as).desk.entries = [] := by
  have hwire : (boot room cfg).wire = {} := by cases cfg <;> rfl
  have hdesk : (boot room cfg).desk = {} := by cases cfg <;> rfl
  have hpc : (boot room cfg).pc = .top := by cases cfg <;> rfl
  have hhist : (boot room cfg).hist = {} := by cases cfg <;> rfl
  have hnone (c : Command) : ¬(boot room cfg).Closed c := by
    simp [Master.Closed, hdesk, hhist]
  have hboot : NoLeak (boot room cfg) := by
    refine ⟨by simp [Wire.OwnFrames, hwire], ?_, by rw [hpc]; rfl, ?_, [], ?_⟩
    · simp [Wire.Genuine, Wire.Carries, hwire]
    · exact ⟨fun c hc => absurd hc (not_owes_boot room cfg c), by simp [hhist],
        fun c hc => absurd hc (hnone c)⟩
    · refine ⟨List.nodup_nil, by simp, by simp, ?_⟩
      rw [hdesk]
      exact List.Perm.nil
  obtain ⟨l, hl⟩ := (run_along (P := NoLeak) (fun _ _ h hc => noLeak_step h hc.1 hc.2)
    (hcyclic.and hdrops) hboot).covered
  rw [List.eq_nil_iff_forall_not_mem]
  intro e he
  obtain ⟨c, hc, -⟩ := hl.exists_command he
  exact hl.opened c hc (hclosed c (hl.registered c hc))

/-- An origination for the node at address 5 is sent, and the node answers it. -/
def originatedOnce : List Action :=
  List.replicate 3 (.send 0) ++ List.replicate 15 .bus ++ [.answer (echoCommand 0) [0, 0]] ++
    List.replicate 7 .bus ++ List.replicate 3 .arrive ++ List.replicate 3 .bus

theorem entries_freed_when_none_dropped_once :
    (run step (boot 24 oneNode) (.originate 0 5 70 [] :: originatedOnce)).hist.registered ≠ [] ∧
      (run step (boot 24 oneNode) (.originate 0 5 70 [] :: originatedOnce)).desk.entries = [] :=
  ⟨by decide +kernel, entries_freed_when_none_dropped 24 oneNode
    (.originate 0 5 70 [] :: originatedOnce) (by decide +kernel) (by decide +kernel)
    (by decide +kernel)⟩

/-- The host sends a command to a node that is not in the table. -/
def unknownNode : List Action := .busMsg 9 opShellExec [1, 0] :: List.replicate 7 .bus

/-- Its entry stays in use. -/
theorem not_always_entries_freed :
    ¬∀ (room : Nat) (cfg : Option RosterCfg) (as : List Action),
      Along step Cyclic (boot room cfg) as →
        (∀ c ∈ (run step (boot room cfg) as).hist.registered,
          (run step (boot room cfg) as).Closed c) →
        (run step (boot room cfg) as).desk.entries = [] := by
  intro h
  have hentries := h 24 oneNode unknownNode (by decide) (by decide)
  exact absurd hentries (by decide)

end SlowBus.Arbiter
