import Mathlib.Data.List.ReduceOption
import SlowBus.Arbiter.Owed

/-!
# Replies and their requesters

The correlation table finds the requester of a reply by the request id and the node.
Ids of the host and ids the master mints share it; a reply reaches the requester of
its command where no two requesters use one id for one node at a time.
-/

namespace SlowBus.Arbiter

open Runs

/-! ## The correlation table -/

/-- The entries in use. -/
def Desk.entries (d : Desk) : List CorrEntry := d.corr.reduceOption

variable {e : CorrEntry} {corr corr' : List (Option CorrEntry)} {req addr : Nat}

/-- `corr_take` gives up one entry for the request id and the node. -/
theorem corrTake_eq_some (h : corrTake req addr corr = some (e, corr')) :
    e.req = req ∧ e.addr = addr ∧ corr.reduceOption.Perm (e :: corr'.reduceOption) := by
  induction corr generalizing corr' with
  | nil => cases h
  | cons x corr ih =>
      cases x with
      | none =>
          obtain ⟨⟨e', rest⟩, hrest, heq⟩ := Option.map_eq_some_iff.mp h
          cases heq
          simpa using ih hrest
      | some x =>
          unfold corrTake at h
          split at h
          · next hx =>
              cases h
              exact ⟨hx.1, hx.2, by simp⟩
          · obtain ⟨⟨e', rest⟩, hrest, heq⟩ := Option.map_eq_some_iff.mp h
            cases heq
            obtain ⟨hreq, haddr, hperm⟩ := ih hrest
            refine ⟨hreq, haddr, ?_⟩
            rw [List.reduceOption_cons_of_some, List.reduceOption_cons_of_some]
            exact (hperm.cons x).trans (List.Perm.swap ..)

/-- `corr_take` fails where no entry is in use for the request id and the node. -/
theorem corrTake_eq_none (h : corrTake req addr corr = none) :
    ∀ x ∈ corr.reduceOption, ¬(x.req = req ∧ x.addr = addr) := by
  induction corr with
  | nil => simp
  | cons x corr ih =>
      cases x with
      | none =>
          rw [List.reduceOption_cons_of_none]
          exact ih (Option.map_eq_none_iff.mp h)
      | some y =>
          unfold corrTake at h
          split at h
          · cases h
          · next hy =>
              intro x hx
              rw [List.reduceOption_cons_of_some] at hx
              rcases List.mem_cons.mp hx with rfl | hx
              · exact hy
              · exact ih (Option.map_eq_none_iff.mp h) x hx

/-- `corr_add` puts one more entry in use. -/
theorem corrAdd_eq_some (h : corrAdd e corr = some corr') :
    corr'.reduceOption.Perm (e :: corr.reduceOption) := by
  induction corr generalizing corr' with
  | nil => cases h
  | cons x corr ih =>
      cases x with
      | none =>
          cases h
          simp
      | some x =>
          obtain ⟨rest, hrest, heq⟩ := Option.map_eq_some_iff.mp h
          cases heq
          rw [List.reduceOption_cons_of_some, List.reduceOption_cons_of_some]
          exact ((ih hrest).cons x).trans (List.Perm.swap ..)

/-! ## Requesters -/

/-- A reply to the command is taken for one to the entry. -/
def CorrEntry.Matches (e : CorrEntry) (c : Command) : Prop :=
  e.req = c.req % 2 ^ 16 ∧ e.addr = c.addr

instance (e : CorrEntry) (c : Command) : Decidable (e.Matches c) := by
  unfold CorrEntry.Matches
  infer_instance

/-- Where a reply to the command is taken for one to the entry, the requester is that of
the command. -/
def CorrEntry.Serves (e : CorrEntry) (c : Command) : Prop :=
  e.Matches c → (e.isOrig = true ↔ c.party = .engine) ∧
    (e.isOrig = true → e.hostReq = c.hostReq % 2 ^ 16)

instance (e : CorrEntry) (c : Command) : Decidable (e.Serves c) := by
  unfold CorrEntry.Serves
  infer_instance

theorem serves_entry (c : Command) : c.entry.Serves c := by
  intro _
  simp [Command.entry]

/-- What the requester of a command is to get for a reply to it: the host the reply
itself, the engine one under its own id without the count. -/
def Command.relayed (c : Command) (body : Bytes) : HostFrame :=
  match c.party with
  | .host => hostReply c.addr body
  | .engine => { dest := busAddrAppcore, opcode := opShellReply, payload := retag c.hostReq body }

/-- A reply that was matched went to the requester of the command it answers. -/
def Relay.ToRequester (r : Relay) : Prop :=
  r.route = .correlated → ∀ c, r.frame.answers = some c →
    ∃ body, r.frame.shellReply = some body ∧ r.sent = some (c.relayed body) ∧ r.staged = true

/-- A command is issued only where every entry in use and every command still to be
answered that has its request id and its node has its requester too. -/
def OwnIds (s : Master) (a : Action) : Prop :=
  ∀ c, s.issues a = some c →
    (∀ e ∈ s.desk.entries, e.Serves c) ∧ ∀ c', s.Owes c' → c.entry.Serves c'

/-- The host link has room for a reply that is matched, and no bench keeps it. -/
def Passes (s : Master) : Action → Prop
  | .bus =>
      ∀ addr ∈ s.slotOf, ∀ f ∈ s.wire.rx.head?, ∀ body ∈ f.shellReply,
        (s.desk.correlate addr body).isSome = true → s.desk.Accepts f
  | _ => True

instance (s : Master) (a : Action) : Decidable (Passes s a) := by
  unfold Passes
  split <;> infer_instance

theorem le16_mod (v : Nat) : le16 (v % 2 ^ 16) = le16 v := by
  simp only [le16, List.cons.injEq, and_true]
  omega

theorem readLe16_le16 (v : Nat) (rest : Bytes) : readLe16 (le16 v ++ rest) = v % 2 ^ 16 := by
  simp only [readLe16, le16, List.cons_append, List.getD_cons_zero, List.getD_cons_succ]
  omega

/-- What is made of a reply for an entry that serves its command. -/
theorem CorrEntry.Serves.relayed {c : Command} (h : e.Serves c) (hmatch : e.Matches c) {d : Desk}
    (hrun : d.ppRun = false) (body : Bytes) :
    (if e.isOrig then d.originReply e.hostReq body else some (hostReply e.addr body)) =
      some (c.relayed body) := by
  obtain ⟨hparty, hhost⟩ := h hmatch
  cases horig : e.isOrig with
  | true =>
      have hretag : retag e.hostReq body = retag c.hostReq body := by
        unfold retag
        rw [hhost horig, le16_mod]
      simp [Desk.originReply, hrun, Command.relayed, hparty.mp horig, hretag]
  | false =>
      have hnot : c.party ≠ .engine := fun hc => by
        rw [hparty.mpr hc] at horig
        cases horig
      cases hc : c.party with
      | engine => exact absurd hc hnot
      | host => simp [Command.relayed, hc, hmatch.2]

theorem Desk.Accepts.relayed {d d' : Desk} {f : Frame} {body : Bytes} (h : d.Accepts f)
    (hreply : f.shellReply = some body) (hroom : d'.room = d.room) (c : Command) :
    d'.takes (c.relayed body) = true := by
  unfold Command.relayed
  cases c.party with
  | host => exact h.host hreply hroom c.addr
  | engine => exact h.origin hreply hroom c.hostReq

/-! ## What hearing a frame does -/

/-- A frame in a slot leaves the entries alone or is matched with one. -/
inductive Hearing (d : Desk) (addr : Nat) (f : Frame) : Desk → Prop
  /-- The frame is no reply of the node, or none that is matched. -/
  | other {d' : Desk} (hcorr : d'.corr = d.corr)
      (hrelays : d'.relays = d.relays ∨ ∃ sent staged,
        d'.relays = d.relays ++ [{ frame := f, route := .direct, sent, staged }])
      (hheard : d'.heard = d.heard ∨ ∃ body, f.src = addr ∧ f.shellReply = some body ∧
        d'.heard = d.heard ++ [f] ∧ d.correlate addr body = none) : Hearing d addr f d'
  | matched (body : Bytes) (e : CorrEntry) (corr : List (Option CorrEntry)) (hsrc : f.src = addr)
      (hreply : f.shellReply = some body) (htake : d.correlate addr body = some (e, corr)) :
      Hearing d addr f (Desk.relay { d with heard := d.heard ++ [f], corr } f .correlated
        (if e.isOrig then d.originReply e.hostReq body else some (hostReply addr body)))

theorem heard_s2m (d : Desk) (f : HostFrame) :
    (d.s2m f).heard = d.heard ∧ (d.s2m f).corr = d.corr := by
  unfold Desk.s2m
  split <;> exact ⟨rfl, rfl⟩

theorem heard_emitFeedback (d : Desk) :
    d.emitFeedback.heard = d.heard ∧ d.emitFeedback.corr = d.corr := by
  unfold Desk.emitFeedback
  dsimp only
  split
  · exact heard_s2m { d with collecting := false } _
  · exact ⟨rfl, rfl⟩

theorem heard_acknowledge (d : Desk) (slave reqId : Nat) (f : Frame) :
    (d.acknowledge slave reqId f).heard = d.heard ∧
      (d.acknowledge slave reqId f).corr = d.corr := by
  unfold Desk.acknowledge
  split
  · exact heard_s2m ..
  · split
    · exact heard_s2m ..
    · exact ⟨rfl, rfl⟩

theorem heard_relay (d : Desk) (frame : Frame) (route : Route) (sent : Option HostFrame) :
    (d.relay frame route sent).heard = d.heard ∧ (d.relay frame route sent).corr = d.corr := by
  cases sent with
  | none => exact ⟨rfl, rfl⟩
  | some f => exact heard_s2m d f

theorem relays_relay (d : Desk) (frame : Frame) (route : Route) (sent : Option HostFrame) :
    (d.relay frame route sent).relays =
      d.relays ++ [{ frame, route, sent, staged := sent.any d.takes }] := by
  cases sent <;> rfl

theorem hearing_slotFrame (d : Desk) (addr : Nat) (f : Frame) :
    Hearing d addr f (d.slotFrame addr f) := by
  unfold Desk.slotFrame
  split
  · next hsrc =>
      cases hreply : f.shellReply with
      | none =>
          rw [Desk.handleSlotFrame, hreply]
          exact .other rfl (Or.inl rfl) (Or.inl rfl)
      | some body =>
          cases htake : d.correlate addr body with
          | some r =>
              obtain ⟨e, corr⟩ := r
              have htake' : Desk.correlate { d with heard := d.heard ++ [f] } addr body =
                some (e, corr) := htake
              simp only [Desk.handleSlotFrame, hreply, htake']
              exact .matched body e corr hsrc hreply htake
          | none =>
              have htake' : Desk.correlate { d with heard := d.heard ++ [f] } addr body = none :=
                htake
              have hheard : d.heard ++ [f] = d.heard ++ [f] ∧ d.correlate addr body = none :=
                ⟨rfl, htake⟩
              simp only [Desk.handleSlotFrame, hreply, htake']
              split
              · unfold Desk.batch
                split
                · exact .other rfl (Or.inl rfl) (Or.inr ⟨body, hsrc, hreply, hheard⟩)
                · exact .other rfl (Or.inl rfl) (Or.inr ⟨body, hsrc, hreply, hheard⟩)
              · have hrelay := heard_relay { d with heard := d.heard ++ [f] } f .direct
                  (some (hostReply addr body))
                refine .other hrelay.2 (Or.inr ?_) (Or.inr ⟨body, hsrc, hreply, hrelay.1, htake⟩)
                exact ⟨_, _, relays_relay ..⟩
  · exact .other rfl (Or.inl rfl) (Or.inl rfl)

/-! ## Runs -/

/-- Every entry serves every command that can still be answered. -/
structure Addressed (s : Master) : Prop where
  own : s.wire.OwnFrames
  genuine : s.wire.Genuine
  slot : s.pc.perSlot = false
  serves : ∀ c, s.Owes c → ∀ e ∈ s.desk.entries, e.Serves c
  relays : ∀ r ∈ s.desk.relays, r.ToRequester

variable {s : Master}

/-- The request id a reply to a command carries. -/
theorem reply_body {c : Command} {rest body : Bytes}
    (h : (c.reply rest).shellReply = some body) : readLe16 body = c.req % 2 ^ 16 := by
  rw [shellReply_reply] at h
  cases h
  exact readLe16_le16 c.req rest

/-- The entry a reply is matched with matches its command. -/
theorem matches_of_correlate {d : Desk} {f : Frame} {body : Bytes} {c : Command}
    {rest : Bytes} (hf : f = c.reply rest) (hsrc : f.src = addr)
    (hreply : f.shellReply = some body) (htake : d.correlate addr body = some (e, corr)) :
    e ∈ d.entries ∧ e.Matches c := by
  unfold Desk.correlate at htake
  split at htake
  · obtain ⟨hreq, haddr, hperm⟩ := corrTake_eq_some htake
    subst hf
    exact ⟨hperm.mem_iff.mpr List.mem_cons_self, hreq.trans (reply_body hreply),
      haddr.trans hsrc.symm⟩
  · cases htake

theorem Addressed.relays_step {a : Action} (h : Addressed s) (hpasses : Passes s a) :
    ∀ r ∈ (step s a).desk.relays, r.ToRequester := by
  have hdesk := deskStep_step s a
  generalize (step s a).desk = d at hdesk ⊢
  cases hdesk with
  | emitted => exact relays_emitFeedback s.desk ▸ h.relays
  | acknowledged cmd c f => exact (replies_acknowledge s.desk cmd.slave s.cmd.reqId f).1 ▸ h.relays
  | collected c f body hpc =>
      have hslot := h.slot
      rw [hpc] at hslot
      cases hslot
  | heard addr f hslot hrx =>
      have hhearing := hearing_slotFrame s.desk addr f
      generalize s.desk.slotFrame addr f = d at hhearing ⊢
      intro r hr
      cases hhearing with
      -- what is relayed without an entry is no reply to a requester
      | other _ hrelays =>
          rcases hrelays with hrelays | ⟨sent, staged, hrelays⟩
          · exact h.relays r (hrelays ▸ hr)
          · rw [hrelays] at hr
            rcases List.mem_append.mp hr with hr | hr
            · exact h.relays r hr
            · rw [List.mem_singleton.mp hr]
              intro hroute
              cases hroute
      | matched body e corr hsrc hreply htake =>
          -- the entry taken names the party and the id the command came with
          have haccepts := hpasses addr hslot f hrx body hreply (by rw [htake]; rfl)
          rw [relays_relay] at hr
          intro hroute c hanswers
          rcases List.mem_append.mp hr with hr | hr
          · exact h.relays r hr hroute c hanswers
          · rw [List.mem_singleton] at hr
            subst hr
            have hcarries : s.wire.Carries f := Or.inr (Or.inl (List.mem_of_mem_head? hrx))
            have hsome : f.shellReply ≠ none := by simp [hreply]
            obtain ⟨rest, hf⟩ := h.genuine f hcarries hsome c hanswers
            obtain ⟨hmem, hmatch⟩ := matches_of_correlate hf hsrc hreply htake
            have hserves := h.serves c (.reply f hcarries hsome hanswers) e hmem
            have hsent := hserves.relayed hmatch haccepts.2.1 body
            have haddr : c.addr = addr := (congrArg Frame.src hf).symm.trans hsrc
            rw [hmatch.2, haddr] at hsent
            refine ⟨body, hreply, hsent, ?_⟩
            dsimp only
            rw [hsent, Option.any_some]
            exact haccepts.relayed hreply rfl c
  | _ => exact h.relays

/-- The entries in use after a step: those from before, and that of a command issued. -/
theorem entries_step {a : Action} (hslot : s.pc.perSlot = false) {e : CorrEntry}
    (he : e ∈ (step s a).desk.entries) :
    e ∈ s.desk.entries ∨ ∃ c, s.issues a = some c ∧ e = c.entry := by
  have hdesk := deskStep_step s a
  generalize (step s a).desk = d at hdesk he
  have hsame {d : Desk} (hcorr : d.corr = s.desk.corr) (he : e ∈ d.entries) :
      e ∈ s.desk.entries := by
    rwa [Desk.entries, hcorr] at he
  cases hdesk with
  | dropped =>
      have hnone : (List.replicate cmdcorrMax (none : Option CorrEntry)).reduceOption = [] := rfl
      rw [Desk.entries, hnone] at he
      cases he
  | registered c corr hissues hadd =>
      rcases List.mem_cons.mp ((corrAdd_eq_some hadd).mem_iff.mp he) with he | he
      · exact Or.inr ⟨c, hissues, he⟩
      · exact Or.inl he
  | emitted => exact Or.inl (hsame (heard_emitFeedback s.desk).2 he)
  | heard addr f =>
      left
      have hhearing := hearing_slotFrame s.desk addr f
      generalize s.desk.slotFrame addr f = d at hhearing he
      cases hhearing with
      | other hcorr => exact hsame hcorr he
      | matched body e' corr hsrc hreply htake =>
          unfold Desk.correlate at htake
          split at htake
          · rw [Desk.entries, (heard_relay ..).2] at he
            exact (corrTake_eq_some htake).2.2.mem_iff.mpr (List.mem_cons_of_mem _ he)
          · cases htake
  | acknowledged cmd c f => exact Or.inl (hsame (heard_acknowledge ..).2 he)
  | collected c f body hpc =>
      rw [hpc] at hslot
      cases hslot
  | _ => exact Or.inl he

theorem addressed_step {a : Action} (h : Addressed s) (hcyclic : Cyclic s a) (hids : OwnIds s a)
    (hpasses : Passes s a) : Addressed (step s a) := by
  refine ⟨ownFrames_step s h.own a, genuine_step a h.own h.genuine, perSlot_step h.slot hcyclic, ?_,
    h.relays_step hpasses⟩
  intro c howes e he
  rcases owes_step h.own h.slot howes with howes | hc
  · rcases entries_step h.slot he with he | ⟨c', hc', rfl⟩
    · exact h.serves c howes e he
    · exact (hids c' hc').2 c howes
  · rcases entries_step h.slot he with he | ⟨c', hc', rfl⟩
    · exact (hids c hc).1 e he
    · obtain rfl : c' = c := Option.some.inj (hc'.symm.trans hc)
      exact serves_entry c'

/-- Where no two requesters use one request id for one node at a time, every reply that
is matched goes to the requester of its command. -/
theorem replies_reach_requesters_when_ids_apart (room : Nat) (cfg : Option RosterCfg)
    (as : List Action) (hcyclic : Along step Cyclic (boot room cfg) as)
    (hids : Along step OwnIds (boot room cfg) as)
    (hpasses : Along step Passes (boot room cfg) as) :
    ∀ r ∈ (run step (boot room cfg) as).desk.relays, r.ToRequester := by
  have hwire : (boot room cfg).wire = {} := by cases cfg <;> rfl
  have hdesk : (boot room cfg).desk = {} := by cases cfg <;> rfl
  have hpc : (boot room cfg).pc = .top := by cases cfg <;> rfl
  have hboot : Addressed (boot room cfg) := by
    refine ⟨by simp [Wire.OwnFrames, hwire], ?_, by rw [hpc]; rfl,
      fun c hc => absurd hc (not_owes_boot room cfg c), by simp [hdesk]⟩
    simp [Wire.Genuine, Wire.Carries, hwire]
  have hall := (hcyclic.and hids).and hpasses
  exact (run_along (P := Addressed) (fun _ _ h hc => addressed_step h hc.1.1 hc.1.2 hc.2) hall
    hboot).relays

/-- Commands still to be answered after a run were so before it or are issued by it. -/
theorem owes_run {R : Command → Prop} {as : List Action} (hown : s.wire.OwnFrames)
    (hslot : s.pc.perSlot = false) (hcyclic : Along step Cyclic s as)
    (hissues : Along step (fun s a => ∀ c ∈ s.issues a, R c) s as) (h : ∀ c, s.Owes c → R c) :
    ∀ c, (run step s as).Owes c → R c := by
  have hall : (run step s as).wire.OwnFrames ∧ (run step s as).pc.perSlot = false ∧
      ∀ c, (run step s as).Owes c → R c := by
    refine run_along (P := fun s => s.wire.OwnFrames ∧ s.pc.perSlot = false ∧ ∀ c, s.Owes c → R c)
      ?_ (hcyclic.and hissues) ⟨hown, hslot, h⟩
    rintro s a ⟨hown, hslot, h⟩ ⟨hcyclic, hissues⟩
    refine ⟨ownFrames_step s hown a, perSlot_step hslot hcyclic, fun c hc => ?_⟩
    exact (owes_step hown hslot hc).elim (h c) (hissues c)
  exact hall.2.2

/-- The host commands node 5 under id 9. -/
def hostCommand : Command := { id := 1, party := .host, req := 9, hostReq := 9, addr := 5 }

/-- An origination for the node at address 5 is sent, and the host has a command for it. -/
def bothIssued : List Action :=
  List.replicate 3 (.send 0) ++ [.busMsg 5 opShellExec [9, 0]] ++ List.replicate 2 .bus

/-- The command is sent too, and the node answers both. -/
def bothAnswered : List Action :=
  List.replicate 23 .bus ++ [.answer hostCommand [0, 0], .answer (echoCommand 0) [0, 0], .bus] ++
    List.replicate 5 .arrive ++ List.replicate 5 .bus

theorem replies_reach_requesters_when_ids_apart_two :
    let as := .originate 0 5 70 [] :: bothIssued ++ .bus :: bothAnswered
    let s := run step (boot 24 oneNode) as
    s.desk.relays.map (fun r => r.sent.map (·.dest)) = [some 5, some busAddrAppcore] ∧
      ∀ r ∈ s.desk.relays, r.ToRequester := by
  intro as s
  have hcyclic : Along step Cyclic (boot 24 oneNode) as := by decide +kernel
  have hfirst : Along step (fun s a => ∀ c ∈ s.issues a, c.req = 1) (boot 24 oneNode)
      (.originate 0 5 70 [] :: bothIssued) := by
    decide +kernel
  have howes : ∀ c, (run step (boot 24 oneNode) (.originate 0 5 70 [] :: bothIssued)).Owes c →
      c.req = 1 :=
    owes_run (by simp [Wire.OwnFrames, boot, Master.loadCfgRoster, oneNode]) rfl
      (along_append.mp hcyclic).1 hfirst fun c hc => absurd hc (not_owes_boot _ _ c)
  have hids : Along step OwnIds (boot 24 oneNode) as := by
    refine along_append.mpr ⟨⟨fun c _ => ⟨fun e he => ?_, fun c' hc' => ?_⟩, ?_⟩, ⟨?_, ?_⟩⟩
    · cases (show (boot 24 oneNode).desk.entries = [] from rfl) ▸ he
    · exact absurd hc' (not_owes_boot _ _ _)
    · have hnone : Along step (fun s a => s.issues a = none)
          (step (boot 24 oneNode) (.originate 0 5 70 [])) bothIssued := by
        decide +kernel
      exact hnone.imp fun s a hnone c hc => by cases hnone.symm.trans hc
    · intro c hc
      have hissued : (run step (boot 24 oneNode) (.originate 0 5 70 [] :: bothIssued)).issues .bus =
          some hostCommand := by
        decide +kernel
      obtain rfl : hostCommand = c := Option.some.inj (hissued.symm.trans hc)
      refine ⟨by decide +kernel, fun c' hc' hmatches => ?_⟩
      have hreq := hmatches.1
      rw [howes c' hc'] at hreq
      cases hreq
    · have hnone : Along step (fun s a => s.issues a = none)
          (step (run step (boot 24 oneNode) (.originate 0 5 70 [] :: bothIssued)) .bus)
          bothAnswered := by
        decide +kernel
      exact hnone.imp fun s a hnone c hc => by cases hnone.symm.trans hc
  exact ⟨by decide +kernel, replies_reach_requesters_when_ids_apart 24 oneNode as hcyclic hids
    (by decide +kernel)⟩

/-- The host commands the same node under the request id the master mints for the
origination. -/
def sameId : List Action :=
  .originate 0 5 70 [] :: List.replicate 3 (.send 0) ++ [.busMsg 5 opShellExec [1, 0]] ++
    List.replicate 26 .bus ++
    [.answer { id := 1, party := .host, req := 1, hostReq := 1, addr := 5 } [0, 0], .bus] ++
    List.replicate 4 .arrive ++ List.replicate 4 .bus

/-- The reply to the host's command goes to the application core. -/
theorem not_always_to_requester :
    ¬∀ (room : Nat) (cfg : Option RosterCfg) (as : List Action),
      Along step Cyclic (boot room cfg) as → Along step Passes (boot room cfg) as →
        ∀ r ∈ (run step (boot room cfg) as).desk.relays, r.ToRequester := by
  intro h
  have hrelays : (run step (boot 24 oneNode) sameId).desk.relays =
      [{ frame := { src := 5, type := .data, payload := [17, 0, 1, 0, 0, 0]
                    answers := some { id := 1, party := .host, req := 1, hostReq := 1, addr := 5 } }
         route := .correlated
         sent := some { dest := busAddrAppcore, opcode := opShellReply, payload := [70, 0, 0, 0] }
         staged := true }] := by
    decide +kernel
  have hto := h 24 oneNode sameId (by decide +kernel) (by decide +kernel)
  rw [hrelays] at hto
  obtain ⟨body, -, hsent, -⟩ := hto _ List.mem_cons_self rfl _ rfl
  cases hsent

end SlowBus.Arbiter
