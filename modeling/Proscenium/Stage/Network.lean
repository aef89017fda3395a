import Proscenium.Lib.Machine
import Proscenium.Stage.ActorSteps
import Proscenium.Stage.SenderBinding

/-! The nodes that hold stages together. What a node broadcasts is signed, and may
reach each of the others late, out of order, or more than once. -/

namespace Proscenium.Stage

open Proscenium.Types

section Defs

variable {ι : Type*}

/-- What the creator of a stage may say besides: no command sends it. -/
inductive HostWord where
  | muteSpeaker
  | kick
  | ban
  | coHost
  deriving DecidableEq, Repr

def HostWord.control (stageId pubkey : String) (now : UInt64) : HostWord → StageControl
  | .muteSpeaker => .muteSpeaker stageId pubkey
  | .kick => .kick stageId pubkey
  | .ban => .ban stageId pubkey
  | .coHost => .presence stageId pubkey .coHost now none

structure Envelope (ι : Type*) where
  sender : ι
  signed : SignedStageControl

/-- The nodes, all that was broadcast, and the tickets that were handed out, by whom. -/
structure StageNet (ι : Type*) where
  nodes : ι → StageActor
  sent : List (Envelope ι)
  issued : List (ι × StageTicket)

inductive NetInput (ι : Type*) where
  | act (i : ι) (cmd : StageCommand) (now : UInt64)
  | say (i : ι) (word : HostWord) (pubkey : String) (now : UInt64)
  /-- The `n`-th of the messages reaches some nodes. -/
  | deliver (n : ℕ) (receivers : List ι) (now : UInt64)

def StageActor.hear (S : SignatureCrates) (signed : SignedStageControl) (now : UInt64) (a : StageActor) :
    StageActor × List StageControl :=
  match a.active with
  | none => (a, [])
  | some stage => a.receive S stage.stageId signed now

namespace StageNet

variable (C : StageCrates)

def new (identities : ι → StageIdentity) : StageNet ι := ⟨fun i => .new (identities i), [], []⟩

/-- `generate_id` draws a new id; tickets are those that were handed out. -/
def admits (net : StageNet ι) : StageCommand → Bool
  | .createStage _ stageId => net.issued.all fun t => t.2.stageId ≠ stageId
  | .joinStage ticket => net.issued.any fun t => t.2 = ticket
  | _ => true

def issuedBy (i : ι) (a : StageActor) : StageCommand → List (ι × StageTicket)
  | .createStage .. => (a.active.bind (·.ticket)).toList.map fun ticket => (i, ticket)
  | _ => []

def broadcast (i : ι) (now : UInt64) (controls : List StageControl) (net : StageNet ι) :
    List (Envelope ι) :=
  controls.map fun control => ⟨i, (net.nodes i).sign C control now⟩

variable [DecidableEq ι]

def step (net : StageNet ι) : NetInput ι → Option (StageNet ι)
  | .act i cmd now =>
    if net.admits cmd then
      match (net.nodes i).handle C cmd now with
      | .error _ => some net
      | .ok (a, out) => some {
          nodes := Function.update net.nodes i a
          sent := net.sent ++ net.broadcast C i now out
          issued := net.issued ++ issuedBy i a cmd }
    else none
  | .say i word pubkey now =>
    match (net.nodes i).active with
    | none => none
    | some stage =>
      if stage.ticket.isSome then
        some { net with sent := net.sent ++ net.broadcast C i now [word.control stage.stageId pubkey now] }
      else none
  | .deliver n receivers now =>
    match net.sent[n]? with
    | none => none
    | some e =>
      let heard := fun j => (net.nodes j).hear C.toSignatureCrates e.signed now
      some { net with
        nodes := fun j => if j ∈ receivers ∧ j ≠ e.sender then (heard j).1 else net.nodes j
        sent := net.sent ++
          (receivers.filter (· ≠ e.sender)).flatMap fun j => net.broadcast C j now (heard j).2 }

end StageNet

end Defs

section Speaks

def hostOnly : StageControl → Bool
  | .promoteSpeaker .. | .demoteSpeaker .. | .muteSpeaker .. | .kick .. | .ban .. | .relayAssignment ..
  | .ended .. => true
  | _ => false

def Leads (stage : ActiveStage) : Prop :=
  stage.myRole = .host ∨ stage.myRole = .coHost ∨ stage.ticket.isSome = true

/-- A node asks a flag for its signing key only, and speaks as a moderator of its own stage only. -/
structure Speaks (C : StageCrates) (a : StageActor) (control : StageControl) : Prop where
  own : ∀ pubkey f, flagOf control = some (pubkey, f) → pubkey = a.signingPubkey C
  authority : hostOnly control = true →
    ∃ stage, a.active = some stage ∧ stageIdOf control = stage.stageId ∧ Leads stage

variable {C : StageCrates} {a a' : StageActor} {stage : ActiveStage} {control : StageControl} {now : UInt64}
  {out : List StageControl}

theorem speaks_of_plain (hflag : flagOf control = none) (hplain : hostOnly control = false) :
    Speaks C a control :=
  ⟨fun _ _ h => absurd (hflag.symm.trans h).symm (Option.some_ne_none _),
    fun h => absurd (hplain.symm.trans h) Bool.false_ne_true⟩

theorem speaks_of_own {f : Participant → Participant} (hflag : flagOf control = some (a.signingPubkey C, f))
    (hplain : hostOnly control = false) : Speaks C a control := by
  refine ⟨fun pubkey g h => ?_, fun h => absurd (hplain.symm.trans h) Bool.false_ne_true⟩
  exact (Prod.mk.inj (Option.some.inj (hflag.symm.trans h))).1.symm

theorem speaks_of_leads (hflag : flagOf control = none) (hactive : a.active = some stage)
    (hid : stageIdOf control = stage.stageId) (hleads : Leads stage) : Speaks C a control :=
  ⟨fun _ _ h => absurd (hflag.symm.trans h).symm (Option.some_ne_none _),
    fun _ => ⟨stage, hactive, hid, hleads⟩⟩

/-- What a command broadcasts, and how it leaves the actor. -/
inductive Broadcasts (C : StageCrates) (a a' : StageActor) : StageCommand → StageControl → Prop where
  | plain {cmd : StageCommand} {control : StageControl} (hflag : flagOf control = none)
      (hplain : hostOnly control = false) : Broadcasts C a a' cmd control
  | raiseHand {stage : ActiveStage} (hactive : a.active = some stage) (h : a' = a) :
      Broadcasts C a a' .raiseHand (.raiseHand stage.stageId (a.signingPubkey C))
  | lowerHand {stage : ActiveStage} (hactive : a.active = some stage) (h : a' = a) :
      Broadcasts C a a' .lowerHand (.lowerHand stage.stageId (a.signingPubkey C))
  | toggleSelfMute {stage : ActiveStage} (hactive : a.active = some stage)
      (h : a' = a.withStage { stage with selfMuted := !stage.selfMuted }) :
      Broadcasts C a a' .toggleSelfMute
        (.selfMuteToggle stage.stageId (a.signingPubkey C) (!stage.selfMuted))
  | promoteSpeaker {stage : ActiveStage} {pubkey : String} (hactive : a.active = some stage)
      (hleads : Leads stage) (h : a' = a.withStage (stage.setRole pubkey .speaker)) :
      Broadcasts C a a' (.promoteSpeaker pubkey) (.promoteSpeaker stage.stageId pubkey)
  | demoteSpeaker {stage : ActiveStage} {pubkey : String} (hactive : a.active = some stage)
      (hleads : Leads stage) (h : a' = a.withStage (stage.setRole pubkey .listener)) :
      Broadcasts C a a' (.demoteSpeaker pubkey) (.demoteSpeaker stage.stageId pubkey)
  | endStage {stage : ActiveStage} (hactive : a.active = some stage) (hleads : Leads stage)
      (h : a'.active = none) : Broadcasts C a a' .endStage (.ended stage.stageId)

theorem handle_broadcasts {cmd : StageCommand} (h : a.handle C cmd now = .ok (a', out)) :
    ∀ control ∈ out, Broadcasts C a a' cmd control := by
  cases cmd with
  | createStage title stageId =>
    rw [StageActor.handle, StageActor.createStage] at h
    split at h <;> cases h
    exact List.forall_mem_cons.mpr ⟨.plain rfl rfl, List.forall_mem_singleton.mpr (.plain rfl rfl)⟩
  | joinStage ticket =>
    rw [StageActor.handle, StageActor.joinStage] at h
    split at h <;> cases h
    exact List.forall_mem_singleton.mpr (.plain rfl rfl)
  | leaveStage =>
    obtain ⟨_, _, h⟩ := Checks.bind_eq_ok.mp h
    cases h
    exact fun _ hc => absurd hc List.not_mem_nil
  | endStage =>
    obtain ⟨stage, hs, h⟩ := Checks.bind_eq_ok.mp h
    split at h
    next hrole =>
      cases h
      have hactive := StageActor.inStage_eq_ok.mp hs
      exact List.forall_mem_singleton.mpr (.endStage hactive (.inl hrole) rfl)
    next => cases h
  | promoteSpeaker pubkey =>
    obtain ⟨stage, hs, h⟩ := Checks.bind_eq_ok.mp h
    cases h
    obtain ⟨hactive, hrole⟩ := StageActor.requireHostActive_eq_ok.mp hs
    exact List.forall_mem_singleton.mpr (.promoteSpeaker hactive (hrole.imp id .inl) rfl)
  | demoteSpeaker pubkey =>
    obtain ⟨stage, hs, h⟩ := Checks.bind_eq_ok.mp h
    cases h
    obtain ⟨hactive, hrole⟩ := StageActor.requireHostActive_eq_ok.mp hs
    exact List.forall_mem_singleton.mpr (.demoteSpeaker hactive (hrole.imp id .inl) rfl)
  | volunteerAsRelay capacity =>
    obtain ⟨stage, hs, h⟩ := Checks.bind_eq_ok.mp h
    split at h <;> cases h
    exact List.forall_mem_singleton.mpr (.plain rfl rfl)
  | raiseHand =>
    obtain ⟨stage, hs, h⟩ := Checks.bind_eq_ok.mp h
    cases h
    exact List.forall_mem_singleton.mpr (.raiseHand (StageActor.requireActive_eq_ok.mp hs) rfl)
  | lowerHand =>
    obtain ⟨stage, hs, h⟩ := Checks.bind_eq_ok.mp h
    cases h
    exact List.forall_mem_singleton.mpr (.lowerHand (StageActor.requireActive_eq_ok.mp hs) rfl)
  | toggleSelfMute =>
    obtain ⟨stage, hs, h⟩ := Checks.bind_eq_ok.mp h
    cases h
    exact List.forall_mem_singleton.mpr (.toggleSelfMute (StageActor.inStage_eq_ok.mp hs) rfl)
  | sendReaction emoji | sendChat text =>
    obtain ⟨stage, hs, h⟩ := Checks.bind_eq_ok.mp h
    cases h
    exact List.forall_mem_singleton.mpr (.plain rfl rfl)
  | sweepPresence =>
    rw [StageActor.handle, StageActor.sweepPresence] at h
    split at h <;> cases h <;> exact fun _ hc => absurd hc List.not_mem_nil
  | heartbeat =>
    rw [StageActor.handle, StageActor.sendHeartbeat] at h
    split at h <;> cases h
    · exact fun _ hc => absurd hc List.not_mem_nil
    · exact List.forall_mem_singleton.mpr (.plain rfl rfl)

theorem Broadcasts.speaks {cmd : StageCommand} (h : Broadcasts C a a' cmd control) :
    Speaks C a control := by
  cases h with
  | plain hflag hplain => exact speaks_of_plain hflag hplain
  | raiseHand | lowerHand | toggleSelfMute => exact speaks_of_own rfl rfl
  | promoteSpeaker hactive hleads | demoteSpeaker hactive hleads | endStage hactive hleads =>
    exact speaks_of_leads rfl hactive rfl hleads

theorem takeRelay_speaks (hactive : a.active = some stage) (relayPubkey relayNodeId : String)
    (capacity : UInt32) :
    ∀ control ∈ (a.takeRelay relayPubkey relayNodeId capacity stage).2, Speaks C a control := by
  unfold StageActor.takeRelay
  split
  next hrole _ =>
    dsimp only
    split
    · exact fun _ hc => absurd hc List.not_mem_nil
    · exact List.forall_mem_singleton.mpr (speaks_of_leads rfl hactive rfl (.inl hrole))
  next => exact fun _ hc => absurd hc List.not_mem_nil

theorem handleControl_speaks (signed : SignedStageControl) (now : UInt64) :
    ∀ control ∈ (a.handleControl signed now).2, Speaks C a control := by
  rw [StageActor.handleControl]
  split
  next => exact fun _ hc => absurd hc List.not_mem_nil
  next stage hactive =>
    cases signed.control with
    | relayVolunteer => exact takeRelay_speaks hactive _ _ _
    | _ => exact fun _ hc => absurd hc List.not_mem_nil

end Speaks

section Invariant

variable {ι : Type*} {C : StageCrates} {identities : ι → StageIdentity} {i : ι} {t : ι × StageTicket}
  {a a' : StageActor} {stage stage' : ActiveStage}

/-- A node is in a stage by the ticket that it made, or that it was given. -/
inductive Seat (i : ι) (stage : ActiveStage) : ι × StageTicket → Prop where
  | creator {ticket : StageTicket} (hid : stage.stageId = ticket.stageId)
      (hticket : stage.ticket = some ticket) : Seat i stage (i, ticket)
  | guest {t : ι × StageTicket} (hid : stage.stageId = t.2.stageId)
      (hhost : stage.hostPubkey = t.2.hostPubkey) (hticket : stage.ticket = none)
      (hrole : stage.myRole = .speaker ∨ stage.myRole = .listener) : Seat i stage t

theorem Seat.stageId (h : Seat i stage t) : stage.stageId = t.2.stageId := by
  cases h with
  | creator hid _ => exact hid
  | guest hid _ _ _ => exact hid

theorem Seat.keeps (h : Seat i stage t) (hkept : KeepsSeat stage stage') : Seat i stage' t := by
  cases h with
  | creator hid hticket => exact .creator (hkept.stageId.trans hid) (hkept.ticket.trans hticket)
  | guest hid hhost hticket hrole =>
    have hrole' : stage'.myRole = .speaker ∨ stage'.myRole = .listener :=
      hkept.myRole.elim (fun hsame => hsame ▸ hrole) id
    exact .guest (hkept.stageId.trans hid) (hkept.hostPubkey.trans hhost) (hkept.ticket.trans hticket) hrole'

theorem Seat.eq_of_leads (h : Seat i stage t) (hleads : Leads stage) : t.1 = i := by
  cases h with
  | creator => rfl
  | guest _ _ hticket hrole =>
    rw [Leads, hticket] at hleads
    rcases hrole with hrole | hrole <;> rw [hrole] at hleads <;> rcases hleads with h | h | h <;> cases h

theorem Seat.hostPubkey (h : Seat i stage t) (hne : t.1 ≠ i) : stage.hostPubkey = t.2.hostPubkey := by
  cases h with
  | creator => exact absurd rfl hne
  | guest _ hhost _ _ => exact hhost

/-- A message as the code makes it. -/
structure Sent (C : StageCrates) (identities : ι → StageIdentity) (issued : List (ι × StageTicket))
    (e : Envelope ι) : Prop where
  signed : ∃ (a : StageActor) (now : UInt64),
    a.identity = identities e.sender ∧ e.signed = a.sign C e.signed.control now
  own : ∀ pubkey f, flagOf e.signed.control = some (pubkey, f) →
    pubkey = C.publicText (identities e.sender).signingKey
  authority : hostOnly e.signed.control = true →
    ∃ t ∈ issued, t.1 = e.sender ∧ t.2.stageId = stageIdOf e.signed.control

/-- What holds of honest nodes, whatever they do and whenever they hear of it. -/
structure Honest (C : StageCrates) (identities : ι → StageIdentity) (net : StageNet ι) : Prop where
  identity : ∀ i, (net.nodes i).identity = identities i
  hosts : ∀ t ∈ net.issued, t.2.hostPubkey = C.publicText (identities t.1).signingKey
  unique : ∀ t ∈ net.issued, ∀ u ∈ net.issued, t.2.stageId = u.2.stageId → t = u
  seats : ∀ i stage, (net.nodes i).active = some stage → ∃ t ∈ net.issued, Seat i stage t
  sent : ∀ e ∈ net.sent, Sent C identities net.issued e

theorem Sent.mono {issued issued' : List (ι × StageTicket)} {e : Envelope ι}
    (h : Sent C identities issued e) (hsubset : ∀ t ∈ issued, t ∈ issued') :
    Sent C identities issued' e := by
  refine ⟨h.signed, h.own, fun hhost => ?_⟩
  obtain ⟨t, ht, hrest⟩ := h.authority hhost
  exact ⟨t, hsubset t ht, hrest⟩

variable {net net' : StageNet ι}

theorem Honest.signingPubkey (h : Honest C identities net) (i : ι) :
    (net.nodes i).signingPubkey C = C.publicText (identities i).signingKey := by
  rw [StageActor.signingPubkey, h.identity i]

theorem Honest.broadcast (h : Honest C identities net) (i : ι) (now : UInt64) {out : List StageControl}
    (hspeaks : ∀ control ∈ out, Speaks C (net.nodes i) control) :
    ∀ e ∈ net.broadcast C i now out, Sent C identities net.issued e := by
  intro e he
  obtain ⟨control, hcontrol, rfl⟩ := List.mem_map.mp he
  refine ⟨⟨net.nodes i, now, h.identity i, rfl⟩, fun pubkey f hflag => ?_, fun hhost => ?_⟩
  · exact ((hspeaks control hcontrol).own pubkey f hflag).trans (h.signingPubkey i)
  · obtain ⟨stage, hactive, hid, hleads⟩ := (hspeaks control hcontrol).authority hhost
    obtain ⟨t, ht, hseat⟩ := h.seats i stage hactive
    exact ⟨t, ht, hseat.eq_of_leads hleads, hseat.stageId.symm.trans hid.symm⟩

theorem hear_keeps (S : SignatureCrates) (signed : SignedStageControl) (now : UInt64) (a : StageActor) :
    (a.hear S signed now).1.identity = a.identity ∧
      ∀ stage', (a.hear S signed now).1.active = some stage' →
        ∃ stage, a.active = some stage ∧ KeepsSeat stage stage' := by
  unfold StageActor.hear StageActor.receive
  split
  next hactive =>
    exact ⟨rfl, fun stage' h => absurd (hactive.symm.trans h) (Option.some_ne_none _).symm⟩
  next stage hactive =>
    split
    next =>
      have hkept := handleControl_keepsSeat hactive signed now
      exact ⟨hkept.1, fun stage' h => ⟨stage, hactive, hkept.2 stage' h⟩⟩
    next => exact ⟨rfl, fun stage' h => ⟨stage', h, (KeepsStage.refl stage').toKeepsSeat⟩⟩

theorem hear_speaks (S : SignatureCrates) (signed : SignedStageControl) (now : UInt64) (a : StageActor) :
    ∀ control ∈ (a.hear S signed now).2, Speaks C a control := by
  unfold StageActor.hear StageActor.receive
  split
  next => exact fun _ hc => absurd hc List.not_mem_nil
  next =>
    split
    next => exact handleControl_speaks signed now
    next => exact fun _ hc => absurd hc List.not_mem_nil

theorem handle_keeps {cmd : StageCommand} {now : UInt64} {out : List StageControl}
    (hrun : a.handle C cmd now = .ok (a', out)) :
    a'.identity = a.identity ∧ ∀ stage', a'.active = some stage' →
      (∃ stage, a.active = some stage ∧ KeepsSeat stage stage') ∨ Opens C a cmd stage' := by
  cases hactive : a.active with
  | none =>
    obtain ⟨hidentity, hopens⟩ := handle_opens hactive hrun
    exact ⟨hidentity, fun stage' h => .inr (hopens stage' h)⟩
  | some stage =>
    have hkept := handle_keepsStep hactive hrun
    exact ⟨hkept.identity, fun stage' h => .inl ⟨stage, rfl, (hkept.stage stage' h).toKeepsSeat⟩⟩

theorem Honest.issues (h : Honest C identities net) {cmd : StageCommand} {now : UInt64}
    {out : List StageControl} (hadmits : net.admits cmd = true)
    (hrun : (net.nodes i).handle C cmd now = .ok (a', out)) :
    StageNet.issuedBy i a' cmd = [] ∨ ∃ ticket, StageNet.issuedBy i a' cmd = [(i, ticket)] ∧
      ticket.hostPubkey = C.publicText (identities i).signingKey ∧
      ∀ u ∈ net.issued, u.2.stageId ≠ ticket.stageId := by
  cases cmd with
  | createStage title stageId =>
    rw [StageActor.handle, StageActor.createStage] at hrun
    split at hrun <;> cases hrun
    refine .inr ⟨_, rfl, h.signingPubkey i, fun u hu => ?_⟩
    exact of_decide_eq_true (List.all_eq_true.mp hadmits u hu)
  | _ => exact .inl rfl

theorem Opens.seat {cmd : StageCommand} (hadmits : net.admits cmd = true)
    (hopens : Opens C a cmd stage) (hactive : a'.active = some stage) :
    ∃ t ∈ net.issued ++ StageNet.issuedBy i a' cmd, Seat i stage t := by
  cases hopens with
  | created hid hticket =>
    refine ⟨(i, _), List.mem_append_right _ ?_, .creator hid hticket⟩
    rw [StageNet.issuedBy, hactive, Option.bind_some, hticket]
    exact List.mem_singleton_self _
  | joined hid hhost hticket hrole =>
    obtain ⟨t, ht, hsame⟩ := List.any_eq_true.mp hadmits
    obtain rfl := of_decide_eq_true hsame
    exact ⟨t, List.mem_append_left _ ht, .guest hid hhost hticket (.inr hrole)⟩

variable [DecidableEq ι]

theorem Honest.act (h : Honest C identities net) {cmd : StageCommand} {now : UInt64}
    {out : List StageControl} (hadmits : net.admits cmd = true)
    (hrun : (net.nodes i).handle C cmd now = .ok (a', out)) :
    Honest C identities {
      nodes := Function.update net.nodes i a'
      sent := net.sent ++ net.broadcast C i now out
      issued := net.issued ++ StageNet.issuedBy i a' cmd } := by
  obtain ⟨hidentity, hactive⟩ := handle_keeps hrun
  have hold : ∀ t ∈ net.issued, t ∈ net.issued ++ StageNet.issuedBy i a' cmd :=
    fun t ht => List.mem_append_left _ ht
  refine ⟨fun j => ?_, ?_, ?_, fun j stage' hstage' => ?_, fun e he => ?_⟩
  · by_cases hj : j = i
    · subst hj
      exact (congrArg StageActor.identity (Function.update_self ..)).trans
        (hidentity.trans (h.identity j))
    · exact (congrArg StageActor.identity (Function.update_of_ne hj ..)).trans (h.identity j)
  · rcases h.issues hadmits hrun with hnone | ⟨ticket, hone, hkey, -⟩
    · rw [hnone, List.append_nil]
      exact h.hosts
    · rw [hone]
      exact List.forall_mem_append.mpr ⟨h.hosts, List.forall_mem_singleton.mpr hkey⟩
  · rcases h.issues hadmits hrun with hnone | ⟨ticket, hone, -, hnew⟩
    · rw [hnone, List.append_nil]
      exact h.unique
    · rw [hone]
      refine List.forall_mem_append.mpr ⟨fun t ht => ?_, List.forall_mem_singleton.mpr ?_⟩
      · refine List.forall_mem_append.mpr ⟨h.unique t ht, List.forall_mem_singleton.mpr fun hsame => ?_⟩
        exact absurd hsame (hnew t ht)
      · refine List.forall_mem_append.mpr ⟨fun u hu hsame => ?_, List.forall_mem_singleton.mpr fun _ => rfl⟩
        exact absurd hsame.symm (hnew u hu)
  · dsimp only at hstage'
    by_cases hj : j = i
    · subst hj
      rw [Function.update_self] at hstage'
      rcases hactive stage' hstage' with ⟨stage, hstage, hkept⟩ | hopens
      · obtain ⟨t, ht, hseat⟩ := h.seats j stage hstage
        exact ⟨t, hold t ht, hseat.keeps hkept⟩
      · exact hopens.seat hadmits hstage'
    · rw [Function.update_of_ne hj] at hstage'
      obtain ⟨t, ht, hseat⟩ := h.seats j stage' hstage'
      exact ⟨t, hold t ht, hseat⟩
  · rcases List.mem_append.mp he with he | he
    · exact (h.sent e he).mono hold
    · exact (h.broadcast i now (fun control hc => (handle_broadcasts hrun control hc).speaks) e he).mono hold

theorem Honest.step (h : Honest C identities net) {input : NetInput ι}
    (hstep : net.step C input = some net') : Honest C identities net' := by
  cases input with
  | act i cmd now =>
    rw [StageNet.step] at hstep
    split at hstep
    next hadmits =>
      split at hstep
      next => exact Option.some.inj hstep ▸ h
      next hrun => exact Option.some.inj hstep ▸ h.act hadmits hrun
    next => cases hstep
  | say i word pubkey now =>
    rw [StageNet.step] at hstep
    split at hstep
    next => cases hstep
    next stage hactive =>
      split at hstep
      next hticket =>
        obtain rfl := Option.some.inj hstep
        have hspeaks : Speaks C (net.nodes i) (word.control stage.stageId pubkey now) := by
          cases word <;> exact speaks_of_leads rfl hactive rfl (.inr (.inr hticket))
        exact { h with
          sent := List.forall_mem_append.mpr
            ⟨h.sent, h.broadcast i now (List.forall_mem_singleton.mpr hspeaks)⟩ }
      next => cases hstep
  | deliver n receivers now =>
    rw [StageNet.step] at hstep
    split at hstep
    next => cases hstep
    next e he =>
      obtain rfl := Option.some.inj hstep
      refine ⟨fun j => ?_, h.hosts, h.unique, fun j stage' hstage' => ?_, ?_⟩
      · dsimp only
        split
        · exact (hear_keeps _ _ _ _).1.trans (h.identity j)
        · exact h.identity j
      · dsimp only at hstage'
        split at hstage'
        · obtain ⟨stage, hstage, hkept⟩ := (hear_keeps _ _ _ _).2 stage' hstage'
          obtain ⟨t, ht, hseat⟩ := h.seats j stage hstage
          exact ⟨t, ht, hseat.keeps hkept⟩
        · exact h.seats j stage' hstage'
      · refine List.forall_mem_append.mpr ⟨h.sent, fun f hf => ?_⟩
        obtain ⟨j, -, hf⟩ := List.mem_flatMap.mp hf
        exact h.broadcast j now (hear_speaks _ _ _ _) f hf

end Invariant

end Proscenium.Stage
