import Proscenium.Lib.Refresh
import Proscenium.Stage.ActorSteps

/-! What becomes of the participants' entries when a message is handled or a
command is run: each entry is revised or dropped, and a `Presence` may add one. -/

namespace Proscenium.Stage

open Proscenium.Types

/-- An entry after a message; `none` if it is dropped. -/
def revise (stage : ActiveStage) (signed : SignedStageControl) (now : UInt64) (p : Participant) :
    Option Participant :=
  match signed.control with
  | .presence _ pubkey role _ nodeId => some (if p.pubkey = pubkey then p.refresh role nodeId now else p)
  | .raiseHand _ pubkey => some (if p.pubkey = pubkey then { p with handRaised := true } else p)
  | .lowerHand _ pubkey => some (if p.pubkey = pubkey then { p with handRaised := false } else p)
  | .selfMuteToggle _ pubkey muted => some (if p.pubkey = pubkey then { p with selfMuted := muted } else p)
  | .promoteSpeaker _ pubkey =>
    some (if isModerator stage signed.senderPubkey ∧ p.pubkey = pubkey then { p with role := .speaker } else p)
  | .demoteSpeaker _ pubkey =>
    some (if isModerator stage signed.senderPubkey ∧ p.pubkey = pubkey then { p with role := .listener } else p)
  | .muteSpeaker _ pubkey =>
    some (if isModerator stage signed.senderPubkey ∧ p.pubkey = pubkey then { p with hostMuted := true } else p)
  | .kick _ pubkey => if isModerator stage signed.senderPubkey ∧ p.pubkey = pubkey then none else some p
  | .ban _ pubkey => if signed.senderPubkey = stage.hostPubkey ∧ p.pubkey = pubkey then none else some p
  | _ => some p

/-- The entry that a `Presence` adds for a key that had none. -/
def arrival (stage : ActiveStage) (signed : SignedStageControl) (now : UInt64) : List Participant :=
  match signed.control with
  | .presence _ pubkey role timestamp nodeId =>
    if stage.participants.any (fun p => p.pubkey = pubkey) then []
    else [Participant.refresh role nodeId now ⟨pubkey, role, false, false, false, timestamp, nodeId⟩]
  | _ => []

section Messages

variable {a : StageActor} {stage stage' : ActiveStage} {signed : SignedStageControl} {now : UInt64}
  {g : Participant → Option Participant}

theorem participants_modify {pubkey : String} {f : Participant → Participant} (stage : ActiveStage)
    (hg : ∀ p, g p = some (if p.pubkey = pubkey then f p else p)) :
    (stage.modify pubkey f).participants = stage.participants.filterMap g := by
  refine (List.filterMap_eq_map_iff_forall_eq_some.mpr fun p _ => ?_).symm
  rw [hg p]
  simp only [decide_eq_true_eq]

theorem deleteWhere_eq_filterMap {p : Participant → Bool} (hg : ∀ q, g q = if p q then none else some q)
    (t : List Participant) : Table.deleteWhere p t = t.filterMap g := by
  have hguard : g = Option.guard fun q => !p q := by
    funext q
    rw [hg q]
    cases hq : p q <;> simp [Option.guard, hq]
  rw [hguard, List.filterMap_eq_filter]
  rfl

theorem participants_remove {pubkey : String} (stage : ActiveStage)
    (hg : ∀ p, g p = if p.pubkey = pubkey then none else some p) :
    (stage.remove pubkey).participants = stage.participants.filterMap g := by
  refine deleteWhere_eq_filterMap (fun p => ?_) stage.participants
  rw [hg p]
  simp only [decide_eq_true_eq]

theorem participants_of_same (stage : ActiveStage) (hg : ∀ p, g p = some p) :
    stage.participants = stage.participants.filterMap g := by
  rw [funext hg, List.filterMap_some]

theorem participants_banNode (stage : ActiveStage) (pubkey : String) :
    (stage.banNode pubkey).participants = stage.participants := by
  unfold ActiveStage.banNode
  split <;> rfl

variable {sender pubkey : String}

theorem onPromoteSpeaker_participants (hactive : a.active = some stage)
    (hactive' : (a.onPromoteSpeaker sender pubkey stage).active = some stage')
    (hg : ∀ p, g p = some (if isModerator stage sender ∧ p.pubkey = pubkey then
      { p with role := .speaker } else p)) :
    stage'.participants = stage.participants.filterMap g := by
  unfold StageActor.onPromoteSpeaker at hactive'
  split at hactive'
  next hmod =>
    have hpromoted : (stage.setRole pubkey .speaker).participants = stage.participants.filterMap g :=
      participants_modify stage fun p => by simp only [hg p, hmod, true_and]
    dsimp only at hactive'
    split at hactive' <;> obtain rfl := Option.some.inj hactive' <;> exact hpromoted
  next hmod =>
    obtain rfl := Option.some.inj (hactive.symm.trans hactive')
    exact participants_of_same stage fun p => by rw [hg p, if_neg fun h => hmod h.1]

theorem onDemoteSpeaker_participants (hactive : a.active = some stage)
    (hactive' : (a.onDemoteSpeaker sender pubkey stage).active = some stage')
    (hg : ∀ p, g p = some (if isModerator stage sender ∧ p.pubkey = pubkey then
      { p with role := .listener } else p)) :
    stage'.participants = stage.participants.filterMap g := by
  unfold StageActor.onDemoteSpeaker at hactive'
  split at hactive'
  next hmod =>
    have hdemoted : (stage.setRole pubkey .listener).participants = stage.participants.filterMap g :=
      participants_modify stage fun p => by simp only [hg p, hmod, true_and]
    obtain rfl := Option.some.inj hactive'
    split <;> exact hdemoted
  next hmod =>
    obtain rfl := Option.some.inj (hactive.symm.trans hactive')
    exact participants_of_same stage fun p => by rw [hg p, if_neg fun h => hmod h.1]

theorem onMuteSpeaker_participants (hactive : a.active = some stage)
    (hactive' : (a.onMuteSpeaker sender pubkey stage).active = some stage')
    (hg : ∀ p, g p = some (if isModerator stage sender ∧ p.pubkey = pubkey then
      { p with hostMuted := true } else p)) :
    stage'.participants = stage.participants.filterMap g := by
  unfold StageActor.onMuteSpeaker at hactive'
  split at hactive'
  next hmod =>
    obtain rfl := Option.some.inj hactive'
    exact participants_modify stage fun p => by simp only [hg p, hmod, true_and]
  next hmod =>
    obtain rfl := Option.some.inj (hactive.symm.trans hactive')
    exact participants_of_same stage fun p => by rw [hg p, if_neg fun h => hmod h.1]

theorem onKick_participants (hactive : a.active = some stage)
    (hactive' : (a.onKick sender pubkey stage).active = some stage')
    (hg : ∀ p, g p = if isModerator stage sender ∧ p.pubkey = pubkey then none else some p) :
    stage'.participants = stage.participants.filterMap g := by
  unfold StageActor.onKick at hactive'
  split at hactive'
  next hmod =>
    split at hactive'
    next => exact absurd hactive'.symm (Option.some_ne_none _)
    next =>
      obtain rfl := Option.some.inj hactive'
      exact participants_remove stage fun p => by simp only [hg p, hmod, true_and]
  next hmod =>
    obtain rfl := Option.some.inj (hactive.symm.trans hactive')
    exact participants_of_same stage fun p => by rw [hg p, if_neg fun h => hmod h.1]

theorem onBan_participants (hactive : a.active = some stage)
    (hactive' : (a.onBan sender pubkey stage).active = some stage')
    (hg : ∀ p, g p = if sender = stage.hostPubkey ∧ p.pubkey = pubkey then none else some p) :
    stage'.participants = stage.participants.filterMap g := by
  unfold StageActor.onBan at hactive'
  split at hactive'
  next hhost =>
    dsimp only at hactive'
    split at hactive'
    next => exact absurd hactive'.symm (Option.some_ne_none _)
    next =>
      obtain rfl := Option.some.inj hactive'
      rw [← participants_banNode stage pubkey]
      exact participants_remove _ fun p => by simp only [hg p, hhost, true_and]
  next hhost =>
    obtain rfl := Option.some.inj (hactive.symm.trans hactive')
    exact participants_of_same stage fun p => by rw [hg p, if_neg fun h => hhost h.1]

theorem presence_participants (role : StageRole) (timestamp : UInt64) (nodeId : Option String)
    (hg : ∀ p, g p = some (if p.pubkey = pubkey then p.refresh role nodeId now else p)) :
    (stage.presence pubkey role timestamp nodeId now).participants = stage.participants.filterMap g ++
      if stage.participants.any (fun p => p.pubkey = pubkey) then []
      else [Participant.refresh role nodeId now ⟨pubkey, role, false, false, false, timestamp, nodeId⟩] := by
  have hmap : stage.participants.filterMap g =
      stage.participants.map fun p => if p.pubkey = pubkey then p.refresh role nodeId now else p :=
    List.filterMap_eq_map_iff_forall_eq_some.mpr fun p _ => hg p
  rw [hmap]
  unfold ActiveStage.presence Table.upsert
  split
  next => exact (List.append_nil _).symm
  next hnew =>
    have hnone : ∀ p ∈ stage.participants, p.pubkey ≠ pubkey := fun p hp hkey =>
      hnew (List.any_eq_true.mpr ⟨p, hp, decide_eq_true hkey⟩)
    have hsame : stage.participants.map (fun p => if p.pubkey = pubkey then p.refresh role nodeId now else p) =
        stage.participants := by
      conv_rhs => rw [← List.map_id stage.participants]
      exact List.map_congr_left fun p hp => if_neg (hnone p hp)
    rw [hsame]

/-- The participants after a message. -/
theorem handleControl_participants (hactive : a.active = some stage)
    (hactive' : (a.handleControl signed now).1.active = some stage') :
    stage'.participants = stage.participants.filterMap (revise stage signed now) ++
      arrival stage signed now := by
  rw [StageActor.handleControl, hactive] at hactive'
  have hsame : stage'.participants = stage.participants →
      stage'.participants = stage.participants.filterMap some ++ [] := fun h => by
    rw [h, List.filterMap_some, List.append_nil]
  obtain ⟨sender, control, timestamp, signature⟩ := signed
  cases control with
  | presence sid pubkey role timestamp nodeId =>
    obtain rfl := Option.some.inj hactive'
    exact presence_participants role timestamp nodeId fun _ => rfl
  | raiseHand | lowerHand | selfMuteToggle =>
    obtain rfl := Option.some.inj hactive'
    exact (participants_modify stage fun _ => rfl).trans (List.append_nil _).symm
  | promoteSpeaker sid pubkey =>
    exact (onPromoteSpeaker_participants hactive hactive' fun _ => rfl).trans (List.append_nil _).symm
  | demoteSpeaker sid pubkey =>
    exact (onDemoteSpeaker_participants hactive hactive' fun _ => rfl).trans (List.append_nil _).symm
  | muteSpeaker sid pubkey =>
    exact (onMuteSpeaker_participants hactive hactive' fun _ => rfl).trans (List.append_nil _).symm
  | kick sid pubkey =>
    exact (onKick_participants hactive hactive' fun _ => rfl).trans (List.append_nil _).symm
  | ban sid pubkey =>
    exact (onBan_participants hactive hactive' fun _ => rfl).trans (List.append_nil _).symm
  | ended =>
    have hactive' : (a.onEnd sender stage).active = some stage' := hactive'
    unfold StageActor.onEnd at hactive'
    split at hactive'
    next => exact absurd hactive'.symm (Option.some_ne_none _)
    next => exact hsame (congrArg ActiveStage.participants (Option.some.inj (hactive.symm.trans hactive')).symm)
  | relayAssignment sid relayPubkey relayNodeId listenerPubkeys =>
    have hactive' : (a.onRelayAssignment sender stage relayNodeId listenerPubkeys).active = some stage' :=
      hactive'
    refine hsame ?_
    unfold StageActor.onRelayAssignment at hactive'
    split at hactive'
    next =>
      split at hactive'
      next =>
        obtain rfl := Option.some.inj hactive'
        rfl
      next => exact congrArg ActiveStage.participants (Option.some.inj (hactive.symm.trans hactive')).symm
    next => exact congrArg ActiveStage.participants (Option.some.inj (hactive.symm.trans hactive')).symm
  | relayVolunteer sid relayPubkey relayNodeId capacity =>
    have hactive' : (a.takeRelay relayPubkey relayNodeId capacity stage).1.active = some stage' := hactive'
    refine hsame ?_
    unfold StageActor.takeRelay at hactive'
    split at hactive'
    next =>
      obtain rfl := Option.some.inj hactive'
      rfl
    next => exact congrArg ActiveStage.participants (Option.some.inj (hactive.symm.trans hactive')).symm
  | announce | reaction | chat =>
    exact hsame (congrArg ActiveStage.participants (Option.some.inj (hactive.symm.trans hactive')).symm)

theorem revise_eq_some {p p' : Participant} (h : revise stage signed now p = some p') :
    p'.pubkey = p.pubkey ∧ (p'.nodeId = p.nodeId ∨ ∃ sid role timestamp nodeId,
      signed.control = .presence sid p.pubkey role timestamp nodeId ∧ p'.nodeId = nodeId.or p.nodeId) := by
  obtain ⟨sender, control, sentAt, signature⟩ := signed
  cases control with
  | presence sid pubkey role timestamp nodeId =>
    obtain rfl := Option.some.inj h
    split
    next hkey =>
      subst hkey
      exact ⟨rfl, .inr ⟨sid, role, timestamp, nodeId, rfl, rfl⟩⟩
    next => exact ⟨rfl, .inl rfl⟩
  | raiseHand | lowerHand | selfMuteToggle | promoteSpeaker | demoteSpeaker | muteSpeaker =>
    obtain rfl := Option.some.inj h
    split <;> exact ⟨rfl, .inl rfl⟩
  | kick sid pubkey =>
    have h : (if isModerator stage sender ∧ p.pubkey = pubkey then none else some p) = some p' := h
    split at h
    next => exact absurd h.symm (Option.some_ne_none _)
    next =>
      obtain rfl := Option.some.inj h
      exact ⟨rfl, .inl rfl⟩
  | ban sid pubkey =>
    have h : (if sender = stage.hostPubkey ∧ p.pubkey = pubkey then none else some p) = some p' := h
    split at h
    next => exact absurd h.symm (Option.some_ne_none _)
    next =>
      obtain rfl := Option.some.inj h
      exact ⟨rfl, .inl rfl⟩
  | _ =>
    obtain rfl := Option.some.inj h
    exact ⟨rfl, .inl rfl⟩

theorem mem_arrival {p : Participant} (h : p ∈ arrival stage signed now) :
    ∃ sid role timestamp, signed.control = .presence sid p.pubkey role timestamp p.nodeId := by
  unfold arrival at h
  split at h
  next sid pubkey role timestamp nodeId hcontrol =>
    split at h
    next => exact absurd h List.not_mem_nil
    next =>
      obtain rfl := List.mem_singleton.mp h
      refine ⟨sid, role, timestamp, hcontrol.trans ?_⟩
      cases nodeId <;> rfl
  next => exact absurd h List.not_mem_nil

end Messages

def reviseOwn (stage : ActiveStage) (now : UInt64) (p : Participant) : StageCommand → Option Participant
  | .promoteSpeaker pubkey => some (if p.pubkey = pubkey then { p with role := .speaker } else p)
  | .demoteSpeaker pubkey => some (if p.pubkey = pubkey then { p with role := .listener } else p)
  | .sweepPresence => if p.lastSeenMs < sweepCutoff now ∧ p.pubkey ≠ stage.myPubkey then none else some p
  | _ => some p

def expires (a : StageActor) (i : StageInput) (pubkey : String) : Bool :=
  match i, a.active with
  | .command .sweepPresence now, some stage =>
    stage.participants.any fun p => p.pubkey = pubkey ∧ reviseOwn stage now p .sweepPresence = none
  | _, _ => false

section Commands

variable {C : StageCrates} {a a' : StageActor} {stage stage' : ActiveStage} {cmd : StageCommand}
  {now : UInt64} {out : List StageControl}

/-- The participants after a command of a node that is in a stage. -/
theorem handle_participants (hactive : a.active = some stage) (h : a.handle C cmd now = .ok (a', out))
    (hactive' : a'.active = some stage') :
    stage'.participants = stage.participants.filterMap fun p => reviseOwn stage now p cmd := by
  have hsame : a'.active = a.active → stage'.participants = stage.participants.filterMap some := by
    intro h
    obtain rfl := Option.some.inj (hactive'.symm.trans (h.trans hactive))
    exact List.filterMap_some.symm
  cases cmd with
  | createStage title stageId =>
    rw [StageActor.handle, StageActor.createStage, hactive] at h
    cases h
  | joinStage ticket =>
    rw [StageActor.handle, StageActor.joinStage, hactive] at h
    cases h
  | leaveStage =>
    obtain ⟨_, _, h⟩ := Checks.bind_eq_ok.mp h
    cases h
    exact absurd hactive'.symm (Option.some_ne_none _)
  | endStage =>
    obtain ⟨_, _, h⟩ := Checks.bind_eq_ok.mp h
    split at h <;> cases h
    exact absurd hactive'.symm (Option.some_ne_none _)
  | promoteSpeaker pubkey | demoteSpeaker pubkey =>
    obtain ⟨s, hs, h⟩ := Checks.bind_eq_ok.mp h
    obtain rfl := Option.some.inj ((StageActor.requireHostActive_eq_ok.mp hs).1.symm.trans hactive)
    cases h
    obtain rfl := Option.some.inj hactive'
    exact participants_modify _ fun _ => rfl
  | volunteerAsRelay capacity =>
    obtain ⟨_, _, h⟩ := Checks.bind_eq_ok.mp h
    split at h <;> cases h
    exact hsame rfl
  | toggleSelfMute =>
    obtain ⟨s, hs, h⟩ := Checks.bind_eq_ok.mp h
    obtain rfl := Option.some.inj ((StageActor.inStage_eq_ok.mp hs).symm.trans hactive)
    cases h
    obtain rfl := Option.some.inj hactive'
    exact List.filterMap_some.symm
  | raiseHand | lowerHand | sendReaction emoji | sendChat text =>
    obtain ⟨_, _, h⟩ := Checks.bind_eq_ok.mp h
    cases h
    exact hsame rfl
  | sweepPresence =>
    rw [StageActor.handle, StageActor.sweepPresence, hactive] at h
    cases h
    obtain rfl := Option.some.inj hactive'
    refine deleteWhere_eq_filterMap (fun p => ?_) stage.participants
    simp only [reviseOwn, Bool.and_eq_true, decide_eq_true_eq]
  | heartbeat =>
    rw [StageActor.handle, StageActor.sendHeartbeat, hactive] at h
    cases h
    exact hsame rfl

theorem reviseOwn_eq_some {p p' : Participant} (h : reviseOwn stage now p cmd = some p') :
    p'.pubkey = p.pubkey ∧ p'.nodeId = p.nodeId := by
  cases cmd with
  | promoteSpeaker | demoteSpeaker =>
    obtain rfl := Option.some.inj h
    split <;> exact ⟨rfl, rfl⟩
  | sweepPresence =>
    rw [reviseOwn] at h
    split at h
    next => exact absurd h.symm (Option.some_ne_none _)
    next =>
      obtain rfl := Option.some.inj h
      exact ⟨rfl, rfl⟩
  | _ =>
    obtain rfl := Option.some.inj h
    exact ⟨rfl, rfl⟩

end Commands

section Keys

def Keyed (stage : ActiveStage) : Prop := (stage.participants.map Participant.pubkey).Nodup

variable {C : StageCrates} {a : StageActor} {stage stage' : ActiveStage} {signed : SignedStageControl}
  {now : UInt64} {i : StageInput}

theorem revise_key {p p' : Participant} (h : revise stage signed now p = some p') : p'.pubkey = p.pubkey :=
  (revise_eq_some h).1

theorem Keyed.handleControl (hkeyed : Keyed stage) (hactive : a.active = some stage)
    (hactive' : (a.handleControl signed now).1.active = some stage') : Keyed stage' := by
  unfold Keyed
  rw [handleControl_participants hactive hactive', List.map_append, List.nodup_append]
  have hold : ((stage.participants.filterMap (revise stage signed now)).map Participant.pubkey).Nodup :=
    Table.nodup_filterMap (fun _ _ hp => revise_key hp) hkeyed
  unfold arrival
  split
  next sid pubkey role timestamp nodeId hcontrol =>
    split
    next => exact ⟨hold, List.nodup_nil, fun _ _ _ h => absurd h List.not_mem_nil⟩
    next hnew =>
      refine ⟨hold, List.nodup_singleton _, ?_⟩
      rintro _ hkey _ hnewKey rfl
      obtain ⟨p', hp', hpk⟩ := List.mem_map.mp hkey
      obtain ⟨p, hp, hrevised⟩ := List.mem_filterMap.mp hp'
      refine hnew (List.any_eq_true.mpr ⟨p, hp, decide_eq_true ?_⟩)
      rw [← revise_key hrevised, hpk]
      exact List.mem_singleton.mp hnewKey
  next => exact ⟨hold, List.nodup_nil, fun _ _ _ h => absurd h List.not_mem_nil⟩

theorem Keyed.step (hkeyed : Keyed stage) (hactive : a.active = some stage)
    (hactive' : (a.step C i).active = some stage') : Keyed stage' := by
  have hsame : a.step C i = a → Keyed stage' := by
    intro hstep
    rw [hstep] at hactive'
    obtain rfl := Option.some.inj (hactive.symm.trans hactive')
    exact hkeyed
  cases i with
  | command cmd now =>
    cases hrun : a.handle C cmd now with
    | error e => exact hsame (by rw [StageActor.step, hrun])
    | ok result =>
      rw [StageActor.step, hrun] at hactive'
      unfold Keyed
      rw [handle_participants hactive hrun hactive']
      exact Table.nodup_filterMap (fun _ _ hp => (reviseOwn_eq_some hp).1) hkeyed
  | gossip stageId signed now =>
    by_cases haccepts : accepts C.toSignatureCrates stageId signed = true
    · rw [step_gossip_of_accepts haccepts now] at hactive'
      exact hkeyed.handleControl hactive hactive'
    · exact hsame (step_gossip_of_not_accepts haccepts now)

theorem Keyed.opens (hactive : a.active = none) (hactive' : (a.step C i).active = some stage') : Keyed stage' := by
  have hidle : a.active ≠ some stage' := fun h => Option.some_ne_none stage' (h.symm.trans hactive)
  cases i with
  | gossip stageId signed now =>
    rw [step_gossip_of_none hactive now] at hactive'
    exact absurd hactive' hidle
  | command cmd now =>
    cases hrun : a.handle C cmd now with
    | error e =>
      rw [StageActor.step, hrun] at hactive'
      exact absurd hactive' hidle
    | ok result =>
      rw [StageActor.step, hrun] at hactive'
      have hopens := (handle_opens hactive hrun).2 stage' hactive'
      cases hopens with
      | created =>
        rw [StageActor.handle, StageActor.createStage, hactive] at hrun
        cases hrun
        obtain rfl := Option.some.inj hactive'
        exact List.nodup_singleton _
      | joined _ _ _ _ hempty =>
        unfold Keyed
        rw [hempty]
        exact List.nodup_nil

end Keys

end Proscenium.Stage
