import Proscenium.Stage.ActorDefs

/-! What a node's commands and the messages it handles leave as it is: which stage it
is in, whose stage that is, and who the co-hosts are; and what it says. -/

namespace Proscenium.Stage

open Proscenium.Types

/-- This node's seat is the same: at most, it is now a speaker or a listener. -/
structure KeepsSeat (stage stage' : ActiveStage) : Prop where
  stageId : stage'.stageId = stage.stageId
  hostPubkey : stage'.hostPubkey = stage.hostPubkey
  ticket : stage'.ticket = stage.ticket
  myRole : stage'.myRole = stage.myRole ∨ stage'.myRole = .speaker ∨ stage'.myRole = .listener

structure KeepsStage (stage stage' : ActiveStage) : Prop extends KeepsSeat stage stage' where
  coHosts : ∀ p ∈ stage'.participants, p.role = .coHost →
    ∃ q ∈ stage.participants, q.pubkey = p.pubkey ∧ q.role = .coHost

/-- The node is the same, and if it is in a stage afterwards then in this one. -/
structure KeepsStep (stage : ActiveStage) (a a' : StageActor) : Prop where
  identity : a'.identity = a.identity
  stage : ∀ stage', a'.active = some stage' → KeepsStage stage stage'

theorem KeepsStage.refl (stage : ActiveStage) : KeepsStage stage stage :=
  ⟨⟨rfl, rfl, rfl, .inl rfl⟩, fun p hp hrole => ⟨p, hp, rfl, hrole⟩⟩

section Changes

variable {stage stage' : ActiveStage} {a a' : StageActor} {pubkey : String} {f : Participant → Participant}

theorem keepsStage_modify
    (hf : ∀ p, (f p).pubkey = p.pubkey ∧ ((f p).role = .coHost → p.role = .coHost)) :
    KeepsStage stage (stage.modify pubkey f) := by
  refine ⟨⟨rfl, rfl, rfl, .inl rfl⟩, fun p hp hrole => ?_⟩
  obtain ⟨q, hq, rfl⟩ := List.mem_map.mp hp
  split at hrole
  · rw [if_pos ‹_›]
    exact ⟨q, hq, (hf q).1.symm, (hf q).2 hrole⟩
  · rw [if_neg ‹_›]
    exact ⟨q, hq, rfl, hrole⟩

theorem keepsStage_setRole (stage : ActiveStage) (pubkey : String) {role : StageRole}
    (hrole : role ≠ .coHost) : KeepsStage stage (stage.setRole pubkey role) :=
  keepsStage_modify fun _ => ⟨rfl, fun h => absurd h hrole⟩

theorem KeepsSeat.keepsStage (h : KeepsSeat stage stage')
    (hsubset : ∀ p ∈ stage'.participants, p ∈ stage.participants) : KeepsStage stage stage' :=
  ⟨h, fun p hp hrole => ⟨p, hsubset p hp, rfl, hrole⟩⟩

theorem keepsStage_remove (stage : ActiveStage) (pubkey : String) :
    KeepsStage stage (stage.remove pubkey) :=
  KeepsSeat.keepsStage ⟨rfl, rfl, rfl, .inl rfl⟩ fun _ hp => (List.mem_filter.mp hp).1

theorem keepsStage_ban (stage : ActiveStage) (pubkey : String) :
    KeepsStage stage ((stage.banNode pubkey).remove pubkey) := by
  unfold ActiveStage.banNode
  split <;> exact KeepsSeat.keepsStage ⟨rfl, rfl, rfl, .inl rfl⟩ fun _ hp => (List.mem_filter.mp hp).1

theorem keepsStep_of_eq (hidentity : a'.identity = a.identity) (h : a'.active = some stage')
    (hkept : KeepsStage stage stage') : KeepsStep stage a a' := by
  refine ⟨hidentity, fun s hs => ?_⟩
  obtain rfl := Option.some.inj (h.symm.trans hs)
  exact hkept

theorem keepsStep_of_none (hidentity : a'.identity = a.identity) (h : a'.active = none) :
    KeepsStep stage a a' :=
  ⟨hidentity, fun _ hs => absurd (h.symm.trans hs) (Option.some_ne_none _).symm⟩

theorem keepsStep_of_same (hactive : a.active = some stage) : KeepsStep stage a a :=
  keepsStep_of_eq rfl hactive (.refl stage)

end Changes

section Commands

variable {C : StageCrates} {a a' : StageActor} {stage : ActiveStage} {cmd : StageCommand} {now : UInt64}
  {out : List StageControl}

/-- The commands of a node that is in a stage. -/
theorem handle_keepsStep (hactive : a.active = some stage) (h : a.handle C cmd now = .ok (a', out)) :
    KeepsStep stage a a' := by
  cases cmd with
  | createStage title stageId =>
    rw [StageActor.handle, StageActor.createStage, hactive] at h
    cases h
  | joinStage ticket =>
    rw [StageActor.handle, StageActor.joinStage, hactive] at h
    cases h
  | leaveStage =>
    obtain ⟨_, _, h⟩ := Checks.bind_eq_ok.mp h
    cases h
    exact keepsStep_of_none rfl rfl
  | endStage =>
    obtain ⟨_, _, h⟩ := Checks.bind_eq_ok.mp h
    split at h
    · cases h
      exact keepsStep_of_none rfl rfl
    · cases h
  | promoteSpeaker pubkey | demoteSpeaker pubkey =>
    obtain ⟨s, hs, h⟩ := Checks.bind_eq_ok.mp h
    obtain rfl := Option.some.inj ((StageActor.requireHostActive_eq_ok.mp hs).1.symm.trans hactive)
    cases h
    exact keepsStep_of_eq rfl rfl (keepsStage_setRole _ _ nofun)
  | volunteerAsRelay capacity =>
    obtain ⟨_, _, h⟩ := Checks.bind_eq_ok.mp h
    split at h
    · cases h
    · cases h
      exact keepsStep_of_same hactive
  | toggleSelfMute =>
    obtain ⟨s, hs, h⟩ := Checks.bind_eq_ok.mp h
    obtain rfl := Option.some.inj ((StageActor.inStage_eq_ok.mp hs).symm.trans hactive)
    cases h
    exact keepsStep_of_eq rfl rfl (KeepsSeat.keepsStage ⟨rfl, rfl, rfl, .inl rfl⟩ fun _ hp => hp)
  | raiseHand | lowerHand | sendReaction emoji | sendChat text =>
    obtain ⟨_, _, h⟩ := Checks.bind_eq_ok.mp h
    cases h
    exact keepsStep_of_same hactive
  | sweepPresence =>
    rw [StageActor.handle, StageActor.sweepPresence, hactive] at h
    cases h
    exact keepsStep_of_eq rfl rfl
      (KeepsSeat.keepsStage ⟨rfl, rfl, rfl, .inl rfl⟩ fun _ hp => (List.mem_filter.mp hp).1)
  | heartbeat =>
    rw [StageActor.handle, StageActor.sendHeartbeat, hactive] at h
    cases h
    exact keepsStep_of_same hactive

inductive Opens (C : StageCrates) (a : StageActor) : StageCommand → ActiveStage → Prop where
  | created {title stageId : String} {stage : ActiveStage} (hid : stage.stageId = stageId)
      (hticket : stage.ticket = some ⟨stageId, a.signingPubkey C, a.identity.transportNodeId, title⟩)
      (hnone : ∀ p ∈ stage.participants, p.role ≠ .coHost) : Opens C a (.createStage title stageId) stage
  | joined {ticket : StageTicket} {stage : ActiveStage} (hid : stage.stageId = ticket.stageId)
      (hhost : stage.hostPubkey = ticket.hostPubkey) (hticket : stage.ticket = none)
      (hrole : stage.myRole = .listener) (hempty : stage.participants = []) :
      Opens C a (.joinStage ticket) stage

theorem Opens.not_coHost (h : Opens C a cmd stage) : ∀ p ∈ stage.participants, p.role ≠ .coHost := by
  cases h with
  | created _ _ hnone => exact hnone
  | joined _ _ _ _ hempty => exact fun p hp => absurd (hempty ▸ hp) List.not_mem_nil

/-- The commands of a node that is in none. -/
theorem handle_opens (hactive : a.active = none) (h : a.handle C cmd now = .ok (a', out)) :
    a'.identity = a.identity ∧ ∀ stage, a'.active = some stage → Opens C a cmd stage := by
  have hidle : ∀ s, a.active ≠ some s :=
    fun s hs => absurd (hactive.symm.trans hs) (Option.some_ne_none s).symm
  cases cmd with
  | createStage title stageId =>
    rw [StageActor.handle, StageActor.createStage, hactive] at h
    cases h
    refine ⟨rfl, fun stage hstage => ?_⟩
    obtain rfl := Option.some.inj hstage
    refine .created rfl rfl fun p hp => ?_
    rw [List.mem_singleton.mp hp]
    exact nofun
  | joinStage ticket =>
    rw [StageActor.handle, StageActor.joinStage, hactive] at h
    cases h
    refine ⟨rfl, fun stage hstage => ?_⟩
    obtain rfl := Option.some.inj hstage
    exact .joined rfl rfl rfl rfl rfl
  | leaveStage | endStage | volunteerAsRelay | toggleSelfMute =>
    obtain ⟨s, hs, -⟩ := Checks.bind_eq_ok.mp h
    exact absurd (StageActor.inStage_eq_ok.mp hs) (hidle s)
  | promoteSpeaker | demoteSpeaker =>
    obtain ⟨s, hs, -⟩ := Checks.bind_eq_ok.mp h
    exact absurd (StageActor.requireHostActive_eq_ok.mp hs).1 (hidle s)
  | raiseHand | lowerHand | sendReaction | sendChat =>
    obtain ⟨s, hs, -⟩ := Checks.bind_eq_ok.mp h
    exact absurd (StageActor.requireActive_eq_ok.mp hs) (hidle s)
  | sweepPresence =>
    rw [StageActor.handle, StageActor.sweepPresence, hactive] at h
    cases h
    exact ⟨rfl, fun stage hstage => absurd hstage (hidle stage)⟩
  | heartbeat =>
    rw [StageActor.handle, StageActor.sendHeartbeat, hactive] at h
    cases h
    exact ⟨rfl, fun stage hstage => absurd hstage (hidle stage)⟩

end Commands

section Messages

variable {a : StageActor} {stage : ActiveStage} (hactive : a.active = some stage) (sender pubkey : String)
include hactive

theorem onEnd_keepsStep : KeepsStep stage a (a.onEnd sender stage) := by
  unfold StageActor.onEnd
  split
  · exact keepsStep_of_none rfl rfl
  · exact keepsStep_of_same hactive

theorem onPromoteSpeaker_keepsStep : KeepsStep stage a (a.onPromoteSpeaker sender pubkey stage) := by
  have hkept := keepsStage_setRole stage pubkey (show StageRole.speaker ≠ .coHost from nofun)
  unfold StageActor.onPromoteSpeaker
  split
  · dsimp only
    split
    · exact keepsStep_of_eq rfl rfl ⟨⟨rfl, rfl, rfl, .inr (.inl rfl)⟩, hkept.coHosts⟩
    · exact keepsStep_of_eq rfl rfl hkept
  · exact keepsStep_of_same hactive

theorem onDemoteSpeaker_keepsStep : KeepsStep stage a (a.onDemoteSpeaker sender pubkey stage) := by
  have hkept := keepsStage_setRole stage pubkey (show StageRole.listener ≠ .coHost from nofun)
  unfold StageActor.onDemoteSpeaker
  split
  · dsimp only
    split
    · exact keepsStep_of_eq rfl rfl ⟨⟨rfl, rfl, rfl, .inr (.inr rfl)⟩, hkept.coHosts⟩
    · exact keepsStep_of_eq rfl rfl hkept
  · exact keepsStep_of_same hactive

theorem onMuteSpeaker_keepsStep : KeepsStep stage a (a.onMuteSpeaker sender pubkey stage) := by
  unfold StageActor.onMuteSpeaker
  split
  · exact keepsStep_of_eq rfl rfl (keepsStage_modify fun _ => ⟨rfl, id⟩)
  · exact keepsStep_of_same hactive

theorem onKick_keepsStep : KeepsStep stage a (a.onKick sender pubkey stage) := by
  unfold StageActor.onKick
  split
  · split
    · exact keepsStep_of_none rfl rfl
    · exact keepsStep_of_eq rfl rfl (keepsStage_remove stage pubkey)
  · exact keepsStep_of_same hactive

theorem onBan_keepsStep : KeepsStep stage a (a.onBan sender pubkey stage) := by
  unfold StageActor.onBan
  split
  · dsimp only
    split
    · exact keepsStep_of_none rfl rfl
    · exact keepsStep_of_eq rfl rfl (keepsStage_ban stage pubkey)
  · exact keepsStep_of_same hactive

theorem onRelayAssignment_keepsStep (relayNodeId : String) (listenerPubkeys : List String) :
    KeepsStep stage a (a.onRelayAssignment sender stage relayNodeId listenerPubkeys) := by
  unfold StageActor.onRelayAssignment
  split
  · split
    · exact keepsStep_of_eq rfl rfl (KeepsSeat.keepsStage ⟨rfl, rfl, rfl, .inl rfl⟩ fun _ hp => hp)
    · exact keepsStep_of_same hactive
  · exact keepsStep_of_same hactive

theorem takeRelay_keepsStep (relayPubkey relayNodeId : String) (capacity : UInt32) :
    KeepsStep stage a (a.takeRelay relayPubkey relayNodeId capacity stage).1 := by
  unfold StageActor.takeRelay
  split
  · exact keepsStep_of_eq rfl rfl (KeepsSeat.keepsStage ⟨rfl, rfl, rfl, .inl rfl⟩ fun _ hp => hp)
  · exact keepsStep_of_same hactive

theorem handleControl_keepsStep {signed : SignedStageControl} (now : UInt64)
    (hother : ∀ sid pubkey role timestamp nodeId,
      signed.control ≠ .presence sid pubkey role timestamp nodeId) :
    KeepsStep stage a (a.handleControl signed now).1 := by
  rw [StageActor.handleControl, hactive]
  dsimp only
  cases hcontrol : signed.control with
  | presence sid pubkey role timestamp nodeId => exact absurd hcontrol (hother _ _ _ _ _)
  | raiseHand | lowerHand | selfMuteToggle =>
    exact keepsStep_of_eq rfl rfl (keepsStage_modify fun _ => ⟨rfl, id⟩)
  | ended => exact onEnd_keepsStep hactive _
  | promoteSpeaker => exact onPromoteSpeaker_keepsStep hactive _ _
  | demoteSpeaker => exact onDemoteSpeaker_keepsStep hactive _ _
  | muteSpeaker => exact onMuteSpeaker_keepsStep hactive _ _
  | kick => exact onKick_keepsStep hactive _ _
  | ban => exact onBan_keepsStep hactive _ _
  | relayAssignment => exact onRelayAssignment_keepsStep hactive _ _ _
  | relayVolunteer => exact takeRelay_keepsStep hactive _ _ _
  | announce | reaction | chat => exact keepsStep_of_same hactive

theorem handleControl_keepsSeat (signed : SignedStageControl) (now : UInt64) :
    (a.handleControl signed now).1.identity = a.identity ∧
      ∀ stage', (a.handleControl signed now).1.active = some stage' → KeepsSeat stage stage' := by
  by_cases hpresence : ∃ sid pubkey role timestamp nodeId,
      signed.control = .presence sid pubkey role timestamp nodeId
  · obtain ⟨sid, pubkey, role, timestamp, nodeId, hcontrol⟩ := hpresence
    rw [StageActor.handleControl, hactive]
    dsimp only
    rw [hcontrol]
    refine ⟨rfl, fun stage' hstage' => ?_⟩
    obtain rfl := Option.some.inj hstage'
    exact ⟨rfl, rfl, rfl, .inl rfl⟩
  · have hkept : KeepsStep stage a (a.handleControl signed now).1 :=
      handleControl_keepsStep hactive now fun sid pubkey role timestamp nodeId hcontrol =>
        hpresence ⟨sid, pubkey, role, timestamp, nodeId, hcontrol⟩
    exact ⟨hkept.identity, fun stage' hstage' => (hkept.stage stage' hstage').toKeepsSeat⟩

end Messages

section Gossip

variable {C : StageCrates} {a : StageActor} {stageId : String} {signed : SignedStageControl}

theorem step_gossip_of_none (h : a.active = none) (now : UInt64) :
    a.step C (.gossip stageId signed now) = a := by
  rw [StageActor.step, StageActor.receive, StageActor.handleControl, h]
  split <;> rfl

theorem step_gossip_of_not_accepts (h : ¬ accepts C.toSignatureCrates stageId signed = true) (now : UInt64) :
    a.step C (.gossip stageId signed now) = a := by
  rw [StageActor.step, StageActor.receive, if_neg h]

theorem step_gossip_of_accepts (h : accepts C.toSignatureCrates stageId signed = true) (now : UInt64) :
    a.step C (.gossip stageId signed now) = (a.handleControl signed now).1 := by
  rw [StageActor.step, StageActor.receive, if_pos h]

end Gossip

theorem step_presence {C : StageCrates} {a : StageActor} {stage : ActiveStage} {stageId : String}
    {signed : SignedStageControl} {now : UInt64} {sid pubkey : String} {role : StageRole} {timestamp : UInt64}
    {nodeId : Option String} (haccepts : accepts C.toSignatureCrates stageId signed = true)
    (hactive : a.active = some stage) (hcontrol : signed.control = .presence sid pubkey role timestamp nodeId) :
    a.step C (.gossip stageId signed now) =
      a.withStage (stage.presence pubkey role timestamp nodeId now) := by
  rw [step_gossip_of_accepts haccepts, StageActor.handleControl, hactive]
  dsimp only
  rw [hcontrol]

end Proscenium.Stage
