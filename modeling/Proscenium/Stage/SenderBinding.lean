import Proscenium.Stage.ActorDefs

/-! Whose entry a control message changes. The signature shows who the sender is;
the branches of `Presence`, `RaiseHand`, `LowerHand` and `SelfMuteToggle` go by
the key in the message instead, which is whatever the sender has put there. -/

namespace Proscenium.Stage

open Proscenium.Types

def flagOf : StageControl → Option (String × (Participant → Participant))
  | .raiseHand _ pubkey => some (pubkey, fun p => { p with handRaised := true })
  | .lowerHand _ pubkey => some (pubkey, fun p => { p with handRaised := false })
  | .selfMuteToggle _ pubkey muted => some (pubkey, fun p => { p with selfMuted := muted })
  | _ => none

theorem flagOf_keeps {control : StageControl} {pubkey : String} {f : Participant → Participant}
    (h : flagOf control = some (pubkey, f)) (p : Participant) :
    (f p).pubkey = p.pubkey ∧ (f p).role = p.role ∧ (f p).hostMuted = p.hostMuted := by
  cases control with
  | raiseHand | lowerHand | selfMuteToggle =>
    cases h
    exact ⟨rfl, rfl, rfl⟩
  | _ => cases h

/-- What a message does whose sender is no moderator. -/
inductive OpenStep (stage : ActiveStage) (a : StageActor) (now : UInt64) :
    StageControl → StageActor → Prop where
  | presence (sid pubkey : String) (role : StageRole) (timestamp : UInt64) (nodeId : Option String) :
      OpenStep stage a now (.presence sid pubkey role timestamp nodeId)
        (a.withStage (stage.presence pubkey role timestamp nodeId now))
  | flag {control : StageControl} {pubkey : String} {f : Participant → Participant}
      (hflag : flagOf control = some (pubkey, f)) :
      OpenStep stage a now control (a.withStage (stage.modify pubkey f))
  | relay (sid relayPubkey relayNodeId : String) (capacity : UInt32) (topology : TopologyManager) :
      OpenStep stage a now (.relayVolunteer sid relayPubkey relayNodeId capacity)
        (a.withStage { stage with topology := some topology })
  | nothing {control : StageControl} (hflag : flagOf control = none)
      (hpresence : ∀ sid pubkey role timestamp nodeId,
        control ≠ .presence sid pubkey role timestamp nodeId) : OpenStep stage a now control a

section Sender

variable {a : StageActor} {stage : ActiveStage} {signed : SignedStageControl}

theorem ne_hostPubkey_of_not_moderator {sender : String} (h : isModerator stage sender = false) :
    sender ≠ stage.hostPubkey := by
  rintro rfl
  rw [isModerator_hostPubkey rfl] at h
  cases h

theorem takeRelay_openStep (now : UInt64) (sid relayPubkey relayNodeId : String) (capacity : UInt32) :
    a.active = some stage → OpenStep stage a now (.relayVolunteer sid relayPubkey relayNodeId capacity)
      (a.takeRelay relayPubkey relayNodeId capacity stage).1 := by
  intro _
  unfold StageActor.takeRelay
  split
  · exact .relay ..
  · exact .nothing rfl nofun

/-- The guards keep everything else from a sender that is no moderator. -/
theorem handleControl_openStep (hactive : a.active = some stage)
    (hmod : isModerator stage signed.senderPubkey = false) (now : UInt64) :
    OpenStep stage a now signed.control (a.handleControl signed now).1 := by
  have hhost := ne_hostPubkey_of_not_moderator hmod
  rw [StageActor.handleControl, hactive]
  dsimp only
  cases signed.control with
  | presence sid pubkey role timestamp nodeId => exact .presence sid pubkey role timestamp nodeId
  | raiseHand | lowerHand | selfMuteToggle => exact .flag rfl
  | relayVolunteer sid relayPubkey relayNodeId capacity => exact takeRelay_openStep now _ _ _ _ hactive
  | ended =>
    dsimp only
    rw [StageActor.onEnd, if_neg hhost]
    exact .nothing rfl nofun
  | promoteSpeaker =>
    dsimp only
    rw [StageActor.onPromoteSpeaker, hmod]
    exact .nothing rfl nofun
  | demoteSpeaker =>
    dsimp only
    rw [StageActor.onDemoteSpeaker, hmod]
    exact .nothing rfl nofun
  | muteSpeaker =>
    dsimp only
    rw [StageActor.onMuteSpeaker, hmod]
    exact .nothing rfl nofun
  | kick =>
    dsimp only
    rw [StageActor.onKick, hmod]
    exact .nothing rfl nofun
  | ban =>
    dsimp only
    rw [StageActor.onBan, if_neg hhost]
    exact .nothing rfl nofun
  | relayAssignment =>
    dsimp only
    rw [StageActor.onRelayAssignment, if_neg hhost]
    exact .nothing rfl nofun
  | announce | reaction | chat => exact .nothing rfl nofun

end Sender

section Binding

/-- Of the participants, at most the sender's own entry is changed; `owner` says whose key it is. -/
def OnlyOwn (owner : String → String) (sender : String) (a a' : StageActor) : Prop :=
  ∀ stage, a.active = some stage → ∃ stage', a'.active = some stage' ∧
    ∀ k, k ≠ owner sender → stage'.participant k = stage.participant k

/-- The message names the entry of its sender, or says of another what holds of it already. -/
def NamesOwn (owner : String → String) (stage : ActiveStage) (signed : SignedStageControl)
    (now : UInt64) : Prop :=
  (∀ sid pubkey role timestamp nodeId, signed.control = .presence sid pubkey role timestamp nodeId →
    pubkey = owner signed.senderPubkey ∨
      ∃ p, stage.participant pubkey = some p ∧ p.refresh role nodeId now = p) ∧
  ∀ pubkey f, flagOf signed.control = some (pubkey, f) →
    pubkey = owner signed.senderPubkey ∨ ∀ p, stage.participant pubkey = some p → f p = p

variable {owner : String → String} {a a' : StageActor} {stage stage' : ActiveStage} {sender : String}

theorem onlyOwn_withStage (hactive : a.active = some stage) :
    OnlyOwn owner sender a (a.withStage stage') ↔
      ∀ k, k ≠ owner sender → stage'.participant k = stage.participant k := by
  constructor
  · intro h
    obtain ⟨t, ht, hsame⟩ := h stage hactive
    obtain rfl := Option.some.inj ht
    exact hsame
  · rintro h s hs
    obtain rfl := Option.some.inj (hactive.symm.trans hs)
    exact ⟨stage', rfl, h⟩

theorem onlyOwn_presence_iff (hactive : a.active = some stage) (pubkey : String) (role : StageRole)
    (timestamp : UInt64) (nodeId : Option String) (now : UInt64) :
    OnlyOwn owner sender a (a.withStage (stage.presence pubkey role timestamp nodeId now)) ↔
      (pubkey = owner sender ∨ ∃ p, stage.participant pubkey = some p ∧ p.refresh role nodeId now = p) := by
  rw [onlyOwn_withStage hactive]
  constructor
  · intro h
    refine or_iff_not_imp_left.mpr fun hne => ?_
    have hself := (stage.participant_presence_self role timestamp nodeId now).symm.trans (h pubkey hne)
    cases hp : stage.participant pubkey with
    | none =>
      rw [hp] at hself
      cases hself
    | some p =>
      rw [hp] at hself
      exact ⟨p, rfl, Option.some.inj hself⟩
  · intro h k hk
    by_cases heq : k = pubkey
    · subst heq
      obtain ⟨p, hp, hsame⟩ := h.resolve_left hk
      rw [stage.participant_presence_self role timestamp nodeId now, hp, Option.map_some, hsame]
      rfl
    · exact stage.participant_presence_of_ne role timestamp nodeId now heq

theorem onlyOwn_flag_iff (hactive : a.active = some stage) {control : StageControl} {pubkey : String}
    {f : Participant → Participant} (hflag : flagOf control = some (pubkey, f)) :
    OnlyOwn owner sender a (a.withStage (stage.modify pubkey f)) ↔
      (pubkey = owner sender ∨ ∀ p, stage.participant pubkey = some p → f p = p) := by
  have hkey : ∀ p, (f p).pubkey = p.pubkey := fun p => (flagOf_keeps hflag p).1
  rw [onlyOwn_withStage hactive]
  constructor
  · intro h
    refine or_iff_not_imp_left.mpr fun hne p hp => ?_
    have hself := (stage.participant_modify hkey).symm.trans (h pubkey hne)
    rw [hp, Option.map_some, if_pos rfl] at hself
    exact Option.some.inj hself
  · intro h k hk
    rw [stage.participant_modify hkey]
    cases hp : stage.participant k with
    | none => rfl
    | some p =>
      rw [Option.map_some]
      split
      next heq =>
        subst heq
        rw [h.resolve_left hk p hp]
      next => rfl

end Binding

/-- A message of someone who is no moderator changes at most the sender's own entry just if it
names that entry, or says nothing new. -/
theorem onlyOwn_iff_namesOwn (C : StageCrates) (owner : String → String) {a : StageActor}
    {stage : ActiveStage} (hactive : a.active = some stage) (signed : SignedStageControl)
    (haccepts : accepts C.toSignatureCrates stage.stageId signed = true)
    (hmod : isModerator stage signed.senderPubkey = false) (now : UInt64) :
    OnlyOwn owner signed.senderPubkey a
        (a.receive C.toSignatureCrates stage.stageId signed now).1 ↔
      NamesOwn owner stage signed now := by
  rw [StageActor.receive, if_pos haccepts, NamesOwn]
  have hstep := handleControl_openStep hactive hmod now
  generalize signed.control = control at hstep ⊢
  generalize (a.handleControl signed now).1 = a' at hstep ⊢
  cases hstep with
  | presence sid pubkey role timestamp nodeId =>
    rw [onlyOwn_presence_iff hactive]
    constructor
    · refine fun h => ⟨?_, nofun⟩
      rintro _ _ _ _ _ ⟨⟩
      exact h
    · exact fun h => h.1 sid pubkey role timestamp nodeId rfl
  | flag hflag =>
    rw [onlyOwn_flag_iff hactive hflag]
    constructor
    · intro h
      refine ⟨?_, fun pubkey f hf => ?_⟩
      · rintro _ _ _ _ _ rfl
        cases hflag
      · obtain ⟨rfl, rfl⟩ := Prod.mk.inj (Option.some.inj (hflag.symm.trans hf))
        exact h
    · exact fun h => h.2 _ _ hflag
  | relay sid relayPubkey relayNodeId capacity topology =>
    exact iff_of_true ((onlyOwn_withStage hactive).mpr fun _ _ => rfl) ⟨nofun, nofun⟩
  | nothing hflag hpresence =>
    refine iff_of_true (fun s hs => ⟨s, hs, fun _ _ => rfl⟩) ⟨?_, fun pubkey f hf => ?_⟩
    · intro sid pubkey role timestamp nodeId hcontrol
      exact absurd hcontrol (hpresence sid pubkey role timestamp nodeId)
    · cases hflag.symm.trans hf

section Examples

def intruder : StageActor := .new ⟨"intruder", Vector.replicate 32 3, "intruder node"⟩

def ownerOf (key : String) : String :=
  if key = intruder.signingPubkey stageChecksum then intruder.identity.masterPubkey else key

def bystanderStage : ActiveStage where
  stageId := "stage"
  title := "title"
  hostPubkey := "host"
  myPubkey := "bystander"
  myRole := .listener
  selfMuted := false
  startedAt := 0
  participants := [⟨"victim", .speaker, false, false, false, 0, none⟩]
  heartbeat := ⟨"bystander", .listener, none⟩
  cancel := [0]
  topology := none
  ticket := none
  listenerUpstreamId := none
  listenerPipelineCancel := none
  hostNodeId := "host node"
  bannedNodeIds := []

def bystander : StageActor :=
  (StageActor.new ⟨"bystander", Vector.replicate 32 4, "bystander node"⟩).withStage bystanderStage

theorem not_isModerator_intruder (control : StageControl) :
    isModerator bystanderStage (intruder.sign stageChecksum control 0).senderPubkey = false := by
  change isModerator bystanderStage (intruder.signingPubkey stageChecksum) = false
  decide +kernel

theorem onlyOwn_iff_namesOwn_raiseHand :
    OnlyOwn ownerOf (intruder.signingPubkey stageChecksum) bystander
      (bystander.receive checksumCrates "stage"
        (intruder.sign stageChecksum (.raiseHand "stage" "intruder") 0) 0).1 ↔
      NamesOwn ownerOf bystanderStage (intruder.sign stageChecksum (.raiseHand "stage" "intruder") 0) 0 :=
  onlyOwn_iff_namesOwn stageChecksum ownerOf rfl _
    (stageChecksum_signs.accepts intruder (.raiseHand "stage" "intruder") 0)
    (not_isModerator_intruder _) 0

/-- A participant raises the hand of another. -/
theorem not_onlyOwn_raiseHand :
    accepts checksumCrates "stage" (intruder.sign stageChecksum (.raiseHand "stage" "victim") 0) = true ∧
      isModerator bystanderStage (intruder.signingPubkey stageChecksum) = false ∧
      ¬ OnlyOwn ownerOf (intruder.signingPubkey stageChecksum) bystander
        (bystander.receive checksumCrates "stage"
          (intruder.sign stageChecksum (.raiseHand "stage" "victim") 0) 0).1 := by
  have haccepts := stageChecksum_signs.accepts intruder (.raiseHand "stage" "victim") 0
  refine ⟨haccepts, not_isModerator_intruder (.raiseHand "stage" "victim"), fun h => ?_⟩
  have hreceive : (bystander.receive checksumCrates "stage"
      (intruder.sign stageChecksum (.raiseHand "stage" "victim") 0) 0).1 =
      bystander.withStage (bystanderStage.modify "victim" fun p => { p with handRaised := true }) :=
    congrArg Prod.fst (if_pos haccepts)
  have hactive : bystander.active = some bystanderStage := rfl
  have hflag : flagOf (.raiseHand "stage" "victim") =
      some ("victim", fun p => { p with handRaised := true }) := rfl
  rw [hreceive, onlyOwn_flag_iff hactive hflag, ownerOf, if_pos rfl] at h
  rcases h with hname | hraised
  · exact absurd hname (by decide)
  · exact absurd (hraised _ rfl) (by decide)

end Examples

end Proscenium.Stage
