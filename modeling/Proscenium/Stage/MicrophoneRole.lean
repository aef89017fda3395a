import Proscenium.Lib.Machine
import Proscenium.Stage.ActorDefs

/-! The microphone of a node and its role in a stage. The pipeline that sends the
microphone to the host runs until its token is cancelled; a demotion does not
cancel it, and a second promotion starts a second one. -/

namespace Proscenium.Stage

open Proscenium.Types Machine CancelToken

section Defs

variable (C : StageCrates)

/-- `host_node_id.parse()`. -/
def parses (hostNodeId : String) : Bool :=
  match C.parsePublicKey hostNodeId with
  | .ok _ => true
  | .error _ => false

def StageTask.mic : StageTask → Option CancelToken
  | .speakerPipeline hostNodeId token => if parses C hostNodeId then some token else none
  | _ => none

def StageActor.mics (a : StageActor) : List CancelToken :=
  (a.tasks.filterMap (StageTask.mic C)).filter fun t => ¬ Cancelled a.cancelled t

/-- The microphone is sent only by a speaker, and once; so not after a demotion. -/
structure MicFollowsRole (a : StageActor) : Prop where
  speaker : a.mics C ≠ [] → ∃ stage, a.active = some stage ∧ stage.myRole = .speaker
  single : (a.mics C).length ≤ 1

/-- A moderator's word on the role of this node. -/
def ownRole (a : StageActor) : StageInput → Option StageRole
  | .command .. => none
  | .gossip stageId signed _ =>
    match a.active with
    | none => none
    | some stage =>
      if accepts C.toSignatureCrates stageId signed && isModerator stage signed.senderPubkey then
        match signed.control with
        | .promoteSpeaker _ pubkey => if pubkey = stage.myPubkey then some .speaker else none
        | .demoteSpeaker _ pubkey => if pubkey = stage.myPubkey then some .listener else none
        | _ => none
      else none

def ActiveStage.onAir (stage : ActiveStage) : Bool :=
  stage.myRole = .speaker && parses C stage.hostNodeId

/-- No moderator promotes a speaker again, or demotes it. -/
def RoleHeld (a : StageActor) (i : StageInput) : Prop :=
  ownRole C a i ≠ none → ∀ stage, a.active = some stage → stage.onAir C = false

end Defs

/-- What no message but a role of this node, an assignment or an end changes. -/
structure KeepsAudio (stage stage' : ActiveStage) : Prop where
  cancel : stage'.cancel = stage.cancel
  listener : stage'.listenerPipelineCancel = stage.listenerPipelineCancel
  hostNodeId : stage'.hostNodeId = stage.hostNodeId
  myRole : stage'.myRole = stage.myRole

theorem KeepsAudio.refl (stage : ActiveStage) : KeepsAudio stage stage := ⟨rfl, rfl, rfl, rfl⟩

theorem keepsAudio_modify (pubkey : String) (f : Participant → Participant) (stage : ActiveStage) :
    KeepsAudio stage (stage.modify pubkey f) := ⟨rfl, rfl, rfl, rfl⟩

theorem keepsAudio_banNode (pubkey : String) (stage : ActiveStage) :
    KeepsAudio stage (stage.banNode pubkey) := by
  unfold ActiveStage.banNode
  split <;> exact ⟨rfl, rfl, rfl, rfl⟩

theorem KeepsAudio.remove {stage stage' : ActiveStage} (h : KeepsAudio stage stage') (pubkey : String) :
    KeepsAudio stage (stage'.remove pubkey) := ⟨h.cancel, h.listener, h.hostNodeId, h.myRole⟩

/-- What a step does to the audio of a node, other than to follow its own role. -/
inductive AudioStep (a : StageActor) : StageActor → Prop where
  | same : AudioStep a a
  | kept {stage stage' : ActiveStage} (hactive : a.active = some stage)
      (hkept : KeepsAudio stage stage') : AudioStep a (a.withStage stage')
  | closed {stage stage' : ActiveStage} (hactive : a.active = some stage)
      (hkept : KeepsAudio stage stage') : AudioStep a (a.close stage')
  | reassigned {stage : ActiveStage} (hactive : a.active = some stage) (upstream : String) :
      AudioStep a (a.listenTo upstream stage)
  | created {stage : ActiveStage} (hactive : a.active = none) (hcancel : stage.cancel = [a.fresh])
      (hlistener : stage.listenerPipelineCancel = none) (hrole : stage.myRole ≠ .speaker) :
      AudioStep a { a with active := some stage, fresh := a.fresh + 1 }
  | joined {stage : ActiveStage} (upstream host : String) (hactive : a.active = none)
      (hcancel : stage.cancel = [a.fresh])
      (hlistener : stage.listenerPipelineCancel = some (stage.cancel.child (a.fresh + 1)))
      (hrole : stage.myRole ≠ .speaker) :
      AudioStep a { a with
        active := some stage
        tasks := a.tasks ++ [.listenerPipeline upstream host (stage.cancel.child (a.fresh + 1))]
        fresh := a.fresh + 2 }

section Steps

variable {C : StageCrates} {a : StageActor}

theorem handle_audioStep {cmd : StageCommand} {now : UInt64} {a' : StageActor}
    {out : List StageControl} (h : a.handle C cmd now = .ok (a', out)) : AudioStep a a' := by
  cases cmd with
  | createStage title stageId =>
    rw [StageActor.handle, StageActor.createStage] at h
    split at h
    · cases h
    · next hactive =>
      cases h
      exact .created hactive rfl rfl nofun
  | joinStage ticket =>
    rw [StageActor.handle, StageActor.joinStage] at h
    split at h
    · cases h
    · next hactive =>
      cases h
      exact .joined _ _ hactive rfl rfl nofun
  | leaveStage =>
    obtain ⟨stage, hstage, h⟩ := Checks.bind_eq_ok.mp h
    cases h
    exact .closed (StageActor.inStage_eq_ok.mp hstage) (.refl stage)
  | endStage =>
    obtain ⟨stage, hstage, h⟩ := Checks.bind_eq_ok.mp h
    split at h
    · cases h
      exact .closed (StageActor.inStage_eq_ok.mp hstage) (.refl stage)
    · cases h
  | promoteSpeaker pubkey | demoteSpeaker pubkey =>
    obtain ⟨stage, hstage, h⟩ := Checks.bind_eq_ok.mp h
    cases h
    exact .kept (StageActor.requireHostActive_eq_ok.mp hstage).1 (keepsAudio_modify ..)
  | volunteerAsRelay capacity =>
    obtain ⟨stage, hstage, h⟩ := Checks.bind_eq_ok.mp h
    split at h
    · cases h
    · cases h
      exact .same
  | toggleSelfMute =>
    obtain ⟨stage, hstage, h⟩ := Checks.bind_eq_ok.mp h
    cases h
    exact .kept (StageActor.inStage_eq_ok.mp hstage) ⟨rfl, rfl, rfl, rfl⟩
  | raiseHand | lowerHand | sendReaction emoji | sendChat text =>
    obtain ⟨stage, hstage, h⟩ := Checks.bind_eq_ok.mp h
    cases h
    exact .same
  | sweepPresence =>
    rw [StageActor.handle, StageActor.sweepPresence] at h
    split at h
    · cases h
      exact .same
    · next hactive =>
      cases h
      exact .kept hactive ⟨rfl, rfl, rfl, rfl⟩
  | heartbeat =>
    rw [StageActor.handle, StageActor.sendHeartbeat] at h
    split at h <;> cases h <;> exact .same

section Branches

variable {stage : ActiveStage} (hactive : a.active = some stage) (sender pubkey : String)
include hactive

theorem onEnd_audioStep : AudioStep a (a.onEnd sender stage) := by
  unfold StageActor.onEnd
  split
  · exact .closed hactive (.refl stage)
  · exact .same

theorem onPromoteSpeaker_audioStep
    (hother : isModerator stage sender = true → pubkey ≠ stage.myPubkey) :
    AudioStep a (a.onPromoteSpeaker sender pubkey stage) := by
  unfold StageActor.onPromoteSpeaker
  split
  next hmod =>
    dsimp only
    rw [if_neg (hother hmod)]
    exact .kept hactive (keepsAudio_modify ..)
  next => exact .same

theorem onDemoteSpeaker_audioStep
    (hother : isModerator stage sender = true → pubkey ≠ stage.myPubkey) :
    AudioStep a (a.onDemoteSpeaker sender pubkey stage) := by
  unfold StageActor.onDemoteSpeaker
  split
  next hmod =>
    dsimp only
    rw [if_neg (hother hmod)]
    exact .kept hactive (keepsAudio_modify ..)
  next => exact .same

theorem onMuteSpeaker_audioStep : AudioStep a (a.onMuteSpeaker sender pubkey stage) := by
  unfold StageActor.onMuteSpeaker
  split
  · exact .kept hactive (keepsAudio_modify ..)
  · exact .same

theorem onKick_audioStep : AudioStep a (a.onKick sender pubkey stage) := by
  have hkept := (KeepsAudio.refl stage).remove pubkey
  unfold StageActor.onKick
  split
  · split
    · exact .closed hactive hkept
    · exact .kept hactive hkept
  · exact .same

theorem onBan_audioStep : AudioStep a (a.onBan sender pubkey stage) := by
  have hkept := (keepsAudio_banNode pubkey stage).remove pubkey
  unfold StageActor.onBan
  split
  · dsimp only
    split
    · exact .closed hactive hkept
    · exact .kept hactive hkept
  · exact .same

theorem onRelayAssignment_audioStep (relayNodeId : String) (listenerPubkeys : List String) :
    AudioStep a (a.onRelayAssignment sender stage relayNodeId listenerPubkeys) := by
  unfold StageActor.onRelayAssignment
  split
  · split
    · exact .reassigned hactive relayNodeId
    · exact .same
  · exact .same

theorem takeRelay_audioStep (relayPubkey relayNodeId : String) (capacity : UInt32) :
    AudioStep a (a.takeRelay relayPubkey relayNodeId capacity stage).1 := by
  unfold StageActor.takeRelay
  split
  · exact .kept hactive ⟨rfl, rfl, rfl, rfl⟩
  · exact .same

theorem handleControl_audioStep (signed : SignedStageControl) (now : UInt64)
    (hother : ∀ sid pubkey, signed.control = .promoteSpeaker sid pubkey ∨
      signed.control = .demoteSpeaker sid pubkey →
        isModerator stage signed.senderPubkey = true → pubkey ≠ stage.myPubkey) :
    AudioStep a (a.handleControl signed now).1 := by
  rw [StageActor.handleControl, hactive]
  dsimp only
  cases hcontrol : signed.control with
  | presence => exact .kept hactive ⟨rfl, rfl, rfl, rfl⟩
  | ended => exact onEnd_audioStep hactive _
  | raiseHand | lowerHand | selfMuteToggle => exact .kept hactive (keepsAudio_modify ..)
  | promoteSpeaker sid pubkey =>
    exact onPromoteSpeaker_audioStep hactive _ pubkey (hother sid pubkey (.inl hcontrol))
  | demoteSpeaker sid pubkey =>
    exact onDemoteSpeaker_audioStep hactive _ pubkey (hother sid pubkey (.inr hcontrol))
  | muteSpeaker => exact onMuteSpeaker_audioStep hactive _ _
  | kick => exact onKick_audioStep hactive _ _
  | relayVolunteer => exact takeRelay_audioStep hactive _ _ _
  | relayAssignment => exact onRelayAssignment_audioStep hactive _ _ _
  | ban => exact onBan_audioStep hactive _ _
  | announce | reaction | chat => exact .same

end Branches

/-- Either the step is about this node's own role, or the audio goes on with the stage. -/
theorem step_audio (C : StageCrates) (a : StageActor) (i : StageInput) :
    (ownRole C a i = none ∧ AudioStep a (a.step C i)) ∨
    ∃ stage stage' : ActiveStage, a.active = some stage ∧ KeepsAudio stage stage' ∧
      ((ownRole C a i = some .speaker ∧ a.step C i = a.startSpeaking stage') ∨
      (ownRole C a i = some .listener ∧ a.step C i = a.withStage { stage' with myRole := .listener })) := by
  cases i with
  | command cmd now =>
    refine .inl ⟨rfl, ?_⟩
    rw [StageActor.step]
    split
    next h => exact handle_audioStep h
    next => exact .same
  | gossip stageId signed now =>
    rw [StageActor.step, StageActor.receive]
    by_cases haccepts : accepts C.toSignatureCrates stageId signed = true
    swap
    · refine .inl ⟨?_, ?_⟩
      · rw [ownRole]
        split
        · rfl
        · rw [Bool.eq_false_of_not_eq_true haccepts, Bool.false_and, if_neg Bool.false_ne_true]
      · rw [if_neg haccepts]
        exact .same
    rw [if_pos haccepts]
    cases hactive : a.active with
    | none =>
      refine .inl ⟨by rw [ownRole, hactive], ?_⟩
      rw [StageActor.handleControl, hactive]
      exact .same
    | some stage =>
      by_cases hown : ∃ sid pubkey, (signed.control = .promoteSpeaker sid pubkey ∨
          signed.control = .demoteSpeaker sid pubkey) ∧ isModerator stage signed.senderPubkey = true ∧
            pubkey = stage.myPubkey
      · obtain ⟨sid, pubkey, hcontrol, hmod, hme⟩ := hown
        right
        rw [ownRole, hactive, StageActor.handleControl, hactive]
        dsimp only
        rw [haccepts, hmod, Bool.and_self, if_pos rfl]
        rcases hcontrol with hcontrol | hcontrol <;> rw [hcontrol] <;> dsimp only <;> rw [if_pos hme]
        · refine ⟨stage, stage.setRole pubkey .speaker, rfl, keepsAudio_modify .., .inl ⟨rfl, ?_⟩⟩
          rw [StageActor.onPromoteSpeaker, if_pos hmod, if_pos hme]
        · refine ⟨stage, stage.setRole pubkey .listener, rfl, keepsAudio_modify .., .inr ⟨rfl, ?_⟩⟩
          rw [StageActor.onDemoteSpeaker, if_pos hmod]
          dsimp only
          rw [if_pos hme]
      · left
        have hother : ∀ sid pubkey, signed.control = .promoteSpeaker sid pubkey ∨
            signed.control = .demoteSpeaker sid pubkey →
              isModerator stage signed.senderPubkey = true → pubkey ≠ stage.myPubkey :=
          fun sid pubkey hcontrol hmod hme => hown ⟨sid, pubkey, hcontrol, hmod, hme⟩
        refine ⟨?_, handleControl_audioStep hactive signed now hother⟩
        rw [ownRole, hactive]
        dsimp only
        split
        next hmod =>
          rw [haccepts, Bool.true_and] at hmod
          split
          next sid pubkey hcontrol => exact if_neg (hother sid pubkey (.inl hcontrol) hmod)
          next sid pubkey hcontrol => exact if_neg (hother sid pubkey (.inr hcontrol) hmod)
          next => rfl
        next => rfl

end Steps

section Tokens

variable (C : StageCrates)

/-- The tokens of a stage: they are alive, apart, and there is a microphone just on the air. -/
structure StageTokens (a : StageActor) (stage : ActiveStage) : Prop where
  root : ∃ r < a.fresh, stage.cancel = [r]
  alive : ¬ Cancelled a.cancelled stage.cancel
  mics : ∀ t ∈ a.mics C, ∃ n < a.fresh, t = stage.cancel.child n
  listener : ∀ t, stage.listenerPipelineCancel = some t →
    (∃ n < a.fresh, t = stage.cancel.child n) ∧ t ∉ a.mics C
  count : (a.mics C).length = if stage.onAir C then 1 else 0

structure MicInv (a : StageActor) : Prop where
  below : ∀ c ∈ a.cancelled, c ≠ [] ∧ ∀ n ∈ c, n < a.fresh
  idle : a.active = none → a.mics C = []
  stage : ∀ stage, a.active = some stage → StageTokens C a stage

variable {C} {a a' : StageActor} {stage stage' : ActiveStage}

theorem mics_congr (htasks : a'.tasks.filterMap (StageTask.mic C) = a.tasks.filterMap (StageTask.mic C))
    (hcancelled : ∀ t, ¬ Cancelled a.cancelled t → t ∈ a.mics C → ¬ Cancelled a'.cancelled t)
    (hmore : ∀ c ∈ a.cancelled, c ∈ a'.cancelled) : a'.mics C = a.mics C := by
  unfold StageActor.mics at hcancelled ⊢
  rw [htasks]
  refine List.filter_congr fun t ht => decide_eq_decide.mpr (not_congr ?_)
  constructor
  · intro h
    by_contra hnot
    exact hcancelled t hnot (List.mem_filter.mpr ⟨ht, decide_eq_true hnot⟩) h
  · rintro ⟨c, hc, hprefix⟩
    exact ⟨c, hmore c hc, hprefix⟩

theorem MicFollowsRole.of_inv (h : MicInv C a) : MicFollowsRole C a := by
  cases hactive : a.active with
  | none =>
    have hidle := h.idle hactive
    refine ⟨fun hne => absurd hidle hne, ?_⟩
    rw [hidle]
    exact Nat.zero_le 1
  | some stage =>
    have hcount := (h.stage stage hactive).count
    constructor
    · intro hne
      refine ⟨stage, hactive, ?_⟩
      have honAir : stage.onAir C = true := by
        by_contra hoff
        rw [if_neg hoff] at hcount
        exact hne (List.length_eq_zero_iff.mp hcount)
      exact of_decide_eq_true ((Bool.and_eq_true _ _).mp honAir).1
    · rw [hcount]
      split <;> omega

theorem StageTokens.keep (h : StageTokens C a stage) (hkept : KeepsAudio stage stage') :
    StageTokens C (a.withStage stage') stage' where
  root := hkept.cancel ▸ h.root
  alive := hkept.cancel ▸ h.alive
  mics := hkept.cancel ▸ h.mics
  listener := by
    rw [hkept.cancel, hkept.listener]
    exact h.listener
  count := by
    rw [ActiveStage.onAir, hkept.hostNodeId, hkept.myRole]
    exact h.count

theorem MicInv.withStage (h : MicInv C a) (htokens : StageTokens C (a.withStage stage) stage) :
    MicInv C (a.withStage stage) where
  below := h.below
  idle := nofun
  stage _ hs := Option.some.inj hs ▸ htokens

theorem MicInv.close (h : MicInv C a) (htokens : StageTokens C a stage)
    (hkept : KeepsAudio stage stage') : MicInv C (a.close stage') where
  below c hc := by
    rcases List.mem_cons.mp hc with rfl | hc
    · obtain ⟨r, hr, hroot⟩ := htokens.root
      rw [hkept.cancel, hroot]
      exact ⟨List.cons_ne_nil _ _, fun n hn => List.mem_singleton.mp hn ▸ hr⟩
    · exact h.below c hc
  idle _ := by
    -- every microphone is below the token of the stage
    refine List.eq_nil_iff_forall_not_mem.mpr fun t ht => ?_
    obtain ⟨htask, halive⟩ := List.mem_filter.mp ht
    have hnot : ¬ Cancelled (stage'.cancel :: a.cancelled) t := of_decide_eq_true halive
    rw [cancelled_cons, not_or] at hnot
    have hmic : t ∈ a.mics C := List.mem_filter.mpr ⟨htask, decide_eq_true hnot.2⟩
    obtain ⟨n, -, rfl⟩ := htokens.mics t hmic
    exact hnot.1 (hkept.cancel ▸ prefix_child _ n)
  stage _ h := absurd h.symm (Option.some_ne_none _)

theorem StageTokens.stopListening (h : StageTokens C a stage) (hkept : KeepsAudio stage stage') :
    (a.stopListening stage').mics C = a.mics C ∧
      ¬ Cancelled (a.stopListening stage').cancelled stage.cancel := by
  have hcases : ∀ t, Cancelled (a.stopListening stage').cancelled t →
      (∃ c, stage.listenerPipelineCancel = some c ∧ c <+: t) ∨ Cancelled a.cancelled t := by
    rintro t ⟨c, hc, hprefix⟩
    rcases List.mem_append.mp hc with hc | hc
    · exact .inl ⟨c, hkept.listener ▸ Option.mem_toList.mp hc, hprefix⟩
    · exact .inr ⟨c, hc, hprefix⟩
  constructor
  · refine mics_congr rfl (fun t halive hmic hcancelled => ?_) fun c hc => List.mem_append_right _ hc
    rcases hcases t hcancelled with ⟨c, hc, hprefix⟩ | hcancelled
    · obtain ⟨⟨n, -, rfl⟩, hother⟩ := h.listener c hc
      obtain ⟨m, -, rfl⟩ := h.mics t hmic
      have heq : stage.cancel.child n = stage.cancel.child m :=
        hprefix.eq_of_length (by simp [child])
      exact hother (heq ▸ hmic)
    · exact halive hcancelled
  · intro hcancelled
    rcases hcases _ hcancelled with ⟨c, hc, hprefix⟩ | hcancelled
    · obtain ⟨⟨n, -, rfl⟩, -⟩ := h.listener c hc
      have hlength := hprefix.length_le
      simp [child] at hlength
    · exact h.alive hcancelled

theorem MicInv.below_stopListening (h : MicInv C a) (htokens : StageTokens C a stage)
    (hkept : KeepsAudio stage stage') :
    ∀ c ∈ (a.stopListening stage').cancelled, c ≠ [] ∧ ∀ n ∈ c, n < a.fresh := by
  intro c hc
  rcases List.mem_append.mp hc with hc | hc
  · obtain ⟨⟨n, hn, rfl⟩, -⟩ := htokens.listener c (hkept.listener ▸ Option.mem_toList.mp hc)
    obtain ⟨r, hr, hroot⟩ := htokens.root
    refine ⟨List.append_ne_nil_of_right_ne_nil _ (List.cons_ne_nil _ _), fun m hm => ?_⟩
    rcases List.mem_append.mp hm with hm | hm
    · rw [hroot] at hm
      exact List.mem_singleton.mp hm ▸ hr
    · exact List.mem_singleton.mp hm ▸ hn
  · exact h.below c hc

theorem not_cancelled_fresh {cs : List CancelToken} {t : CancelToken} {n : ℕ}
    (hbelow : ∀ c ∈ cs, c ≠ [] ∧ ∀ m ∈ c, m < n) (halive : ¬ Cancelled cs t) :
    ¬ Cancelled cs (t.child n) := by
  rw [cancelled_child, not_or]
  refine ⟨fun hmem => ?_, halive⟩
  have hlt := (hbelow _ hmem).2 n (List.mem_append_right _ List.mem_cons_self)
  exact lt_irrefl n hlt

theorem mics_startSpeaking (h : MicInv C a) (htokens : StageTokens C a stage)
    (hkept : KeepsAudio stage stage') : (a.startSpeaking stage').mics C = a.mics C ++
      if parses C stage.hostNodeId then [stage.cancel.child (a.fresh + 1)] else [] := by
  obtain ⟨hmics, halive⟩ := htokens.stopListening hkept
  have hbelow := h.below_stopListening htokens hkept
  have hfresh : ¬ Cancelled (a.stopListening stage').cancelled (stage.cancel.child (a.fresh + 1)) :=
    not_cancelled_fresh (fun c hc => ⟨(hbelow c hc).1, fun m hm => ((hbelow c hc).2 m hm).trans
      (Nat.lt_succ_self _)⟩) halive
  have happend : (a.startSpeaking stage').tasks.filterMap (StageTask.mic C) =
      (a.stopListening stage').tasks.filterMap (StageTask.mic C) ++
        if parses C stage.hostNodeId then [stage.cancel.child (a.fresh + 1)] else [] := by
    change (a.tasks ++ _).filterMap _ = _
    rw [List.filterMap_append, ← hkept.cancel, ← hkept.hostNodeId]
    refine congrArg (a.tasks.filterMap (StageTask.mic C) ++ ·) ?_
    rw [List.filterMap_cons, List.filterMap_cons, List.filterMap_nil]
    cases hparses : parses C stage'.hostNodeId with
    | false => simp [StageTask.mic, hparses]
    | true =>
      simp only [StageTask.mic, hparses, if_pos]
      rfl
  rw [StageActor.mics, happend, List.filter_append]
  refine congrArg₂ (· ++ ·) hmics ?_
  split
  · exact List.filter_cons_of_pos (decide_eq_true hfresh)
  · rfl

theorem MicInv.startSpeaking (h : MicInv C a) (htokens : StageTokens C a stage)
    (hkept : KeepsAudio stage stage') (hoff : stage.onAir C = false) :
    MicInv C (a.startSpeaking stage') := by
  have hbelow := h.below_stopListening htokens hkept
  have halive := (htokens.stopListening hkept).2
  have hnone : a.mics C = [] := by
    have hcount := htokens.count
    rw [hoff] at hcount
    exact List.length_eq_zero_iff.mp hcount
  have hmics := mics_startSpeaking h htokens hkept
  rw [hnone, List.nil_append] at hmics
  obtain ⟨r, hr, hroot⟩ := htokens.root
  constructor
  · intro c hc
    obtain ⟨hne, hlt⟩ := hbelow c hc
    exact ⟨hne, fun n hn => (hlt n hn).trans (Nat.lt_add_of_pos_right two_pos)⟩
  · exact nofun
  · intro s hs
    obtain rfl := Option.some.inj hs
    constructor
    · exact ⟨r, hr.trans (Nat.lt_add_of_pos_right two_pos), hkept.cancel.trans hroot⟩
    · exact hkept.cancel ▸ halive
    · intro t ht
      rw [hmics] at ht
      split at ht
      · refine ⟨a.fresh + 1, Nat.lt_succ_self _, ?_⟩
        rw [List.mem_singleton.mp ht]
        exact congrArg (child · _) hkept.cancel.symm
      · exact absurd ht List.not_mem_nil
    · exact nofun
    · rw [hmics, ActiveStage.onAir]
      change _ = if (decide (StageRole.speaker = .speaker) && parses C stage'.hostNodeId) = true then 1 else 0
      rw [hkept.hostNodeId, decide_eq_true rfl, Bool.true_and]
      split <;> rfl

theorem MicInv.listenTo (h : MicInv C a) (htokens : StageTokens C a stage) (upstream : String) :
    MicInv C (a.listenTo upstream stage) := by
  have hkept := KeepsAudio.refl stage
  have hbelow := h.below_stopListening htokens hkept
  obtain ⟨hmics, halive⟩ := htokens.stopListening hkept
  have hmics' : (a.listenTo upstream stage).mics C = a.mics C := by
    rw [← hmics]
    unfold StageActor.mics StageActor.listenTo
    dsimp only
    rw [List.filterMap_append]
    exact congrArg (List.filter _) (List.append_nil _)
  obtain ⟨r, hr, hroot⟩ := htokens.root
  constructor
  · intro c hc
    obtain ⟨hne, hlt⟩ := hbelow c hc
    exact ⟨hne, fun n hn => (hlt n hn).trans (Nat.lt_succ_self _)⟩
  · exact nofun
  · intro s hs
    obtain rfl := Option.some.inj hs
    constructor
    · exact ⟨r, hr.trans (Nat.lt_succ_self _), hroot⟩
    · exact halive
    · intro t ht
      rw [hmics'] at ht
      obtain ⟨n, hn, heq⟩ := htokens.mics t ht
      exact ⟨n, hn.trans (Nat.lt_succ_self _), heq⟩
    · rintro t ⟨⟩
      refine ⟨⟨a.fresh, Nat.lt_succ_self _, rfl⟩, fun hmem => ?_⟩
      rw [hmics'] at hmem
      obtain ⟨n, hn, heq⟩ := htokens.mics _ hmem
      have hlast : a.fresh = n := List.singleton_inj.mp (List.append_cancel_left heq)
      omega
    · rw [hmics']
      exact htokens.count

theorem MicInv.open (h : MicInv C a) (hactive : a.active = none) {k : ℕ} (hk : 0 < k)
    {tasks : List StageTask} (htasks : tasks.filterMap (StageTask.mic C) = [])
    (hcancel : stage.cancel = [a.fresh]) (hrole : stage.myRole ≠ .speaker)
    (hlistener : ∀ t, stage.listenerPipelineCancel = some t →
      ∃ n < a.fresh + k, t = stage.cancel.child n) :
    MicInv C { a with active := some stage, tasks := a.tasks ++ tasks, fresh := a.fresh + k } := by
  have hmics : StageActor.mics C
      { a with active := some stage, tasks := a.tasks ++ tasks, fresh := a.fresh + k } = [] := by
    rw [← h.idle hactive]
    unfold StageActor.mics
    dsimp only
    rw [List.filterMap_append, htasks, List.append_nil]
  constructor
  · intro c hc
    obtain ⟨hne, hlt⟩ := h.below c hc
    exact ⟨hne, fun n hn => (hlt n hn).trans (Nat.lt_add_of_pos_right hk)⟩
  · exact nofun
  · intro s hs
    obtain rfl := Option.some.inj hs
    constructor
    · exact ⟨a.fresh, Nat.lt_add_of_pos_right hk, hcancel⟩
    · rintro ⟨c, hc, hprefix⟩
      rw [hcancel] at hprefix
      obtain ⟨hne, hlt⟩ := h.below c hc
      rcases List.prefix_concat_iff.mp (show c <+: [] ++ [a.fresh] from hprefix) with rfl | hnil
      · exact lt_irrefl _ (hlt a.fresh List.mem_cons_self)
      · exact hne (List.prefix_nil.mp hnil)
    · rw [hmics]
      exact fun t ht => absurd ht List.not_mem_nil
    · intro t ht
      rw [hmics]
      exact ⟨hlistener t ht, List.not_mem_nil⟩
    · rw [hmics, ActiveStage.onAir, decide_eq_false hrole]
      rfl

theorem MicInv.audioStep (h : MicInv C a) (hstep : AudioStep a a') : MicInv C a' := by
  cases hstep with
  | same => exact h
  | kept hactive hkept => exact h.withStage ((h.stage _ hactive).keep hkept)
  | closed hactive hkept => exact h.close (h.stage _ hactive) hkept
  | reassigned hactive upstream => exact h.listenTo (h.stage _ hactive) upstream
  | created hactive hcancel hlistener hrole =>
    have htasks : ([] : List StageTask).filterMap (StageTask.mic C) = [] := rfl
    have hopen := h.open hactive one_pos htasks hcancel hrole
      fun t ht => absurd (hlistener.symm.trans ht) nofun
    rwa [List.append_nil] at hopen
  | joined upstream host hactive hcancel hlistener hrole =>
    refine h.open hactive two_pos rfl hcancel hrole fun t ht => ?_
    exact ⟨_, Nat.lt_succ_self _, (Option.some.inj (hlistener.symm.trans ht)).symm⟩

end Tokens

section Runs

variable {C : StageCrates} {a : StageActor}

theorem MicInv.demote {stage stage' : ActiveStage} (h : MicInv C a) (htokens : StageTokens C a stage)
    (hkept : KeepsAudio stage stage') (hoff : stage.onAir C = false) :
    MicInv C (a.withStage { stage' with myRole := .listener }) := by
  have hkeep := htokens.keep hkept
  refine h.withStage ⟨hkeep.root, hkeep.alive, hkeep.mics, hkeep.listener, ?_⟩
  have hcount := htokens.count
  rw [hoff] at hcount
  exact hcount

theorem MicInv.step {i : StageInput} (h : MicInv C a) (hheld : RoleHeld C a i) :
    MicInv C (a.step C i) := by
  rcases step_audio C a i with ⟨-, haudio⟩ | ⟨stage, stage', hactive, hkept, hown⟩
  · exact h.audioStep haudio
  · have htokens := h.stage stage hactive
    have hne : ownRole C a i ≠ none := by
      rcases hown with ⟨hown, -⟩ | ⟨hown, -⟩ <;> rw [hown] <;> exact nofun
    have hoff := hheld hne stage hactive
    rcases hown with ⟨-, hstep⟩ | ⟨-, hstep⟩ <;> rw [hstep]
    · exact h.startSpeaking htokens hkept hoff
    · exact h.demote htokens hkept hoff

theorem MicInv.not_follows {i : StageInput} (h : MicInv C a) (hheld : ¬ RoleHeld C a i) :
    ¬ MicFollowsRole C (a.step C i) := by
  intro hfollows
  obtain ⟨hne, hrest⟩ := Classical.not_imp.mp hheld
  push Not at hrest
  obtain ⟨s, hs, hair⟩ := hrest
  have honAir : s.onAir C = true := Bool.eq_true_of_not_eq_false hair
  rcases step_audio C a i with ⟨hnone, -⟩ | ⟨stage, stage', hactive, hkept, hown⟩
  · exact hne hnone
  obtain rfl : stage = s := Option.some.inj (hactive.symm.trans hs)
  have htokens := h.stage stage hactive
  have hcount := htokens.count
  rw [if_pos honAir] at hcount
  rcases hown with ⟨-, hstep⟩ | ⟨-, hstep⟩ <;> rw [hstep] at hfollows
  · have hparses : parses C stage.hostNodeId = true := ((Bool.and_eq_true _ _).mp honAir).2
    have htwo := hfollows.single
    rw [mics_startSpeaking h htokens hkept, if_pos hparses, List.length_append, hcount] at htwo
    exact Nat.not_succ_le_self 1 htwo
  · have hmic : (a.withStage { stage' with myRole := .listener }).mics C ≠ [] := by
      intro hnil
      have hlength : (a.mics C).length = 0 := congrArg List.length hnil
      omega
    obtain ⟨t, ht, hrole⟩ := hfollows.speaker hmic
    obtain rfl := Option.some.inj ht
    cases hrole

theorem micInv_new (C : StageCrates) (identity : StageIdentity) : MicInv C (.new identity) where
  below _ hc := absurd hc List.not_mem_nil
  idle _ := rfl
  stage _ h := absurd h.symm (Option.some_ne_none _)

/-- The microphone follows the role in a run just if no moderator gives a role to a node on the
air. -/
theorem micFollowsRole_iff (C : StageCrates) (identity : StageIdentity) (inputs : List StageInput) :
    (∀ before a, before <+: inputs →
        exec (fun a i => some (a.step C i)) (.new identity) before = some a → MicFollowsRole C a) ↔
      Along (fun a i => some (a.step C i)) (RoleHeld C) (.new identity) inputs := by
  have hiff : ∀ (a : StageActor) (i : StageInput), MicInv C a →
      ((∀ t, some (a.step C i) = some t → MicFollowsRole C t) ↔ RoleHeld C a i) := by
    intro a i hinv
    constructor
    · intro hfollows
      by_contra hheld
      exact hinv.not_follows hheld (hfollows _ rfl)
    · rintro hheld t ⟨⟩
      exact .of_inv (hinv.step hheld)
  have hstart := micInv_new C identity
  refine forall_prefix_iff_along hiff ?_ hstart (.of_inv hstart)
  rintro a i t hinv hheld - ⟨⟩
  exact hinv.step hheld

end Runs

section Examples

def hostNode : StageActor := .new ⟨"host", Vector.replicate 32 1, "host node"⟩

def listener : StageIdentity := ⟨"listener", Vector.replicate 32 2, "listener node"⟩

def invitation : StageTicket :=
  ⟨"stage", stageChecksum.publicText hostNode.identity.signingKey, "host node", "title"⟩

def hostSays (control : StageControl) : StageInput :=
  .gossip (stageIdOf control) (hostNode.sign stageChecksum control 0) 0

def joinedNode : StageActor :=
  (StageActor.new listener).step stageChecksum (.command (.joinStage invitation) 0)

def joinedStage : ActiveStage where
  stageId := "stage"
  title := "title"
  hostPubkey := invitation.hostPubkey
  myPubkey := "listener"
  myRole := .listener
  selfMuted := false
  startedAt := 0
  participants := []
  heartbeat := ⟨"listener", .listener, some "listener node"⟩
  cancel := [0]
  topology := none
  ticket := none
  listenerUpstreamId := some "host node"
  listenerPipelineCancel := some [0, 1]
  hostNodeId := "host node"
  bannedNodeIds := []

theorem step_hostSays (a : StageActor) (control : StageControl) :
    a.step stageChecksum (hostSays control) =
      (a.handleControl (hostNode.sign stageChecksum control 0) 0).1 :=
  stageChecksum_signs.step hostNode a control 0

theorem step_promote : joinedNode.step stageChecksum (hostSays (.promoteSpeaker "stage" "listener")) =
    joinedNode.startSpeaking (joinedStage.setRole "listener" .speaker) := by
  have hactive : joinedNode.active = some joinedStage := rfl
  rw [step_hostSays, StageActor.handleControl, hactive]
  change joinedNode.onPromoteSpeaker joinedStage.hostPubkey "listener" joinedStage = _
  rw [StageActor.onPromoteSpeaker, if_pos (isModerator_hostPubkey rfl)]
  exact if_pos rfl

def onAirStage : ActiveStage :=
  { joinedStage.setRole "listener" .speaker with listenerPipelineCancel := none, myRole := .speaker }

theorem active_promoted :
    (joinedNode.startSpeaking (joinedStage.setRole "listener" .speaker)).active = some onAirStage := rfl

/-- A listener is promoted, and demoted: it still sends its microphone. -/
theorem not_micFollowsRole : ¬ ∀ before a, before <+: [.command (.joinStage invitation) 0,
    hostSays (.promoteSpeaker "stage" "listener"), hostSays (.demoteSpeaker "stage" "listener")] →
      exec (fun a i => some (a.step stageChecksum i)) (.new listener) before = some a →
        MicFollowsRole stageChecksum a := by
  intro hfollows
  have hjoined : MicInv stageChecksum joinedNode :=
    (micInv_new stageChecksum listener).step fun hne => absurd rfl hne
  have hpromoted : MicInv stageChecksum
      (joinedNode.startSpeaking (joinedStage.setRole "listener" .speaker)) := by
    refine hjoined.startSpeaking (hjoined.stage joinedStage rfl) (keepsAudio_modify ..) ?_
    rfl
  refine hpromoted.not_follows (i := hostSays (.demoteSpeaker "stage" "listener")) ?_ ?_
  · intro hheld
    have hown : ownRole stageChecksum
        (joinedNode.startSpeaking (joinedStage.setRole "listener" .speaker))
        (hostSays (.demoteSpeaker "stage" "listener")) = some .listener := by
      have haccepts := stageChecksum_signs.accepts hostNode (.demoteSpeaker "stage" "listener") 0
      have hmod : isModerator onAirStage (hostNode.sign stageChecksum
        (.demoteSpeaker "stage" "listener") 0).senderPubkey = true := isModerator_hostPubkey rfl
      rw [hostSays, ownRole, active_promoted]
      dsimp only
      rw [haccepts, hmod]
      rfl
    have hoff := hheld (by rw [hown]; exact nofun) onAirStage active_promoted
    exact absurd hoff (by decide)
  · rw [← step_promote]
    exact hfollows _ _ (List.prefix_refl _) rfl

end Examples

end Proscenium.Stage
