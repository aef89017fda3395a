import Proscenium.Lib.Machine
import Proscenium.Stage.ActorSteps
import Proscenium.Stage.SenderBinding

/-! Who has authority in a stage. A moderator is who the participants' map says is
a co-host, and every `Presence` writes to that map, with the role that its
sender claims for whatever key it names. -/

namespace Proscenium.Stage

open Proscenium.Types Machine

/-- A node, with the keys that messages of the host have made co-hosts of its stage. -/
structure Watched where
  actor : StageActor
  made : List String
  deriving DecidableEq, Repr

section Defs

variable (C : StageCrates) (owner : String → String)

/-- The key that an accepted `Presence` of the host makes a co-host. -/
def newCoHost (a : StageActor) : StageInput → List String
  | .command .. => []
  | .gossip stageId signed _ =>
    match a.active, signed.control with
    | some stage, .presence _ pubkey .coHost _ _ =>
      if accepts C.toSignatureCrates stageId signed ∧ signed.senderPubkey = stage.hostPubkey then
        [pubkey]
      else []
    | _, _ => []

def Watched.step (s : Watched) (i : StageInput) : Watched :=
  let actor := s.actor.step C i
  ⟨actor, if actor.active = none then [] else newCoHost C s.actor i ++ s.made⟩

def Watched.new (identity : StageIdentity) : Watched := ⟨.new identity, []⟩

def Authority (s : Watched) (stage : ActiveStage) (key : String) : Prop :=
  key = stage.hostPubkey ∨ key ∈ s.made

/-- The role, the mute and the membership of everyone but the owner of `sender` stay, and the
stage goes on as it was. -/
structure Unaffected (sender : String) (stage stage' : ActiveStage) : Prop where
  others : ∀ k, k ≠ owner sender →
    (stage'.participant k).map (fun p => (p.role, p.hostMuted)) =
      (stage.participant k).map fun p => (p.role, p.hostMuted)
  myRole : stage'.myRole = stage.myRole
  upstream : stage'.listenerUpstreamId = stage.listenerUpstreamId
  pipeline : stage'.listenerPipelineCancel = stage.listenerPipelineCancel
  banned : stage'.bannedNodeIds = stage.bannedNodeIds

/-- Only a sender with authority affects others, or ends, redirects or bans anything. -/
def Respects (s : Watched) (i : StageInput) : Prop :=
  ∀ stageId signed now stage, i = .gossip stageId signed now → s.actor.active = some stage →
    ¬ Authority s stage signed.senderPubkey →
      ∃ stage', (s.actor.step C i).active = some stage' ∧
        Unaffected owner signed.senderPubkey stage stage'

def AuthorityFromHost (s : Watched) : Prop :=
  ∀ stage, s.actor.active = some stage → ∀ key, isModerator stage key = true → Authority s stage key

/-- A `Presence` claims only what is its sender's to claim: unless the sender has authority it
is about its own entry, or about a role that is known already; and none but the host makes co-hosts. -/
def PresenceHonest (s : Watched) (i : StageInput) : Prop :=
  ∀ stageId signed now stage sid pubkey role timestamp nodeId,
    i = .gossip stageId signed now → accepts C.toSignatureCrates stageId signed = true →
    s.actor.active = some stage → signed.control = .presence sid pubkey role timestamp nodeId →
      (Authority s stage signed.senderPubkey ∨ pubkey = owner signed.senderPubkey ∨
        (stage.participant pubkey).map (·.role) = some role) ∧
      (role = .coHost → signed.senderPubkey = stage.hostPubkey ∨ Authority s stage pubkey)

end Defs

section Invariant

variable {C : StageCrates} {owner : String → String} {s s' : Watched} {stage stage' : ActiveStage}

def CoHostsMade (s : Watched) : Prop :=
  ∀ stage, s.actor.active = some stage → ∀ p ∈ stage.participants, p.role = .coHost →
    Authority s stage p.pubkey

theorem Authority.mono {key : String} (h : Authority s stage key)
    (hhost : stage'.hostPubkey = stage.hostPubkey) (hmade : ∀ k ∈ s.made, k ∈ s'.made) :
    Authority s' stage' key :=
  h.imp (fun hkey => hkey.trans hhost.symm) (hmade key)

theorem CoHostsMade.authority (h : CoHostsMade s) : AuthorityFromHost s := by
  intro stage hactive key hmod
  rw [isModerator, Bool.or_eq_true, decide_eq_true_eq, Option.any_eq_true] at hmod
  rcases hmod with hhost | ⟨p, hp, hrole⟩
  · exact .inl hhost
  · have hkey : p.pubkey = key := Table.key_of_find hp
    exact hkey ▸ h stage hactive p (List.mem_of_find?_eq_some hp) (of_decide_eq_true hrole)

theorem mem_newCoHost {a : StageActor} {stageId k : String} {signed : SignedStageControl} {now : UInt64}
    (hactive : a.active = some stage) : k ∈ newCoHost C a (.gossip stageId signed now) ↔
      ∃ sid timestamp nodeId, signed.control = .presence sid k .coHost timestamp nodeId ∧
        accepts C.toSignatureCrates stageId signed = true ∧ signed.senderPubkey = stage.hostPubkey := by
  rw [newCoHost, hactive]
  constructor
  · intro hk
    split at hk
    next t sid pubkey timestamp nodeId hstage hcontrol =>
      obtain rfl := Option.some.inj hstage
      split at hk
      next hok => exact ⟨sid, timestamp, nodeId, List.mem_singleton.mp hk ▸ hcontrol, hok⟩
      next => exact absurd hk List.not_mem_nil
    next => exact absurd hk List.not_mem_nil
  · rintro ⟨sid, timestamp, nodeId, hcontrol, hok⟩
    rw [hcontrol]
    dsimp only
    rw [if_pos hok]
    exact List.mem_cons_self

theorem Watched.mem_made_step {i : StageInput} {k : String}
    (hactive : (s.actor.step C i).active = some stage) :
    k ∈ (s.step C i).made ↔ k ∈ newCoHost C s.actor i ∨ k ∈ s.made := by
  rw [Watched.step, hactive]
  exact List.mem_append

/-- A `Presence` that is let through, or a step that makes no co-host. -/
theorem step_coHosts (C : StageCrates) (a : StageActor) (i : StageInput) {stage' : ActiveStage}
    (hactive' : (a.step C i).active = some stage') :
    (∃ stage, a.active = some stage ∧ KeepsStage stage stage') ∨
      (∀ p ∈ stage'.participants, p.role ≠ .coHost) ∨
      ∃ stageId signed now stage sid pubkey role timestamp nodeId,
        i = .gossip stageId signed now ∧ accepts C.toSignatureCrates stageId signed = true ∧
          a.active = some stage ∧ signed.control = .presence sid pubkey role timestamp nodeId := by
  cases i with
  | command cmd now =>
    rw [StageActor.step] at hactive'
    split at hactive'
    next a' out h =>
      cases hactive : a.active with
      | none => exact .inr (.inl ((handle_opens hactive h).2 stage' hactive').not_coHost)
      | some stage => exact .inl ⟨stage, rfl, (handle_keepsStep hactive h).stage stage' hactive'⟩
    next => exact .inl ⟨stage', hactive', .refl stage'⟩
  | gossip stageId signed now =>
    rw [StageActor.step, StageActor.receive] at hactive'
    split at hactive'
    next haccepts =>
      cases hactive : a.active with
      | none =>
        rw [StageActor.handleControl, hactive] at hactive'
        exact absurd (hactive.symm.trans hactive') (Option.some_ne_none _).symm
      | some stage =>
        by_cases hpresence : ∃ sid pubkey role timestamp nodeId,
            signed.control = .presence sid pubkey role timestamp nodeId
        · obtain ⟨sid, pubkey, role, timestamp, nodeId, hcontrol⟩ := hpresence
          exact .inr (.inr ⟨stageId, signed, now, stage, sid, pubkey, role, timestamp, nodeId, rfl,
            haccepts, rfl, hcontrol⟩)
        · have hother : ∀ sid pubkey role timestamp nodeId,
              signed.control ≠ .presence sid pubkey role timestamp nodeId :=
            fun sid pubkey role timestamp nodeId hcontrol =>
              hpresence ⟨sid, pubkey, role, timestamp, nodeId, hcontrol⟩
          exact .inl ⟨stage, rfl, (handleControl_keepsStep hactive now hother).stage stage' hactive'⟩
    next => exact .inl ⟨stage', hactive', .refl stage'⟩

theorem handleControl_kick {a : StageActor} {signed : SignedStageControl} {sid : String}
    (hactive : a.active = some stage) (hmod : isModerator stage signed.senderPubkey = true)
    (hcontrol : signed.control = .kick sid stage.myPubkey) (now : UInt64) :
    (a.handleControl signed now).1.active = none := by
  rw [StageActor.handleControl, hactive]
  dsimp only
  rw [hcontrol]
  dsimp only
  rw [StageActor.onKick, if_pos hmod, if_pos rfl]
  rfl

theorem CoHostsMade.step {i : StageInput} (h : CoHostsMade s) (hhonest : PresenceHonest C owner s i) :
    CoHostsMade (s.step C i) := by
  intro stage' hactive' p hp hrole
  have hmono : ∀ k ∈ s.made, k ∈ (s.step C i).made :=
    fun k hk => (Watched.mem_made_step hactive').mpr (.inr hk)
  rcases step_coHosts C s.actor i hactive' with ⟨stage, hactive, hkept⟩ | hnone | ⟨stageId, signed, now,
    stage, sid, pubkey, role, timestamp, nodeId, rfl, haccepts, hactive, hcontrol⟩
  · obtain ⟨q, hq, hkey, hqrole⟩ := hkept.coHosts p hp hrole
    exact hkey ▸ (h stage hactive q hq hqrole).mono hkept.hostPubkey hmono
  · exact absurd hrole (hnone p hp)
  · have hstep : s.actor.step C (.gossip stageId signed now) = _ :=
      step_presence haccepts hactive hcontrol
    obtain rfl : stage.presence pubkey role timestamp nodeId now = stage' :=
      Option.some.inj ((congrArg StageActor.active hstep).symm.trans hactive')
    -- the role that is written was the host's to give
    have hgiven : role = .coHost → Authority (s.step C (.gossip stageId signed now)) stage pubkey := by
      rintro rfl
      obtain ⟨-, hclaim⟩ := hhonest stageId signed now stage sid pubkey .coHost timestamp nodeId rfl
        haccepts hactive hcontrol
      rcases hclaim rfl with hhost | hauthority
      · refine .inr ((Watched.mem_made_step hactive').mpr (.inl ?_))
        exact (mem_newCoHost hactive).mpr ⟨sid, timestamp, nodeId, hcontrol, haccepts, hhost⟩
      · exact hauthority.mono rfl hmono
    have hall : ∀ q ∈ (stage.presence pubkey role timestamp nodeId now).participants,
        q.role = .coHost → Authority (s.step C (.gossip stageId signed now)) stage q.pubkey := by
      refine Table.all_upsert ?_ hgiven ?_
      · exact fun q hq hqrole => (h stage hactive q hq hqrole).mono rfl hmono
      · rintro q - rfl
        exact hgiven
    exact hall p hp hrole

end Invariant

section Steps

variable {C : StageCrates} {owner : String → String} {s : Watched} {i : StageInput}

theorem Unaffected.refl (sender : String) (stage : ActiveStage) : Unaffected owner sender stage stage :=
  ⟨fun _ _ => rfl, rfl, rfl, rfl, rfl⟩

theorem unaffected_presence {sender pubkey : String} {role : StageRole} (stage : ActiveStage)
    (timestamp : UInt64) (nodeId : Option String) (now : UInt64)
    (h : pubkey = owner sender ∨ (stage.participant pubkey).map (·.role) = some role) :
    Unaffected owner sender stage (stage.presence pubkey role timestamp nodeId now) := by
  refine ⟨fun k hk => ?_, rfl, rfl, rfl, rfl⟩
  by_cases heq : k = pubkey
  · subst heq
    obtain ⟨p, hp, hrole⟩ := Option.map_eq_some_iff.mp (h.resolve_left hk)
    rw [stage.participant_presence_self role timestamp nodeId now, hp, ← hrole]
    rfl
  · rw [stage.participant_presence_of_ne role timestamp nodeId now heq]

theorem unaffected_flag {sender pubkey : String} {control : StageControl} {f : Participant → Participant}
    (stage : ActiveStage) (hflag : flagOf control = some (pubkey, f)) :
    Unaffected owner sender stage (stage.modify pubkey f) := by
  refine ⟨fun k _ => ?_, rfl, rfl, rfl, rfl⟩
  rw [stage.participant_modify fun p => (flagOf_keeps hflag p).1]
  cases stage.participant k with
  | none => rfl
  | some p =>
    rw [Option.map_some, Option.map_some, Option.map_some]
    split
    · rw [(flagOf_keeps hflag p).2.1, (flagOf_keeps hflag p).2.2]
    · rfl

theorem CoHostsMade.respects (h : CoHostsMade s) (hhonest : PresenceHonest C owner s i) :
    Respects C owner s i := by
  rintro stageId signed now stage rfl hactive hunauthorized
  have hmod : isModerator stage signed.senderPubkey = false := by
    by_contra hmod
    exact hunauthorized (h.authority stage hactive _ (Bool.eq_true_of_not_eq_false hmod))
  rw [StageActor.step, StageActor.receive]
  by_cases haccepts : accepts C.toSignatureCrates stageId signed = true
  swap
  · rw [if_neg haccepts]
    exact ⟨stage, hactive, .refl _ stage⟩
  rw [if_pos haccepts]
  have hstep := handleControl_openStep hactive hmod now
  have hclaim := fun sid pubkey role timestamp nodeId hcontrol =>
    (hhonest stageId signed now stage sid pubkey role timestamp nodeId rfl haccepts hactive hcontrol).1
  generalize signed.control = control at hstep hclaim
  generalize (s.actor.handleControl signed now).1 = a' at hstep ⊢
  cases hstep with
  | presence sid pubkey role timestamp nodeId =>
    refine ⟨_, rfl, unaffected_presence stage timestamp nodeId now ?_⟩
    exact (hclaim sid pubkey role timestamp nodeId rfl).resolve_left hunauthorized
  | flag hflag => exact ⟨_, rfl, unaffected_flag stage hflag⟩
  | relay => exact ⟨_, rfl, fun _ _ => rfl, rfl, rfl, rfl, rfl⟩
  | nothing => exact ⟨stage, hactive, .refl _ stage⟩

/-- A dishonest `Presence` shows: it changes the role of another, or gives authority. -/
theorem presenceHonest_of_respects (hrespects : Respects C owner s i)
    (hauthority : AuthorityFromHost (s.step C i)) : PresenceHonest C owner s i := by
  rintro stageId signed now stage sid pubkey role timestamp nodeId rfl haccepts hactive hcontrol
  have hstep : s.actor.step C (.gossip stageId signed now) = _ :=
    step_presence haccepts hactive hcontrol
  have hactive' := congrArg StageActor.active hstep
  have hself : (stage.presence pubkey role timestamp nodeId now).participant pubkey = _ :=
    stage.participant_presence_self role timestamp nodeId now
  constructor
  · by_contra hdishonest
    obtain ⟨hunauthorized, hrest⟩ := not_or.mp hdishonest
    obtain ⟨hother, hrole⟩ := not_or.mp hrest
    obtain ⟨stage', hstage', hunaffected⟩ := hrespects stageId signed now stage rfl hactive hunauthorized
    obtain rfl := Option.some.inj (hactive'.symm.trans hstage')
    have hsame := hunaffected.others pubkey hother
    rw [hself, Option.map_some] at hsame
    cases hp : stage.participant pubkey with
    | none =>
      rw [hp] at hsame
      cases hsame
    | some p =>
      rw [hp] at hsame hrole
      exact hrole (congrArg (Option.map Prod.fst) hsame).symm
  · rintro rfl
    have hmod : isModerator (stage.presence pubkey .coHost timestamp nodeId now) pubkey = true := by
      rw [isModerator, hself, Bool.or_eq_true]
      right
      cases stage.participant pubkey <;> rfl
    rcases hauthority _ hactive' pubkey hmod with hhost | hmade
    · exact .inr (.inl hhost)
    · rcases (Watched.mem_made_step hactive').mp hmade with hnew | hmade
      · obtain ⟨-, -, -, -, -, hhost⟩ := (mem_newCoHost hactive).mp hnew
        exact .inl hhost
      · exact .inr (.inr hmade)

end Steps

/-- In a run, authority comes from the host and nobody else affects others, just if every `Presence`
claims only what is its sender's to claim. -/
theorem authority_iff_presenceHonest (C : StageCrates) (owner : String → String)
    (identity : StageIdentity) (inputs : List StageInput) :
    (Along (fun s i => some (s.step C i)) (Respects C owner) (.new identity) inputs ∧
      ∀ before s, before <+: inputs →
        exec (fun s i => some (s.step C i)) (.new identity) before = some s → AuthorityFromHost s) ↔
      Along (fun s i => some (s.step C i)) (PresenceHonest C owner) (.new identity) inputs := by
  have hnew : CoHostsMade (.new identity) := fun _ h => absurd h.symm (Option.some_ne_none _)
  have hiff : ∀ (s : Watched) (i : StageInput), CoHostsMade s →
      ((∀ t, some (s.step C i) = some t → AuthorityFromHost t) ∧ Respects C owner s i ↔
        PresenceHonest C owner s i) := by
    intro s i hmade
    constructor
    · rintro ⟨hauthority, hrespects⟩
      exact presenceHonest_of_respects hrespects (hauthority _ rfl)
    · intro hhonest
      refine ⟨?_, hmade.respects hhonest⟩
      rintro t ⟨⟩
      exact (hmade.step hhonest).authority
  rw [and_comm]
  refine forall_prefix_and_along_iff hiff ?_ hnew hnew.authority
  rintro s i t hmade hhonest - ⟨⟩
  exact hmade.step hhonest

section Examples

def joinsAsListener : StageInput := .command (.joinStage ⟨"stage", "host", "host node", "title"⟩) 0

/-- Someone at the stage who is not its host. -/
def intruderSays (control : StageControl) : StageInput :=
  .gossip (stageIdOf control) (intruder.sign stageChecksum control 0) 0

def claimsCoHost : StageControl :=
  .presence "stage" (intruder.signingPubkey stageChecksum) .coHost 0 none

def newcomer : Watched :=
  (Watched.new ⟨"newcomer", Vector.replicate 32 4, "newcomer node"⟩).step stageChecksum joinsAsListener

def newcomerStage : ActiveStage :=
  { bystanderStage with
    myPubkey := "newcomer", participants := [], heartbeat := ⟨"newcomer", .listener, some "newcomer node"⟩
    listenerUpstreamId := some "host node", listenerPipelineCancel := some [0, 1] }

theorem intruder_ne_host : intruder.signingPubkey stageChecksum ≠ "host" := by decide +kernel

theorem step_claimsCoHost : newcomer.actor.step stageChecksum (intruderSays claimsCoHost) =
    newcomer.actor.withStage
      (newcomerStage.presence (intruder.signingPubkey stageChecksum) .coHost 0 none 0) := by
  have hactive : newcomer.actor.active = some newcomerStage := rfl
  exact step_presence (stageChecksum_signs.accepts intruder claimsCoHost 0) hactive rfl

/-- A participant declares itself a co-host and throws another one out. -/
theorem not_respects_kick : ¬ Along (fun s i => some (s.step stageChecksum i))
    (Respects stageChecksum ownerOf) (.new ⟨"newcomer", Vector.replicate 32 4, "newcomer node"⟩)
    [joinsAsListener, intruderSays claimsCoHost, intruderSays (.kick "stage" "newcomer")] := by
  intro h
  have hkick : Respects stageChecksum ownerOf (newcomer.step stageChecksum (intruderSays claimsCoHost))
    (intruderSays (.kick "stage" "newcomer")) := ((h.2 _ rfl).2 _ rfl).1
  have hactive := congrArg StageActor.active step_claimsCoHost
  have hunauthorized : ¬ Authority (newcomer.step stageChecksum (intruderSays claimsCoHost))
      (newcomerStage.presence (intruder.signingPubkey stageChecksum) .coHost 0 none 0)
      (intruder.signingPubkey stageChecksum) := by
    rintro (hhost | hmade)
    · exact intruder_ne_host hhost
    · rcases (Watched.mem_made_step hactive).mp hmade with hnew | hmade
      · have hbefore : newcomer.actor.active = some newcomerStage := rfl
        obtain ⟨-, -, -, -, -, hhost⟩ := (mem_newCoHost hbefore).mp hnew
        exact intruder_ne_host hhost
      · exact absurd hmade List.not_mem_nil
  obtain ⟨stage', hstage', -⟩ := hkick _ _ _ _ rfl hactive hunauthorized
  have hmod : isModerator (newcomerStage.presence (intruder.signingPubkey stageChecksum) .coHost 0 none 0)
      (intruder.signingPubkey stageChecksum) = true := by
    rw [isModerator, ActiveStage.participant_presence_self, Bool.or_eq_true]
    exact .inr rfl
  have hkicked : ((newcomer.actor.step stageChecksum (intruderSays claimsCoHost)).handleControl
      (intruder.sign stageChecksum (.kick "stage" "newcomer") 0) 0).1.active = none :=
    handleControl_kick hactive hmod rfl 0
  have hstep := stageChecksum_signs.step intruder
    (newcomer.actor.step stageChecksum (intruderSays claimsCoHost)) (.kick "stage" "newcomer") 0
  have hnone := (congrArg StageActor.active hstep).trans hkicked
  exact absurd (hnone.symm.trans hstage') (Option.some_ne_none stage').symm

end Examples

end Proscenium.Stage
