import Proscenium.Lib.Machine
import Proscenium.Stage.ActorSteps
import Proscenium.Stage.Entries

/-! Whether a role that a moderator gives is kept. The task that sends the heartbeats
of a participant was started with the role of the day it joined, and a
`Presence` writes the role that it declares. -/

namespace Proscenium.Stage

open Proscenium.Types Machine

section Defs

variable (C : StageCrates)

/-- A node, and the roles that moderators have given there and not taken back. -/
structure Ruled where
  actor : StageActor
  standing : String → Option StageRole

inductive RuledInput where
  | node (i : StageInput)
  /-- Elsewhere: a moderator goes back on the role, or the participant leaves. -/
  | lapse (pubkey : String)

/-- What a moderator's message decides on: the role of a participant, or that it goes. -/
def ruling (stage : ActiveStage) (signed : SignedStageControl) : Option (String × Option StageRole) :=
  match signed.control with
  | .promoteSpeaker _ pubkey =>
    if isModerator stage signed.senderPubkey then some (pubkey, some .speaker) else none
  | .demoteSpeaker _ pubkey =>
    if isModerator stage signed.senderPubkey then some (pubkey, some .listener) else none
  | .kick _ pubkey => if isModerator stage signed.senderPubkey then some (pubkey, none) else none
  | .ban _ pubkey => if signed.senderPubkey = stage.hostPubkey then some (pubkey, none) else none
  | .presence _ pubkey .coHost _ _ =>
    if signed.senderPubkey = stage.hostPubkey then some (pubkey, some .coHost) else none
  | _ => none

def ownRuling : StageCommand → Option (String × Option StageRole)
  | .promoteSpeaker pubkey => some (pubkey, some .speaker)
  | .demoteSpeaker pubkey => some (pubkey, some .listener)
  | _ => none

def decided (a : StageActor) : StageInput → Option (String × Option StageRole)
  | .command cmd now =>
    match a.handle C cmd now with
    | .ok _ => ownRuling cmd
    | .error _ => none
  | .gossip stageId signed _ =>
    match a.active with
    | none => none
    | some stage => if accepts C.toSignatureCrates stageId signed then ruling stage signed else none

def afterRuling (decision : Option (String × Option StageRole)) (standing : String → Option StageRole)
    (pubkey : String) : Option StageRole :=
  match decision with
  | none => standing pubkey
  | some (k, role) => if pubkey = k then role else standing pubkey

namespace Ruled

def new (identity : StageIdentity) : Ruled := ⟨.new identity, fun _ => none⟩

def step (s : Ruled) : RuledInput → Ruled
  | .lapse pubkey => { s with standing := Function.update s.standing pubkey none }
  | .node i =>
    let actor := s.actor.step C i
    ⟨actor, fun pubkey =>
      if actor.active = none ∨ expires s.actor i pubkey then none
      else afterRuling (decided C s.actor i) s.standing pubkey⟩

end Ruled

/-- Whose role stands has that role, and is not dropped. -/
def KeepsRoles (s : Ruled) (i : RuledInput) : Prop :=
  ∀ stage', (s.step C i).actor.active = some stage' → ∀ k r, (s.step C i).standing k = some r →
    (∀ p ∈ stage'.participants, p.pubkey = k → p.role = r) ∧
    ∀ stage, s.actor.active = some stage → (∃ p ∈ stage.participants, p.pubkey = k) →
      ∃ p ∈ stage'.participants, p.pubkey = k

/-- A `Presence` that is no moderator's decision declares the role that stands. -/
def PresenceFollows (s : Ruled) : RuledInput → Prop
  | .node (.gossip stageId signed _) => ∀ stage sid pubkey role timestamp nodeId r,
      accepts C.toSignatureCrates stageId signed = true → s.actor.active = some stage →
      signed.control = .presence sid pubkey role timestamp nodeId → ruling stage signed = none →
      s.standing pubkey = some r → role = r
  | _ => True

end Defs

section Roles

def newRole (decision : Option (String × Option StageRole)) (pubkey : String) (role : StageRole) :
    Option StageRole :=
  afterRuling decision (fun _ => some role) pubkey

/-- Each role is as it was or as it is decided, and nobody else goes or comes. -/
structure RoleStep (decision : Option (String × Option StageRole)) (stage stage' : ActiveStage) : Prop where
  old : ∀ p' ∈ stage'.participants, decision = some (p'.pubkey, some p'.role) ∨
    ∃ p ∈ stage.participants, p.pubkey = p'.pubkey ∧ newRole decision p.pubkey p.role = some p'.role
  kept : ∀ p ∈ stage.participants, newRole decision p.pubkey p.role ≠ none →
    ∃ p' ∈ stage'.participants, p'.pubkey = p.pubkey

/-- What is decided on, or what a `Presence` declares. -/
def roleGiven (stage : ActiveStage) (signed : SignedStageControl) : Option (String × Option StageRole) :=
  match ruling stage signed, signed.control with
  | some decision, _ => some decision
  | none, .presence _ pubkey role _ _ => some (pubkey, some role)
  | none, _ => none

variable {stage stage' : ActiveStage} {decision : Option (String × Option StageRole)}
  {g : Participant → Option Participant} {new : List Participant}

theorem roleStep_of_participants (h : stage'.participants = stage.participants.filterMap g ++ new)
    (hg : ∀ p, (g p).map (fun q => (q.pubkey, q.role)) =
      (newRole decision p.pubkey p.role).map fun role => (p.pubkey, role))
    (hnew : ∀ p ∈ new, decision = some (p.pubkey, some p.role)) : RoleStep decision stage stage' := by
  constructor
  · intro p' hp'
    rw [h] at hp'
    rcases List.mem_append.mp hp' with hold | hp'
    · right
      obtain ⟨p, hp, hgp⟩ := List.mem_filterMap.mp hold
      have hpair := hg p
      rw [hgp, Option.map_some] at hpair
      obtain ⟨role, hrole, heq⟩ := Option.map_eq_some_iff.mp hpair.symm
      obtain ⟨hkey, rfl⟩ := Prod.mk.inj heq
      exact ⟨p, hp, hkey, hrole⟩
    · exact .inl (hnew p' hp')
  · intro p hp hstays
    obtain ⟨role, hrole⟩ := Option.ne_none_iff_exists'.mp hstays
    have hpair := hg p
    rw [hrole, Option.map_some] at hpair
    obtain ⟨q, hq, heq⟩ := Option.map_eq_some_iff.mp hpair
    refine ⟨q, ?_, (Prod.mk.inj heq).1⟩
    rw [h]
    exact List.mem_append_left _ (List.mem_filterMap.mpr ⟨p, hp, hq⟩)

theorem roleGiven_presence {signed : SignedStageControl} {sid pubkey : String} {role : StageRole}
    {timestamp : UInt64} {nodeId : Option String}
    (hcontrol : signed.control = .presence sid pubkey role timestamp nodeId) :
    roleGiven stage signed = some (pubkey, some role) := by
  by_cases hhost : signed.senderPubkey = stage.hostPubkey <;> cases role <;>
    simp [roleGiven, ruling, hcontrol, hhost]

theorem revise_role (stage : ActiveStage) (signed : SignedStageControl) (now : UInt64) (p : Participant) :
    (revise stage signed now p).map (fun q => (q.pubkey, q.role)) =
      (newRole (roleGiven stage signed) p.pubkey p.role).map fun role => (p.pubkey, role) := by
  cases hcontrol : signed.control with
  | presence sid pubkey role timestamp nodeId =>
    rw [roleGiven_presence hcontrol]
    by_cases hkey : p.pubkey = pubkey <;>
      simp [revise, hcontrol, newRole, afterRuling, hkey, Participant.refresh]
  | promoteSpeaker sid pubkey | demoteSpeaker sid pubkey | kick sid pubkey =>
    by_cases hmod : isModerator stage signed.senderPubkey <;> by_cases hkey : p.pubkey = pubkey <;>
      simp [revise, roleGiven, ruling, hcontrol, newRole, afterRuling, hmod, hkey]
  | ban sid pubkey =>
    by_cases hhost : signed.senderPubkey = stage.hostPubkey <;> by_cases hkey : p.pubkey = pubkey <;>
      simp [revise, roleGiven, ruling, hcontrol, newRole, afterRuling, hhost, hkey]
  | raiseHand sid pubkey | lowerHand sid pubkey | selfMuteToggle sid pubkey muted =>
    by_cases hkey : p.pubkey = pubkey <;>
      simp [revise, roleGiven, ruling, hcontrol, newRole, afterRuling, hkey]
  | muteSpeaker sid pubkey =>
    by_cases hmuted : isModerator stage signed.senderPubkey = true ∧ p.pubkey = pubkey <;>
      simp [revise, roleGiven, ruling, hcontrol, newRole, afterRuling, hmuted]
  | _ => simp [revise, roleGiven, ruling, hcontrol, newRole, afterRuling]

theorem arrival_role {signed : SignedStageControl} {now : UInt64} :
    ∀ p ∈ arrival stage signed now, roleGiven stage signed = some (p.pubkey, some p.role) := by
  intro p hp
  unfold arrival at hp
  split at hp
  next sid pubkey role timestamp nodeId hcontrol =>
    split at hp
    next => exact absurd hp List.not_mem_nil
    next =>
      obtain rfl := List.mem_singleton.mp hp
      exact roleGiven_presence hcontrol
  next => exact absurd hp List.not_mem_nil

theorem handleControl_roleStep {a : StageActor} {signed : SignedStageControl} {now : UInt64}
    (hactive : a.active = some stage) (hactive' : (a.handleControl signed now).1.active = some stage') :
    RoleStep (roleGiven stage signed) stage stage' :=
  roleStep_of_participants (handleControl_participants hactive hactive') (revise_role stage signed now)
    arrival_role

theorem handle_roleStep {C : StageCrates} {a a' : StageActor} {cmd : StageCommand} {now : UInt64}
    {out : List StageControl} (hactive : a.active = some stage) (h : a.handle C cmd now = .ok (a', out))
    (hactive' : a'.active = some stage') (hsweep : cmd ≠ .sweepPresence) :
    RoleStep (ownRuling cmd) stage stage' := by
  have hparticipants := (handle_participants hactive h hactive').trans (List.append_nil _).symm
  refine roleStep_of_participants hparticipants (fun p => ?_) fun p hp => absurd hp List.not_mem_nil
  cases cmd with
  | sweepPresence => exact absurd rfl hsweep
  | promoteSpeaker pubkey | demoteSpeaker pubkey =>
    by_cases hkey : p.pubkey = pubkey <;> simp [reviseOwn, ownRuling, newRole, afterRuling, hkey]
  | _ => rfl

theorem RoleStep.refl (stage : ActiveStage) : RoleStep none stage stage :=
  ⟨fun p hp => .inr ⟨p, hp, rfl, rfl⟩, fun p hp _ => ⟨p, hp, rfl⟩⟩

end Roles

section Standing

variable {C : StageCrates} {s : Ruled} {stage stage' : ActiveStage}
  {decision given : Option (String × Option StageRole)} {standing : String → Option StageRole}

structure RolesStand (s : Ruled) : Prop where
  idle : s.actor.active = none → ∀ k, s.standing k = none
  roles : ∀ stage, s.actor.active = some stage → ∀ k r, s.standing k = some r →
    ∀ p ∈ stage.participants, p.pubkey = k → p.role = r

def Warranted (standing : String → Option StageRole) (decision given : Option (String × Option StageRole)) :
    Prop :=
  decision = given ∨
    decision = none ∧ ∀ k role r, given = some (k, role) → standing k = some r → role = some r

theorem Warranted.given_eq (h : Warranted standing decision given) {k : String} {r : StageRole}
    {role : Option StageRole} (hk : afterRuling decision standing k = some r) (hgiven : given = some (k, role)) :
    role = some r := by
  subst hgiven
  rcases h with rfl | ⟨rfl, hsame⟩
  · rwa [afterRuling, if_pos rfl] at hk
  · exact hsame k role r rfl hk

theorem Warranted.newRole_eq (h : Warranted standing decision given) {k : String} {r r₀ r₁ : StageRole}
    (hk : afterRuling decision standing k = some r) (hold : standing k = some r → r₀ = r)
    (hnew : newRole given k r₀ = some r₁) : r₁ = r := by
  cases given with
  | none =>
    have hr : r₀ = r₁ := Option.some.inj hnew
    rcases h with rfl | ⟨rfl, -⟩
    · exact hr ▸ hold hk
    · exact hr ▸ hold hk
  | some d =>
    obtain ⟨k', role⟩ := d
    by_cases hkey : k = k'
    · subst hkey
      rw [newRole, afterRuling, if_pos rfl] at hnew
      exact Option.some.inj (hnew.symm.trans (h.given_eq hk rfl))
    · rw [newRole, afterRuling, if_neg hkey] at hnew
      have hr : r₀ = r₁ := Option.some.inj hnew
      rcases h with rfl | ⟨rfl, -⟩
      · rw [afterRuling, if_neg hkey] at hk
        exact hr ▸ hold hk
      · exact hr ▸ hold hk

theorem Warranted.keeps (h : Warranted standing decision given) (hstep : RoleStep given stage stage')
    (hold : ∀ k r, standing k = some r → ∀ p ∈ stage.participants, p.pubkey = k → p.role = r)
    {k : String} {r : StageRole} (hk : afterRuling decision standing k = some r) :
    (∀ p ∈ stage'.participants, p.pubkey = k → p.role = r) ∧
      ((∃ p ∈ stage.participants, p.pubkey = k) → ∃ p ∈ stage'.participants, p.pubkey = k) := by
  constructor
  · rintro p' hp' rfl
    rcases hstep.old p' hp' with hgiven | ⟨p, hp, hkey, hnew⟩
    · exact Option.some.inj (h.given_eq hk hgiven)
    · rw [hkey] at hnew
      exact h.newRole_eq hk (fun hstands => hold _ r hstands p hp hkey) hnew
  · rintro ⟨p, hp, rfl⟩
    refine hstep.kept p hp fun hgone => ?_
    cases given with
    | none => exact absurd hgone (Option.some_ne_none _)
    | some d =>
      obtain ⟨k', role⟩ := d
      by_cases hkey : p.pubkey = k'
      · subst hkey
        rw [newRole, afterRuling, if_pos rfl] at hgone
        exact absurd ((h.given_eq hk rfl).symm.trans hgone) (Option.some_ne_none _)
      · rw [newRole, afterRuling, if_neg hkey] at hgone
        exact absurd hgone (Option.some_ne_none _)

theorem keepsRoles_node {i : StageInput} (h : ∀ stage', (s.actor.step C i).active = some stage' →
    ∀ k r, expires s.actor i k = false → afterRuling (decided C s.actor i) s.standing k = some r →
      (∀ p ∈ stage'.participants, p.pubkey = k → p.role = r) ∧
      ∀ stage, s.actor.active = some stage → (∃ p ∈ stage.participants, p.pubkey = k) →
        ∃ p ∈ stage'.participants, p.pubkey = k) : KeepsRoles C s (.node i) := by
  intro stage' hactive' k r hk
  rw [Ruled.step] at hk hactive'
  dsimp only at hk hactive'
  split at hk
  next => exact absurd hk.symm (Option.some_ne_none _)
  next hstays => exact h stage' hactive' k r (Bool.eq_false_of_not_eq_true fun h => hstays (.inr h)) hk

theorem RolesStand.unchanged (h : RolesStand s) {i : StageInput} (hsame : s.actor.step C i = s.actor)
    (hnone : decided C s.actor i = none) : KeepsRoles C s (.node i) := by
  refine keepsRoles_node fun stage' hactive' k r _ hk => ?_
  rw [hsame] at hactive'
  rw [hnone] at hk
  refine ⟨h.roles stage' hactive' k r hk, fun stage hactive hp => ?_⟩
  obtain rfl := Option.some.inj (hactive.symm.trans hactive')
  exact hp

theorem RolesStand.command (h : RolesStand s) (cmd : StageCommand) (now : UInt64) :
    KeepsRoles C s (.node (.command cmd now)) := by
  cases hrun : s.actor.handle C cmd now with
  | error e =>
    refine h.unchanged ?_ ?_
    · rw [StageActor.step, hrun]
    · rw [decided, hrun]
  | ok result =>
    obtain ⟨a', out⟩ := result
    have hactor : s.actor.step C (.command cmd now) = a' := by rw [StageActor.step, hrun]
    have hdecided : decided C s.actor (.command cmd now) = ownRuling cmd := by rw [decided, hrun]
    refine keepsRoles_node fun stage' hactive' k r hexpires hk => ?_
    rw [hactor] at hactive'
    rw [hdecided] at hk
    cases hactive : s.actor.active with
    | none =>
      -- nothing is decided in a stage that has just been entered
      have hopens := (handle_opens hactive hrun).2 stage' hactive'
      have hnone : ownRuling cmd = none := by cases hopens <;> rfl
      rw [hnone] at hk
      exact absurd ((h.idle hactive k).symm.trans hk).symm (Option.some_ne_none _)
    | some stage =>
      have hwarranted : Warranted s.standing (ownRuling cmd) (ownRuling cmd) := .inl rfl
      by_cases hsweep : cmd = .sweepPresence
      · subst hsweep
        have hparticipants := handle_participants hactive hrun hactive'
        have hkept : ∀ p q, reviseOwn stage now p .sweepPresence = some q → q = p := by
          intro p q hq
          rw [reviseOwn] at hq
          split at hq
          next => exact absurd hq.symm (Option.some_ne_none _)
          next => exact (Option.some.inj hq).symm
        refine ⟨fun p' hp' hkey => ?_, ?_⟩
        · rw [hparticipants] at hp'
          obtain ⟨p, hp, hrevised⟩ := List.mem_filterMap.mp hp'
          obtain rfl := hkept p p' hrevised
          exact h.roles stage hactive k r hk p' hp hkey
        · rintro t ⟨⟩ ⟨p, hp, hkey⟩
          unfold expires at hexpires
          rw [hactive] at hexpires
          have hstays := List.any_eq_false.mp hexpires p hp
          rw [decide_eq_true_eq, not_and] at hstays
          obtain ⟨q, hq⟩ := Option.ne_none_iff_exists'.mp (hstays hkey)
          refine ⟨p, ?_, hkey⟩
          rw [hparticipants]
          exact List.mem_filterMap.mpr ⟨p, hp, hkept p q hq ▸ hq⟩
      · have hkeeps := hwarranted.keeps (handle_roleStep hactive hrun hactive' hsweep) (h.roles stage hactive) hk
        refine ⟨hkeeps.1, ?_⟩
        rintro t ⟨⟩
        exact hkeeps.2

theorem RolesStand.gossip_iff (h : RolesStand s) (stageId : String) (signed : SignedStageControl)
    (now : UInt64) : KeepsRoles C s (.node (.gossip stageId signed now)) ↔
      PresenceFollows C s (.node (.gossip stageId signed now)) := by
  cases hactive : s.actor.active with
  | none =>
    have hsame : s.actor.step C (.gossip stageId signed now) = s.actor := step_gossip_of_none hactive now
    have hnone : decided C s.actor (.gossip stageId signed now) = none := by rw [decided, hactive]
    exact iff_of_true (h.unchanged hsame hnone) fun _ _ _ _ _ _ _ _ hstage =>
      absurd (hactive.symm.trans hstage).symm (Option.some_ne_none _)
  | some stage =>
    by_cases haccepts : accepts C.toSignatureCrates stageId signed = true
    swap
    · have hsame : s.actor.step C (.gossip stageId signed now) = s.actor :=
        step_gossip_of_not_accepts haccepts now
      have hnone : decided C s.actor (.gossip stageId signed now) = none := by
        rw [decided, hactive]
        exact if_neg haccepts
      exact iff_of_true (h.unchanged hsame hnone) fun _ _ _ _ _ _ _ hok => absurd hok haccepts
    have hactor : s.actor.step C (.gossip stageId signed now) = (s.actor.handleControl signed now).1 :=
      step_gossip_of_accepts haccepts now
    have hdecided : decided C s.actor (.gossip stageId signed now) = ruling stage signed := by
      rw [decided, hactive]
      exact if_pos haccepts
    constructor
    · intro hkeeps stage₁ sid pubkey role timestamp nodeId r _ hstage hcontrol hruling hstands
      obtain rfl := Option.some.inj (hactive.symm.trans hstage)
      have hpresent : (s.actor.step C (.gossip stageId signed now)).active =
          some (stage.presence pubkey role timestamp nodeId now) :=
        congrArg StageActor.active (step_presence haccepts hactive hcontrol)
      have hstands' : (s.step C (.node (.gossip stageId signed now))).standing pubkey = some r := by
        rw [Ruled.step]
        dsimp only
        rw [if_neg, hdecided, hruling]
        · exact hstands
        · rw [hpresent]
          exact fun h => h.elim (Option.some_ne_none _) Bool.false_ne_true
      -- the entry of the key has the role that was declared
      have hself : (stage.presence pubkey role timestamp nodeId now).participant pubkey = _ :=
        stage.participant_presence_self role timestamp nodeId now
      have hrole := (hkeeps _ hpresent pubkey r hstands').1 _ (List.mem_of_find?_eq_some hself)
        (Table.key_of_find hself)
      refine Eq.trans ?_ hrole
      cases stage.participant pubkey <;> rfl
    · intro hpresence
      refine keepsRoles_node fun stage' hactive' k r _ hk => ?_
      rw [hactor] at hactive'
      rw [hdecided] at hk
      have hwarranted : Warranted s.standing (ruling stage signed) (roleGiven stage signed) := by
        cases hruling : ruling stage signed with
        | some decision =>
          left
          rw [roleGiven, hruling]
        | none =>
          refine .inr ⟨rfl, fun k role r hgiven hstands => ?_⟩
          cases hcontrol : signed.control with
          | presence sid pubkey role' timestamp nodeId =>
            rw [roleGiven_presence hcontrol] at hgiven
            obtain ⟨rfl, rfl⟩ := Prod.mk.inj (Option.some.inj hgiven)
            exact congrArg some
              (hpresence stage sid _ role' timestamp nodeId r haccepts hactive hcontrol hruling hstands)
          | _ =>
            rw [roleGiven, hruling, hcontrol] at hgiven
            exact absurd hgiven.symm (Option.some_ne_none _)
      have hkeeps := hwarranted.keeps (handleControl_roleStep hactive hactive') (h.roles stage hactive) hk
      refine ⟨hkeeps.1, fun t ht => ?_⟩
      obtain rfl := Option.some.inj (hactive.symm.trans ht)
      exact hkeeps.2

theorem rolesStand_new (identity : StageIdentity) : RolesStand (.new identity) :=
  ⟨fun _ _ => rfl, fun _ h => absurd h.symm (Option.some_ne_none _)⟩

theorem RolesStand.keepsRoles_iff (h : RolesStand s) (i : RuledInput) :
    KeepsRoles C s i ↔ PresenceFollows C s i := by
  cases i with
  | lapse pubkey =>
    refine iff_of_true (fun stage hactive k r hk => ?_) trivial
    have hk : Function.update s.standing pubkey none k = some r := hk
    have hstands : s.standing k = some r := by
      by_cases hkey : k = pubkey
      · subst hkey
        rw [Function.update_self] at hk
        exact absurd hk.symm (Option.some_ne_none _)
      · rwa [Function.update_of_ne hkey] at hk
    refine ⟨h.roles stage hactive k r hstands, fun t ht => ?_⟩
    obtain rfl := Option.some.inj (hactive.symm.trans ht)
    exact id
  | node i =>
    cases i with
    | command cmd now => exact iff_of_true (h.command cmd now) trivial
    | gossip stageId signed now => exact h.gossip_iff stageId signed now

theorem RolesStand.step (h : RolesStand s) {i : RuledInput} (hkeeps : KeepsRoles C s i) :
    RolesStand (s.step C i) := by
  refine ⟨fun hidle k => ?_, fun stage hactive k r hk => (hkeeps stage hactive k r hk).1⟩
  cases i with
  | lapse pubkey =>
    by_cases hkey : k = pubkey
    · subst hkey
      exact Function.update_self k none s.standing
    · exact (Function.update_of_ne hkey none s.standing).trans (h.idle hidle k)
  | node i => exact if_pos (.inl hidle)

end Standing

/-- In a run of a node, roles are kept just if every `Presence` declares the role that stands. -/
theorem keepsRoles_iff_presenceFollows (C : StageCrates) (identity : StageIdentity)
    (inputs : List RuledInput) :
    Along (fun s i => some (s.step C i)) (KeepsRoles C) (.new identity) inputs ↔
      Along (fun s i => some (s.step C i)) (PresenceFollows C) (.new identity) inputs := by
  refine along_iff (fun s i h => h.keepsRoles_iff i) ?_ (rolesStand_new identity)
  rintro s i t h hkeeps ⟨⟩
  exact h.step hkeeps

section Examples

def newSpeaker : StageActor := .new ⟨"guest", Vector.replicate 32 2, "guest node"⟩

def stillHere (now : UInt64) : StageControl := .presence "stage" "guest" .listener now (some "guest node")

def hearsOfGuest (now : UInt64) : RuledInput :=
  .node (.gossip "stage" (newSpeaker.sign stageChecksum (stillHere now) now) now)

def promotesGuest : List RuledInput :=
  [.node (.command (.createStage "title" "stage") 0), hearsOfGuest 0,
    .node (.command (.promoteSpeaker "guest") 1), hearsOfGuest 15000]

def hosting : Ruled :=
  Ruled.step stageChecksum (.new ⟨"host", Vector.replicate 32 1, "host node"⟩)
    (.node (.command (.createStage "title" "stage") 0))

def promoted : Ruled :=
  (hosting.step stageChecksum (hearsOfGuest 0)).step stageChecksum
    (.node (.command (.promoteSpeaker "guest") 1))

theorem promoted_stands : (∃ stage, promoted.actor.active = some stage) ∧
    promoted.standing "guest" = some .speaker := by
  have hactive : hosting.actor.active = some _ := rfl
  have hactor : (hosting.step stageChecksum (hearsOfGuest 0)).actor = _ :=
    step_presence (stageChecksum_signs.accepts newSpeaker (stillHere 0) 0) hactive rfl
  unfold promoted
  rw [Ruled.step, hactor]
  exact ⟨⟨_, rfl⟩, rfl⟩

/-- The host makes a participant a speaker, and the next heartbeat of that participant undoes it. -/
theorem not_keepsRoles_heartbeat :
    (∃ a, newSpeaker.handle stageChecksum (.joinStage ⟨"stage", "host", "host node", "title"⟩) 0 =
        .ok (a, [stillHere 0]) ∧
      a.handle stageChecksum .heartbeat 15000 = .ok (a, [stillHere 15000])) ∧
    ¬ Along (fun s i => some (s.step stageChecksum i)) (KeepsRoles stageChecksum)
      (.new ⟨"host", Vector.replicate 32 1, "host node"⟩) promotesGuest := by
  refine ⟨⟨_, rfl, rfl⟩, fun h => ?_⟩
  have hstart := rolesStand_new ⟨"host", Vector.replicate 32 1, "host node"⟩
  have hopened := hstart.step h.1
  have hseen := hopened.step (h.2 _ rfl).1
  have hpromoted := hseen.step ((h.2 _ rfl).2 _ rfl).1
  have hfollows := (hpromoted.keepsRoles_iff _).mp (((h.2 _ rfl).2 _ rfl).2 _ rfl).1
  obtain ⟨⟨stage, hactive⟩, hstands⟩ := promoted_stands
  have hrole := hfollows stage "stage" "guest" .listener 15000 (some "guest node") .speaker
    (stageChecksum_signs.accepts newSpeaker (stillHere 15000) 15000) hactive rfl rfl hstands
  cases hrole

end Examples

end Proscenium.Stage
