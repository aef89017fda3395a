import Proscenium.Stage.Network

/-! Whether the nodes of a stage agree on what is said in it. The host's word counts
everywhere, since the ticket names the key that signs it. A hand or a mute does
not: `broadcast_control` speaks of its sender by the signing key, and the
participants are kept under master keys. -/

namespace Proscenium.Stage

open Proscenium.Types Machine

section Defs

variable {ι : Type*}

/-- Whose entry a message is to change; `master` is who says it. -/
def affected (master : String) : StageControl → String
  | .promoteSpeaker _ pubkey | .demoteSpeaker _ pubkey | .muteSpeaker _ pubkey | .kick _ pubkey
  | .ban _ pubkey => pubkey
  | _ => master

def EntryShows (p : Participant) : StageControl → Prop
  | .raiseHand .. => p.handRaised = true
  | .lowerHand .. => p.handRaised = false
  | .selfMuteToggle _ _ muted => p.selfMuted = muted
  | .promoteSpeaker .. => p.role = .speaker
  | .demoteSpeaker .. => p.role = .listener
  | .muteSpeaker .. => p.hostMuted = true
  | .kick .. | .ban .. => False
  | _ => True

/-- Who is out of it does not stay in the stage. -/
def StageShows (stage : ActiveStage) : StageControl → Prop
  | .ended .. => False
  | .kick _ pubkey | .ban _ pubkey => pubkey ≠ stage.myPubkey
  | .relayAssignment _ _ relayNodeId listenerPubkeys =>
    stage.myPubkey ∈ listenerPubkeys → stage.listenerUpstreamId = some relayNodeId
  | _ => True

/-- What a node shows that has taken up a message of `master`, if it is in that stage. -/
def Shows (master : String) (control : StageControl) (a : StageActor) : Prop :=
  ∀ stage, a.active = some stage → stage.stageId = stageIdOf control →
    StageShows stage control ∧
      ∀ p, stage.participant (affected master control) = some p → EntryShows p control

variable [DecidableEq ι] (C : StageCrates) (identities : ι → StageIdentity) (net : StageNet ι)

/-- What a participant says of its own flags is shown by this node already. -/
def FlagShown (master : String) (a : StageActor) (cmd : StageCommand) : Prop :=
  ∀ stage, a.active = some stage → ∀ p, stage.participant master = some p →
    match cmd with
    | .raiseHand => p.handRaised = true
    | .lowerHand => p.handRaised = false
    | .toggleSelfMute => p.selfMuted = !stage.selfMuted
    | _ => True

end Defs

section Host

variable {a : StageActor} {stage : ActiveStage} {signed : SignedStageControl} {master pubkey : String}
  {control : StageControl} {f : Participant → Participant}

theorem shows_of_stage {a' : StageActor} {stage' : ActiveStage} (hactive : a'.active = some stage')
    (hstage : StageShows stage' control)
    (hentry : ∀ p, stage'.participant (affected master control) = some p → EntryShows p control) :
    Shows master control a' := by
  intro s hs _
  obtain rfl := Option.some.inj (hactive.symm.trans hs)
  exact ⟨hstage, hentry⟩

theorem shows_of_none {a' : StageActor} (hactive : a'.active = none) : Shows master control a' :=
  fun _ hs => absurd (hactive.symm.trans hs) (Option.some_ne_none _).symm

theorem entryShows_modify (stage : ActiveStage) (hkey : ∀ p, (f p).pubkey = p.pubkey)
    (hf : ∀ p, EntryShows (f p) control) :
    ∀ p, (stage.modify pubkey f).participant pubkey = some p → EntryShows p control := by
  intro p hp
  rw [stage.participant_modify hkey] at hp
  obtain ⟨q, -, rfl⟩ := Option.map_eq_some_iff.mp hp
  rw [if_pos rfl]
  exact hf q

end Host

section Flags

variable {a : StageActor} {stage stage' : ActiveStage} {control : StageControl} {master pubkey : String}
  {f : Participant → Participant}

theorem shows_plain (hflag : flagOf control = none) (hplain : hostOnly control = false) :
    Shows master control a := by
  intro stage _ _
  cases control with
  | presence | announce | reaction | chat | relayVolunteer => exact ⟨trivial, fun _ _ => trivial⟩
  | raiseHand | lowerHand | selfMuteToggle => cases hflag
  | promoteSpeaker | demoteSpeaker | muteSpeaker | kick | ban | relayAssignment | ended => cases hplain

theorem shows_flag_iff (hactive : a.active = some stage) (hflag : flagOf control = some (pubkey, f))
    (hid : stage.stageId = stageIdOf control) :
    Shows master control a ↔ ∀ p, stage.participant master = some p → EntryShows p control := by
  have hstage : StageShows stage control ∧ affected master control = master := by
    cases control with
    | raiseHand | lowerHand | selfMuteToggle => exact ⟨trivial, rfl⟩
    | _ => cases hflag
  constructor
  · intro h
    have hentry := (h stage hactive hid).2
    rwa [hstage.2] at hentry
  · intro h
    refine shows_of_stage hactive hstage.1 ?_
    rwa [hstage.2]

end Flags

section Nodes

variable {ι : Type*} {C : StageCrates} {identities : ι → StageIdentity} {net : StageNet ι} {e : Envelope ι}
  {j : ι} {stage : ActiveStage}

end Nodes

section Commands

variable {C : StageCrates} {a a' : StageActor} {stage : ActiveStage} {master : String} {cmd : StageCommand}
  {control : StageControl}

theorem Broadcasts.shows (h : Broadcasts C a a' cmd control) (hshown : FlagShown master a cmd) :
    Shows master control a' := by
  cases h with
  | plain hflag hplain => exact shows_plain hflag hplain
  | raiseHand hactive h | lowerHand hactive h =>
    subst h
    exact (shows_flag_iff hactive rfl rfl).mpr (hshown _ hactive)
  | @toggleSelfMute stage hactive h =>
    have hactive' : a'.active = some { stage with selfMuted := !stage.selfMuted } :=
      congrArg StageActor.active h
    exact (shows_flag_iff hactive' rfl rfl).mpr (hshown stage hactive)
  | promoteSpeaker hactive hleads h | demoteSpeaker hactive hleads h =>
    subst h
    exact shows_of_stage rfl trivial (entryShows_modify _ (fun _ => rfl) fun _ => rfl)
  | endStage hactive hleads h => exact shows_of_none h

end Commands

section Examples

end Examples

end Proscenium.Stage
