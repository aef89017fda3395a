import Proscenium.Lib.Machine
import Proscenium.Stage.ActorSteps
import Proscenium.Stage.Entries
import Proscenium.Stage.MicrophoneRole

/-! Whether who is banned from a stage stays out of it. A ban drops the entry of a key
and notes the transport id that the entry had; only connections are held
against the note, and the host, who says so, does not hear its own `Ban`. -/

namespace Proscenium.Stage

open Proscenium.Types Machine

def connTypeSpeaker : UInt8 := 1

def connTypeListener : UInt8 := 2

/-- `handle_incoming_connection`, at a node that is no relay: as what the caller is taken on. -/
def takesOn (stage : ActiveStage) (remote : String) (connType : UInt8) : Option StageRole :=
  if remote ∈ stage.bannedNodeIds then none
  else
    match stage.myRole with
    | .host =>
      if connType = connTypeSpeaker then some .speaker
      else if connType = connTypeListener then some .listener
      else none
    | _ => none

section Defs

variable (C : StageCrates)

structure Offender where
  stageId : String
  pubkey : String
  nodeId : String

/-- A node; whether the ban has been spoken, and whether it binds the node. -/
structure BanState where
  actor : StageActor
  issued : Bool
  bound : Bool

inductive BanInput where
  | node (i : StageInput)
  /-- The host broadcasts the `Ban`. -/
  | issue
  /-- The offender opens a connection. -/
  | connect (connType : UInt8)

variable (who : Offender)

def handlesBan (a : StageActor) : StageInput → Bool
  | .command .. => false
  | .gossip stageId signed _ =>
    match a.active, signed.control with
    | some stage, .ban _ pubkey =>
      accepts C.toSignatureCrates stageId signed && signed.senderPubkey = stage.hostPubkey &&
        stage.stageId = who.stageId && pubkey = who.pubkey
    | _, _ => false

namespace BanState

def new (identity : StageIdentity) : BanState := ⟨.new identity, false, false⟩

/-- The ban binds who hears it, its author at once, and who joins the stage later. -/
def step (s : BanState) : BanInput → BanState
  | .node i =>
    let actor := s.actor.step C i
    { s with
      actor
      bound :=
        match s.actor.active, actor.active with
        | _, none => false
        | none, some stage => s.issued && stage.ticket.isNone && stage.stageId = who.stageId
        | some _, some _ => s.bound || handlesBan C who s.actor i }
  | .issue =>
    { s with
      issued := true
      bound := s.bound ||
        s.actor.active.any fun stage => stage.ticket.isSome && stage.stageId = who.stageId }
  | .connect _ => s

end BanState

/-- Nobody with the key or the transport id of the offender. -/
def Without (participants : List Participant) : Prop :=
  ∀ p ∈ participants, p.pubkey ≠ who.pubkey ∧ p.nodeId ≠ some who.nodeId

/-- Where the ban binds, the offender is not among the participants and is not taken on. -/
structure StaysOut (s : BanState) (i : BanInput) : Prop where
  entries : (s.step C who i).bound = true → ∀ stage, (s.step C who i).actor.active = some stage →
    Without who stage.participants
  connections : ∀ connType stage, i = .connect connType → s.bound = true → s.actor.active = some stage →
    takesOn stage who.nodeId connType = none

/-- The offender does not show up any more, and was known by one entry. -/
def NoWayBack (s : BanState) : BanInput → Prop
  | .node (.command ..) => True
  | .node (.gossip stageId signed now) => accepts C.toSignatureCrates stageId signed = true →
    ∀ stage, s.actor.active = some stage →
      (s.bound = true → ∀ sid pubkey role timestamp nodeId,
        signed.control = .presence sid pubkey role timestamp nodeId →
          pubkey ≠ who.pubkey ∧ nodeId ≠ some who.nodeId) ∧
      (handlesBan C who s.actor (.gossip stageId signed now) = true → who.pubkey ≠ stage.myPubkey →
        ∀ p ∈ stage.participants, p.nodeId = some who.nodeId → p.pubkey = who.pubkey)
  | .issue => ∀ stage, s.actor.active = some stage → stage.ticket.isSome = true →
    stage.stageId = who.stageId → Without who stage.participants
  | .connect connType => s.bound = true → ∀ stage, s.actor.active = some stage → stage.myRole = .host →
    connType = connTypeSpeaker ∨ connType = connTypeListener → who.nodeId ∈ stage.bannedNodeIds

end Defs

section Steps

variable {C : StageCrates} {who : Offender} {s : BanState} {stage stage' : ActiveStage}

theorem takesOn_eq_none_iff {connType : UInt8} : takesOn stage who.nodeId connType = none ↔
    (stage.myRole = .host → connType = connTypeSpeaker ∨ connType = connTypeListener →
      who.nodeId ∈ stage.bannedNodeIds) := by
  unfold takesOn
  split
  next hbanned => exact iff_of_true rfl fun _ _ => hbanned
  next hfree =>
    split
    next hhost =>
      split
      next h => exact iff_of_false (Option.some_ne_none _) fun hall => hfree (hall hhost (.inl h))
      next hspeaker =>
        split
        next h => exact iff_of_false (Option.some_ne_none _) fun hall => hfree (hall hhost (.inr h))
        next hlistener => exact iff_of_true rfl fun _ h => absurd h (not_or.mpr ⟨hspeaker, hlistener⟩)
    next hother => exact iff_of_true rfl fun h => absurd h hother

structure BanInv (who : Offender) (s : BanState) : Prop where
  idle : s.actor.active = none → s.bound = false
  out : s.bound = true → ∀ stage, s.actor.active = some stage → Without who stage.participants

theorem without_revised {signed : SignedStageControl} {now : UInt64} (h : Without who stage.participants)
    (hpresence : ∀ sid pubkey role timestamp nodeId,
      signed.control = .presence sid pubkey role timestamp nodeId →
        pubkey ≠ who.pubkey ∧ nodeId ≠ some who.nodeId) :
    Without who (stage.participants.filterMap (revise stage signed now) ++ arrival stage signed now) := by
  intro p' hp'
  rcases List.mem_append.mp hp' with hp' | hp'
  · obtain ⟨p, hp, hrevised⟩ := List.mem_filterMap.mp hp'
    obtain ⟨hkey, hnode⟩ := revise_eq_some hrevised
    rw [hkey]
    refine ⟨(h p hp).1, ?_⟩
    rcases hnode with hnode | ⟨sid, role, timestamp, nodeId, hcontrol, hnode⟩
    · exact hnode ▸ (h p hp).2
    · rw [hnode]
      cases nodeId with
      | none => exact (h p hp).2
      | some id => exact (hpresence _ _ _ _ _ hcontrol).2
  · obtain ⟨sid, role, timestamp, hcontrol⟩ := mem_arrival hp'
    exact hpresence _ _ _ _ _ hcontrol

theorem presence_not_without {pubkey : String} {role : StageRole} {timestamp now : UInt64}
    {nodeId : Option String}
    (h : Without who (stage.presence pubkey role timestamp nodeId now).participants) :
    pubkey ≠ who.pubkey ∧ nodeId ≠ some who.nodeId := by
  have hself : (stage.presence pubkey role timestamp nodeId now).participant pubkey = _ :=
    stage.participant_presence_self role timestamp nodeId now
  have hout := h _ (List.mem_of_find?_eq_some hself)
  rw [Table.key_of_find hself] at hout
  refine ⟨hout.1, ?_⟩
  rintro rfl
  refine hout.2 ?_
  cases stage.participant pubkey <;> rfl

theorem handlesBan_eq_true {a : StageActor} {stageId : String} {signed : SignedStageControl} {now : UInt64}
    (hactive : a.active = some stage) : handlesBan C who a (.gossip stageId signed now) = true ↔
      ∃ sid, signed.control = .ban sid who.pubkey ∧ accepts C.toSignatureCrates stageId signed = true ∧
        signed.senderPubkey = stage.hostPubkey ∧ stage.stageId = who.stageId := by
  unfold handlesBan
  rw [hactive]
  obtain ⟨sender, control, timestamp, signature⟩ := signed
  cases control with
  | ban sid pubkey =>
    dsimp only
    simp only [Bool.and_eq_true, decide_eq_true_eq]
    constructor
    · rintro ⟨⟨⟨haccepts, hhost⟩, hid⟩, rfl⟩
      exact ⟨sid, rfl, haccepts, hhost, hid⟩
    · rintro ⟨_, hcontrol, haccepts, hhost, hid⟩
      obtain ⟨-, rfl⟩ := StageControl.ban.inj hcontrol
      exact ⟨⟨⟨haccepts, hhost⟩, hid⟩, rfl⟩
  | _ =>
    dsimp only
    refine iff_of_false Bool.false_ne_true ?_
    rintro ⟨_, hcontrol, -⟩
    cases hcontrol

theorem BanInv.command (h : BanInv who s) (cmd : StageCommand) (now : UInt64) :
    StaysOut C who s (.node (.command cmd now)) := by
  refine ⟨fun hbound stage' hactive' => ?_, fun _ _ hi => absurd hi nofun⟩
  rw [BanState.step] at hbound hactive'
  dsimp only at hbound hactive'
  rw [hactive'] at hbound
  rw [StageActor.step] at hactive'
  split at hactive'
  next a' out hrun =>
    cases hactive : s.actor.active with
    | none =>
      rw [hactive] at hbound
      dsimp only at hbound
      cases (handle_opens hactive hrun).2 stage' hactive' with
      | created hid hticket =>
        rw [hticket, Option.isNone_some, Bool.and_false, Bool.false_and] at hbound
        exact absurd hbound Bool.false_ne_true
      | joined _ _ _ _ hempty => exact fun p hp => absurd (hempty ▸ hp) List.not_mem_nil
    | some stage =>
      rw [hactive] at hbound
      dsimp only at hbound
      rw [handlesBan, Bool.or_false] at hbound
      intro p' hp'
      rw [handle_participants hactive hrun hactive'] at hp'
      obtain ⟨p, hp, hrevised⟩ := List.mem_filterMap.mp hp'
      obtain ⟨hkey, hnode⟩ := reviseOwn_eq_some hrevised
      rw [hkey, hnode]
      exact h.out hbound stage hactive p hp
  next =>
    rw [hactive'] at hbound
    dsimp only at hbound
    rw [handlesBan, Bool.or_false] at hbound
    exact h.out hbound stage' hactive'

theorem bound_node {i : StageInput} (hactive : s.actor.active = some stage)
    (hactive' : (s.actor.step C i).active = some stage') :
    (s.step C who (.node i)).bound = (s.bound || handlesBan C who s.actor i) := by
  rw [BanState.step]
  dsimp only
  rw [hactive, hactive']

theorem mem_of_ban {signed : SignedStageControl} {sid : String} {now : UInt64} {p : Participant}
    (hcontrol : signed.control = .ban sid who.pubkey) (hp : p ∈ stage.participants)
    (hne : p.pubkey ≠ who.pubkey) :
    p ∈ stage.participants.filterMap (revise stage signed now) ++ arrival stage signed now := by
  refine List.mem_append_left _ (List.mem_filterMap.mpr ⟨p, hp, ?_⟩)
  rw [revise, hcontrol]
  exact if_neg fun h => hne h.2

theorem BanInv.gossip_iff (h : BanInv who s) (stageId : String) (signed : SignedStageControl)
    (now : UInt64) : StaysOut C who s (.node (.gossip stageId signed now)) ↔
      NoWayBack C who s (.node (.gossip stageId signed now)) := by
  have hcalls : ∀ connType stage, BanInput.node (.gossip stageId signed now) = .connect connType →
      s.bound = true → s.actor.active = some stage → takesOn stage who.nodeId connType = none :=
    fun _ _ hi => absurd hi nofun
  cases hactive : s.actor.active with
  | none =>
    refine iff_of_true ⟨fun _ stage' hactive' => ?_, hcalls⟩ fun _ stage hstage =>
      absurd (hactive.symm.trans hstage).symm (Option.some_ne_none _)
    rw [BanState.step, step_gossip_of_none hactive] at hactive'
    exact absurd (hactive.symm.trans hactive').symm (Option.some_ne_none _)
  | some stage =>
    by_cases haccepts : accepts C.toSignatureCrates stageId signed = true
    swap
    · refine iff_of_true ⟨fun hbound stage' hactive' => ?_, hcalls⟩ fun hok => absurd hok haccepts
      have hsame := step_gossip_of_not_accepts (a := s.actor) haccepts now
      have hactive' : (s.actor.step C (.gossip stageId signed now)).active = some stage' := hactive'
      rw [bound_node hactive hactive', Bool.or_eq_true] at hbound
      rw [hsame] at hactive'
      refine h.out (hbound.resolve_right fun hban => ?_) stage' hactive'
      obtain ⟨-, -, hok, -⟩ := (handlesBan_eq_true hactive).mp hban
      exact haccepts hok
    have hactor := step_gossip_of_accepts (a := s.actor) haccepts now
    constructor
    · intro hout _ stage₁ hstage
      obtain rfl := Option.some.inj (hactive.symm.trans hstage)
      constructor
      · intro hbound sid pubkey role timestamp nodeId hcontrol
        have hactive' : (s.actor.step C (.gossip stageId signed now)).active =
            some (stage.presence pubkey role timestamp nodeId now) :=
          congrArg StageActor.active (step_presence haccepts hactive hcontrol)
        refine presence_not_without (hout.entries ?_ _ hactive')
        rw [bound_node hactive hactive', hbound, Bool.true_or]
      · intro hban hother p hp hnode
        by_contra hne
        obtain ⟨sid, hcontrol, -, hhost, -⟩ := (handlesBan_eq_true hactive).mp hban
        have hactive' : (s.actor.step C (.gossip stageId signed now)).active =
            some ((stage.banNode who.pubkey).remove who.pubkey) := by
          rw [hactor, StageActor.handleControl, hactive]
          dsimp only
          rw [hcontrol]
          dsimp only
          rw [StageActor.onBan, if_pos hhost]
          dsimp only
          rw [if_neg hother]
          rfl
        have hbound : (s.step C who (.node (.gossip stageId signed now))).bound = true := by
          rw [bound_node hactive hactive', hban, Bool.or_true]
        have hwithout := hout.entries hbound _ hactive'
        rw [handleControl_participants hactive (hactor ▸ hactive')] at hwithout
        exact (hwithout p (mem_of_ban hcontrol hp hne)).2 hnode
    · intro hback
      refine ⟨fun hbound stage' hactive' => ?_, hcalls⟩
      have hactive' : (s.actor.step C (.gossip stageId signed now)).active = some stage' := hactive'
      rw [bound_node hactive hactive', Bool.or_eq_true] at hbound
      obtain ⟨hpresence, hknown⟩ := hback haccepts stage hactive
      rw [handleControl_participants hactive (hactor ▸ hactive')]
      by_cases hbefore : s.bound = true
      · exact without_revised (h.out hbefore stage hactive) (hpresence hbefore)
      · -- the ban is heard here for the first time
        have hban := hbound.resolve_left hbefore
        obtain ⟨sid, hcontrol, -, hhost, -⟩ := (handlesBan_eq_true hactive).mp hban
        have hother : who.pubkey ≠ stage.myPubkey := by
          intro hme
          rw [hactor, StageActor.handleControl, hactive] at hactive'
          dsimp only at hactive'
          rw [hcontrol] at hactive'
          dsimp only at hactive'
          rw [StageActor.onBan, if_pos hhost] at hactive'
          dsimp only at hactive'
          rw [if_pos hme] at hactive'
          exact absurd hactive'.symm (Option.some_ne_none _)
        have harrival : arrival stage signed now = [] := by rw [arrival, hcontrol]
        rw [harrival, List.append_nil]
        intro p' hp'
        obtain ⟨p, hp, hrevised⟩ := List.mem_filterMap.mp hp'
        rw [revise, hcontrol] at hrevised
        dsimp only at hrevised
        split at hrevised
        next => exact absurd hrevised.symm (Option.some_ne_none _)
        next hstays =>
          obtain rfl := Option.some.inj hrevised
          have hkey : p.pubkey ≠ who.pubkey := fun hkey => hstays ⟨hhost, hkey⟩
          exact ⟨hkey, fun hnode => hkey (hknown hban hother p hp hnode)⟩

theorem BanInv.staysOut_iff (h : BanInv who s) (i : BanInput) : StaysOut C who s i ↔ NoWayBack C who s i := by
  cases i with
  | node i =>
    cases i with
    | command cmd now => exact iff_of_true (h.command cmd now) trivial
    | gossip stageId signed now => exact h.gossip_iff stageId signed now
  | issue =>
    constructor
    · intro hout stage hactive hticket hid
      refine hout.entries ?_ stage hactive
      rw [BanState.step, hactive, Option.any_some, hticket, decide_eq_true hid, Bool.and_true, Bool.or_true]
    · intro hback
      refine ⟨fun hbound stage hactive => ?_, fun _ _ hi => absurd hi nofun⟩
      have hactive : s.actor.active = some stage := hactive
      rw [BanState.step, hactive, Option.any_some, Bool.or_eq_true, Bool.and_eq_true, decide_eq_true_eq]
        at hbound
      rcases hbound with hbound | ⟨hticket, hid⟩
      · exact h.out hbound stage hactive
      · exact hback stage hactive hticket hid
  | connect connType =>
    constructor
    · intro hout hbound stage hactive hhost hcalls
      exact takesOn_eq_none_iff.mp (hout.connections connType stage rfl hbound hactive) hhost hcalls
    · intro hback
      refine ⟨h.out, ?_⟩
      rintro _ stage ⟨⟩ hbound hactive
      exact takesOn_eq_none_iff.mpr (hback hbound stage hactive)

theorem BanInv.step (h : BanInv who s) {i : BanInput} (hout : StaysOut C who s i) :
    BanInv who (s.step C who i) := by
  refine ⟨fun hidle => ?_, hout.entries⟩
  cases i with
  | node i =>
    have hidle : (s.actor.step C i).active = none := hidle
    rw [BanState.step]
    dsimp only
    rw [hidle]
  | issue =>
    have hidle : s.actor.active = none := hidle
    rw [BanState.step, h.idle hidle, hidle]
    rfl
  | connect connType => exact h.idle hidle

end Steps

/-- In a run of a node, who is banned stays out just if they do not show up again, were known to the
node by one entry, and do not call at the host. -/
theorem staysOut_iff_noWayBack (C : StageCrates) (who : Offender) (identity : StageIdentity)
    (inputs : List BanInput) :
    Along (fun s i => some (s.step C who i)) (StaysOut C who) (.new identity) inputs ↔
      Along (fun s i => some (s.step C who i)) (NoWayBack C who) (.new identity) inputs := by
  have hnew : BanInv who (.new identity) :=
    ⟨fun _ => rfl, fun h => absurd h Bool.false_ne_true⟩
  refine along_iff (fun s i h => h.staysOut_iff i) ?_ hnew
  rintro s i t h hout ⟨⟩
  exact h.step hout

section Examples

def bannedGuest : Offender := ⟨"stage", "guest", "guest node"⟩

def guestNode : StageActor := .new ⟨"guest", Vector.replicate 32 3, "guest node"⟩

def guestReturns : StageInput :=
  .gossip "stage" (guestNode.sign stageChecksum (.presence "stage" "guest" .listener 0 (some "guest node")) 0) 0

def banHeard : BanState :=
  (⟨joinedNode, true, false⟩ : BanState).step stageChecksum bannedGuest (.node (hostSays (.ban "stage" "guest")))

theorem banHeard_bound : (∃ stage, banHeard.actor.active = some stage) ∧ banHeard.bound = true := by
  have hactive : joinedNode.active = some joinedStage := rfl
  have hactor : joinedNode.step stageChecksum (hostSays (.ban "stage" "guest")) =
      joinedNode.withStage ((joinedStage.banNode "guest").remove "guest") := by
    rw [step_hostSays, StageActor.handleControl, hactive]
    change joinedNode.onBan joinedStage.hostPubkey "guest" joinedStage = _
    rw [StageActor.onBan, if_pos rfl]
    exact if_neg (by decide)
  have hactive' := congrArg StageActor.active hactor
  refine ⟨⟨_, hactive'⟩, ?_⟩
  have hban : handlesBan stageChecksum bannedGuest joinedNode (hostSays (.ban "stage" "guest")) = true :=
    (handlesBan_eq_true hactive).mpr
      ⟨"stage", rfl, stageChecksum_signs.accepts hostNode (.ban "stage" "guest") 0, rfl, rfl⟩
  rw [banHeard, bound_node hactive hactive', hban, Bool.or_true]

/-- A guest is banned, and back with its next heartbeat. -/
theorem not_staysOut_heartbeat : ¬ Along (fun s i => some (s.step stageChecksum bannedGuest i))
    (StaysOut stageChecksum bannedGuest) (.new listener)
    [.node (.command (.joinStage invitation) 0), .issue, .node (hostSays (.ban "stage" "guest")),
      .node guestReturns] := by
  intro h
  have hnew : BanInv bannedGuest (.new listener) := ⟨fun _ => rfl, fun h => absurd h Bool.false_ne_true⟩
  have hissued := (hnew.step h.1).step (h.2 _ rfl).1
  have hheard := hissued.step ((h.2 _ rfl).2 _ rfl).1
  have hback := (hheard.staysOut_iff _).mp (((h.2 _ rfl).2 _ rfl).2 _ rfl).1
  obtain ⟨⟨stage, hactive⟩, hbound⟩ := banHeard_bound
  have haccepts := stageChecksum_signs.accepts guestNode
    (.presence "stage" "guest" .listener 0 (some "guest node")) 0
  have hother := (hback haccepts stage hactive).1 hbound "stage" "guest" .listener 0 (some "guest node") rfl
  exact hother.1 rfl

end Examples

end Proscenium.Stage
