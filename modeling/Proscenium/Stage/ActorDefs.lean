import Proscenium.Lib.CancelToken
import Proscenium.Lib.Table
import Proscenium.Stage.AuthDefs
import Proscenium.Types.ChecksumScheme
import Proscenium.Types.Stage

/-! The `StageActor` of a node (`stage/mod.rs`, `lifecycle.rs`, `moderation.rs`,
`control_handler.rs`): its commands, and what it does with the control messages
that its `receive_loop` lets through. -/

namespace Proscenium.Stage

open Proscenium.Types

/-- The signatures, with the side of the signer: the text of a public key, a signature in hex. -/
structure StageCrates extends SignatureCrates where
  publicText : SecretKey → String
  signHex : SecretKey → Bytes → String

/-- What a signer writes is accepted under the key it names. -/
def StageCrates.Signs (C : StageCrates) : Prop :=
  ∀ key bytes, ∃ pk, C.parsePublicKey (C.publicText key) = .ok pk ∧
    verifySigned C.toSignatureCrates "stage control" bytes (C.signHex key bytes) pk = .ok ()

structure Participant where
  pubkey : String
  role : StageRole
  handRaised : Bool
  selfMuted : Bool
  hostMuted : Bool
  lastSeenMs : UInt64
  nodeId : Option String
  deriving DecidableEq, Repr

def Participant.refresh (role : StageRole) (nodeId : Option String) (now : UInt64) (p : Participant) :
    Participant :=
  { p with lastSeenMs := now, role, nodeId := nodeId.or p.nodeId }

section Topology

inductive SourceKind where
  | host
  | relay
  deriving DecidableEq, Repr

structure Source where
  kind : SourceKind
  endpointId : String
  capacity : UInt32
  assigned : UInt32
  deriving DecidableEq, Repr

structure TopologyManager where
  sources : List Source
  assignments : List (String × String)
  deriving DecidableEq, Repr

namespace TopologyManager

def new (hostEndpointId : String) (hostCapacity : UInt32) : TopologyManager :=
  ⟨[⟨.host, hostEndpointId, hostCapacity, 0⟩], []⟩

def addRelay (endpointId : String) (capacity : UInt32) (t : TopologyManager) : TopologyManager :=
  if t.sources.any (fun s => s.endpointId = endpointId) then t
  else { t with sources := t.sources ++ [⟨.relay, endpointId, capacity, 0⟩] }

/-- The first source that satisfies `p` is changed. -/
def updateFirst (p : Source → Bool) (f : Source → Source) : List Source → List Source
  | [] => []
  | s :: ss => if p s then f s :: ss else s :: updateFirst p f ss

/-- `max_by_key`: the last of the sources with the most room. -/
def roomiest (sources : List Source) : Option Source :=
  sources.foldl (fun best s =>
    match best with
    | none => if s.assigned < s.capacity then some s else none
    | some b =>
      if s.assigned < s.capacity ∧ b.capacity - b.assigned ≤ s.capacity - s.assigned then some s
      else some b) none

/-- An existing slot is released first; then the host has priority. -/
def assignListener (pubkey : String) (t : TopologyManager) : Option String × TopologyManager :=
  let released :=
    match t.assignments.find? (fun a => a.1 = pubkey) with
    | some a => updateFirst (fun s => s.endpointId = a.2)
        (fun s => { s with assigned := if s.assigned = 0 then 0 else s.assigned - 1 }) t.sources
    | none => t.sources
  let assignments := t.assignments.filter fun a => a.1 ≠ pubkey
  let source := (released.find? fun s => s.kind = .host ∧ s.assigned < s.capacity).or (roomiest released)
  match source with
  | none => (none, ⟨released, assignments⟩)
  | some source =>
    (some source.endpointId,
      ⟨updateFirst (· = source) (fun s => { s with assigned := s.assigned + 1 }) released,
        assignments ++ [(pubkey, source.endpointId)]⟩)

/-- The listeners that go to the relay, in the order they are assigned. -/
def assignAll (relayNodeId : String) : List String → TopologyManager → List String × TopologyManager
  | [], t => ([], t)
  | pk :: pks, t =>
    let assigned := t.assignListener pk
    let rest := assignAll relayNodeId pks assigned.2
    (if assigned.1 = some relayNodeId then pk :: rest.1 else rest.1, rest.2)

end TopologyManager

end Topology

/-- What the heartbeat says: the role is the one at the start. -/
structure Heartbeat where
  pubkey : String
  role : StageRole
  nodeId : Option String
  deriving DecidableEq, Repr

structure ActiveStage where
  stageId : String
  title : String
  hostPubkey : String
  myPubkey : String
  myRole : StageRole
  selfMuted : Bool
  startedAt : UInt64
  participants : List Participant
  heartbeat : Heartbeat
  cancel : CancelToken
  topology : Option TopologyManager
  ticket : Option StageTicket
  listenerUpstreamId : Option String
  listenerPipelineCancel : Option CancelToken
  hostNodeId : String
  bannedNodeIds : List String
  deriving DecidableEq, Repr

structure StageIdentity where
  masterPubkey : String
  signingKey : SecretKey
  transportNodeId : String
  deriving DecidableEq, Repr

/-- The audio tasks of a joiner, each with its token. -/
inductive StageTask where
  | listenerPipeline (upstream hostSigningPubkey : String) (token : CancelToken)
  | speakerMixer (token : CancelToken)
  | speakerPipeline (hostNodeId : String) (token : CancelToken)
  deriving DecidableEq, Repr

/-- The actor, the tasks it has spawned and the tokens it has cancelled; `fresh` numbers tokens. -/
structure StageActor where
  identity : StageIdentity
  active : Option ActiveStage
  tasks : List StageTask
  cancelled : List CancelToken
  fresh : ℕ
  deriving DecidableEq, Repr

namespace ActiveStage

def participant (pubkey : String) (stage : ActiveStage) : Option Participant :=
  Table.find Participant.pubkey pubkey stage.participants

/-- `participants.get_mut`. -/
def modify (pubkey : String) (f : Participant → Participant) (stage : ActiveStage) : ActiveStage :=
  { stage with participants := Table.updateWhere (fun p => p.pubkey = pubkey) f stage.participants }

def setRole (pubkey : String) (role : StageRole) (stage : ActiveStage) : ActiveStage :=
  stage.modify pubkey fun p => { p with role }

def remove (pubkey : String) (stage : ActiveStage) : ActiveStage :=
  { stage with participants := Table.deleteWhere (fun p => p.pubkey = pubkey) stage.participants }

/-- The `Presence` branch: an entry is made or refreshed for whatever key the message names. -/
def presence (pubkey : String) (role : StageRole) (timestamp : UInt64) (nodeId : Option String)
    (now : UInt64) (stage : ActiveStage) : ActiveStage :=
  let refresh := Participant.refresh role nodeId now
  { stage with
    participants := Table.upsert Participant.pubkey pubkey
      (refresh ⟨pubkey, role, false, false, false, timestamp, nodeId⟩) refresh stage.participants }

def banNode (pubkey : String) (stage : ActiveStage) : ActiveStage :=
  match (stage.participant pubkey).bind (·.nodeId) with
  | none => stage
  | some nodeId => { stage with bannedNodeIds := stage.bannedNodeIds ++ [nodeId] }

end ActiveStage

def isModerator (stage : ActiveStage) (senderPubkey : String) : Bool :=
  senderPubkey = stage.hostPubkey || (stage.participant senderPubkey).any (·.role = .coHost)

namespace StageActor

def new (identity : StageIdentity) : StageActor := ⟨identity, none, [], [], 0⟩

def withStage (stage : ActiveStage) (a : StageActor) : StageActor := { a with active := some stage }

/-- `stage.cancel.cancel(); self.active.take()`. -/
def close (stage : ActiveStage) (a : StageActor) : StageActor :=
  { a with active := none, cancelled := stage.cancel :: a.cancelled }

/-- `listener_pipeline_cancel.take()`, and the token is cancelled. -/
def stopListening (stage : ActiveStage) (a : StageActor) : StageActor :=
  { a with
    active := some { stage with listenerPipelineCancel := none }
    cancelled := stage.listenerPipelineCancel.toList ++ a.cancelled }

/-- This node is promoted: the pipeline of the listener stops, one of a speaker is started. -/
def startSpeaking (stage : ActiveStage) (a : StageActor) : StageActor :=
  let a := a.stopListening stage
  { a with
    active := a.active.map fun stage => { stage with myRole := .speaker }
    tasks := a.tasks ++ [.speakerMixer (stage.cancel.child a.fresh),
      .speakerPipeline stage.hostNodeId (stage.cancel.child (a.fresh + 1))]
    fresh := a.fresh + 2 }

/-- This node is sent to a relay: the pipeline of the listener starts anew. -/
def listenTo (upstream : String) (stage : ActiveStage) (a : StageActor) : StageActor :=
  let token := stage.cancel.child a.fresh
  let a := a.stopListening stage
  { a with
    active := some { stage with
      listenerPipelineCancel := some token, listenerUpstreamId := some upstream }
    tasks := a.tasks ++ [.listenerPipeline upstream stage.hostPubkey token]
    fresh := a.fresh + 1 }

/-- The host takes up a relay and sends listeners to it. -/
def takeRelay (relayPubkey relayNodeId : String) (capacity : UInt32) (stage : ActiveStage)
    (a : StageActor) : StageActor × List StageControl :=
  match stage.myRole, stage.topology with
  | .host, some topology =>
    let listeners := (stage.participants.filter fun p => p.role = .listener).map (·.pubkey)
    let assigned := (topology.addRelay relayNodeId capacity).assignAll relayNodeId listeners
    (a.withStage { stage with topology := some assigned.2 },
      if assigned.1 = [] then []
      else [.relayAssignment stage.stageId relayPubkey relayNodeId assigned.1])
  | _, _ => (a, [])

section Branches

variable (sender pubkey : String) (stage : ActiveStage) (a : StageActor)

def onEnd : StageActor := if sender = stage.hostPubkey then a.close stage else a

def onPromoteSpeaker : StageActor :=
  if isModerator stage sender then
    let promoted := stage.setRole pubkey .speaker
    if pubkey = stage.myPubkey then a.startSpeaking promoted else a.withStage promoted
  else a

/-- The pipeline of the speaker is not cancelled. -/
def onDemoteSpeaker : StageActor :=
  if isModerator stage sender then
    let demoted := stage.setRole pubkey .listener
    a.withStage (if pubkey = stage.myPubkey then { demoted with myRole := .listener } else demoted)
  else a

def onMuteSpeaker : StageActor :=
  if isModerator stage sender then
    a.withStage (stage.modify pubkey fun p => { p with hostMuted := true })
  else a

def onKick : StageActor :=
  if isModerator stage sender then
    if pubkey = stage.myPubkey then a.close (stage.remove pubkey) else a.withStage (stage.remove pubkey)
  else a

def onBan : StageActor :=
  if sender = stage.hostPubkey then
    let banned := (stage.banNode pubkey).remove pubkey
    if pubkey = stage.myPubkey then a.close banned else a.withStage banned
  else a

def onRelayAssignment (relayNodeId : String) (listenerPubkeys : List String) : StageActor :=
  if sender = stage.hostPubkey then
    if stage.myPubkey ∈ listenerPubkeys then a.listenTo relayNodeId stage else a
  else a

end Branches

/-- The controls in the result are what is then signed and broadcast. -/
def handleControl (signed : SignedStageControl) (now : UInt64) (a : StageActor) :
    StageActor × List StageControl :=
  match a.active with
  | none => (a, [])
  | some stage =>
    match signed.control with
    | .presence _ pubkey role timestamp nodeId =>
      (a.withStage (stage.presence pubkey role timestamp nodeId now), [])
    | .ended _ => (onEnd signed.senderPubkey stage a, [])
    | .raiseHand _ pubkey =>
      (a.withStage (stage.modify pubkey fun p => { p with handRaised := true }), [])
    | .lowerHand _ pubkey =>
      (a.withStage (stage.modify pubkey fun p => { p with handRaised := false }), [])
    | .promoteSpeaker _ pubkey => (onPromoteSpeaker signed.senderPubkey pubkey stage a, [])
    | .demoteSpeaker _ pubkey => (onDemoteSpeaker signed.senderPubkey pubkey stage a, [])
    | .muteSpeaker _ pubkey => (onMuteSpeaker signed.senderPubkey pubkey stage a, [])
    | .selfMuteToggle _ pubkey muted =>
      (a.withStage (stage.modify pubkey fun p => { p with selfMuted := muted }), [])
    | .kick _ pubkey => (onKick signed.senderPubkey pubkey stage a, [])
    | .relayVolunteer _ relayPubkey relayNodeId capacity =>
      a.takeRelay relayPubkey relayNodeId capacity stage
    | .relayAssignment _ _ relayNodeId listenerPubkeys =>
      (onRelayAssignment signed.senderPubkey stage a relayNodeId listenerPubkeys, [])
    | .ban _ pubkey => (onBan signed.senderPubkey pubkey stage a, [])
    -- only shown to the user
    | .announce .. | .reaction .. | .chat .. => (a, [])

end StageActor

section ReceiveLoop

def stageIdOf : StageControl → String
  | .announce stageId .. | .ended stageId | .presence stageId .. | .relayVolunteer stageId ..
  | .relayAssignment stageId .. | .raiseHand stageId _ | .lowerHand stageId _
  | .promoteSpeaker stageId _ | .demoteSpeaker stageId _ | .muteSpeaker stageId _
  | .selfMuteToggle stageId .. | .kick stageId _ | .ban stageId _ | .reaction stageId ..
  | .chat stageId .. => stageId

/-- What the `receive_loop` of a stage lets through: the sender's own key has signed it. -/
def accepts (S : SignatureCrates) (stageId : String) (signed : SignedStageControl) : Bool :=
  match S.parsePublicKey signed.senderPubkey with
  | .error _ => false
  | .ok pk =>
    match verifyStageControl S signed pk with
    | .error _ => false
    | .ok () => stageIdOf signed.control = stageId

def StageActor.receive (S : SignatureCrates) (stageId : String) (signed : SignedStageControl)
    (now : UInt64) (a : StageActor) : StageActor × List StageControl :=
  if accepts S stageId signed then a.handleControl signed now else (a, [])

end ReceiveLoop

/-- The commands of a node's user, with the id that `create_stage` draws, and the background tasks. -/
inductive StageCommand where
  | createStage (title stageId : String)
  | joinStage (ticket : StageTicket)
  | leaveStage
  | endStage
  | promoteSpeaker (pubkey : String)
  | demoteSpeaker (pubkey : String)
  | volunteerAsRelay (capacity : UInt32)
  | raiseHand
  | lowerHand
  | toggleSelfMute
  | sendReaction (emoji : String)
  | sendChat (text : String)
  | sweepPresence
  | heartbeat
  deriving DecidableEq, Repr

def presenceExpiry : UInt64 := 45000

def sweepCutoff (now : UInt64) : UInt64 := if now < presenceExpiry then 0 else now - presenceExpiry

namespace StageActor

variable (C : StageCrates)

def signingPubkey (a : StageActor) : String := C.publicText a.identity.signingKey

def requireActive (action : String) (a : StageActor) : Except String ActiveStage :=
  match a.active with
  | none => .error ("cannot " ++ action ++ ": not in a stage")
  | some stage => .ok stage

def requireHostActive (action : String) (a : StageActor) : Except String ActiveStage :=
  match a.active with
  | none => .error ("cannot " ++ action ++ ": not in a stage")
  | some stage =>
    match stage.myRole with
    | .host | .coHost => .ok stage
    | _ => .error ("cannot " ++ action ++ ": not the host")

def inStage (a : StageActor) : Except String ActiveStage :=
  match a.active with
  | none => .error "not in a stage"
  | some stage => .ok stage

def createStage (title stageId : String) (now : UInt64) (a : StageActor) :
    Except String (StageActor × List StageControl) :=
  match a.active with
  | some _ => .error "already in a stage"
  | none =>
    let me := a.identity.masterPubkey
    let nodeId := a.identity.transportNodeId
    let stage : ActiveStage := {
      stageId, title, hostPubkey := me, myPubkey := me, myRole := .host, selfMuted := false
      startedAt := now
      participants := [⟨me, .host, false, false, false, now, some nodeId⟩]
      heartbeat := ⟨me, .host, some nodeId⟩
      cancel := [a.fresh]
      topology := some (.new nodeId 15)
      -- listeners check the audio under it, so it is the signing key
      ticket := some ⟨stageId, a.signingPubkey C, nodeId, title⟩
      listenerUpstreamId := none, listenerPipelineCancel := none
      hostNodeId := nodeId, bannedNodeIds := [] }
    .ok ({ a with active := some stage, fresh := a.fresh + 1 },
      [.presence stageId me .host now (some nodeId), .announce stageId title me now])

def joinStage (ticket : StageTicket) (now : UInt64) (a : StageActor) :
    Except String (StageActor × List StageControl) :=
  match a.active with
  | some _ => .error "already in a stage"
  | none =>
    let me := a.identity.masterPubkey
    let nodeId := a.identity.transportNodeId
    let cancel : CancelToken := [a.fresh]
    let listenerCancel := cancel.child (a.fresh + 1)
    let stage : ActiveStage := {
      stageId := ticket.stageId, title := ticket.title, hostPubkey := ticket.hostPubkey
      myPubkey := me, myRole := .listener, selfMuted := false, startedAt := now
      participants := [], heartbeat := ⟨me, .listener, some nodeId⟩
      cancel, topology := none, ticket := none
      listenerUpstreamId := some ticket.hostNodeId
      listenerPipelineCancel := some listenerCancel
      hostNodeId := ticket.hostNodeId, bannedNodeIds := [] }
    .ok ({ a with
        active := some stage
        tasks := a.tasks ++ [.listenerPipeline ticket.hostNodeId ticket.hostPubkey listenerCancel]
        fresh := a.fresh + 2 },
      [.presence ticket.stageId me .listener now (some nodeId)])

def leaveStage (a : StageActor) : Except String (StageActor × List StageControl) := do
  let stage ← a.inStage
  .ok (a.close stage, [])

def endStage (a : StageActor) : Except String (StageActor × List StageControl) := do
  let stage ← a.inStage
  if stage.myRole = .host then .ok (a.close stage, [.ended stage.stageId])
  else .error "only the host can end the stage"

def promoteSpeaker (pubkey : String) (a : StageActor) :
    Except String (StageActor × List StageControl) := do
  let stage ← a.requireHostActive "promote"
  .ok (a.withStage (stage.setRole pubkey .speaker), [.promoteSpeaker stage.stageId pubkey])

def demoteSpeaker (pubkey : String) (a : StageActor) :
    Except String (StageActor × List StageControl) := do
  let stage ← a.requireHostActive "demote"
  .ok (a.withStage (stage.setRole pubkey .listener), [.demoteSpeaker stage.stageId pubkey])

def volunteerAsRelay (capacity : UInt32) (a : StageActor) :
    Except String (StageActor × List StageControl) := do
  let stage ← a.inStage
  match stage.listenerUpstreamId with
  | none => .error "no upstream audio source to relay from"
  | some _ =>
    .ok (a, [.relayVolunteer stage.stageId stage.myPubkey a.identity.transportNodeId capacity])

/-- The key that `broadcast_control` hands to its closure is the signing key. -/
def raiseHand (a : StageActor) : Except String (StageActor × List StageControl) := do
  let stage ← a.requireActive "raise hand"
  .ok (a, [.raiseHand stage.stageId (a.signingPubkey C)])

def lowerHand (a : StageActor) : Except String (StageActor × List StageControl) := do
  let stage ← a.requireActive "lower hand"
  .ok (a, [.lowerHand stage.stageId (a.signingPubkey C)])

def toggleSelfMute (a : StageActor) : Except String (StageActor × List StageControl) := do
  let stage ← a.inStage
  .ok (a.withStage { stage with selfMuted := !stage.selfMuted },
    [.selfMuteToggle stage.stageId (a.signingPubkey C) (!stage.selfMuted)])

def sendReaction (emoji : String) (a : StageActor) : Except String (StageActor × List StageControl) := do
  let stage ← a.requireActive "send reaction"
  .ok (a, [.reaction stage.stageId (a.signingPubkey C) (String.ofList (emoji.toList.take 16))])

def sendChat (text : String) (a : StageActor) : Except String (StageActor × List StageControl) := do
  let stage ← a.requireActive "send chat"
  .ok (a, [.chat stage.stageId (a.signingPubkey C) (String.ofList (text.toList.take 500))])

/-- This node's own entry stays. -/
def sweepPresence (now : UInt64) (a : StageActor) : Except String (StageActor × List StageControl) :=
  match a.active with
  | none => .ok (a, [])
  | some stage =>
    let expired := fun p : Participant => p.lastSeenMs < sweepCutoff now && p.pubkey ≠ stage.myPubkey
    .ok (a.withStage { stage with participants := Table.deleteWhere expired stage.participants }, [])

def sendHeartbeat (now : UInt64) (a : StageActor) : Except String (StageActor × List StageControl) :=
  match a.active with
  | none => .ok (a, [])
  | some stage =>
    .ok (a, [.presence stage.stageId stage.heartbeat.pubkey stage.heartbeat.role now
      stage.heartbeat.nodeId])

def handle (cmd : StageCommand) (now : UInt64) (a : StageActor) :
    Except String (StageActor × List StageControl) :=
  match cmd with
  | .createStage title stageId => a.createStage C title stageId now
  | .joinStage ticket => a.joinStage ticket now
  | .leaveStage => a.leaveStage
  | .endStage => a.endStage
  | .promoteSpeaker pubkey => a.promoteSpeaker pubkey
  | .demoteSpeaker pubkey => a.demoteSpeaker pubkey
  | .volunteerAsRelay capacity => a.volunteerAsRelay capacity
  | .raiseHand => a.raiseHand C
  | .lowerHand => a.lowerHand C
  | .toggleSelfMute => a.toggleSelfMute C
  | .sendReaction emoji => a.sendReaction C emoji
  | .sendChat text => a.sendChat C text
  | .sweepPresence => a.sweepPresence now
  | .heartbeat => a.sendHeartbeat now

/-- `sign_stage_control`; the sender of a message is the signing key, in every place. -/
def sign (control : StageControl) (now : UInt64) (a : StageActor) : SignedStageControl :=
  let sender := a.signingPubkey C
  ⟨sender, control, now, C.signHex a.identity.signingKey (stageControlSigningBytes sender control now)⟩

end StageActor

/-- What a node's actor gets to handle; a message comes from the loop of some stage. -/
inductive StageInput where
  | command (cmd : StageCommand) (now : UInt64)
  | gossip (stageId : String) (signed : SignedStageControl) (now : UInt64)
  deriving DecidableEq, Repr

/-- The state after it; a command that is refused leaves the actor as it is. -/
def StageActor.step (C : StageCrates) (a : StageActor) : StageInput → StageActor
  | .command cmd now =>
    match a.handle C cmd now with
    | .ok (a', _) => a'
    | .error _ => a
  | .gossip stageId signed now => (a.receive C.toSignatureCrates stageId signed now).1

/-- The participants are in a hash map: between two inputs they may come to be in any order. -/
inductive StageEvent where
  | input (i : StageInput)
  | rehash (participants : List Participant)

def StageActor.rehash (a : StageActor) (participants : List Participant) : Option StageActor :=
  match a.active with
  | none => none
  | some stage =>
    if participants.Perm stage.participants then some (a.withStage { stage with participants }) else none

def StageActor.stepEvent (C : StageCrates) (a : StageActor) : StageEvent → Option StageActor
  | .input i => some (a.step C i)
  | .rehash participants => a.rehash participants

section Participants

variable {pubkey k : String} {f : Participant → Participant} (stage : ActiveStage)

theorem ActiveStage.participant_modify (hf : ∀ p, (f p).pubkey = p.pubkey) :
    (stage.modify pubkey f).participant k =
      (stage.participant k).map fun p => if k = pubkey then f p else p := by
  unfold participant modify
  rw [Table.find_updateWhere hf]
  cases hfind : Table.find Participant.pubkey k stage.participants with
  | none => rfl
  | some p =>
    rw [Option.map_some, Option.map_some, Table.key_of_find hfind]
    simp only [decide_eq_true_eq]

theorem ActiveStage.participant_presence_self (role : StageRole) (timestamp : UInt64)
    (nodeId : Option String) (now : UInt64) :
    (stage.presence pubkey role timestamp nodeId now).participant pubkey =
      some (((stage.participant pubkey).map (Participant.refresh role nodeId now)).getD
        ⟨pubkey, role, false, false, false, now, nodeId.or nodeId⟩) := by
  have hkey : ∀ p, (Participant.refresh role nodeId now p).pubkey = p.pubkey := fun _ => rfl
  have hnew : (Participant.refresh role nodeId now
    ⟨pubkey, role, false, false, false, timestamp, nodeId⟩).pubkey = pubkey := rfl
  exact Table.find_upsert_self hkey hnew stage.participants

theorem ActiveStage.participant_presence_of_ne (role : StageRole) (timestamp : UInt64)
    (nodeId : Option String) (now : UInt64) (hne : k ≠ pubkey) :
    (stage.presence pubkey role timestamp nodeId now).participant k = stage.participant k := by
  have hkey : ∀ p, (Participant.refresh role nodeId now p).pubkey = p.pubkey := fun _ => rfl
  have hnew : (Participant.refresh role nodeId now
    ⟨pubkey, role, false, false, false, timestamp, nodeId⟩).pubkey = pubkey := rfl
  exact Table.find_upsert_of_ne hkey hnew hne stage.participants

end Participants

section Specs

variable {C : StageCrates} {a : StageActor} {stage : ActiveStage}

theorem StageActor.inStage_eq_ok : a.inStage = .ok stage ↔ a.active = some stage := by
  unfold inStage
  cases a.active with
  | none => exact iff_of_false nofun nofun
  | some s => exact ⟨fun h => congrArg some (Except.ok.inj h), fun h => congrArg _ (Option.some.inj h)⟩

theorem StageActor.requireActive_eq_ok {action : String} :
    a.requireActive action = .ok stage ↔ a.active = some stage := by
  unfold requireActive
  cases a.active with
  | none => exact iff_of_false nofun nofun
  | some s => exact ⟨fun h => congrArg some (Except.ok.inj h), fun h => congrArg _ (Option.some.inj h)⟩

theorem StageActor.requireHostActive_eq_ok {action : String} :
    a.requireHostActive action = .ok stage ↔
      a.active = some stage ∧ (stage.myRole = .host ∨ stage.myRole = .coHost) := by
  unfold requireHostActive
  cases a.active with
  | none => exact iff_of_false nofun fun h => absurd h.1 nofun
  | some s =>
    dsimp only
    split
    next hrole =>
      constructor
      · intro h
        obtain rfl := Except.ok.inj h
        exact ⟨rfl, .inl hrole⟩
      · rintro ⟨h, -⟩
        rw [Option.some.inj h]
    next hrole =>
      constructor
      · intro h
        obtain rfl := Except.ok.inj h
        exact ⟨rfl, .inr hrole⟩
      · rintro ⟨h, -⟩
        rw [Option.some.inj h]
    next hhost hcohost =>
      refine iff_of_false nofun ?_
      rintro ⟨h, hrole⟩
      obtain rfl := Option.some.inj h
      exact hrole.elim hhost hcohost

end Specs

theorem accepts_eq_true {S : SignatureCrates} {stageId : String} {signed : SignedStageControl} :
    accepts S stageId signed = true ↔ ∃ pk, S.parsePublicKey signed.senderPubkey = .ok pk ∧
      verifyStageControl S signed pk = .ok () ∧ stageIdOf signed.control = stageId := by
  unfold accepts
  cases hparse : S.parsePublicKey signed.senderPubkey with
  | error e => simp
  | ok pk =>
    dsimp only
    cases hverify : verifyStageControl S signed pk with
    | error e => simp [hverify]
    | ok u => simp [hverify]

theorem StageCrates.Signs.accepts {C : StageCrates} (h : C.Signs) (a : StageActor)
    (control : StageControl) (now : UInt64) :
    Stage.accepts C.toSignatureCrates (stageIdOf control) (a.sign C control now) = true := by
  obtain ⟨pk, hparse, hverify⟩ := h a.identity.signingKey
    (stageControlSigningBytes (a.signingPubkey C) control now)
  exact accepts_eq_true.mpr ⟨pk, hparse, hverify, rfl⟩

theorem StageCrates.Signs.step {C : StageCrates} (h : C.Signs) (sender a : StageActor)
    (control : StageControl) (now : UInt64) :
    a.step C (.gossip (stageIdOf control) (sender.sign C control now) now) =
      (a.handleControl (sender.sign C control now) now).1 :=
  congrArg Prod.fst (if_pos (h.accepts sender control now))

theorem isModerator_hostPubkey {stage : ActiveStage} {sender : String} (h : sender = stage.hostPubkey) :
    isModerator stage sender = true := by
  rw [isModerator, decide_eq_true h, Bool.true_or]

/-- The scheme of `checksumCrates`, for stages. -/
def stageChecksum : StageCrates where
  toSignatureCrates := checksumCrates
  publicText key := hexEncode key.toList
  signHex key bytes := hexEncode (checksumSign (hexEncode key.toList) bytes)

theorem stageChecksum_signs : stageChecksum.Signs :=
  fun key bytes => ⟨checksumKey (hexEncode key.toList), rfl, verifySigned_checksum _ _ bytes⟩

end Proscenium.Stage
