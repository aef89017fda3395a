import Proscenium.Lib.JsonValue
import Proscenium.Types.Content

/-! The control messages of a stage, with the bytes that are signed. -/

namespace Proscenium.Types

inductive StageRole where
  | host
  | coHost
  | speaker
  | listener
  deriving DecidableEq, Repr

inductive StageControl where
  | announce (stageId title hostPubkey : String) (startedAt : UInt64)
  | ended (stageId : String)
  | presence (stageId pubkey : String) (role : StageRole) (timestamp : UInt64)
      (nodeId : Option String)
  | relayVolunteer (stageId relayPubkey relayNodeId : String) (capacity : UInt32)
  | relayAssignment (stageId relayPubkey relayNodeId : String) (listenerPubkeys : List String)
  | raiseHand (stageId pubkey : String)
  | lowerHand (stageId pubkey : String)
  | promoteSpeaker (stageId pubkey : String)
  | demoteSpeaker (stageId pubkey : String)
  | muteSpeaker (stageId pubkey : String)
  | selfMuteToggle (stageId pubkey : String) (muted : Bool)
  | kick (stageId pubkey : String)
  | ban (stageId pubkey : String)
  | reaction (stageId pubkey emoji : String)
  | chat (stageId pubkey text : String)
  deriving DecidableEq, Repr

structure SignedStageControl where
  senderPubkey : String
  control : StageControl
  timestamp : UInt64
  signature : String
  deriving DecidableEq, Repr

structure StageTicket where
  stageId : String
  hostPubkey : String
  hostNodeId : String
  title : String
  deriving DecidableEq, Repr

def StageRole.toText : StageRole → String
  | .host => "Host"
  | .coHost => "CoHost"
  | .speaker => "Speaker"
  | .listener => "Listener"

theorem StageRole.toText_injective : Function.Injective StageRole.toText := by
  intro r s h
  cases r <;> cases s <;> first | rfl | exact absurd h (by decide)

namespace StageControl

/-- The name of the variant. -/
def tag : StageControl → String
  | .announce .. => "Announce"
  | .ended .. => "End"
  | .presence .. => "Presence"
  | .relayVolunteer .. => "RelayVolunteer"
  | .relayAssignment .. => "RelayAssignment"
  | .raiseHand .. => "RaiseHand"
  | .lowerHand .. => "LowerHand"
  | .promoteSpeaker .. => "PromoteSpeaker"
  | .demoteSpeaker .. => "DemoteSpeaker"
  | .muteSpeaker .. => "MuteSpeaker"
  | .selfMuteToggle .. => "SelfMuteToggle"
  | .kick .. => "Kick"
  | .ban .. => "Ban"
  | .reaction .. => "Reaction"
  | .chat .. => "Chat"

def fields : StageControl → List (String × Json.Value)
  | .announce stageId title hostPubkey startedAt =>
    [("stage_id", .str stageId), ("title", .str title), ("host_pubkey", .str hostPubkey),
      ("started_at", .num startedAt.toNat)]
  | .ended stageId => [("stage_id", .str stageId)]
  | .presence stageId pubkey role timestamp nodeId =>
    [("stage_id", .str stageId), ("pubkey", .str pubkey), ("role", .str role.toText),
      ("timestamp", .num timestamp.toNat), ("node_id", (optionStr nodeId).value)]
  | .relayVolunteer stageId relayPubkey relayNodeId capacity =>
    [("stage_id", .str stageId), ("relay_pubkey", .str relayPubkey),
      ("relay_node_id", .str relayNodeId), ("capacity", .num capacity.toNat)]
  | .relayAssignment stageId relayPubkey relayNodeId listenerPubkeys =>
    [("stage_id", .str stageId), ("relay_pubkey", .str relayPubkey),
      ("relay_node_id", .str relayNodeId), ("listener_pubkeys", .arr (listenerPubkeys.map .str))]
  | .raiseHand stageId pubkey | .lowerHand stageId pubkey | .promoteSpeaker stageId pubkey
  | .demoteSpeaker stageId pubkey | .muteSpeaker stageId pubkey | .kick stageId pubkey
  | .ban stageId pubkey => [("stage_id", .str stageId), ("pubkey", .str pubkey)]
  | .selfMuteToggle stageId pubkey muted =>
    [("stage_id", .str stageId), ("pubkey", .str pubkey), ("muted", .bool muted)]
  | .reaction stageId pubkey emoji =>
    [("stage_id", .str stageId), ("pubkey", .str pubkey), ("emoji", .str emoji)]
  | .chat stageId pubkey text =>
    [("stage_id", .str stageId), ("pubkey", .str pubkey), ("text", .str text)]

def value (c : StageControl) : Json.Value := Json.object [(c.tag, Json.object c.fields)]

end StageControl

def stageControlSigningBytes (senderPubkey : String) (control : StageControl) (timestamp : UInt64) :
    Bytes :=
  (Json.object [("sender_pubkey", .str senderPubkey), ("control", control.value),
    ("timestamp", .num timestamp.toNat)]).toVec

variable (S : SignatureCrates)

def verifyStageControl (signed : SignedStageControl) : PublicKey → Except String Unit :=
  verifySigned S "stage control"
    (stageControlSigningBytes signed.senderPubkey signed.control signed.timestamp) signed.signature

end Proscenium.Types
