import Proscenium.Call.CallDefs
import Proscenium.Client.DeletionAuthority
import Proscenium.Client.IdentityDefs
import Proscenium.Client.SyncAudience
import Proscenium.Dm.DeliveryDefs
import Proscenium.Dm.HandshakeDefs
import Proscenium.Dm.IncomingDefs

/-! The three handlers that accept connections of other users, with the tables
they work on: direct messages, peer requests and the audio of calls. A
connection is handled in one piece, every query is answered and every write
succeeds. Of the peer requests these are the ones that bring something in or
send content; what only goes to the user's screen and to the log is left out. -/

namespace Proscenium.Client

open Proscenium.Types Crypto Dm Feed

/-- The imported crates, by what uses them. -/
structure HandlerCrates where
  signature : SignatureCrates
  json : SerdeJson
  ratchet : Crates
  sealing : SealCrates
  noise : Handshake.Snow

structure OwnIdentity where
  masterPubkey : String
  delegation : SigningKeyDelegation
  transportNodeId : String
  dm : KeyPair
  deriving DecidableEq, Repr

structure FollowRequestRow where
  pubkey : String
  timestamp : Int64
  status : String
  createdAt : Int64
  expiresAt : Int64
  deriving DecidableEq, Repr

structure Push where
  author : String
  posts : List Post
  interactions : List Interaction
  profile : Option Profile
  deriving DecidableEq, Repr

def Push.message (msg : Push) : PushMessage :=
  ⟨msg.author, msg.posts.length, msg.interactions.length, msg.profile⟩

/-- What comes over a connection, by the protocol it is opened for. -/
inductive Request where
  | handshake (sender : String) (noiseMessage : Crypto.Bytes)
  | envelope (envelope : EncryptedEnvelope)
  /-- With the ids that follow on a second stream, if any do. -/
  | sync (req : SyncRequest) (body : Option (List String))
  | push (msg : Push)
  | followRequest (req : FollowRequest)
  | audio
  deriving DecidableEq, Repr

/-- What goes back over the connection or on to other parts of the program. -/
inductive Effect where
  | handshakeResponse (noiseMessage : Crypto.Bytes)
  | typing (peerPubkey : String)
  | callSignal (peerPubkey : String) (payload : DmPayload)
  | dmAck
  | syncSummary (summary : SyncSummary)
  | syncFrames (frames : List SyncFrame)
  | pushAck (receivedPostIds receivedInteractionIds : List String)
  | followResponse (response : FollowResponse)
  | audioStream (callId : String)
  deriving DecidableEq, Repr

structure Draws where
  now : UInt64
  nonce : Vector UInt8 12
  generated : KeyPair
  random : Bytes32
  deriving DecidableEq, Repr

structure Device where
  identity : OwnIdentity
  storage : Storage
  mailbox : Mailbox
  /-- There is one table of cached identities. -/
  peerDelegations_eq : mailbox.peerDelegations = storage.peerDelegations
  content : ContentStore
  moderation : Moderation
  followRequests : List FollowRequestRow
  notifications : List Notification
  activeCall : Option Call.ActiveCall

def followRequestTtlMs : UInt64 := 30 * 24 * 60 * 60 * 1000

section Mentions

variable (S : SignatureCrates)

def isAsciiHexDigit (c : Char) : Bool :=
  c.isDigit || ('a' ≤ c && c ≤ 'f') || ('A' ≤ c && c ≤ 'F')

/-- The digits after an `@` are one more mention, if they are a key that was not mentioned yet. -/
def addMention (digits : List Char) (mentions : List String) : List String :=
  let candidate := String.ofList (digits.map Char.toLower)
  if 52 ≤ digits.length ∧ (S.parsePublicKey candidate).toBool ∧ candidate ∉ mentions then
    mentions ++ [candidate]
  else mentions

/-- After an `@`, with the digits read since. -/
def scanMentions : Option (List Char) → List String → List Char → List String
  | none, mentions, [] => mentions
  | some digits, mentions, [] => addMention S digits mentions
  | none, mentions, c :: cs => scanMentions (if c = '@' then some [] else none) mentions cs
  | some digits, mentions, c :: cs =>
    if isAsciiHexDigit c then scanMentions (some (digits ++ [c])) mentions cs
    else scanMentions (if c = '@' then some [] else none) (addMention S digits mentions) cs

def parseMentions (content : String) : List String := scanMentions S none [] content.toList

end Mentions

def Storage.takesPush (me remote : String) (msg : PushMessage) (st : Storage) : Bool :=
  let sender := pushSender noFails.table remote st
  decide (msg.author = sender) && pushAllowed me noFails.table sender st &&
    decide (msg.posts ≤ maxPushPosts) && decide (msg.interactions ≤ maxPushInteractions)

namespace Device

def setStorage (storage : Storage) (d : Device) : Device :=
  { d with
    storage
    mailbox := { d.mailbox with peerDelegations := storage.peerDelegations }
    peerDelegations_eq := rfl }

def setMailbox (mailbox : Mailbox) (d : Device) : Device :=
  { d with
    mailbox := { mailbox with peerDelegations := d.storage.peerDelegations }
    peerDelegations_eq := rfl }

def viewer (remote : String) (d : Device) : String :=
  (d.storage.getMasterPubkeyForTransport remote).getD remote

def rejects (remote : String) (d : Device) : Bool := d.moderation.isBlocked (d.viewer remote)

def identityResponse (d : Device) : IdentityResponse :=
  ⟨d.identity.masterPubkey, d.identity.delegation, [d.identity.transportNodeId],
    (⟨d.identity.masterPubkey, d.storage, d.content⟩ : SyncPeer).profile⟩

def isApprovedFollower (pubkey : String) (d : Device) : Bool :=
  d.followRequests.any fun r => r.pubkey = pubkey ∧ r.status = "approved"

/-- Nothing is written over an approval. -/
def insertFollowRequest (pubkey : String) (timestamp createdAt expiresAt : UInt64) (d : Device) :
    Bool × Device :=
  let existing := (Table.find FollowRequestRow.pubkey pubkey d.followRequests).map FollowRequestRow.status
  if existing = some "approved" then (false, d)
  else
    let row : FollowRequestRow :=
      ⟨pubkey, timestamp.toInt64, "pending", createdAt.toInt64, expiresAt.toInt64⟩
    (true, { d with
      followRequests := Table.upsert FollowRequestRow.pubkey pubkey row (fun _ => row) d.followRequests })

variable (K : HandlerCrates) (o : Draws)

/-- `INSERT OR IGNORE`. -/
def insertNotification (kind actor : String) (targetPostId postId : Option String)
    (timestamp : UInt64) (d : Device) : Device :=
  let id := K.sealing.hexEncode (K.sealing.sha256 (kind.toUTF8.toList ++ actor.toUTF8.toList ++
    (targetPostId.getD "").toUTF8.toList ++ (postId.getD "").toUTF8.toList)).toList
  { d with
    notifications := Table.insertOrIgnore (fun n => n.id = id)
      ⟨id, kind, actor, targetPostId, postId, timestamp.toInt64, false⟩ d.notifications }

def processIncomingPost (p : Post) (d : Device) : Bool × Device :=
  let me := d.identity.masterPubkey
  let out := Client.processIncomingPost K.signature noFails o.now p d.storage d.content
  let d := { d with content := out.2 }
  if out.1 ∧ p.author ≠ me then
    let d := if me ∈ parseMentions K.signature p.content then
      d.insertNotification K "mention" p.author none (some p.id) p.timestamp else d
    let d := if p.replyToAuthor = some me then
      d.insertNotification K "reply" p.author p.replyTo (some p.id) p.timestamp else d
    let d := if p.quoteOfAuthor = some me then
      d.insertNotification K "quote" p.author p.quoteOf (some p.id) p.timestamp else d
    (true, d)
  else (out.1, d)

def processIncomingInteraction (i : Interaction) (expectedAuthor : String) (d : Device) : Device :=
  let me := d.identity.masterPubkey
  let accepted := acceptsInteraction K.signature noFails o.now i expectedAuthor d.storage
  let content := Client.processIncomingInteraction K.signature noFails o.now i expectedAuthor
    d.storage d.content
  let d := { d with content }
  if accepted ∧ i.targetAuthor = me ∧ i.author ≠ me then
    d.insertNotification K "like" i.author (some i.targetPostId) none i.timestamp
  else d

/-- A post of a push, with the ids that are acknowledged. -/
def receivePost (sender : String) (acc : List String × Device) (p : Post) : List String × Device :=
  if p.author ≠ sender then acc
  else if acc.2.moderation.isHidden sender then acc
  else
    let out := acc.2.processIncomingPost K o p
    (if out.1 then acc.1 ++ [p.id] else acc.1, out.2)

def receiveInteraction (sender : String) (acc : List String × Device) (i : Interaction) :
    List String × Device :=
  if i.author ≠ sender then acc
  else if acc.2.moderation.isHidden sender then acc
  else (acc.1 ++ [i.id], acc.2.processIncomingInteraction K o i sender)

/-- Is the push one that `handle_push` goes into? -/
def takesPush (remote : String) (msg : Push) (d : Device) : Bool :=
  d.storage.takesPush d.identity.masterPubkey remote msg.message

def handlePush (remote : String) (msg : Push) (d : Device) : List Effect × Device :=
  if d.takesPush remote msg then
    let sender := pushSender noFails.table remote d.storage
    let posts := msg.posts.foldl (receivePost K o sender) ([], d)
    let interactions := msg.interactions.foldl (receiveInteraction K o sender) ([], posts.2)
    let d := interactions.2
    let storage := Client.handlePush K.signature d.identity.masterPubkey noFails.table remote
      msg.message d.storage
    ([.pushAck posts.1 interactions.1], d.setStorage storage)
  else ([], d)

def handleFollowRequest (remote : String) (req : FollowRequest) (d : Device) :
    List Effect × Device :=
  match checkFollowRequest K.signature req with
  | .error _ => ([], d)
  | .ok _ =>
    let d := d.setStorage (d.storage.cachePeerIdentity (requesterIdentity remote req) o.now)
    match d.storage.getVisibility d.identity.masterPubkey with
    | .listed =>
      if d.isApprovedFollower req.requester then ([.followResponse (.approved d.identityResponse)], d)
      else
        match d.insertFollowRequest req.requester req.timestamp o.now (o.now + followRequestTtlMs) with
        | (true, d) => ([.followResponse .pending],
            d.insertNotification K "follow_request" req.requester none none o.now)
        | (false, d) => ([.followResponse (.approved d.identityResponse)], d)
    | .isPublic => ([.followResponse (.approved d.identityResponse)], d)
    | .isPrivate => ([.followResponse .denied], d)

def handleSync (remote : String) (req : SyncRequest) (body : Option (List String)) (d : Device) :
    List Effect × Device :=
  match (⟨d.identity.masterPubkey, d.storage, d.content⟩ : SyncPeer).handleSync K.json remote req with
  | none => ([], d)
  | some (summary, stream) => ([.syncSummary summary, .syncFrames (stream body)], d)

def dmPubkeyToX25519 (dmPubkey : String) : Option Bytes32 := do
  let bytes ← K.sealing.hexDecode dmPubkey
  if h : bytes.length = 32 then some ⟨bytes.toArray, h⟩ else none

def handleHandshake (sender : String) (noiseMessage : Crypto.Bytes) (d : Device) :
    List Effect × Device :=
  match K.noise.respond d.identity.dm.priv noiseMessage o.random with
  | some (response, sharedSecret, some initiatorDmPubkey) =>
    if dmPubkeyToX25519 K sender = some initiatorDmPubkey then
      let sealed := K.sealing.sealRatchetState o.nonce (RatchetState.initBob sharedSecret d.identity.dm)
      ([.handshakeResponse response], d.setMailbox (d.mailbox.saveRatchetSession sender sealed o.now))
    else ([], d)
  | _ => ([], d)

/-- What cannot be read is given up; `none` is the panic of a slice, the last of them after the message
is stored. -/
def handleEncryptedMessage (envelope : EncryptedEnvelope) (d : Device) : Option (List Effect) × Device :=
  let cut := Incoming.shortId envelope.sender
  match Delivery.readEnvelope K.ratchet K.sealing o.generated envelope d.mailbox with
  | none => (if d.mailbox.getRatchetSession envelope.sender = none then cut.map fun _ => [] else some [], d)
  | some (state, payload) =>
    let sealed := K.sealing.sealRatchetState o.nonce state
    let saved := d.mailbox.saveRatchetSession envelope.sender sealed o.now
    let peer := d.mailbox.getMasterPubkeyForDmPubkey envelope.sender
    match payload with
    | .message msg =>
      match peer with
      | none => (cut.map fun _ => [], d)
      | some peerMasterPubkey =>
        match previewOf msg.content with
        | none => (none, d)
        | some preview => ((Incoming.shortId peerMasterPubkey).map fun _ => [],
            d.setMailbox (d.mailbox.receiveDmMessageAtomically envelope.sender peerMasterPubkey sealed o.now
              (Delivery.incoming K.sealing d.identity.masterPubkey peerMasterPubkey msg) preview))
    | .delivered messageId => (some [], d.setMailbox (saved.markDmDelivered messageId))
    | .read messageId => (some [], d.setMailbox (saved.markDmReadById messageId))
    | .typing => (some (peer.toList.map Effect.typing), d.setMailbox saved)
    | payload => (some (peer.toList.map (Effect.callSignal · payload)), d.setMailbox saved)

def handleEnvelope (envelope : EncryptedEnvelope) (d : Device) : List Effect × Device :=
  match d.handleEncryptedMessage K o envelope with
  | (none, d) => ([], d)
  | (some effects, d) => (effects ++ [.dmAck], d)

/-- `CallHandler::accept` up to the audio. -/
def acceptAudio (remote : String) (d : Device) : List Effect × Device :=
  match d.activeCall with
  | some call => if call.peerPubkey = d.viewer remote then ([.audioStream call.callId], d) else ([], d)
  | none => ([], d)

/-- `accept` of the handler that the request is for. -/
def accept (remote : String) (d : Device) : Request → List Effect × Device
  | .handshake sender noiseMessage =>
    if d.rejects remote then ([], d) else d.handleHandshake K o sender noiseMessage
  | .envelope envelope => if d.rejects remote then ([], d) else d.handleEnvelope K o envelope
  | .sync req body => if d.rejects remote then ([], d) else d.handleSync K remote req body
  | .push msg => if d.rejects remote then ([], d) else d.handlePush K o remote msg
  | .followRequest req => if d.rejects remote then ([], d) else d.handleFollowRequest K o remote req
  | .audio => d.acceptAudio remote

end Device
end Proscenium.Client
