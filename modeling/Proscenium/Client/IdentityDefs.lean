import Proscenium.Client.ContentDefs
import Proscenium.Lib.Machine
import Proscenium.Lib.Tasks
import Proscenium.Types.Identity

/-! What a client keeps of the keys and devices of other users, and every
handler that writes it: the client and the server side of a follow request,
identity responses, linked-devices announcements and key rotations on a topic,
and announcements in a sync. A handler of these that awaits between its check and
its write is a task, so that other handlers can come in between. Posts, likes,
deletions and profile updates are one step each, from the key that is looked up
to the write: no other handler comes in between there. -/

namespace Proscenium.Client

open Proscenium.Types

structure AnnouncementRow where
  masterPubkey : String
  announcementJson : LinkedDevicesAnnouncement
  version : Int64
  cachedAt : Int64
  deriving DecidableEq, Repr

inductive FollowResponse where
  | approved (identity : IdentityResponse)
  | denied
  | pending
  deriving DecidableEq, Repr

structure PeerStore where
  storage : Storage
  announcements : List AnnouncementRow
  content : ContentStore
  deriving DecidableEq, Repr

namespace Storage

def getPeerDelegation (masterPubkey : String) (st : Storage) : Option SigningKeyDelegation :=
  (Table.find PeerIdentityRow.masterPubkey masterPubkey st.peerDelegations).map
    PeerIdentityRow.delegationJson

def getPeerTransportNodeIds (masterPubkey : String) (st : Storage) : List String :=
  ((Table.find PeerIdentityRow.masterPubkey masterPubkey st.peerDelegations).map
    PeerIdentityRow.transportNodeIds).getD []

def updateTransportNodeIds (masterPubkey : String) (ids : List String) (st : Storage) : Storage :=
  { st with
    peerDelegations := Table.updateWhere (·.masterPubkey = masterPubkey)
      (fun r => { r with transportNodeIds := ids }) st.peerDelegations }

end Storage

namespace PeerStore

def getPeerAnnouncementVersion (masterPubkey : String) (ps : PeerStore) : Option UInt64 :=
  (Table.find AnnouncementRow.masterPubkey masterPubkey ps.announcements).map fun r =>
    r.version.toUInt64

/-- The first statement of `cache_peer_device_announcement`. -/
def saveAnnouncement (masterPubkey : String) (a : LinkedDevicesAnnouncement) (now : UInt64)
    (ps : PeerStore) : PeerStore :=
  { ps with
    announcements := Table.upsert AnnouncementRow.masterPubkey masterPubkey
      ⟨masterPubkey, a, a.version.toInt64, now.toInt64⟩
      (fun r => ⟨r.masterPubkey, a, a.version.toInt64, now.toInt64⟩) ps.announcements }

end PeerStore

/-- The handlers that are under way, by what they do next. -/
inductive Task where
  /-- The two statements of `cache_peer_device_announcement`. -/
  | saveAnnouncement (masterPubkey : String) (a : LinkedDevicesAnnouncement)
  | updateTransportNodeIds (masterPubkey : String) (a : LinkedDevicesAnnouncement)
  /-- A rotation that is not stale: its read of the transport node ids, and its write. -/
  | readTransportNodeIds (pk : String) (rotation : SigningKeyRotation)
  | cacheRotation (identity : IdentityResponse)
  /-- The profile of an identity response whose delegation was dealt with. -/
  | saveProfile (masterPubkey : String) (profile : Profile)
  deriving DecidableEq, Repr

inductive Event where
  | followResponse (response : FollowResponse)
  /-- The answer to an identity query, of `resolve_peer_identity` or of `NeighborUp`. -/
  | identity (identity : IdentityResponse)
  | followRequest (remote : String) (req : FollowRequest)
  | linkedDevices (pk : String) (a : LinkedDevicesAnnouncement)
  | signingKeyRotation (pk : String) (rotation : SigningKeyRotation)
  /-- An announcement in a sync from `author`. -/
  | deviceAnnouncement (author : String) (a : LinkedDevicesAnnouncement)
  /-- A post on the topic of `sender` or in a push from it, or one in a sync. -/
  | post (sender : Option String) (p : Post)
  | interaction (sender : String) (i : Interaction)
  /-- A post or an interaction of an author the user has muted or blocked, not from a sync. -/
  | hiddenContent
  | deletePost (pk id author signature : String)
  | deleteInteraction (pk id author signature : String)
  | profileUpdate (pk : String) (profile : Profile)
  | pushProfile (remote : String) (msg : PushMessage)
  /-- The profile in the summary of a sync. -/
  | syncProfile (pubkey : String) (profile : Profile)
  deriving DecidableEq, Repr

inductive Action where
  | event (e : Event)
  | task (i : Nat)
  /-- The program is closed and started again. -/
  | restart
  /-- Other statements on the social graph and on the user's own profile and content. -/
  | edit (profiles : List ProfileRow) (socialGraph : List SocialRow) (content : ContentStore)
  deriving DecidableEq, Repr

structure Label where
  action : Action
  now : UInt64
  fails : PeerFails

structure Node where
  store : PeerStore
  tasks : List Task
  deriving DecidableEq, Repr

variable (S : SignatureCrates) (me : String)

/-- The checks of `handle_follow_request`. -/
def checkFollowRequest (req : FollowRequest) : Except String Unit := do
  Except.mapError (fun _ => "invalid delegation") (verifyDelegation S req.delegation)
  if req.delegation.masterPubkey ≠ req.requester then .error "delegation master_pubkey mismatch"
  else
    let signer ← Except.mapError (fun _ => "invalid signing pubkey in delegation")
      (S.parsePublicKey req.delegation.signingPubkey)
    Except.mapError (fun _ => "invalid signature") (verifyFollowRequest S req signer)

def requesterIdentity (remote : String) (req : FollowRequest) : IdentityResponse :=
  ⟨req.requester, req.delegation, [remote], none⟩

def rotatedIdentity (rotation : SigningKeyRotation) (transportNodeIds : List String) :
    IdentityResponse :=
  ⟨rotation.masterPubkey, rotation.newDelegation, transportNodeIds, none⟩

/-- Does a `LinkedDevices` on the topic of `pk` get cached? -/
def acceptsAnnouncement (fails : PeerFails) (pk : String) (a : LinkedDevicesAnnouncement)
    (ps : PeerStore) : Bool :=
  let cachedVersion :=
    (if fails .announcementVersion then none else ps.getPeerAnnouncementVersion pk).getD 0
  decide (a.masterPubkey = pk) && (verifyLinkedDevicesAnnouncement S a).toBool &&
    decide (cachedVersion < a.version)

def acceptsSyncAnnouncement (author : String) (a : LinkedDevicesAnnouncement) : Bool :=
  decide (a.masterPubkey = author) && (verifyLinkedDevicesAnnouncement S a).toBool

/-- Does a `SigningKeyRotation` on the topic of `pk` go on to be cached? Without the cached
delegation it is not compared with anything. -/
def acceptsRotation (fails : PeerFails) (pk : String) (rotation : SigningKeyRotation)
    (st : Storage) : Bool :=
  let stale := match if fails .peerDelegation then none else st.getPeerDelegation pk with
    | some cached => decide (rotation.newKeyIndex ≤ cached.keyIndex)
    | none => false
  decide (rotation.masterPubkey = pk) && (verifyRotation S rotation).toBool && !stale

namespace Node

variable (l : Label)

def cachePeerIdentity (identity : IdentityResponse) (w : Node) : Node :=
  let storage := w.store.storage.attempt l.fails.table .cachePeerIdentity
    (Storage.cachePeerIdentity identity l.now)
  { w with store := { w.store with storage } }

def saveProfile (pubkey : String) (profile : Profile) (w : Node) : Node :=
  let storage := w.store.storage.attempt l.fails.table .saveProfile
    (Storage.saveProfile pubkey profile)
  { w with store := { w.store with storage } }

def setContent (w : Node) (content : ContentStore) : Node :=
  { w with store := { w.store with content } }

def spawn (t : Task) (w : Node) : Node := { w with tasks := w.tasks ++ [t] }

def handle (w : Node) : Event → Node
  | .followResponse (.approved identity) => w.cachePeerIdentity l identity
  | .followResponse .denied | .followResponse .pending => w
  | .identity identity =>
    let w := w.cachePeerIdentity l identity
    match identity.profile with
    | some profile => w.spawn (.saveProfile identity.masterPubkey profile)
    | none => w
  | .followRequest remote req =>
    match checkFollowRequest S req with
    | .ok _ => w.cachePeerIdentity l (requesterIdentity remote req)
    | .error _ => w
  | .linkedDevices pk a =>
    if acceptsAnnouncement S l.fails pk a w.store then w.spawn (.saveAnnouncement pk a) else w
  | .signingKeyRotation pk rotation =>
    if acceptsRotation S l.fails pk rotation w.store.storage then
      w.spawn (.readTransportNodeIds pk rotation)
    else w
  | .deviceAnnouncement author a =>
    if acceptsSyncAnnouncement S author a then w.spawn (.saveAnnouncement author a) else w
  | .post sender p =>
    if ∀ pk ∈ sender, p.author = pk then
      w.setContent (processIncomingPost S l.fails l.now p w.store.storage w.store.content).2
    else w
  | .interaction sender i =>
    w.setContent
      (processIncomingInteraction S l.fails l.now i sender w.store.storage w.store.content)
  | .hiddenContent => w
  | .deletePost pk id author signature =>
    w.setContent (handleDeletePost S l.fails pk id author signature w.store.storage w.store.content)
  | .deleteInteraction pk id author signature =>
    w.setContent
      (handleDeleteInteraction S l.fails pk id author signature w.store.storage w.store.content)
  | .profileUpdate pk profile =>
    let storage := handleProfileUpdate S l.fails.table pk profile w.store.storage
    { w with store := { w.store with storage } }
  | .pushProfile remote msg =>
    let storage := handlePush S me l.fails.table remote msg w.store.storage
    { w with store := { w.store with storage } }
  | .syncProfile pubkey profile => w.saveProfile l pubkey profile

/-- A handler from one await to the next. -/
def runTask (w : Node) : Task → Node × Option Task
  | .saveAnnouncement masterPubkey a =>
    if l.fails .saveAnnouncement then (w, none)
    else ({ w with store := w.store.saveAnnouncement masterPubkey a l.now },
      some (.updateTransportNodeIds masterPubkey a))
  | .updateTransportNodeIds masterPubkey a =>
    if l.fails .updateTransportNodeIds then (w, none)
    else
      let storage := w.store.storage.updateTransportNodeIds masterPubkey (a.devices.map (·.nodeId))
      ({ w with store := { w.store with storage } }, none)
  | .readTransportNodeIds pk rotation =>
    let ids := if l.fails .transportNodeIds then [] else w.store.storage.getPeerTransportNodeIds pk
    (w, some (.cacheRotation (rotatedIdentity rotation ids)))
  | .cacheRotation identity => (w.cachePeerIdentity l identity, none)
  | .saveProfile masterPubkey profile => (w.saveProfile l masterPubkey profile, none)

def advance (w : Node) (i : Nat) (next : Option Task) : Node :=
  { w with tasks := Tasks.advance w.tasks i next }

def step (w : Node) (l : Label) : Option Node :=
  match l.action with
  | .event e => some (w.handle S me l e)
  | .task i => w.tasks[i]?.map fun t =>
    let out := w.runTask l t
    out.1.advance i out.2
  | .restart => some { w with tasks := [] }
  | .edit profiles socialGraph content =>
    let storage := { w.store.storage with profiles, socialGraph }
    some { w with store := { w.store with storage, content } }

end Node
end Proscenium.Client
