import Proscenium.Server.RegistrationAuth
import Proscenium.Server.Watermark
import Proscenium.Lib.Tasks

/-! All that changes whose posts the discovery server has: the endpoints, the
gossip listeners, its own sync and the pruning, and the two queries that give
posts out. What is left of a call after its first statement is a task, and
tasks take their steps in any order. -/

namespace Proscenium.Server

open Proscenium.Types

/-- The statements of `unregister_user` and `handle_visibility_change`. -/
inductive Write where
  | deleteInteractions
  | deletePosts
  | deleteSyncState
  | deactivate
  | setVisibility (visibility : Visibility)
  deriving DecidableEq, Repr

def unregisterUser : List Write := [.deleteInteractions, .deletePosts, .deleteSyncState, .deactivate]

def handleVisibilityChange : Visibility → List Write
  | .isPrivate => unregisterUser
  | .listed => [.deleteInteractions, .deletePosts, .deleteSyncState, .setVisibility .listed]
  | .isPublic => [.setVisibility .isPublic]

/-- A listener of a feed with what it still has to run of the last message, an unregistration, a
subscription that is being made, and a sync before and after its summary. -/
inductive Task where
  | listen (owner : String) (todo : List Write)
  | unregister (pubkey : String) (todo : List Write)
  | subscribe (pubkey : String)
  | connect (pubkey : String)
  | frames (pubkey : String) (lastPost lastInt : Option Int64)
  deriving DecidableEq, Repr

def Task.listensTo (pubkey : String) : Task → Bool
  | .listen owner _ => owner = pubkey
  | _ => false

structure Store where
  registrations : List Registration
  peerDelegations : List PeerDelegation
  posts : List Post
  interactions : List Interaction
  syncState : List SyncRow
  subscriptions : List String
  tasks : List Task
  deriving DecidableEq, Repr

inductive Query where
  | userPosts (pubkey : String) (limit before : Option Int64) (lookupFails : Bool)
  | feed (limit before : Option Int64) (authors : Option String)
  deriving DecidableEq, Repr

/-- `char::is_whitespace`. -/
def isWhitespace (c : Char) : Bool :=
  c.toNat ∈ [0x20, 0x85, 0xA0, 0x1680, 0x2028, 0x2029, 0x202F, 0x205F, 0x3000] ∨
    (0x09 ≤ c.toNat ∧ c.toNat ≤ 0x0D) ∨ (0x2000 ≤ c.toNat ∧ c.toNat ≤ 0x200A)

def trim (text : List Char) : List Char :=
  ((text.dropWhile isWhitespace).reverse.dropWhile isWhitespace).reverse

def splitAuthors (authors : String) : List String :=
  (authors.toList.splitOn ',').map fun author => String.ofList (trim author)

/-- `LIMIT`, which is none if it is negative. -/
def limitRows (limit : Int64) (rows : List Post) : List Post :=
  if limit < 0 then rows else rows.take limit.toInt.toNat

def newestFirst (rows : List Post) : List Post :=
  Timeline.ordered (fun p => OrderDual.toDual p.storedTimestamp) rows

namespace Store

def empty : Store := ⟨[], [], [], [], [], [], []⟩

/-- The tables that the endpoints of `server/src/api/auth.rs` write. -/
def server (s : Store) : ServerState := ⟨⟨s.registrations, s.peerDelegations, [], [], []⟩, s.subscriptions⟩

def withServer (srv : ServerState) (s : Store) : Store :=
  { s with
    registrations := srv.storage.registrations
    peerDelegations := srv.storage.peerDelegations
    subscriptions := srv.subscriptions }

def index (s : Store) : Index where
  registered := s.registrations.map Registration.pubkey
  peerDelegations := s.peerDelegations
  posts := s.posts
  interactions := s.interactions
  syncState := s.syncState

def withIndex (ix : Index) (s : Store) : Store :=
  { s with
    posts := ix.posts
    interactions := ix.interactions
    syncState := ix.syncState }

def advance (i : Nat) (next : Option Task) (s : Store) : Store :=
  { s with tasks := Tasks.advance s.tasks i next }

def getActivePublicPubkeys (s : Store) : List String :=
  (s.registrations.filter fun r => r.isActive = 1 ∧ r.visibility = "public").map Registration.pubkey

section Queries

variable (s : Store)

def getRegistration (pubkey : String) : Option Registration :=
  s.registrations.find? fun r => r.pubkey = pubkey ∧ r.isActive = 1

def getUserPosts (pubkey : String) (limit before : Option Int64) (lookupFails : Bool) : List Post :=
  if !lookupFails && (s.getRegistration pubkey).any (·.visibility = "listed") then []
  else
    limitRows (min (limit.getD 50) 200)
      (newestFirst (s.posts.filter fun p => p.author = pubkey ∧ before.all (p.storedTimestamp < ·)))

def getFeed (limit before : Option Int64) (authors : Option String) : List Post :=
  limitRows (min (limit.getD 50) 200)
    (newestFirst (s.posts.filter fun p =>
      (s.registrations.any fun r => r.pubkey = p.author ∧ r.visibility = "public" ∧ r.isActive = 1) ∧
        (authors.map splitAuthors).all (p.author ∈ ·) ∧ before.all (p.storedTimestamp < ·)))

def serve : Query → List Post
  | .userPosts pubkey limit before lookupFails => s.getUserPosts pubkey limit before lookupFails
  | .feed limit before authors => s.getFeed limit before authors

end Queries

def write (pubkey : String) (s : Store) : Write → Store
  | .deleteInteractions =>
    { s with interactions := Table.deleteWhere (·.author = pubkey) s.interactions }
  | .deletePosts => { s with posts := Table.deleteWhere (·.author = pubkey) s.posts }
  | .deleteSyncState => { s with syncState := Table.deleteWhere (·.pubkey = pubkey) s.syncState }
  | .deactivate =>
    { s with
      registrations := Table.updateWhere (·.pubkey = pubkey) (fun r => { r with isActive := 0 })
        s.registrations }
  | .setVisibility visibility =>
    { s with
      registrations := Table.updateWhere (fun r => r.pubkey = pubkey ∧ r.isActive = 1)
        (fun r => { r with visibility := visibility.toText }) s.registrations }

def subscribe (pubkey : String) (s : Store) : Store :=
  if s.subscriptions.contains pubkey then s else { s with tasks := .subscribe pubkey :: s.tasks }

/-- A listener whose handle was replaced is not found any more, and listens on. -/
def subscribed (pubkey : String) (s : Store) : Store :=
  { s with
    subscriptions := if s.subscriptions.contains pubkey then s.subscriptions else pubkey :: s.subscriptions
    tasks := .listen pubkey [] :: s.tasks }

def unsubscribe (pubkey : String) (s : Store) : Store :=
  if s.subscriptions.contains pubkey then
    { s with
      subscriptions := s.subscriptions.filter (· ≠ pubkey)
      tasks := s.tasks.eraseP (Task.listensTo pubkey) }
  else s

variable (S : SignatureCrates) (config : ServerConfig)

/-- `update_profile`, if the statement runs. -/
def updateProfile (env : Env) (pubkey : String) (profile : Profile) (s : Store) : Store :=
  s.withServer { s.server with storage := (s.server.storage.updateProfile env pubkey profile).2 }

def signedBy (fails : Bool) (verify : PublicKey → Except String Unit) (owner : String) (s : Store) :
    Bool :=
  match resolveSigner S fails owner s.index with
  | some signer => (verify signer).toBool
  | none => true

def acceptsProfile (fails : Bool) (owner : String) (profile : Profile) (s : Store) : Bool :=
  (validateProfile profile).toBool && s.signedBy S fails (verifyProfileSignature S profile) owner

def processRotation (env : Env) (fails : Bool) (owner : String) (rotation : SigningKeyRotation)
    (s : Store) : Store :=
  let cached := if fails then none else Table.find PeerDelegation.masterPubkey owner s.peerDelegations
  if cached.any fun c => rotation.newKeyIndex ≤ c.delegationJson.keyIndex then s
  else
    let s := s.withServer { s.server with
      storage := (s.server.storage.cachePeerDelegation env owner rotation.newSigningPubkey
        rotation.newDelegation none).2 }
    -- the registration is updated by a statement of its own
    match env.fails .updateProfile with
    | some _ => s
    | none =>
      { s with
        registrations := Table.updateWhere (·.pubkey = owner)
          (fun r => { r with delegationJson := some rotation.newDelegation }) s.registrations }

/-- The listener `i` of `owner` takes a message. `ingest` says if the cached key can be read. -/
def processGossipMessage (i : Nat) (owner : String) (env : Env) (ingest : IngestFails) (s : Store) :
    GossipMessage → Store
  | .newPost p =>
    if p.author = owner then s.withIndex (ingestPost S ingest env.nowValidate p s.index) else s
  | .deletePost id author signature =>
    if author = owner then
      s.withIndex (processDeletePost S (ingest .signingPubkey) id author signature s.index)
    else s
  | .profileUpdate profile =>
    if s.acceptsProfile S (ingest .signingPubkey) owner profile ∧ env.fails .updateProfile = none then
      (s.updateProfile env owner profile).advance i
        (some (.listen owner (handleVisibilityChange profile.visibility)))
    else s
  | .newInteraction j =>
    if j.author = owner then s.withIndex (ingestInteraction S ingest env.nowValidate j s.index) else s
  | .deleteInteraction id author signature =>
    if author = owner ∧ s.signedBy S (ingest .signingPubkey)
        (verifyDeleteInteractionSignature S id author signature) owner then
      { s with interactions := Table.deleteWhere (fun j => j.id = id ∧ j.author = author) s.interactions }
    else s
  | .signingKeyRotation rotation =>
    if rotation.masterPubkey = owner ∧ (verifyRotation S rotation).toBool then
      s.processRotation env (ingest .signingPubkey) owner rotation
    else s
  -- the announcement of devices goes to tables that say nothing of posts
  | .linkedDevices _ | .other => s

/-- The summary of a sync: its profile is stored and nothing is removed. -/
def takeSummary (i : Nat) (pubkey : String) (summary : SyncSummary) (env : Env) (s : Store) : Store :=
  let s := match summary.profile with
    | some profile =>
      if (validateProfile profile).toBool then s.updateProfile env pubkey profile else s
    | none => s
  if summary.mode = .upToDate then
    (s.withIndex (s.index.updateSyncState pubkey env.nowCache none none)).advance i none
  else s.advance i (some (.frames pubkey none none))

inductive Label where
  | register (req : RegistrationRequest) (env : Env)
  | updateProfile (req : ProfileUpdateRequest) (env : Env)
  | unregister (req : RegistrationRequest)
  | gossip (i : Nat) (msg : GossipMessage) (env : Env) (ingest : IngestFails)
  | summary (i : Nat) (summary : SyncSummary) (env : Env)
  | post (i : Nat) (p : Post) (fails : IngestFails) (now : UInt64)
  | interaction (i : Nat) (j : Interaction) (fails : IngestFails) (now : UInt64)
  | finish (i : Nat) (now : UInt64)
  | proceed (i : Nat)
  | fail (i : Nat)
  | periodicSync
  | prune (before : Int64)
  | restart (startupSync : Bool) (subscribes : String → Bool)

def register (req : RegistrationRequest) (env : Env) (s : Store) : Store :=
  let out := Server.register S config { env with subscribes := false } req s.server
  let s := s.withServer out.2
  match out.1 with
  | .ok (.created, _) => if req.visibility = .isPublic then s.subscribe req.masterPubkey else s
  | _ => s

def unregister (req : RegistrationRequest) (s : Store) : Store :=
  if req.action = some "unregister" ∧ verifyRegistrationSignature S req = .ok () then
    let s := s.unsubscribe req.masterPubkey
    { s with tasks := .unregister req.masterPubkey unregisterUser :: s.tasks }
  else s

/-- The next statement of a call, or the end of it. -/
def proceed (i : Nat) (s : Store) : Option Store :=
  match s.tasks[i]? with
  | some (.listen owner (next :: todo)) => some ((s.write owner next).advance i (some (.listen owner todo)))
  | some (.unregister pubkey (next :: todo)) =>
    some ((s.write pubkey next).advance i (some (.unregister pubkey todo)))
  | some (.unregister _ []) => some (s.advance i none)
  | some (.subscribe pubkey) => some ((s.advance i none).subscribed pubkey)
  | _ => none

/-- A statement that fails, a connection that breaks, a subscription that is not made. -/
def fail (i : Nat) (s : Store) : Option Store :=
  match s.tasks[i]? with
  | some (.listen owner _) => some (s.advance i (some (.listen owner [])))
  | some _ => some (s.advance i none)
  | none => none

/-- The tables stay; the public users are subscribed to anew. -/
def restart (startupSync : Bool) (subscribes : String → Bool) (s : Store) : Store :=
  let pubkeys := s.getActivePublicPubkeys
  let listening := pubkeys.filter subscribes
  { s with
    subscriptions := listening
    tasks := (listening.map fun pubkey => .listen pubkey []) ++
      if startupSync then pubkeys.map .connect else [] }

def step (s : Store) : Label → Option Store
  | .register req env => some (s.register S config req env)
  | .updateProfile req env => some (s.withServer (Server.updateProfile S env req s.server).2)
  | .unregister req => some (s.unregister S req)
  | .gossip i msg env ingest =>
    match s.tasks[i]? with
    | some (.listen owner []) => some (s.processGossipMessage S i owner env ingest msg)
    | _ => none
  | .summary i summary env =>
    match s.tasks[i]? with
    | some (.connect pubkey) => some (s.takeSummary i pubkey summary env)
    | _ => none
  | .post i p fails now =>
    match s.tasks[i]? with
    | some (.frames pubkey lastPost lastInt) =>
      some ((s.withIndex (ingestPost S fails now p s.index)).advance i
        (some (.frames pubkey (latest lastPost p.storedTimestamp) lastInt)))
    | _ => none
  | .interaction i j fails now =>
    match s.tasks[i]? with
    | some (.frames pubkey lastPost lastInt) =>
      some ((s.withIndex (ingestInteraction S fails now j s.index)).advance i
        (some (.frames pubkey lastPost (latest lastInt j.storedTimestamp))))
    | _ => none
  | .finish i now =>
    match s.tasks[i]? with
    | some (.frames pubkey lastPost lastInt) =>
      some ((s.withIndex (s.index.updateSyncState pubkey now lastPost lastInt)).advance i none)
    | _ => none
  | .proceed i => s.proceed i
  | .fail i => s.fail i
  | .periodicSync => some { s with tasks := s.tasks ++ s.getActivePublicPubkeys.map .connect }
  | .prune before => some (s.withIndex (s.index.pruneOldPosts before))
  | .restart startupSync subscribes => some (s.restart startupSync subscribes)

end Store
end Proscenium.Server
