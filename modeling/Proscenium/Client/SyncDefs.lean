import Proscenium.Client.ContentDefs
import Proscenium.Types.Sync

/-! The sync of an author's posts and interactions between two clients: the one
that serves (`handle_sync`) decides from the counts it is sent whether to send
what is newer or what is not among the ids, the other one stores what it is
sent. Nothing else writes meanwhile, and every query is answered. -/

namespace Proscenium.Client

open Proscenium.Types

namespace ContentStore

/-- The keys of the two tables, and the unique index on interactions. -/
structure Keyed (c : ContentStore) : Prop where
  posts : c.posts.Pairwise fun p q => ¬ (p.author = q.author ∧ p.id = q.id)
  interactions : c.interactions.Pairwise fun i j => ¬ (i.author = j.author ∧
    (i.id = j.id ∨ i.kind = j.kind ∧ i.targetPostId = j.targetPostId))

def countPostsByAuthor (author : String) (c : ContentStore) : Nat := (c.postsBy author).length

def newestPostTimestamp (author : String) (c : ContentStore) : UInt64 :=
  (Timeline.newest Post.storedTimestamp 0 (c.postsBy author)).toUInt64

def countPostsAfter (author : String) (afterTs : UInt64) (c : ContentStore) : Nat :=
  (Timeline.after Post.storedTimestamp afterTs.toInt64 (c.postsBy author)).length

/-- What `get_posts_after` gives the pages of. -/
def getPostsAfter (author : String) (afterTs : UInt64) (c : ContentStore) : List Post :=
  Timeline.ordered Post.storedTimestamp
    (Timeline.after Post.storedTimestamp afterTs.toInt64 (c.postsBy author))

def getPostsNotIn (author : String) (knownIds : List String) (c : ContentStore) : List Post :=
  if knownIds.isEmpty then Timeline.ordered Post.storedTimestamp (c.postsBy author)
  else Timeline.ordered Post.storedTimestamp ((c.postsBy author).filter (·.id ∉ knownIds))

def getPostIdsByAuthor (author : String) (c : ContentStore) : List String :=
  (Timeline.ordered Post.storedTimestamp (c.postsBy author)).map Post.id

def countInteractionsByAuthor (author : String) (c : ContentStore) : Nat :=
  (c.interactionsBy author).length

def newestInteractionTimestamp (author : String) (c : ContentStore) : UInt64 :=
  (Timeline.newest Interaction.storedTimestamp 0 (c.interactionsBy author)).toUInt64

def countInteractionsAfter (author : String) (afterTs : UInt64) (c : ContentStore) : Nat :=
  (Timeline.after Interaction.storedTimestamp afterTs.toInt64 (c.interactionsBy author)).length

def getInteractionsAfter (author : String) (afterTs : UInt64) (c : ContentStore) :
    List Interaction :=
  Timeline.ordered Interaction.storedTimestamp
    (Timeline.after Interaction.storedTimestamp afterTs.toInt64 (c.interactionsBy author))

def getInteractionsPaged (author : String) (c : ContentStore) : List Interaction :=
  Timeline.ordered Interaction.storedTimestamp (c.interactionsBy author)

end ContentStore

/-- The node that answers, with the master key it is filed under. -/
structure SyncPeer where
  nodeId : String
  storage : Storage
  content : ContentStore
  deriving DecidableEq, Repr

def catchesUp (serverCount count afterCount : Nat) : Bool :=
  serverCount ≥ count ∧ serverCount - count = afterCount

namespace SyncPeer

def admits (remote : String) (peer : SyncPeer) : Bool :=
  let remotePubkey := (peer.storage.getMasterPubkeyForTransport remote).getD remote
  match peer.storage.getVisibility peer.nodeId with
  | .isPublic => true
  | .listed => peer.storage.isFollower peer.nodeId remotePubkey
  | .isPrivate => peer.storage.isMutual peer.nodeId remotePubkey

/-- The profile under the node's own key, as `get_profile` reads it. -/
def profile (peer : SyncPeer) : Option Profile :=
  (peer.storage.profileOf peer.nodeId).map fun r =>
    ⟨r.displayName, r.bio, r.avatarHash, r.avatarTicket, Storage.visibilityOf (some r), r.signature⟩

def postsAfterCount (req : SyncRequest) (peer : SyncPeer) : Nat :=
  if req.newestTimestamp > 0 then peer.content.countPostsAfter req.author req.newestTimestamp
  else peer.content.countPostsByAuthor req.author

def interactionsAfterCount (req : SyncRequest) (peer : SyncPeer) : Nat :=
  if req.newestInteractionTimestamp > 0 then
    peer.content.countInteractionsAfter req.author req.newestInteractionTimestamp
  else peer.content.countInteractionsByAuthor req.author

def interactionsMatch (req : SyncRequest) (peer : SyncPeer) : Bool :=
  req.interactionCount = peer.content.countInteractionsByAuthor req.author

def mode (req : SyncRequest) (peer : SyncPeer) : SyncMode :=
  let serverPostCount := peer.content.countPostsByAuthor req.author
  if req.postCount = serverPostCount ∧ peer.interactionsMatch req then .upToDate
  else if catchesUp serverPostCount req.postCount (peer.postsAfterCount req) then .timestampCatchUp
  else .needIdDiff

def summary (req : SyncRequest) (peer : SyncPeer) : SyncSummary where
  serverPostCount := peer.content.countPostsByAuthor req.author
  serverInteractionCount := peer.content.countInteractionsByAuthor req.author
  postsAfterCount := peer.postsAfterCount req
  interactionsAfterCount := peer.interactionsAfterCount req
  mode := peer.mode req
  profile := peer.profile

def selectPosts (req : SyncRequest) (knownIds : List String) (peer : SyncPeer) : List Post :=
  match peer.mode req with
  | .timestampCatchUp => peer.content.getPostsAfter req.author req.newestTimestamp
  | .needIdDiff => peer.content.getPostsNotIn req.author knownIds
  | .upToDate => []

def selectInteractions (req : SyncRequest) (peer : SyncPeer) : List Interaction :=
  if peer.interactionsMatch req then []
  else if catchesUp (peer.content.countInteractionsByAuthor req.author) req.interactionCount
      (peer.interactionsAfterCount req) then
    peer.content.getInteractionsAfter req.author req.newestInteractionTimestamp
  else peer.content.getInteractionsPaged req.author

/-- The ids the client sent; nothing at all is not JSON. Without an id diff nothing is read. -/
def readKnownIds (J : SerdeJson) (req : SyncRequest) (body : Option (List String))
    (peer : SyncPeer) : Option (List String) :=
  match peer.mode req with
  | .needIdDiff => body.filter fun ids => J.idsLen ids ≤ maxKnownIdsSize
  | _ => some []

/-- The frames up to the end marker; none if the ids are not read. -/
def stream (J : SerdeJson) (req : SyncRequest) (body : Option (List String)) (peer : SyncPeer) :
    List SyncFrame :=
  match peer.readKnownIds J req body with
  | none => []
  | some knownIds =>
    (Timeline.batches batchSize (peer.selectPosts req knownIds) 0).map SyncFrame.posts ++
      (Timeline.batches batchSize (peer.selectInteractions req) 0).map SyncFrame.interactions

def handleSync (J : SerdeJson) (remote : String) (req : SyncRequest) (peer : SyncPeer) :
    Option (SyncSummary × (Option (List String) → List SyncFrame)) :=
  if peer.admits remote then some (peer.summary req, fun body => peer.stream J req body) else none

end SyncPeer

structure SyncResult where
  posts : List Post
  interactions : List Interaction
  profile : Option Profile
  remotePostCount : Nat
  mode : SyncMode
  deriving DecidableEq, Repr

/-- The frames that are read before the stream ends: at its end marker, at a frame that is too
large, or at a header of zero. A frame whose header is cut does not parse, and the sync fails. -/
def readFrames (J : SerdeJson) : List SyncFrame → Option (List SyncFrame)
  | [] => some []
  | frame :: frames =>
    if J.header frame = 0 ∨ maxFrameSize < J.header frame then some []
    else if J.header frame = J.frameLen frame then (readFrames J frames).map (frame :: ·)
    else none

def syncRequest (author : String) (c : ContentStore) : SyncRequest where
  author := author
  postCount := c.countPostsByAuthor author
  interactionCount := c.countInteractionsByAuthor author
  newestTimestamp := c.newestPostTimestamp author
  newestInteractionTimestamp := c.newestInteractionTimestamp author

def sentIds (mode : SyncMode) (author : String) (c : ContentStore) : Option (List String) :=
  if mode = .needIdDiff then some (c.getPostIdsByAuthor author) else none

def syncFromPeer (J : SerdeJson) (peer : SyncPeer) (remote author : String) (c : ContentStore) :
    Option SyncResult :=
  match peer.handleSync J remote (syncRequest author c) with
  | none => none
  | some (summary, stream) =>
    if maxSummarySize < J.summaryLen summary then none
    else if summary.mode = .upToDate then
      some ⟨[], [], summary.profile, summary.serverPostCount, .upToDate⟩
    else
      (readFrames J (stream (sentIds summary.mode author c))).map fun frames =>
        ⟨frames.flatMap SyncFrame.posts?, frames.flatMap SyncFrame.interactions?, summary.profile,
          summary.serverPostCount, summary.mode⟩

/-- What is stored of a sync result. -/
def processSynced (S : SignatureCrates) (fails : PeerFails) (now : UInt64) (pubkey : String)
    (result : SyncResult) (st : Storage) (c : ContentStore) : Storage × ContentStore :=
  let c := result.posts.foldl (fun c p => (processIncomingPost S fails now p st c).2) c
  let st := processSyncResult fails.table pubkey result.profile st
  (st, result.interactions.foldl
    (fun c i => processIncomingInteraction S fails now i pubkey st c) c)

end Proscenium.Client
