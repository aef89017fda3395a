import Proscenium.Client.SyncStreaming
import Proscenium.DeviceSync.ChallengeDefs
import Proscenium.DeviceSync.DeltaDefs
import Proscenium.Types.SyncSize

/-! The tables of a device that end up in what it sends to others and to the
user's other devices, with the statements that write them, and the response to
a device sync, which holds all of the user's follows, mutes, blocks and
bookmarks at once. Posts and interactions are checked before they are stored;
nothing bounds how many rows there are. -/

namespace Proscenium.DeviceSync

open Proscenium.Types Client
open Machine

structure RatchetRow where
  peerPubkey : String
  updatedAt : Int64
  deriving DecidableEq, Repr

structure DmRow where
  id : String
  timestamp : Int64
  deriving DecidableEq, Repr

structure DeviceStore extends OwnStore where
  ratchetSessions : List RatchetRow
  dmMessages : List DmRow

structure RatchetSyncEntry where
  peerPubkey : String
  updatedAt : UInt64
  deriving DecidableEq, Repr

structure ResponseVector extends DeviceSyncVector where
  ratchetSummaries : List RatchetSyncEntry
  dmNewestTs : UInt64
  deriving DecidableEq, Repr

def maxResponseSize : Nat := 1000000

section Texts

def followText (e : FollowEntry) : List Char :=
  objectText [("pubkey", Json.quote e.pubkey), ("followed_at", numText e.followedAt.toNat),
    ("state", Json.quote e.state), ("last_changed_at", numText e.lastChangedAt.toNat)]

def moderationText (e : ModerationEntry) : List Char :=
  objectText [("pubkey", Json.quote e.pubkey), ("kind", Json.quote e.kind),
    ("created_at", numText e.createdAt.toNat), ("state", Json.quote e.state),
    ("last_changed_at", numText e.lastChangedAt.toNat)]

def ratchetText (e : RatchetSyncEntry) : List Char :=
  objectText [("peer_pubkey", Json.quote e.peerPubkey), ("updated_at", numText e.updatedAt.toNat)]

def vectorText (v : ResponseVector) : List Char :=
  objectText [("post_count", numText v.postCount), ("newest_post_ts", numText v.newestPostTs.toNat),
    ("interaction_count", numText v.interactionCount),
    ("newest_interaction_ts", numText v.newestInteractionTs.toNat),
    ("follows", arrayText (v.follows.map followText)),
    ("moderation", arrayText (v.moderation.map moderationText)),
    ("bookmarks", arrayText (v.bookmarks.map Json.quote)),
    ("ratchet_summaries", arrayText (v.ratchetSummaries.map ratchetText)),
    ("dm_newest_ts", numText v.dmNewestTs.toNat)]

def deviceSyncAcceptedText (challengeResponse : String) (v : ResponseVector) : List Char :=
  objectText [("DeviceSyncAccepted", objectText [("challenge_response", Json.quote challengeResponse),
    ("vector", vectorText v)])]

end Texts

namespace DeviceStore

def empty : DeviceStore := ⟨⟨⟨[], []⟩, SocialGraph.empty, Moderation.empty, []⟩, [], []⟩

def buildDeviceSyncVector (masterPubkey : String) (st : DeviceStore) : ResponseVector :=
  ⟨st.toOwnStore.buildDeviceSyncVector masterPubkey,
    st.ratchetSessions.map fun r => ⟨r.peerPubkey, r.updatedAt.toUInt64⟩,
    (Timeline.newest DmRow.timestamp 0 st.dmMessages).toUInt64⟩

/-- What `handle_device_sync` writes once the challenge is verified. -/
def response (sign : Bytes → Signature) (challenge : Bytes) (masterPubkey : String) (st : DeviceStore) : List Char :=
  deviceSyncAcceptedText
    (signDeviceSyncChallenge (fun bytes => hexEncode (sign bytes).toList) challenge)
    (st.buildDeviceSyncVector masterPubkey)

def toggleBookmark (postId : String) (now : UInt64) (st : DeviceStore) : DeviceStore :=
  if st.bookmarks.any (·.postId = postId) then
    { st with bookmarks := Table.deleteWhere (·.postId = postId) st.bookmarks }
  else { st with bookmarks := st.bookmarks ++ [(⟨postId, now.toInt64⟩ : Bookmark)] }

def saveRatchetSession (peerPubkey : String) (updatedAt : UInt64) (st : DeviceStore) : DeviceStore :=
  { st with
    ratchetSessions := Table.upsert RatchetRow.peerPubkey peerPubkey ⟨peerPubkey, updatedAt.toInt64⟩
      (fun r => { r with updatedAt := updatedAt.toInt64 }) st.ratchetSessions }

def mergeRatchetSession (peerPubkey : String) (updatedAt : UInt64) (st : DeviceStore) : DeviceStore :=
  if (Table.find RatchetRow.peerPubkey peerPubkey st.ratchetSessions).all (·.updatedAt < updatedAt.toInt64) then
    st.saveRatchetSession peerPubkey updatedAt
  else st

inductive Write where
  | insertPost (now : UInt64) (p : Post)
  | deletePost (id : String)
  | deletePostsByAuthor (author : String)
  | saveInteraction (now : UInt64) (i : Interaction)
  | deleteInteraction (id author : String)
  | follow (me : String) (entry : SocialGraphEntry) (now : UInt64)
  | unfollow (me pubkey : String) (now : UInt64)
  | upsertFollower (me pubkey : String) (now : UInt64)
  | cacheRemoteFollows (remotePubkey : String) (follows : List SocialGraphEntry)
  | cacheRemoteFollowers (remotePubkey : String) (followers : List SocialGraphEntry)
  | muteUser (pubkey : String) (now : UInt64)
  | unmuteUser (pubkey : String) (now : UInt64)
  | blockUser (pubkey : String) (now : UInt64)
  | unblockUser (pubkey : String) (now : UInt64)
  | toggleBookmark (postId : String) (now : UInt64)
  | saveRatchetSession (peerPubkey : String) (updatedAt : UInt64)
  | mergeRatchetSession (peerPubkey : String) (updatedAt : UInt64)
  | insertDmMessage (id : String) (timestamp : UInt64)
  | deleteDmMessage (id : String)
  | importFrame (masterPubkey : String) (now : UInt64) (frame : DeviceSyncFrame)
  | wipeAllData

/-- Content is legal where it is stored; what another device sends was checked there. -/
def Write.legal : Write → Bool
  | .insertPost now p => (validatePost now p).toBool
  | .saveInteraction now i => (validateInteraction now i).toBool
  | .importFrame _ now frame =>
    frame.posts?.all (fun p => (validatePost now p).toBool) &&
      frame.interactions?.all fun i => (validateInteraction now i).toBool
  | _ => true

def Write.apply (st : DeviceStore) : Write → DeviceStore
  | .insertPost _ p => { st with content := st.content.insertPost p }
  | .deletePost id => { st with content := st.content.deletePost id }
  | .deletePostsByAuthor author => { st with content := st.content.deletePostsByAuthor author }
  | .saveInteraction _ i => { st with content := st.content.saveInteraction i }
  | .deleteInteraction id author => { st with content := st.content.deleteInteraction id author }
  | .follow me entry now => { st with graph := st.graph.follow me entry now }
  | .unfollow me pubkey now => { st with graph := st.graph.unfollow me pubkey now }
  | .upsertFollower me pubkey now => { st with graph := st.graph.upsertFollower me pubkey now }
  | .cacheRemoteFollows remotePubkey follows =>
    { st with graph := st.graph.cacheRemoteFollows remotePubkey follows }
  | .cacheRemoteFollowers remotePubkey followers =>
    { st with graph := st.graph.cacheRemoteFollowers remotePubkey followers }
  | .muteUser pubkey now => { st with moderation := st.moderation.muteUser pubkey now }
  | .unmuteUser pubkey now => { st with moderation := st.moderation.unmuteUser pubkey now }
  | .blockUser pubkey now => { st with moderation := st.moderation.blockUser pubkey now }
  | .unblockUser pubkey now => { st with moderation := st.moderation.unblockUser pubkey now }
  | .toggleBookmark postId now => st.toggleBookmark postId now
  | .saveRatchetSession peerPubkey updatedAt => st.saveRatchetSession peerPubkey updatedAt
  | .mergeRatchetSession peerPubkey updatedAt => st.mergeRatchetSession peerPubkey updatedAt
  | .insertDmMessage id timestamp =>
    { st with dmMessages := Table.insertOrIgnore (·.id = id) ⟨id, timestamp.toInt64⟩ st.dmMessages }
  | .deleteDmMessage id => { st with dmMessages := Table.deleteWhere (·.id = id) st.dmMessages }
  | .importFrame masterPubkey now frame =>
    { st with toOwnStore := DeviceSync.importFrame masterPubkey now st.toOwnStore frame }
  | .wipeAllData => empty

def step (st : DeviceStore) (w : Write) : Option DeviceStore := if w.legal then some (w.apply st) else none

end DeviceStore
end Proscenium.DeviceSync
