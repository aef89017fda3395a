import Proscenium.Client.ModerationDefs
import Proscenium.Client.SocialDefs
import Proscenium.Client.SyncDefs
import Proscenium.Lib.Lww

/-! What two devices of a user send each other once each has shown that it holds
the signing key: the posts and interactions that are newer than the other's
newest one, and the follows, mutes, blocks and bookmarks that the other's vector
lacks. Every statement succeeds and every frame is read; ratchet sessions travel
the same way and are not followed here. -/

namespace Proscenium.DeviceSync

open Proscenium.Types Client

structure FollowEntry where
  pubkey : String
  followedAt : UInt64
  state : String
  lastChangedAt : UInt64
  deriving DecidableEq, Repr

structure ModerationEntry where
  pubkey : String
  kind : String
  createdAt : UInt64
  state : String
  lastChangedAt : UInt64
  deriving DecidableEq, Repr

structure Bookmark where
  postId : String
  createdAt : Int64
  deriving DecidableEq, Repr

/-- The tables of a device that its other devices get a part of. -/
structure OwnStore where
  content : ContentStore
  graph : SocialGraph
  moderation : Moderation
  bookmarks : List Bookmark

structure DeviceSyncVector where
  postCount : Nat
  newestPostTs : UInt64
  interactionCount : Nat
  newestInteractionTs : UInt64
  follows : List FollowEntry
  moderation : List ModerationEntry
  bookmarks : List String
  deriving DecidableEq, Repr

inductive DeviceSyncFrame where
  | posts (posts : List Post)
  | interactions (interactions : List Interaction)
  | follows (entries : List FollowEntry)
  | moderation (entries : List ModerationEntry)
  | bookmarks (ids : List String)
  deriving DecidableEq, Repr

namespace DeviceSyncFrame

def posts? : DeviceSyncFrame → List Post
  | .posts ps => ps
  | _ => []

def interactions? : DeviceSyncFrame → List Interaction
  | .interactions is => is
  | _ => []

def follows? : DeviceSyncFrame → List FollowEntry
  | .follows entries => entries
  | _ => []

def moderation? : DeviceSyncFrame → List ModerationEntry
  | .moderation entries => entries
  | _ => []

def bookmarks? : DeviceSyncFrame → List String
  | .bookmarks ids => ids
  | _ => []

end DeviceSyncFrame

/-- Own follows travel; a row whose `followed_at` is NULL is not selected. -/
def followWire (me : String) : Lww.Wire SocialGraphRow.key FollowEntry Nat where
  keyOf e := (me, e.pubkey)
  stampOf e := e.lastChangedAt.toNat
  stamp r := r.lastChangedAt.toUInt64.toNat
  entry r :=
    if r.follower = me then
      r.followedAt.map fun t => ⟨r.followee, t.toUInt64, r.state, r.lastChangedAt.toUInt64⟩
    else none
  row e := ⟨me, e.pubkey, some e.followedAt.toInt64, e.state, e.lastChangedAt.toInt64, none, none, false⟩
  update e r := { r with
    followedAt := some e.followedAt.toInt64
    state := e.state
    lastChangedAt := e.lastChangedAt.toInt64 }
  key_row _ := rfl
  key_update _ _ := rfl
  keyOf_entry r e h := by
    obtain ⟨hme, h⟩ := Option.ite_none_right_eq_some.mp h
    obtain ⟨t, -, rfl⟩ := Option.map_eq_some_iff.mp h
    exact congrArg (·, r.followee) hme.symm
  stampOf_entry r e h := by
    obtain ⟨-, h⟩ := Option.ite_none_right_eq_some.mp h
    obtain ⟨t, -, rfl⟩ := Option.map_eq_some_iff.mp h
    rfl

def moderationWire : Lww.Wire ModerationRow.key ModerationEntry Nat where
  keyOf e := (e.pubkey, e.kind)
  stampOf e := e.lastChangedAt.toNat
  stamp r := r.lastChangedAt.toUInt64.toNat
  entry r := some ⟨r.pubkey, r.kind, r.createdAt.toUInt64, r.state, r.lastChangedAt.toUInt64⟩
  row e := ⟨e.pubkey, e.kind, e.createdAt.toInt64, e.state, e.lastChangedAt.toInt64⟩
  update e r := { r with
    createdAt := e.createdAt.toInt64
    state := e.state
    lastChangedAt := e.lastChangedAt.toInt64 }
  key_row _ := rfl
  key_update _ _ := rfl
  keyOf_entry r e h := by
    obtain rfl := Option.some.inj h
    rfl
  stampOf_entry r e h := by
    obtain rfl := Option.some.inj h
    rfl

def mergeFollowsLww (me : String) (entries : List FollowEntry) (g : SocialGraph) : SocialGraph :=
  ⟨(followWire me).merge entries g.rows, Lww.Wire.nodup_merge entries g.nodup_keys⟩

def mergeModerationLww (entries : List ModerationEntry) (m : Moderation) : Moderation :=
  ⟨moderationWire.merge entries m.rows, Lww.Wire.nodup_merge entries m.nodup_keys⟩

def mergeBookmarks (now : UInt64) (postIds : List String) (bookmarks : List Bookmark) : List Bookmark :=
  postIds.foldl (fun t id =>
    if t.any (·.postId = id) then t else t ++ [⟨id, now.toInt64⟩]) bookmarks

namespace OwnStore

def buildDeviceSyncVector (masterPubkey : String) (st : OwnStore) : DeviceSyncVector where
  postCount := st.content.countPostsByAuthor masterPubkey
  newestPostTs := st.content.newestPostTimestamp masterPubkey
  interactionCount := st.content.countInteractionsByAuthor masterPubkey
  newestInteractionTs := st.content.newestInteractionTimestamp masterPubkey
  follows := (followWire masterPubkey).vector st.graph.rows
  moderation := moderationWire.vector st.moderation.rows
  bookmarks := st.bookmarks.map Bookmark.postId

end OwnStore

def u64Max : UInt64 := 18446744073709551615

/-- The time from which on a peer gets items; a peer that has some, of which none is dated, gets
none. -/
def afterTs (newest : UInt64) (count : Nat) : UInt64 := if newest > 0 ∨ count = 0 then newest else u64Max

variable (masterPubkey : String)

def postDeltas (c : ContentStore) (peer : DeviceSyncVector) : List Post :=
  let ts := afterTs peer.newestPostTs peer.postCount
  if ts < u64Max then c.getPostsAfter masterPubkey ts else []

def interactionDeltas (c : ContentStore) (peer : DeviceSyncVector) : List Interaction :=
  let ts := afterTs peer.newestInteractionTs peer.interactionCount
  if ts < u64Max then
    if ts > 0 then c.getInteractionsAfter masterPubkey ts else c.getInteractionsPaged masterPubkey
  else []

def frameOf {α : Type} (frame : List α → DeviceSyncFrame) (items : List α) : List DeviceSyncFrame :=
  if items.isEmpty then [] else [frame items]

theorem flatMap_nothing {α β : Type} (l : List α) : l.flatMap (fun _ => ([] : List β)) = [] :=
  List.flatMap_eq_nil_iff.mpr fun _ _ => rfl

theorem flatMap_frameOf {α β : Type} {frame : List α → DeviceSyncFrame} {f : DeviceSyncFrame → List β}
    (hframe : ∀ items, f (frame items) = []) (items : List α) : (frameOf frame items).flatMap f = [] := by
  unfold frameOf
  split
  · rfl
  · rw [List.flatMap_singleton, hframe]

theorem flatMap_frameOf_self {α : Type} {frame : List α → DeviceSyncFrame}
    {f : DeviceSyncFrame → List α} (hframe : ∀ items, f (frame items) = items) (items : List α) :
    (frameOf frame items).flatMap f = items := by
  unfold frameOf
  split
  next hempty => exact (List.isEmpty_iff.mp hempty).symm
  next => rw [List.flatMap_singleton, hframe]

def sendDeltas (c : ContentStore) (ours peer : DeviceSyncVector) : List DeviceSyncFrame :=
  (Timeline.batches batchSize (postDeltas masterPubkey c peer) 0).map DeviceSyncFrame.posts ++
    (Timeline.batches batchSize (interactionDeltas masterPubkey c peer) 0).map
      DeviceSyncFrame.interactions ++
    frameOf .follows ((followWire masterPubkey).deltas ours.follows peer.follows) ++
    frameOf .moderation (moderationWire.deltas ours.moderation peer.moderation) ++
    frameOf .bookmarks (ours.bookmarks.filter (· ∉ peer.bookmarks))

def importFrame (now : UInt64) (st : OwnStore) : DeviceSyncFrame → OwnStore
  | .posts ps =>
    { st with
      content := ps.foldl (fun c p => if p.author = masterPubkey then c.insertPost p else c) st.content }
  | .interactions is =>
    { st with
      content := is.foldl (fun c i => if i.author = masterPubkey then c.saveInteraction i else c)
        st.content }
  | .follows entries => { st with graph := mergeFollowsLww masterPubkey entries st.graph }
  | .moderation entries => { st with moderation := mergeModerationLww entries st.moderation }
  | .bookmarks ids => { st with bookmarks := mergeBookmarks now ids st.bookmarks }

def importDeltas (now : UInt64) (frames : List DeviceSyncFrame) (st : OwnStore) : OwnStore :=
  frames.foldl (importFrame masterPubkey now) st

/-- A complete session: the vectors are built first, the responder sends before the initiator, and
the initiator reads its items after it has stored the responder's. -/
def deviceSync (now : UInt64) (initiator responder : OwnStore) : OwnStore × OwnStore :=
  let initiatorVector := initiator.buildDeviceSyncVector masterPubkey
  let responderVector := responder.buildDeviceSyncVector masterPubkey
  let initiator' := importDeltas masterPubkey now
    (sendDeltas masterPubkey responder.content responderVector initiatorVector) initiator
  let responder' := importDeltas masterPubkey now
    (sendDeltas masterPubkey initiator'.content initiatorVector responderVector) responder
  (initiator', responder')

end Proscenium.DeviceSync
