import Proscenium.Client.SyncCatchUp
import Proscenium.DeviceSync.SizeDefs

/-! Do the messages of a sync fit in what the other side reads? The reader
counts bytes, while the writer counts posts, or nothing at all. What a store may
hold for all of them to fit is told from the sizes of what is in it. -/

namespace Proscenium.DeviceSync

open Proscenium.Types Client
open Machine

def followSize (e : FollowEntry) : Nat :=
  54 + (stringSize e.pubkey + numSize e.followedAt.toNat + stringSize e.state + numSize e.lastChangedAt.toNat)

def moderationSize (e : ModerationEntry) : Nat :=
  61 + (stringSize e.pubkey + stringSize e.kind + numSize e.createdAt.toNat + stringSize e.state +
    numSize e.lastChangedAt.toNat)

def ratchetSize (e : RatchetSyncEntry) : Nat := 30 + (stringSize e.peerPubkey + numSize e.updatedAt.toNat)

section Texts

end Texts

namespace DeviceStore

/-- What the response to a device sync takes, from the tables it is read from. -/
def responseSize (masterPubkey : String) (st : DeviceStore) : Nat :=
  340 + (numSize (st.content.countPostsByAuthor masterPubkey) +
    numSize (st.content.newestPostTimestamp masterPubkey).toNat +
    numSize (st.content.countInteractionsByAuthor masterPubkey) +
    numSize (st.content.newestInteractionTimestamp masterPubkey).toNat +
    listSize ((st.graph.rows.filterMap (followWire masterPubkey).entry).map followSize) +
    listSize ((st.moderation.rows.filterMap moderationWire.entry).map moderationSize) +
    listSize (st.bookmarks.map fun b => stringSize b.postId) +
    listSize (st.ratchetSessions.map fun r => ratchetSize ⟨r.peerPubkey, r.updatedAt.toUInt64⟩) +
    numSize (Timeline.newest DmRow.timestamp 0 st.dmMessages).toUInt64.toNat)

/-- Any posts of an author that may come into one batch, all ids of an author, and all rows that
go into a vector stay below the limits once they are escaped. -/
structure WithinLimits (st : DeviceStore) : Prop where
  posts : ∀ (author : String) (ps : List Post), ps.Sublist (st.content.postsBy author) → ps.length ≤ batchSize →
    10 + listSize (ps.map postSize) ≤ maxFrameSize
  knownIds : ∀ author : String, listSize ((st.content.postsBy author).map fun p => stringSize p.id) ≤ maxKnownIdsSize
  vector : ∀ masterPubkey : String, st.responseSize masterPubkey ≤ maxResponseSize

section Limits

variable {st : DeviceStore} {author : String}

end Limits

section Runs

/-- A write that is allowed leaves the store within the limits. -/
def Keeps (st : DeviceStore) (w : Write) : Prop := w.legal → (w.apply st).WithinLimits

end Runs
end DeviceStore
end Proscenium.DeviceSync
