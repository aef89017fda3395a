import Proscenium.Lib.CursorWalk
import Proscenium.Lib.Refresh
import Proscenium.Types.Signing

/-! The social graph of the client. One table holds the user's own follows and
followers and, for every peer whose lists were looked at, a copy of what that
peer answered; NULLs in the columns tell which of these a row belongs to.
What was asked of which peer and when is kept elsewhere and not followed. -/

namespace Proscenium.Client

open Proscenium.Types

structure SocialGraphRow where
  follower : String
  followee : String
  followedAt : Option Int64
  state : String
  lastChangedAt : Int64
  firstSeen : Option Int64
  lastSeen : Option Int64
  isOnline : Bool
  deriving DecidableEq

def SocialGraphRow.key (r : SocialGraphRow) : String × String := (r.follower, r.followee)

structure SocialGraphEntry where
  pubkey : String
  followedAt : UInt64
  firstSeen : UInt64
  lastSeen : UInt64
  isOnline : Bool
  deriving DecidableEq

structure SocialGraph where
  rows : List SocialGraphRow
  nodup_keys : (rows.map SocialGraphRow.key).Nodup

/-- The list a peer answered its follows with. -/
def remoteFollows (remotePubkey : String) : Table.Filing SocialGraphRow.key SocialGraphEntry where
  stale r := r.follower = remotePubkey ∧ r.followedAt.isSome
  keyOf f := (remotePubkey, f.pubkey)
  row f := ⟨remotePubkey, f.pubkey, some f.followedAt.toInt64, "active", 0, none, none, false⟩
  update f r := { r with followedAt := some f.followedAt.toInt64, state := "active" }
  key_row _ := rfl
  key_update _ _ := rfl

/-- The list a peer answered its followers with. -/
def remoteFollowers (remotePubkey : String) : Table.Filing SocialGraphRow.key SocialGraphEntry where
  stale r := r.followee = remotePubkey ∧ r.firstSeen.isSome
  keyOf f := (f.pubkey, remotePubkey)
  row f := ⟨f.pubkey, remotePubkey, none, "active", 0, some f.firstSeen.toInt64, some 0, false⟩
  update f r := { r with firstSeen := some f.firstSeen.toInt64 }
  key_row _ := rfl
  key_update _ _ := rfl

namespace SocialGraph

theorem nodup_keys_nil : (([] : List SocialGraphRow).map SocialGraphRow.key).Nodup := List.nodup_nil

def empty : SocialGraph := ⟨[], nodup_keys_nil⟩

def row (g : SocialGraph) (follower followee : String) : Option SocialGraphRow :=
  Table.find SocialGraphRow.key (follower, followee) g.rows

def follow (me : String) (entry : SocialGraphEntry) (now : UInt64) (g : SocialGraph) : SocialGraph where
  rows := Table.upsert SocialGraphRow.key (me, entry.pubkey)
    ⟨me, entry.pubkey, some entry.followedAt.toInt64, "active", now.toInt64, none, none, false⟩
    (fun r => { r with
      followedAt := some entry.followedAt.toInt64, state := "active", lastChangedAt := now.toInt64 })
    g.rows
  nodup_keys := Table.nodup_upsert (by rfl) (fun _ => by rfl) g.nodup_keys

def unfollow (me pubkey : String) (now : UInt64) (g : SocialGraph) : SocialGraph where
  rows := Table.updateWhere (fun r => r.follower = me ∧ r.followee = pubkey)
    (fun r => { r with state := "removed", lastChangedAt := now.toInt64 }) g.rows
  nodup_keys := by
    have hkeys : (Table.updateWhere (fun r : SocialGraphRow => r.follower = me ∧ r.followee = pubkey)
        (fun r => { r with state := "removed", lastChangedAt := now.toInt64 }) g.rows).map
          SocialGraphRow.key = g.rows.map SocialGraphRow.key := by
      unfold Table.updateWhere
      rw [List.map_map]
      refine List.map_congr_left fun r _ => ?_
      simp only [Function.comp_apply]
      split <;> rfl
    rw [hkeys]
    exact g.nodup_keys

def upsertFollower (me pubkey : String) (now : UInt64) (g : SocialGraph) : SocialGraph where
  rows := Table.upsert SocialGraphRow.key (pubkey, me)
    ⟨pubkey, me, none, "active", 0, some now.toInt64, some now.toInt64, true⟩
    (fun r => { r with lastSeen := some now.toInt64, isOnline := true }) g.rows
  nodup_keys := Table.nodup_upsert (by rfl) (fun _ => by rfl) g.nodup_keys

/-- The columns that `get_follows` selects. -/
def followColumns (me : String) (g : SocialGraph) : List (String × Option Int64) :=
  (g.rows.filter fun r => r.follower = me ∧ r.state = "active").map fun r => (r.followee, r.followedAt)

def readFollow (columns : String × Option Int64) : SocialGraphEntry :=
  ⟨columns.1, (columns.2.getD 0).toUInt64, 0, 0, false⟩

def followTime (columns : String × Option Int64) : WithBot Int64 := columns.2

def getFollows (me : String) (g : SocialGraph) : List SocialGraphEntry :=
  ((Timeline.stable followTime).sort (g.followColumns me)).map readFollow

def isFollowing (me pubkey : String) (g : SocialGraph) : Bool :=
  g.rows.any fun r => r.follower = me ∧ r.followee = pubkey ∧ r.state = "active"

def isFollower (me pubkey : String) (g : SocialGraph) : Bool :=
  g.rows.any fun r => r.follower = pubkey ∧ r.followee = me

def followerColumns (me : String) (g : SocialGraph) :
    List (String × Option Int64 × Option Int64 × Bool) :=
  (g.rows.filter fun r => r.followee = me ∧ r.firstSeen.isSome).map fun r =>
    (r.follower, r.firstSeen, r.lastSeen, r.isOnline)

def readFollower (columns : String × Option Int64 × Option Int64 × Bool) : SocialGraphEntry :=
  ⟨columns.1, 0, (columns.2.1.getD 0).toUInt64, (columns.2.2.1.getD 0).toUInt64, columns.2.2.2⟩

def followerTime (columns : String × Option Int64 × Option Int64 × Bool) : WithBot Int64 := columns.2.2.1

def getFollowers (me : String) (g : SocialGraph) : List SocialGraphEntry :=
  ((Timeline.stable followerTime).sort (g.followerColumns me)).map readFollower

def isMutual (me pubkey : String) (g : SocialGraph) : Bool :=
  g.isFollower me pubkey && g.isFollowing me pubkey

def cacheRemoteFollows (remotePubkey : String) (follows : List SocialGraphEntry) (g : SocialGraph) :
    SocialGraph :=
  ⟨(remoteFollows remotePubkey).refresh follows g.rows, Table.Filing.nodup_refresh g.nodup_keys⟩

def cacheRemoteFollowers (remotePubkey : String) (followers : List SocialGraphEntry)
    (g : SocialGraph) : SocialGraph :=
  ⟨(remoteFollowers remotePubkey).refresh followers g.rows, Table.Filing.nodup_refresh g.nodup_keys⟩

end SocialGraph
end Proscenium.Client
