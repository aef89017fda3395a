import Proscenium.Client.ModerationDefs
import Proscenium.Client.SocialIsolation
import Proscenium.Client.SyncAudience

/-! Those the owner's new content is pushed to, and those who are let in to ask
for it. Pushes go by the lists of followers and follows and know of no blocks;
a connection is refused by its block check, and a sync by the visibility. -/

namespace Proscenium.Client

open Proscenium.Types

structure AudienceNode where
  nodeId : String
  profiles : List ProfileRow
  peerDelegations : List PeerIdentityRow
  social : SocialGraph
  moderation : Moderation

namespace SocialGraph

def toSocialRows (g : SocialGraph) : List SocialRow :=
  g.rows.map fun r => ⟨r.follower, r.followee, r.state, r.firstSeen.map Int64.toUInt64⟩

variable {g : SocialGraph} {me : String}

def SeenFollower (me pubkey : String) (g : SocialGraph) : Prop := ∃ r, g.row pubkey me = some r ∧ r.firstSeen.isSome

def ActiveFollow (me pubkey : String) (g : SocialGraph) : Prop := ∃ r, g.row me pubkey = some r ∧ r.state = "active"

theorem mem_getFollowers {x : String} :
    x ∈ (g.getFollowers me).map SocialGraphEntry.pubkey ↔ g.SeenFollower me x :=
  followersAnswer_getFollowers.mem_iff

theorem mem_getFollows {x : String} : x ∈ (g.getFollows me).map SocialGraphEntry.pubkey ↔ g.ActiveFollow me x :=
  followsAnswer_getFollows.mem_iff

theorem perm_getFollowers (profiles : List ProfileRow) (peerDelegations : List PeerIdentityRow) :
    ((g.getFollowers me).map SocialGraphEntry.pubkey).Perm
      (Storage.getFollowers me ⟨profiles, peerDelegations, g.toSocialRows⟩) := by
  have hcolumns : Storage.getFollowers me ⟨profiles, peerDelegations, g.toSocialRows⟩ =
      (g.followerColumns me).map Prod.fst := by
    simp [Storage.getFollowers, toSocialRows, followerColumns, List.filter_map, Function.comp_def]
  rw [hcolumns]
  unfold getFollowers
  rw [List.map_map]
  exact ((Timeline.stable followerTime).perm _).map _

theorem perm_getFollows (profiles : List ProfileRow) (peerDelegations : List PeerIdentityRow) :
    ((g.getFollows me).map SocialGraphEntry.pubkey).Perm
      (Storage.getFollows me ⟨profiles, peerDelegations, g.toSocialRows⟩) := by
  have hcolumns : Storage.getFollows me ⟨profiles, peerDelegations, g.toSocialRows⟩ =
      (g.followColumns me).map Prod.fst := by
    simp [Storage.getFollows, toSocialRows, followColumns, List.filter_map, Function.comp_def]
  rw [hcolumns]
  unfold getFollows
  rw [List.map_map]
  exact ((Timeline.stable followTime).perm _).map _

end SocialGraph

namespace AudienceNode

def syncPeer (n : AudienceNode) : SyncPeer :=
  ⟨n.nodeId, ⟨n.profiles, n.peerDelegations, n.social.toSocialRows⟩, ⟨[], []⟩⟩

def visibility (n : AudienceNode) : Visibility := n.syncPeer.storage.getVisibility n.nodeId

def pushRecipients (n : AudienceNode) : List String :=
  let followers := (n.social.getFollowers n.nodeId).map SocialGraphEntry.pubkey
  match n.visibility with
  | .isPublic => []
  | .listed => followers
  | .isPrivate => followers.filter (· ∈ (n.social.getFollows n.nodeId).map SocialGraphEntry.pubkey)

def getPeerTransportNodeIds (masterPubkey : String) (n : AudienceNode) : List String :=
  ((Table.find PeerIdentityRow.masterPubkey masterPubkey n.peerDelegations).map
    PeerIdentityRow.transportNodeIds).getD []

def acceptsConnection (remote : String) (n : AudienceNode) : Bool :=
  !n.moderation.isBlocked (n.syncPeer.viewer remote)

/-- Whoever is pushed to may ask for the same, from any node it is known under, and is not blocked. -/
def OneAudience (n : AudienceNode) : Prop :=
  ∀ pubkey ∈ n.pushRecipients, n.moderation.isBlocked pubkey = false ∧
    ∀ remote ∈ n.getPeerTransportNodeIds pubkey,
      n.acceptsConnection remote = true ∧ n.syncPeer.admits remote = true

/-- The followers that the visibility lets see the owner's content, by the rows about them. -/
def Audience (pubkey : String) (n : AudienceNode) : Prop :=
  match n.visibility with
  | .isPublic => False
  | .listed => n.social.SeenFollower n.nodeId pubkey
  | .isPrivate => n.social.SeenFollower n.nodeId pubkey ∧ n.social.ActiveFollow n.nodeId pubkey

/-- Nobody of the audience is blocked, and a node id that is taken for another key than the one it
is filed under is taken for one that is let in. -/
def Vetted (n : AudienceNode) : Prop :=
  ∀ pubkey, n.Audience pubkey → n.moderation.isBlocked pubkey = false ∧
    ∀ remote ∈ n.getPeerTransportNodeIds pubkey, ∀ other,
      n.syncPeer.storage.getMasterPubkeyForTransport remote = some other → other ≠ pubkey →
        n.moderation.isBlocked other = false ∧
          n.syncPeer.storage.entitled n.nodeId other = true

variable {n : AudienceNode} {pubkey remote : String}

theorem mem_pushRecipients_iff : pubkey ∈ n.pushRecipients ↔ n.Audience pubkey := by
  unfold pushRecipients Audience
  cases n.visibility with
  | isPublic => exact iff_of_false List.not_mem_nil id
  | listed => exact SocialGraph.mem_getFollowers
  | isPrivate =>
    show pubkey ∈ List.filter _ _ ↔ _
    rw [List.mem_filter, decide_eq_true_eq, SocialGraph.mem_getFollowers, SocialGraph.mem_getFollows]

theorem isFollower_of_seen (h : n.social.SeenFollower n.nodeId pubkey) :
    n.syncPeer.storage.isFollower n.nodeId pubkey = true := by
  obtain ⟨r, hr, -⟩ := h
  obtain ⟨hr, hfollower, hfollowee⟩ := SocialGraph.row_eq_some_iff.mp hr
  refine List.any_eq_true.mpr ⟨_, List.mem_map.mpr ⟨r, hr, rfl⟩, ?_⟩
  exact decide_eq_true ⟨hfollower, hfollowee⟩

theorem isFollowing_of_active (h : n.social.ActiveFollow n.nodeId pubkey) :
    n.syncPeer.storage.isFollowing n.nodeId pubkey = true := by
  obtain ⟨r, hr, hstate⟩ := h
  obtain ⟨hr, hfollower, hfollowee⟩ := SocialGraph.row_eq_some_iff.mp hr
  refine List.any_eq_true.mpr ⟨_, List.mem_map.mpr ⟨r, hr, rfl⟩, ?_⟩
  exact decide_eq_true ⟨hfollower, hfollowee, hstate⟩

theorem entitled_of_audience (h : n.Audience pubkey) :
    n.syncPeer.storage.entitled n.nodeId pubkey = true := by
  unfold Audience visibility at h
  unfold Storage.entitled
  cases hvis : n.syncPeer.storage.getVisibility n.nodeId with
  | isPublic => rfl
  | listed =>
    rw [hvis] at h
    exact isFollower_of_seen h
  | isPrivate =>
    rw [hvis] at h
    have hmutual : n.syncPeer.storage.isMutual n.nodeId pubkey = true := by
      unfold Storage.isMutual
      rw [isFollower_of_seen h.1, isFollowing_of_active h.2]
      rfl
    exact hmutual

theorem exists_master_of_filed (h : remote ∈ n.getPeerTransportNodeIds pubkey) :
    ∃ other, n.syncPeer.storage.getMasterPubkeyForTransport remote = some other := by
  unfold getPeerTransportNodeIds at h
  cases hrow : Table.find PeerIdentityRow.masterPubkey pubkey n.peerDelegations with
  | none =>
    rw [hrow] at h
    exact nomatch h
  | some row =>
    rw [hrow] at h
    have hsome : (n.peerDelegations.find? fun r => remote ∈ r.transportNodeIds).isSome = true := by
      rw [List.find?_isSome]
      exact ⟨row, List.mem_of_find?_eq_some hrow, decide_eq_true h⟩
    obtain ⟨r, hr⟩ := Option.isSome_iff_exists.mp hsome
    exact ⟨r.masterPubkey, congrArg (Option.map PeerIdentityRow.masterPubkey) hr⟩

theorem checks_of_master {other : String}
    (h : n.syncPeer.storage.getMasterPubkeyForTransport remote = some other) :
    (n.acceptsConnection remote = true ∧ n.syncPeer.admits remote = true) ↔
      n.moderation.isBlocked other = false ∧ n.syncPeer.storage.entitled n.nodeId other = true := by
  have hviewer : n.syncPeer.viewer remote = other := by
    unfold SyncPeer.viewer
    rw [h]
    rfl
  unfold acceptsConnection
  rw [SyncPeer.admits_eq, hviewer, Bool.not_eq_true']
  rfl

/-- Pushes and syncs serve one audience exactly if no follower who would be pushed to is blocked, and
none is known under a node id that is taken for somebody who is not let in. -/
theorem one_audience_iff (n : AudienceNode) : n.OneAudience ↔ n.Vetted := by
  constructor
  · intro h pubkey haudience
    obtain ⟨hblocked, hchecks⟩ := h pubkey (mem_pushRecipients_iff.mpr haudience)
    refine ⟨hblocked, fun remote hremote other hother _ => ?_⟩
    exact (checks_of_master hother).mp (hchecks remote hremote)
  · intro h pubkey hpushed
    have haudience := mem_pushRecipients_iff.mp hpushed
    obtain ⟨hblocked, hothers⟩ := h pubkey haudience
    refine ⟨hblocked, fun remote hremote => ?_⟩
    obtain ⟨other, hother⟩ := exists_master_of_filed hremote
    refine (checks_of_master hother).mpr ?_
    by_cases hself : other = pubkey
    · rw [hself]
      exact ⟨hblocked, entitled_of_audience haudience⟩
    · exact hothers remote hremote other hother hself

section Examples

/-- Alice is listed, and has blocked Mallory who follows her. -/
def blockedFollower : AudienceNode where
  nodeId := "alice"
  profiles := [⟨"alice", "", "", none, none, "listed", ""⟩]
  peerDelegations := []
  social := SocialGraph.empty.upsertFollower "alice" "mallory" 1
  moderation := Moderation.empty.blockUser "mallory" 2

theorem not_one_audience_blocked : ¬ blockedFollower.OneAudience := by
  intro h
  have haudience : blockedFollower.Audience "mallory" :=
    ⟨⟨"mallory", "alice", none, "active", 0, some 1, some 1, true⟩, rfl, rfl⟩
  have hblocked := (h "mallory" (mem_pushRecipients_iff.mpr haudience)).1
  exact absurd hblocked (by decide)

end Examples
end AudienceNode
end Proscenium.Client
