import Proscenium.Client.SyncCatchUp

/-! Who is sent what by a sync. The visibility that is checked is that of the
node's owner, and the author whose posts are sent is one that the request
names: of the other authors the node knows, everyone the owner admits may ask. -/

namespace Proscenium.Client

open Proscenium.Types

/-- Is this one of those an author's posts are for, as far as is known here? -/
def Storage.entitled (author viewer : String) (st : Storage) : Bool :=
  match st.getVisibility author with
  | .isPublic => true
  | .listed => st.isFollower author viewer
  | .isPrivate => st.isMutual author viewer

namespace SyncPeer

/-- The master key the node takes the other end of the connection for. -/
def viewer (remote : String) (peer : SyncPeer) : String :=
  (peer.storage.getMasterPubkeyForTransport remote).getD remote

/-- A frame of the stream that a request is answered with. -/
def Sends (J : SerdeJson) (remote : String) (peer : SyncPeer) (frame : SyncFrame) : Prop :=
  ∃ req summary stream body, peer.handleSync J remote req = some (summary, stream) ∧ frame ∈ stream body

/-- Whatever is asked for, the items that are sent are by authors who let the other end see them. -/
structure Confidential (J : SerdeJson) (remote : String) (peer : SyncPeer) : Prop where
  posts : ∀ frame, peer.Sends J remote frame → ∀ p ∈ frame.posts?,
    peer.storage.entitled p.author (peer.viewer remote) = true
  interactions : ∀ frame, peer.Sends J remote frame → ∀ i ∈ frame.interactions?,
    peer.storage.entitled i.author (peer.viewer remote) = true

def Stores (author : String) (c : ContentStore) : Prop :=
  (∃ p ∈ c.posts, p.author = author) ∨ ∃ i ∈ c.interactions, i.author = author

variable {J : SerdeJson} {remote author : String} {peer : SyncPeer}

theorem admits_eq : peer.admits remote = peer.storage.entitled peer.nodeId (peer.viewer remote) := rfl

def askForAll (author : String) (c : ContentStore) : SyncRequest :=
  ⟨author, c.countPostsByAuthor author + 1, c.countInteractionsByAuthor author + 1, 0, 0⟩

theorem mode_askForAll : peer.mode (askForAll author peer.content) = .needIdDiff := by
  unfold mode askForAll catchesUp
  simp

theorem selectPosts_askForAll : peer.selectPosts (askForAll author peer.content) [] =
    Timeline.ordered Post.storedTimestamp (peer.content.postsBy author) := by
  unfold selectPosts
  rw [mode_askForAll]
  rfl

theorem selectInteractions_askForAll : peer.selectInteractions (askForAll author peer.content) =
    Timeline.ordered Interaction.storedTimestamp (peer.content.interactionsBy author) := by
  unfold selectInteractions interactionsMatch askForAll catchesUp ContentStore.getInteractionsPaged
  simp

/-- Whoever is admitted is sent all there is of an author, having said that nothing of it is known. -/
theorem sends_all (hids : J.idsLen [] ≤ maxKnownIdsSize) (hadmits : peer.admits remote = true) :
    (∀ p ∈ peer.content.postsBy author, ∃ frame, peer.Sends J remote frame ∧ p ∈ frame.posts?) ∧
      ∀ i ∈ peer.content.interactionsBy author, ∃ frame, peer.Sends J remote frame ∧
        i ∈ frame.interactions? := by
  have hstream : peer.stream J (askForAll author peer.content) (some []) =
      (Timeline.batches batchSize (peer.selectPosts (askForAll author peer.content) []) 0).map
          SyncFrame.posts ++
        (Timeline.batches batchSize (peer.selectInteractions (askForAll author peer.content)) 0).map
          SyncFrame.interactions := by
    unfold stream readKnownIds
    rw [mode_askForAll]
    simp [Option.filter_some, hids]
  have hsent : ∀ frame ∈ peer.stream J (askForAll author peer.content) (some []),
      peer.Sends J remote frame := by
    intro frame hframe
    exact ⟨askForAll author peer.content, _, _, some [], if_pos hadmits, hframe⟩
  obtain ⟨hposts, hinteractions⟩ := frames_flatMap
    (peer.selectPosts (askForAll author peer.content) [])
    (peer.selectInteractions (askForAll author peer.content))
  rw [← hstream] at hposts hinteractions
  constructor
  · intro p hp
    have hmem : p ∈ (peer.stream J (askForAll author peer.content) (some [])).flatMap SyncFrame.posts? := by
      rw [hposts, selectPosts_askForAll]
      exact Timeline.mem_ordered.mpr hp
    obtain ⟨frame, hframe, hp⟩ := List.mem_flatMap.mp hmem
    exact ⟨frame, hsent frame hframe, hp⟩
  · intro i hi
    have hmem : i ∈ (peer.stream J (askForAll author peer.content) (some [])).flatMap
        SyncFrame.interactions? := by
      rw [hinteractions, selectInteractions_askForAll]
      exact Timeline.mem_ordered.mpr hi
    obtain ⟨frame, hframe, hi⟩ := List.mem_flatMap.mp hmem
    exact ⟨frame, hsent frame hframe, hi⟩

theorem Sends.spec {frame : SyncFrame} (h : peer.Sends J remote frame) :
    peer.admits remote = true ∧ (∀ p ∈ frame.posts?, p ∈ peer.content.posts) ∧
      ∀ i ∈ frame.interactions?, i ∈ peer.content.interactions := by
  obtain ⟨req, summary, stream, body, hhandle, hframe⟩ := h
  unfold handleSync at hhandle
  split at hhandle
  next hadmits =>
    obtain ⟨-, rfl⟩ := Prod.mk.inj (Option.some.inj hhandle)
    obtain ⟨hposts, hinteractions⟩ := stream_subset J req body peer
    refine ⟨hadmits, fun p hp => ?_, fun i hi => ?_⟩
    · have hmem := hposts (List.mem_flatMap.mpr ⟨frame, hframe, hp⟩)
      exact (ContentStore.mem_postsBy.mp hmem).1
    · have hmem := hinteractions (List.mem_flatMap.mpr ⟨frame, hframe, hi⟩)
      exact (ContentStore.mem_interactionsBy.mp hmem).1
  next => exact nomatch hhandle

/-- A peer is sent nothing it is not entitled to, whatever it asks for, exactly if it is refused or
entitled to see every author of whom something is stored. -/
theorem confidential_iff (hids : J.idsLen [] ≤ maxKnownIdsSize) (remote : String) (peer : SyncPeer) :
    peer.Confidential J remote ↔
      peer.admits remote = false ∨ ∀ author, Stores author peer.content →
        peer.storage.entitled author (peer.viewer remote) = true := by
  constructor
  · intro h
    by_cases hadmits : peer.admits remote = true
    · refine Or.inr ?_
      rintro author (⟨p, hp, rfl⟩ | ⟨i, hi, rfl⟩)
      · obtain ⟨frame, hsends, hp⟩ := (sends_all hids hadmits).1 p (ContentStore.mem_postsBy.mpr ⟨hp, rfl⟩)
        exact h.posts frame hsends p hp
      · obtain ⟨frame, hsends, hi⟩ :=
          (sends_all hids hadmits).2 i (ContentStore.mem_interactionsBy.mpr ⟨hi, rfl⟩)
        exact h.interactions frame hsends i hi
    · exact Or.inl (by simpa using hadmits)
  · rintro (hrefused | hentitled)
    · have hnone : ∀ frame, ¬ peer.Sends J remote frame := by
        intro frame hsends
        rw [hsends.spec.1] at hrefused
        exact nomatch hrefused
      exact ⟨fun frame hsends => absurd hsends (hnone frame), fun frame hsends => absurd hsends (hnone frame)⟩
    · constructor
      · intro frame hsends p hp
        exact hentitled p.author (Or.inl ⟨p, hsends.spec.2.1 p hp, rfl⟩)
      · intro frame hsends i hi
        exact hentitled i.author (Or.inr ⟨i, hsends.spec.2.2 i hi, rfl⟩)

section Examples

theorem idsLen_nil : compactJson.idsLen [] ≤ maxKnownIdsSize := by decide +kernel

def listedNode : SyncPeer :=
  ⟨"alice", ⟨[⟨"alice", "", "", none, none, "listed", ""⟩], [], [⟨"carol", "alice", "active", some 1⟩]⟩,
    ⟨[note "a" 1], []⟩⟩

theorem confidential_listedNode : listedNode.Confidential compactJson "carol" ∧
    listedNode.Confidential compactJson "mallory" := by
  constructor
  · refine (confidential_iff idsLen_nil "carol" listedNode).mpr (Or.inr ?_)
    rintro author (⟨p, hp, rfl⟩ | ⟨i, hi, -⟩)
    · obtain rfl := List.mem_singleton.mp hp
      decide
    · exact nomatch hi
  · exact (confidential_iff idsLen_nil "mallory" listedNode).mpr (Or.inl (by decide))

def relayNode : SyncPeer :=
  ⟨"bob", ⟨[⟨"alice", "", "", none, none, "listed", ""⟩], [], [⟨"bob", "alice", "active", none⟩]⟩,
    ⟨[note "a" 1], []⟩⟩

/-- Mallory asks Bob for Alice's posts. -/
theorem not_confidential_relay : ¬ relayNode.Confidential compactJson "mallory" := by
  intro h
  have hpost : note "a" 1 ∈ relayNode.content.postsBy "alice" := List.mem_singleton.mpr rfl
  have hadmits : relayNode.admits "mallory" = true := by decide
  obtain ⟨frame, hsends, hp⟩ := (sends_all idsLen_nil hadmits).1 _ hpost
  have hentitled := h.posts frame hsends _ hp
  exact absurd hentitled (by decide)

end Examples
end SyncPeer
end Proscenium.Client
