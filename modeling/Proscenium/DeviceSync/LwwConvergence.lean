import Proscenium.DeviceSync.DeltaDefs

/-! What a session makes of follows, mutes, blocks and bookmarks. Each side sends
what is strictly newer and stores what is strictly newer, so two different
entries with equal times stay as they are on both sides; and a row of the social
graph without a time of the follow does not travel. -/

namespace Proscenium.DeviceSync

open Proscenium.Types Client Lww

/-- What the claims about a follow read: its time, its state and when that changed. -/
def followView (me : String) : Wire.View (followWire me) (Option Int64 × String × Int64) where
  view r := (r.followedAt, r.state, r.lastChangedAt)
  viewOf e := (some e.followedAt.toInt64, e.state, e.lastChangedAt.toInt64)
  view_row _ := rfl
  view_update _ _ := rfl
  view_entry r e h := by
    obtain ⟨-, h⟩ := Option.ite_none_right_eq_some.mp h
    obtain ⟨t, ht, rfl⟩ := Option.map_eq_some_iff.mp h
    simp [ht]
  stamp_eq r q h := by
    have hlast : r.lastChangedAt = q.lastChangedAt := congrArg (fun v => v.2.2) h
    exact congrArg (fun t => t.toUInt64.toNat) hlast

def moderationView : Wire.View moderationWire (Int64 × String × Int64) where
  view r := (r.createdAt, r.state, r.lastChangedAt)
  viewOf e := (e.createdAt.toInt64, e.state, e.lastChangedAt.toInt64)
  view_row _ := rfl
  view_update _ _ := rfl
  view_entry r e h := by
    obtain rfl := Option.some.inj h
    simp
  stamp_eq r q h := by
    have hlast : r.lastChangedAt = q.lastChangedAt := congrArg (fun v => v.2.2) h
    exact congrArg (fun t => t.toUInt64.toNat) hlast

section Session

variable {me : String} {now : UInt64} {st : OwnStore} {frames : List DeviceSyncFrame}

theorem graph_importDeltas : (importDeltas me now frames st).graph.rows =
    (followWire me).merge (frames.flatMap DeviceSyncFrame.follows?) st.graph.rows := by
  induction frames generalizing st with
  | nil => rfl
  | cons frame frames ih =>
    show (importDeltas me now frames (importFrame me now st frame)).graph.rows = _
    rw [ih, List.flatMap_cons]
    unfold Wire.merge
    rw [List.foldl_append]
    cases frame <;> rfl

theorem moderation_importDeltas : (importDeltas me now frames st).moderation.rows =
    moderationWire.merge (frames.flatMap DeviceSyncFrame.moderation?) st.moderation.rows := by
  induction frames generalizing st with
  | nil => rfl
  | cons frame frames ih =>
    show (importDeltas me now frames (importFrame me now st frame)).moderation.rows = _
    rw [ih, List.flatMap_cons]
    unfold Wire.merge
    rw [List.foldl_append]
    cases frame <;> rfl

theorem bookmarks_importDeltas : (importDeltas me now frames st).bookmarks =
    mergeBookmarks now (frames.flatMap DeviceSyncFrame.bookmarks?) st.bookmarks := by
  induction frames generalizing st with
  | nil => rfl
  | cons frame frames ih =>
    show (importDeltas me now frames (importFrame me now st frame)).bookmarks = _
    rw [ih, List.flatMap_cons]
    unfold mergeBookmarks
    rw [List.foldl_append]
    cases frame <;> rfl

variable {c : ContentStore} {ours peer : DeviceSyncVector}

theorem follows_sendDeltas : (sendDeltas me c ours peer).flatMap DeviceSyncFrame.follows? =
    (followWire me).deltas ours.follows peer.follows := by
  unfold sendDeltas
  simp only [List.flatMap_append, List.flatMap_map]
  rw [flatMap_frameOf_self (fun _ => rfl), flatMap_frameOf (fun _ => rfl), flatMap_frameOf (fun _ => rfl)]
  simp only [DeviceSyncFrame.follows?, flatMap_nothing, List.nil_append, List.append_nil]

theorem moderation_sendDeltas : (sendDeltas me c ours peer).flatMap DeviceSyncFrame.moderation? =
    moderationWire.deltas ours.moderation peer.moderation := by
  unfold sendDeltas
  simp only [List.flatMap_append, List.flatMap_map]
  rw [flatMap_frameOf (fun _ => rfl), flatMap_frameOf_self (fun _ => rfl), flatMap_frameOf (fun _ => rfl)]
  simp only [DeviceSyncFrame.moderation?, flatMap_nothing, List.nil_append, List.append_nil]

theorem bookmarks_sendDeltas : (sendDeltas me c ours peer).flatMap DeviceSyncFrame.bookmarks? =
    ours.bookmarks.filter (· ∉ peer.bookmarks) := by
  unfold sendDeltas
  simp only [List.flatMap_append, List.flatMap_map]
  rw [flatMap_frameOf (fun _ => rfl), flatMap_frameOf (fun _ => rfl), flatMap_frameOf_self (fun _ => rfl)]
  simp only [DeviceSyncFrame.bookmarks?, flatMap_nothing, List.nil_append, List.append_nil]

theorem mem_mergeBookmarks {ids : List String} {t : List Bookmark} {id : String} :
    id ∈ (mergeBookmarks now ids t).map Bookmark.postId ↔ id ∈ t.map Bookmark.postId ∨ id ∈ ids := by
  induction ids generalizing t with
  | nil => simp [mergeBookmarks]
  | cons new ids ih =>
    show id ∈ (mergeBookmarks now ids (if t.any (·.postId = new) then t else _)).map Bookmark.postId ↔ _
    rw [ih, List.mem_cons]
    split
    next hany =>
      obtain ⟨b, hb, hnew⟩ := List.any_eq_true.mp hany
      have hheld : new ∈ t.map Bookmark.postId := List.mem_map.mpr ⟨b, hb, of_decide_eq_true hnew⟩
      constructor
      · exact Or.imp_right Or.inr
      · rintro (hid | rfl | hid)
        · exact Or.inl hid
        · exact Or.inl hheld
        · exact Or.inr hid
    next =>
      rw [List.map_append, List.mem_append, List.map_singleton, List.mem_singleton, or_assoc]

end Session

/-- Every followee, every mute or block and every bookmark is the same on both devices, and the
latest of what they had. -/
structure Converges (me : String) (a b a' b' : OwnStore) : Prop where
  follows : ∀ followee, Wire.Agree (followView me) (a.graph.row me followee) (b.graph.row me followee)
    (a'.graph.row me followee) (b'.graph.row me followee)
  moderation : ∀ pubkey kind, Wire.Agree moderationView (a.moderation.row pubkey kind)
    (b.moderation.row pubkey kind) (a'.moderation.row pubkey kind) (b'.moderation.row pubkey kind)
  bookmarks : ∀ id,
    (id ∈ a'.bookmarks.map Bookmark.postId ↔
      id ∈ a.bookmarks.map Bookmark.postId ∨ id ∈ b.bookmarks.map Bookmark.postId) ∧
    (id ∈ b'.bookmarks.map Bookmark.postId ↔
      id ∈ a.bookmarks.map Bookmark.postId ∨ id ∈ b.bookmarks.map Bookmark.postId)

/-- No two different entries with equal times, and no own follow without its time that the other
device lacks or has an older entry for. -/
structure Settled (me : String) (a b : OwnStore) : Prop where
  follows : ∀ followee,
    Wire.Settles (followView me) (a.graph.row me followee) (b.graph.row me followee)
  moderation : ∀ pubkey kind,
    Wire.Settles moderationView (a.moderation.row pubkey kind) (b.moderation.row pubkey kind)

section Deliver

variable {me : String} {now : UInt64} {a b : OwnStore} {c : ContentStore}

theorem row_importDeltas (followee : String) :
    (importDeltas me now (sendDeltas me c (b.buildDeviceSyncVector me) (a.buildDeviceSyncVector me))
      a).graph.row me followee =
      (followWire me).receive (a.graph.row me followee) (b.graph.row me followee) := by
  unfold SocialGraph.row
  rw [graph_importDeltas, follows_sendDeltas]
  exact Wire.find_merge_deltas a.graph.nodup_keys b.graph.nodup_keys

theorem moderation_row_importDeltas (pubkey kind : String) :
    (importDeltas me now (sendDeltas me c (b.buildDeviceSyncVector me) (a.buildDeviceSyncVector me))
      a).moderation.row pubkey kind =
      moderationWire.receive (a.moderation.row pubkey kind) (b.moderation.row pubkey kind) := by
  unfold Moderation.row
  rw [moderation_importDeltas, moderation_sendDeltas]
  exact Wire.find_merge_deltas a.moderation.nodup_keys b.moderation.nodup_keys

theorem mem_bookmarks_importDeltas {id : String} :
    id ∈ (importDeltas me now (sendDeltas me c (b.buildDeviceSyncVector me)
      (a.buildDeviceSyncVector me)) a).bookmarks.map Bookmark.postId ↔
      id ∈ a.bookmarks.map Bookmark.postId ∨ id ∈ b.bookmarks.map Bookmark.postId := by
  have hdelta : id ∈ (b.buildDeviceSyncVector me).bookmarks.filter
      (· ∉ (a.buildDeviceSyncVector me).bookmarks) ↔
        id ∈ b.bookmarks.map Bookmark.postId ∧ id ∉ a.bookmarks.map Bookmark.postId := by
    rw [List.mem_filter, decide_eq_true_eq]
    exact Iff.rfl
  rw [bookmarks_importDeltas, bookmarks_sendDeltas, mem_mergeBookmarks, hdelta]
  by_cases hid : id ∈ a.bookmarks.map Bookmark.postId
  · exact iff_of_true (Or.inl hid) (Or.inl hid)
  · rw [or_iff_right hid, or_iff_right hid, and_iff_left hid]

end Deliver

/-- A session brings both devices to the latest follows, mutes and blocks exactly if no two
different entries have equal times and every own follow that differs has its time; the bookmarks
always become the union. -/
theorem lww_converges_iff (me : String) (now : UInt64) (initiator responder : OwnStore) :
    Converges me initiator responder (deviceSync me now initiator responder).1
      (deviceSync me now initiator responder).2 ↔ Settled me initiator responder := by
  have hfollows₁ : ∀ followee, (deviceSync me now initiator responder).1.graph.row me followee =
      (followWire me).receive (initiator.graph.row me followee) (responder.graph.row me followee) :=
    fun followee => row_importDeltas followee
  have hfollows₂ : ∀ followee, (deviceSync me now initiator responder).2.graph.row me followee =
      (followWire me).receive (responder.graph.row me followee) (initiator.graph.row me followee) :=
    fun followee => row_importDeltas followee
  have hmoderation₁ : ∀ pubkey kind,
      (deviceSync me now initiator responder).1.moderation.row pubkey kind =
        moderationWire.receive (initiator.moderation.row pubkey kind)
          (responder.moderation.row pubkey kind) :=
    fun pubkey kind => moderation_row_importDeltas pubkey kind
  have hmoderation₂ : ∀ pubkey kind,
      (deviceSync me now initiator responder).2.moderation.row pubkey kind =
        moderationWire.receive (responder.moderation.row pubkey kind)
          (initiator.moderation.row pubkey kind) :=
    fun pubkey kind => moderation_row_importDeltas pubkey kind
  constructor
  · rintro ⟨hfollows, hmoderation, -⟩
    constructor
    · intro followee
      have hagree := hfollows followee
      rw [hfollows₁, hfollows₂] at hagree
      exact Wire.agree_receive_iff.mp hagree
    · intro pubkey kind
      have hagree := hmoderation pubkey kind
      rw [hmoderation₁, hmoderation₂] at hagree
      exact Wire.agree_receive_iff.mp hagree
  · rintro ⟨hfollows, hmoderation⟩
    refine ⟨fun followee => ?_, fun pubkey kind => ?_, fun id => ⟨?_, ?_⟩⟩
    · rw [hfollows₁, hfollows₂]
      exact Wire.agree_receive_iff.mpr (hfollows followee)
    · rw [hmoderation₁, hmoderation₂]
      exact Wire.agree_receive_iff.mpr (hmoderation pubkey kind)
    · exact mem_bookmarks_importDeltas
    · exact mem_bookmarks_importDeltas.trans or_comm

section Examples

/-- A device that follows bob since time 5, in this state. -/
def following (state : String) : OwnStore where
  content := ⟨[], []⟩
  graph := ⟨[⟨"alice", "bob", some 5, state, 7, none, none, false⟩], List.nodup_singleton _⟩
  moderation := .empty
  bookmarks := []

/-- One device lifted the follow in the millisecond in which the other renewed it. -/
theorem not_lww_converges_tie :
    ¬ ∀ (me : String) (now : UInt64) (initiator responder : OwnStore),
      Converges me initiator responder (deviceSync me now initiator responder).1
        (deviceSync me now initiator responder).2 := by
  intro h
  have hagree := (h "alice" 9 (following "active") (following "removed")).follows "bob"
  obtain ⟨c, -, hactive, hremoved⟩ := hagree
  have hsame := hactive.trans hremoved.symm
  exact absurd hsame (by decide +kernel)

end Examples

end Proscenium.DeviceSync
