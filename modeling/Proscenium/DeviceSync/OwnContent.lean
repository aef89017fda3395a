import Proscenium.Client.SyncCatchUp
import Proscenium.DeviceSync.DeltaDefs

/-! What a session makes of the user's own posts and interactions. A device sends
only what is newer than the newest item the other has, so an older item that the
other lacks stays where it is. -/

namespace Proscenium.DeviceSync

open Proscenium.Types Client

section Import

variable {me : String} {now : UInt64} {st : OwnStore} {frames : List DeviceSyncFrame}

theorem foldl_insertPost_eq (ps : List Post) (c : ContentStore) :
    ps.foldl (fun c p => if p.author = me then c.insertPost p else c) c =
      ⟨Table.insertAll ContentStore.postClash (ps.filter (·.author = me)) c.posts, c.interactions⟩ := by
  induction ps generalizing c with
  | nil => rfl
  | cons p ps ih =>
    rw [List.foldl_cons, ih]
    by_cases hme : p.author = me
    · rw [List.filter_cons_of_pos (by simpa using hme), if_pos hme]
      rfl
    · rw [List.filter_cons_of_neg (by simpa using hme), if_neg hme]

theorem foldl_saveInteraction_eq (is : List Interaction) (c : ContentStore) :
    is.foldl (fun c i => if i.author = me then c.saveInteraction i else c) c =
      ⟨c.posts, Table.insertAll ContentStore.interactionClash (is.filter (·.author = me))
        c.interactions⟩ := by
  induction is generalizing c with
  | nil => rfl
  | cons i is ih =>
    rw [List.foldl_cons, ih]
    by_cases hme : i.author = me
    · rw [List.filter_cons_of_pos (by simpa using hme), if_pos hme]
      rfl
    · rw [List.filter_cons_of_neg (by simpa using hme), if_neg hme]

theorem content_importDeltas : (importDeltas me now frames st).content =
    ⟨Table.insertAll ContentStore.postClash
        ((frames.flatMap DeviceSyncFrame.posts?).filter (·.author = me)) st.content.posts,
      Table.insertAll ContentStore.interactionClash
        ((frames.flatMap DeviceSyncFrame.interactions?).filter (·.author = me))
        st.content.interactions⟩ := by
  induction frames generalizing st with
  | nil => rfl
  | cons frame frames ih =>
    show (importDeltas me now frames (importFrame me now st frame)).content = _
    rw [ih, List.flatMap_cons, List.flatMap_cons, List.filter_append, List.filter_append,
      Table.insertAll_append, Table.insertAll_append]
    cases frame with
    | posts ps =>
      show ContentStore.mk (Table.insertAll _ _ (ps.foldl _ st.content).posts)
        (Table.insertAll _ _ (ps.foldl _ st.content).interactions) = _
      rw [foldl_insertPost_eq]
      rfl
    | interactions is =>
      show ContentStore.mk (Table.insertAll _ _ (is.foldl _ st.content).posts)
        (Table.insertAll _ _ (is.foldl _ st.content).interactions) = _
      rw [foldl_saveInteraction_eq]
      rfl
    | _ => rfl

end Import

section Send

variable {me : String} {c : ContentStore} {ours peer : DeviceSyncVector}

theorem posts_sendDeltas :
    (sendDeltas me c ours peer).flatMap DeviceSyncFrame.posts? = postDeltas me c peer := by
  have hposts := Timeline.flatten_batches SyncPeer.batchSize_pos (postDeltas me c peer) 0
  unfold sendDeltas
  simp only [List.flatMap_append, List.flatMap_map]
  rw [flatMap_frameOf (fun _ => rfl), flatMap_frameOf (fun _ => rfl), flatMap_frameOf (fun _ => rfl)]
  simpa [DeviceSyncFrame.posts?, List.flatMap_id', flatMap_nothing] using hposts

theorem interactions_sendDeltas :
    (sendDeltas me c ours peer).flatMap DeviceSyncFrame.interactions? = interactionDeltas me c peer := by
  have hinteractions := Timeline.flatten_batches SyncPeer.batchSize_pos (interactionDeltas me c peer) 0
  unfold sendDeltas
  simp only [List.flatMap_append, List.flatMap_map]
  rw [flatMap_frameOf (fun _ => rfl), flatMap_frameOf (fun _ => rfl), flatMap_frameOf (fun _ => rfl)]
  simpa [DeviceSyncFrame.interactions?, List.flatMap_id', flatMap_nothing] using hinteractions

/-- A post is sent if it is newer than what the peer asks for. -/
def PostWanted (peer : DeviceSyncVector) (p : Post) : Prop :=
  afterTs peer.newestPostTs peer.postCount < u64Max ∧
    (afterTs peer.newestPostTs peer.postCount).toInt64 < p.storedTimestamp

/-- Likewise, but a peer without interactions gets those without a time as well. -/
def InteractionWanted (peer : DeviceSyncVector) (i : Interaction) : Prop :=
  afterTs peer.newestInteractionTs peer.interactionCount < u64Max ∧
    (afterTs peer.newestInteractionTs peer.interactionCount = 0 ∨
      (afterTs peer.newestInteractionTs peer.interactionCount).toInt64 < i.storedTimestamp)

theorem mem_postDeltas {p : Post} :
    p ∈ postDeltas me c peer ↔ p ∈ c.postsBy me ∧ PostWanted peer p := by
  unfold postDeltas PostWanted ContentStore.getPostsAfter
  by_cases hmax : afterTs peer.newestPostTs peer.postCount < u64Max
  · simp [hmax]
  · simp [hmax]

theorem mem_interactionDeltas {i : Interaction} :
    i ∈ interactionDeltas me c peer ↔ i ∈ c.interactionsBy me ∧ InteractionWanted peer i := by
  unfold interactionDeltas InteractionWanted ContentStore.getInteractionsAfter
    ContentStore.getInteractionsPaged
  by_cases hmax : afterTs peer.newestInteractionTs peer.interactionCount < u64Max
  · by_cases hzero : afterTs peer.newestInteractionTs peer.interactionCount = 0
    · rw [hzero] at hmax
      simp [hmax, hzero]
    · have hpos : afterTs peer.newestInteractionTs peer.interactionCount > 0 :=
        UInt64.pos_iff_ne_zero.mpr hzero
      simp [hmax, hzero, hpos]
  · simp [hmax]

end Send

section Session

variable {me : String} {now : UInt64} {st : OwnStore} {sender : ContentStore} {ours peer : DeviceSyncVector}

theorem mem_postsBy_import (hsender : sender.Keyed) {p : Post} :
    p ∈ (importDeltas me now (sendDeltas me sender ours peer) st).content.postsBy me ↔
      p ∈ st.content.postsBy me ∨ (∀ q ∈ st.content.posts, ContentStore.postClash p q = false) ∧
        p ∈ sender.postsBy me ∧ PostWanted peer p := by
  have hitems : ∀ q, q ∈ (postDeltas me sender peer).filter (·.author = me) ↔
      q ∈ sender.postsBy me ∧ PostWanted peer q := by
    intro q
    rw [List.mem_filter, mem_postDeltas, decide_eq_true_eq]
    exact and_iff_left_of_imp fun hq => (ContentStore.mem_postsBy.mp hq.1).2
  rw [ContentStore.mem_postsBy, content_importDeltas, posts_sendDeltas, Table.mem_insertAll_of_free,
    hitems, ContentStore.mem_postsBy (c := st.content)]
  · constructor
    · rintro ⟨hp | hp, hme⟩
      · exact Or.inl ⟨hp, hme⟩
      · exact Or.inr hp
    · rintro (hp | hp)
      · exact ⟨Or.inl hp.1, hp.2⟩
      · exact ⟨Or.inr hp, (ContentStore.mem_postsBy.mp hp.2.1).2⟩
  · intro new hnew q hq hclash
    exact hsender.eq_of_id ((hitems new).mp hnew).1 ((hitems q).mp hq).1 (of_decide_eq_true hclash).2

theorem mem_interactionsBy_import (hsender : sender.Keyed) {i : Interaction} :
    i ∈ (importDeltas me now (sendDeltas me sender ours peer) st).content.interactionsBy me ↔
      i ∈ st.content.interactionsBy me ∨
        (∀ j ∈ st.content.interactions, ContentStore.interactionClash i j = false) ∧
        i ∈ sender.interactionsBy me ∧ InteractionWanted peer i := by
  have hitems : ∀ j, j ∈ (interactionDeltas me sender peer).filter (·.author = me) ↔
      j ∈ sender.interactionsBy me ∧ InteractionWanted peer j := by
    intro j
    rw [List.mem_filter, mem_interactionDeltas, decide_eq_true_eq]
    exact and_iff_left_of_imp fun hj => (ContentStore.mem_interactionsBy.mp hj.1).2
  rw [ContentStore.mem_interactionsBy, content_importDeltas, interactions_sendDeltas,
    Table.mem_insertAll_of_free, hitems, ContentStore.mem_interactionsBy (c := st.content)]
  · constructor
    · rintro ⟨hi | hi, hme⟩
      · exact Or.inl ⟨hi, hme⟩
      · exact Or.inr hi
    · rintro (hi | hi)
      · exact ⟨Or.inl hi.1, hi.2⟩
      · exact ⟨Or.inr hi, (ContentStore.mem_interactionsBy.mp hi.2.1).2⟩
  · intro new hnew j hj hclash
    exact hsender.eq_of_clash ((hitems new).mp hnew).1 ((hitems j).mp hj).1 (of_decide_eq_true hclash).2

theorem Keyed.importDeltas (h : st.content.Keyed) (frames : List DeviceSyncFrame) :
    (importDeltas me now frames st).content.Keyed := by
  have hposts : ∀ (ps : List Post) (c : ContentStore), c.Keyed →
      (ps.foldl (fun c p => if p.author = me then c.insertPost p else c) c).Keyed := by
    intro ps
    induction ps with
    | nil => exact fun c hc => hc
    | cons p ps ih =>
      intro c hc
      rw [List.foldl_cons]
      split
      · exact ih _ (hc.insertPost p)
      · exact ih _ hc
  have hinteractions : ∀ (is : List Interaction) (c : ContentStore), c.Keyed →
      (is.foldl (fun c i => if i.author = me then c.saveInteraction i else c) c).Keyed := by
    intro is
    induction is with
    | nil => exact fun c hc => hc
    | cons i is ih =>
      intro c hc
      rw [List.foldl_cons]
      split
      · exact ih _ (hc.saveInteraction i)
      · exact ih _ hc
  induction frames generalizing st with
  | nil => exact h
  | cons frame frames ih =>
    show (DeviceSync.importDeltas me now frames (importFrame me now st frame)).content.Keyed
    apply ih
    cases frame with
    | posts ps => exact hposts ps st.content h
    | interactions is => exact hinteractions is st.content h
    | _ => exact h

end Session

/-- Of the author, `c` has what `a` or `b` has. -/
structure HoldsUnion (me : String) (a b c : ContentStore) : Prop where
  posts : ∀ p, p ∈ c.postsBy me ↔ p ∈ a.postsBy me ∨ p ∈ b.postsBy me
  interactions : ∀ i, i ∈ c.interactionsBy me ↔ i ∈ a.interactionsBy me ∨ i ∈ b.interactionsBy me

/-- What `dst` lacks of `src` is newer than all that `dst` has, and nothing there is in its way. -/
structure Reaches (me : String) (src dst : OwnStore) : Prop where
  posts : ∀ p ∈ src.content.postsBy me, p ∉ dst.content.postsBy me →
    PostWanted (dst.buildDeviceSyncVector me) p ∧
      ∀ q ∈ dst.content.posts, ContentStore.postClash p q = false
  interactions : ∀ i ∈ src.content.interactionsBy me, i ∉ dst.content.interactionsBy me →
    InteractionWanted (dst.buildDeviceSyncVector me) i ∧
      ∀ j ∈ dst.content.interactions, ContentStore.interactionClash i j = false

/-- Two sets of which one takes in part of the other, and the other then part of the first. -/
theorem exchange_iff {α : Type} {A B A' B' freeA freeB wantedA wantedB : α → Prop}
    (hA : ∀ x, A' x ↔ A x ∨ freeA x ∧ B x ∧ wantedA x)
    (hB : ∀ x, B' x ↔ B x ∨ freeB x ∧ A' x ∧ wantedB x) :
    ((∀ x, A' x ↔ A x ∨ B x) ∧ ∀ x, B' x ↔ A x ∨ B x) ↔
      (∀ x, B x → ¬ A x → wantedA x ∧ freeA x) ∧ ∀ x, A x → ¬ B x → wantedB x ∧ freeB x := by
  constructor
  · rintro ⟨hA', hB'⟩
    constructor
    · intro x hx hnot
      have hnew := ((hA x).mp ((hA' x).mpr (Or.inr hx))).resolve_left hnot
      exact ⟨hnew.2.2, hnew.1⟩
    · intro x hx hnot
      have hnew := ((hB x).mp ((hB' x).mpr (Or.inl hx))).resolve_left hnot
      exact ⟨hnew.2.2, hnew.1⟩
  · rintro ⟨hwantedA, hwantedB⟩
    have hA' : ∀ x, A' x ↔ A x ∨ B x := by
      intro x
      rw [hA]
      refine ⟨Or.imp_right fun h => h.2.1, fun h => ?_⟩
      by_cases hold : A x
      · exact Or.inl hold
      · have hx := h.resolve_left hold
        exact Or.inr ⟨(hwantedA x hx hold).2, hx, (hwantedA x hx hold).1⟩
    refine ⟨hA', fun x => ?_⟩
    rw [hB, hA']
    constructor
    · rintro (hx | ⟨-, hx, -⟩)
      · exact Or.inr hx
      · exact hx
    · intro h
      by_cases hold : B x
      · exact Or.inl hold
      · have hx := h.resolve_right hold
        exact Or.inr ⟨(hwantedB x hx hold).2, h, (hwantedB x hx hold).1⟩

variable {me : String} {initiator responder : OwnStore}

/-- After a session both devices hold all posts and interactions of the user exactly if each of them
lacks only items that are newer than its own, under keys that are free. -/
theorem own_content_union_iff (hinitiator : initiator.content.Keyed) (hresponder : responder.content.Keyed)
    (now : UInt64) :
    (HoldsUnion me initiator.content responder.content
        (deviceSync me now initiator responder).1.content ∧
      HoldsUnion me initiator.content responder.content
        (deviceSync me now initiator responder).2.content) ↔
    Reaches me responder initiator ∧ Reaches me initiator responder := by
  have hfirst : (deviceSync me now initiator responder).1.content.Keyed :=
    Keyed.importDeltas hinitiator _
  have hposts₁ : ∀ p, p ∈ (deviceSync me now initiator responder).1.content.postsBy me ↔
      p ∈ initiator.content.postsBy me ∨
        (∀ q ∈ initiator.content.posts, ContentStore.postClash p q = false) ∧
        p ∈ responder.content.postsBy me ∧ PostWanted (initiator.buildDeviceSyncVector me) p :=
    fun p => mem_postsBy_import hresponder
  have hposts₂ : ∀ p, p ∈ (deviceSync me now initiator responder).2.content.postsBy me ↔
      p ∈ responder.content.postsBy me ∨
        (∀ q ∈ responder.content.posts, ContentStore.postClash p q = false) ∧
        p ∈ (deviceSync me now initiator responder).1.content.postsBy me ∧
        PostWanted (responder.buildDeviceSyncVector me) p := fun p => mem_postsBy_import hfirst
  have hinteractions₁ : ∀ i, i ∈ (deviceSync me now initiator responder).1.content.interactionsBy me ↔
      i ∈ initiator.content.interactionsBy me ∨
        (∀ j ∈ initiator.content.interactions, ContentStore.interactionClash i j = false) ∧
        i ∈ responder.content.interactionsBy me ∧
        InteractionWanted (initiator.buildDeviceSyncVector me) i :=
    fun i => mem_interactionsBy_import hresponder
  have hinteractions₂ : ∀ i, i ∈ (deviceSync me now initiator responder).2.content.interactionsBy me ↔
      i ∈ responder.content.interactionsBy me ∨
        (∀ j ∈ responder.content.interactions, ContentStore.interactionClash i j = false) ∧
        i ∈ (deviceSync me now initiator responder).1.content.interactionsBy me ∧
        InteractionWanted (responder.buildDeviceSyncVector me) i :=
    fun i => mem_interactionsBy_import hfirst
  have hposts := exchange_iff hposts₁ hposts₂
  have hinteractions := exchange_iff hinteractions₁ hinteractions₂
  constructor
  · rintro ⟨h₁, h₂⟩
    obtain ⟨hp₁, hp₂⟩ := hposts.mp ⟨h₁.posts, h₂.posts⟩
    obtain ⟨hi₁, hi₂⟩ := hinteractions.mp ⟨h₁.interactions, h₂.interactions⟩
    exact ⟨⟨hp₁, hi₁⟩, ⟨hp₂, hi₂⟩⟩
  · rintro ⟨h₁, h₂⟩
    obtain ⟨hp₁, hp₂⟩ := hposts.mpr ⟨h₁.posts, h₂.posts⟩
    obtain ⟨hi₁, hi₂⟩ := hinteractions.mpr ⟨h₁.interactions, h₂.interactions⟩
    exact ⟨⟨hp₁, hi₁⟩, ⟨hp₂, hi₂⟩⟩

section Examples

def ownStore (c : ContentStore) : OwnStore := ⟨c, .empty, .empty, []⟩

/-- The device that was online has one post, the other one an earlier post and a like. -/
def onlineDevice : OwnStore := ownStore ⟨[note "b" 5], []⟩

def offlineDevice : OwnStore := ownStore ⟨[note "a" 3], [likeOf "l" "x" 4]⟩

/-- Only one of the devices was used since they had the same. -/
def usedDevice : OwnStore := ownStore ⟨[note "b" 5, note "c" 6], [likeOf "l" "x" 7]⟩

theorem own_content_union_used :
    HoldsUnion "alice" onlineDevice.content usedDevice.content
        (deviceSync "alice" 9 onlineDevice usedDevice).1.content ∧
      HoldsUnion "alice" onlineDevice.content usedDevice.content
        (deviceSync "alice" 9 onlineDevice usedDevice).2.content := by
  have hkeyed : onlineDevice.content.Keyed ∧ usedDevice.content.Keyed :=
    ⟨⟨by simp [onlineDevice, ownStore], by simp [onlineDevice, ownStore]⟩,
      ⟨by simp [usedDevice, ownStore, note], by simp [usedDevice, ownStore]⟩⟩
  refine (own_content_union_iff hkeyed.1 hkeyed.2 9).mpr ⟨⟨?_, ?_⟩, ⟨?_, ?_⟩⟩
  · unfold PostWanted
    decide +kernel
  · unfold InteractionWanted
    decide +kernel
  · unfold PostWanted
    decide +kernel
  · unfold InteractionWanted
    decide +kernel

/-- The earlier post stays on the device it was written on. -/
theorem not_own_content_union_offline :
    ¬ ∀ (me : String) (initiator responder : OwnStore) (now : UInt64),
      initiator.content.Keyed → responder.content.Keyed →
      HoldsUnion me initiator.content responder.content
          (deviceSync me now initiator responder).1.content ∧
        HoldsUnion me initiator.content responder.content
          (deviceSync me now initiator responder).2.content := by
  intro h
  have hkeyed : onlineDevice.content.Keyed ∧ offlineDevice.content.Keyed :=
    ⟨⟨by simp [onlineDevice, ownStore], by simp [onlineDevice, ownStore]⟩,
      ⟨by simp [offlineDevice, ownStore], by simp [offlineDevice, ownStore]⟩⟩
  have hunion := (h "alice" onlineDevice offlineDevice 9 hkeyed.1 hkeyed.2).1
  have hheld : note "a" 3 ∈ offlineDevice.content.postsBy "alice" := List.mem_singleton.mpr rfl
  have hgot := (hunion.posts (note "a" 3)).mpr (Or.inr hheld)
  have hnew := (mem_postsBy_import hkeyed.2).mp hgot
  rcases hnew with hold | ⟨-, -, -, hlater⟩
  · exact absurd (congrArg Post.id (List.mem_singleton.mp hold)) (by decide : "a" ≠ "b")
  · exact absurd hlater (by decide +kernel)

end Examples

end Proscenium.DeviceSync
